import StackTemplate.Proofs.Resolution.Arguments
import StackTemplate.Proofs.Resolution.Mirror

/-!
# Staged resolution of nodes

Resolving a node while operands are staged records placeholders for nodes within the node. The
placeholders of the staged operand are among them, each found once, in the place for which it was
recorded; if no mapping in the node has two keys with the same text, all of them are found.
Expanding the placeholders gives the operand that resolving the node directly gives.

* `Operand.Placed` : an operand whose placeholders are found where they were recorded for.
* `Node.leaves_resolve` : what a staged resolution records, and where it is found.
* `Node.mirrors_resolve` : staged and direct resolution side by side.
-/

namespace StackTemplate

/-! ## Answers of the staging -/

namespace Placeholder

/-- Only operands of calls are ever staged. -/
theorem callsOnly_staging : Staging.CallsOnly staging := by
  intro ctx slot node h
  simp [staging, h]

/-- The placeholder that is recorded for an operand of a call. -/
def waiting (ctx : Context) (owner : Intrinsic) (slot : Slot) (node : Node) : Placeholder :=
  ⟨⟨owner, slot⟩, ctx.area, ctx.path, node, false⟩

/-- An operand whose meaning depends on its call is recorded; any other node is resolved. -/
theorem answer_staging (ctx : Context) (slot : Slot) (node : Node) :
    (∃ owner, ctx.owner = some owner ∧ node.dependsOnOwner = true ∧
        staging.answer ctx slot node = record (waiting ctx owner slot node)) ∨
      staging.answer ctx slot node = node.resolve staging ctx := by
  cases howner : ctx.owner with
  | none =>
    right
    simp [Staging.answer, staging, howner]
  | some owner =>
    by_cases hnode : node.dependsOnOwner = true
    · left
      exact ⟨owner, rfl, hnode, by simp [Staging.answer, staging, howner, hnode, waiting]⟩
    · right
      simp [Staging.answer, staging, howner, hnode]

theorem attempt_record (p : Placeholder) (table : Placeholders) :
    (record p).attempt table = some (.pending table.length, table ++ [p]) := rfl

/-- A placeholder keeps the context in which it was recorded. -/
theorem context_waiting {ctx : Context} {owner : Intrinsic} (slot : Slot) (node : Node)
    (h : ctx.owner = some owner) : (waiting ctx owner slot node).context = ctx := by
  obtain ⟨area, path, owner'⟩ := ctx
  simp only at h
  subst h
  rfl

end Placeholder

/-- Nothing is staged. -/
def Staging.none {σ : Type} : Staging σ := fun _ _ _ => Option.none

theorem Staging.callsOnly_none {σ : Type} : Staging.CallsOnly (Staging.none : Staging σ) :=
  fun _ _ _ _ => rfl

namespace Node

/-- A placeholder that was just recorded for a collection within a node. -/
structure Records (node : Node) (p : Placeholder) : Prop where
  waiting : p.resolved = false
  collection : p.node.isCollection = true
  within : Within p.node node

end Node

/-! ## What is recorded -/

/-- An occurrence in a place for which the placeholder was recorded. -/
def Occurrence.Fits (table : Placeholders) (e : Occurrence) : Prop :=
  ∃ p, table[e.id]? = some p ∧ e.owner = some p.target.owner ∧ e.slot = p.target.slot

/-- An operand in a slot whose placeholders are among the recorded ones, each once and in a place
for which it was recorded. -/
structure Operand.Placed (kept : Prop) (owner : Option Intrinsic) (slot : Slot)
    (table : Placeholders) (ids : List Nat) (o : Operand) : Prop where
  fits : ∀ e ∈ o.occurrences owner slot, e.Fits table
  remains : Remains kept (o.ids owner slot) ids

/-- The placeholders of children that are placed one by one. -/
theorem Links.placed {kept : Prop} {owner : Option Intrinsic} {table : Placeholders}
    {children : List (Slot × Node)} {ids : List Nat} {ys : List Operand}
    (h : Links (fun e => Operand.Placed kept owner (Prod.fst e) table) children ids ys) :
    (∀ e ∈ ((children.map Prod.fst).zip ys).flatMap fun e => e.2.occurrences owner e.1,
        e.Fits table) ∧
      Remains kept ((((children.map Prod.fst).zip ys).flatMap
        fun e => e.2.occurrences owner e.1).map Occurrence.id) ids := by
  induction h with
  | nil => exact ⟨by simp, .refl []⟩
  | cons hplaced _ ih =>
    simp only [List.map_cons, List.zip_cons_cons, List.flatMap_cons, List.map_append,
      List.mem_append]
    refine ⟨fun e he => ?_, hplaced.remains.append ih.2⟩
    rcases he with he | he
    · exact hplaced.fits e he
    · exact ih.1 e he

namespace Node

/-- The leaf of a node is literal. -/
theorem literal_of_layer {ctx : Context} {node : Node} {l : Layer Node}
    (h : node.layer? ctx = some l) : l.Literal := by
  rintro o rfl
  cases layer?_eq_some_iff.1 h with
  | literal _ _ harguments =>
    rcases Arguments.literal_of_ofNode harguments with ⟨-, resource, name, -, rfl⟩ | ⟨-, rfl⟩ <;>
      simp [Operand.hasPending, Operand.string, Call.map, Call.operands]
  | scalar hs => simp [Operand.hasPending]

/-- No node is resolved to a placeholder. -/
theorem resolve_ne_pending {ctx : Context} {node : Node} {table table' : Placeholders} {x : Operand}
    (h : (node.resolve Placeholder.staging ctx).attempt table = some (x, table')) (id : Nat) :
    x ≠ .pending id := by
  rw [attempt_resolve Placeholder.callsOnly_staging] at h
  cases hlayer : node.layer? ctx with
  | none => simp [hlayer] at h
  | some l =>
    rw [hlayer] at h
    obtain ⟨ys, -, rfl⟩ := Attempt.map_eq_some.1 h
    exact Layer.build_ne_pending (literal_of_layer hlayer) id

/-- A placeholder that is recorded for an operand of a call is found in the place of the operand. -/
theorem leaves_record (kept : Prop) {ctx : Context} {owner : Intrinsic} {slot : Slot}
    {node outer : Node} (hnode : node.dependsOnOwner = true) (hwithin : Within node outer) :
    Leaves outer.Records (Operand.Placed kept (some owner) slot)
      (Placeholder.record (Placeholder.waiting ctx owner slot node)).attempt := by
  intro table a table' h
  rw [Placeholder.attempt_record] at h
  cases h
  refine ⟨_, rfl, fun p hp => ?_, fun later hlater => ⟨fun e he => ?_, ?_⟩⟩
  · obtain rfl := List.mem_singleton.1 hp
    exact ⟨rfl, isCollection_of_dependsOnOwner hnode, hwithin⟩
  · rw [Operand.occurrences_pending] at he
    obtain rfl := List.mem_singleton.1 he
    have hlast : (table ++ [Placeholder.waiting ctx owner slot node])[table.length]? =
        some (Placeholder.waiting ctx owner slot node) := by simp
    -- Later tables keep the target, which is the place of the operand.
    obtain ⟨q, hq, htarget, -, -⟩ := hlater.getElem? hlast
    exact ⟨q, hq, by rw [htarget]; rfl, by rw [htarget]; rfl⟩
  · rw [Operand.ids, Operand.occurrences_pending]
    exact .refl _

/-- What is left by answering for a child, where resolving it leaves as much. -/
theorem leaves_answer_of_resolve (kept : Prop) {ctx : Context} {node : Node} {l : Layer Node}
    {e : Slot × Node} (hlayer : node.layer? ctx = some l) (he : e ∈ l.children)
    (hresolve : ∀ ctx, Leaves e.2.Records (Operand.Placed kept l.owner? e.1)
      (e.2.resolve Placeholder.staging ctx).attempt) :
    Leaves node.Records (Operand.Placed kept l.owner? e.1)
      (Placeholder.staging.answer (ctx.inside l.owner? e.1) e.1 e.2).attempt := by
  obtain ⟨slot, x⟩ := e
  have hwithin := within_of_layer hlayer he
  rcases Placeholder.answer_staging (ctx.inside l.owner? slot) slot x with
    ⟨f, howner, hdepends, hrecord⟩ | hanswer
  · -- The owner that is recorded is the function that the layer calls.
    have hf : l.owner? = some f := by rw [← howner, Context.owner_inside]
    rw [hrecord, hf]
    exact leaves_record kept hdepends hwithin
  · rw [hanswer]
    refine (hresolve _).mono (fun p hp => ?_) fun _ _ _ h => h
    exact ⟨hp.waiting, hp.collection, hp.within.trans hwithin⟩

/-- Resolving a node in a slot records placeholders for nodes within it. Where no child replaces
another, all of them are found in the operand. -/
theorem leaves_resolve (kept : Prop) (node : Node) (hkept : kept → node.textsDiffer = true)
    (ctx : Context) (owner : Option Intrinsic) (slot : Slot) :
    Leaves node.Records (Operand.Placed kept owner slot)
      (node.resolve Placeholder.staging ctx).attempt := by
  induction node using Node.induction generalizing ctx owner slot with
  | step node ih =>
    rw [attempt_resolve Placeholder.callsOnly_staging]
    cases hlayer : node.layer? ctx with
    | none => exact .failure
    | some l =>
      have hchildren : ∀ e ∈ l.children, Leaves node.Records (Operand.Placed kept l.owner? e.1)
          (Placeholder.staging.answer (ctx.inside l.owner? e.1) e.1 e.2).attempt := by
        intro e he
        have hwithin := within_of_layer hlayer he
        exact leaves_answer_of_resolve kept hlayer he fun ctx =>
          ih e.2 hwithin (fun h => hwithin.textsDiffer (hkept h)) ctx _ _
      refine (Leaves.mapM hchildren).map fun later ids ys hlinks => ?_
      -- Where keys repeat, some placeholders are lost with the children that others replace.
      have hremains := Layer.remains_occurrences_build (literal_of_layer hlayer)
        (fun hk => nodup_keys_of_layer hlayer (hkept hk)) hlinks.length_eq owner slot
      obtain ⟨hfits, hids⟩ := hlinks.placed
      exact ⟨fun e he => hfits e (hremains.subset he), (hremains.map _).trans hids⟩

/-- What is left by answering for a child of a layer. -/
theorem leaves_answer (kept : Prop) {ctx : Context} {node : Node} {l : Layer Node}
    {e : Slot × Node} (hlayer : node.layer? ctx = some l) (he : e ∈ l.children)
    (hkept : kept → e.2.textsDiffer = true) :
    Leaves node.Records (Operand.Placed kept l.owner? e.1)
      (Placeholder.staging.answer (ctx.inside l.owner? e.1) e.1 e.2).attempt :=
  leaves_answer_of_resolve kept hlayer he fun ctx => leaves_resolve kept e.2 hkept ctx _ _

/-- What resolving a node records lies within the node. -/
theorem records_of_resolve {node : Node} {ctx : Context} {table table' : Placeholders} {x : Operand}
    (h : (node.resolve Placeholder.staging ctx).attempt table = some (x, table')) :
    ∃ new, table' = table ++ new ∧ ∀ p ∈ new, node.Records p := by
  obtain ⟨new, htable, hnew, -⟩ :=
    leaves_resolve False node nofun ctx none (.index 0) table x table' h
  exact ⟨new, htable, hnew⟩

end Node

/-! ## Staged and direct resolution -/

namespace Node

/-- What is recorded for an operand of a call stands for the operand. -/
theorem mirrors_record {ctx : Context} {owner : Intrinsic} (slot : Slot) (node : Node)
    (howner : ctx.owner = some owner) (table : Placeholders) :
    Mirrors table (fun later x b => x.expand later = some b)
      (Placeholder.record (Placeholder.waiting ctx owner slot node)).attempt
      (node.resolve Staging.none ctx).attempt := by
  have hmeaning : (Placeholder.waiting ctx owner slot node).meaning? =
      ((node.resolve Staging.none ctx).attempt ()).map Prod.fst := by
    rw [Placeholder.meaning?, Placeholder.context_waiting slot node howner]
    rfl
  have hrun := Placeholder.attempt_record (Placeholder.waiting ctx owner slot node) table
  -- The placeholder means what resolving its node directly gives, if it gives anything.
  cases hdirect : (node.resolve Staging.none ctx).attempt () with
  | none =>
    refine .flawed hrun hdirect (List.mem_singleton_self _) ?_
    rw [hmeaning, hdirect, Option.map_none]
  | some r =>
    obtain ⟨b, u⟩ := r
    have hsome : (Placeholder.waiting ctx owner slot node).meaning? = some b := by
      rw [hmeaning, hdirect, Option.map_some]
    refine .agrees hrun hdirect (fun p hp => ?_) fun later hlater => ?_
    · obtain rfl := List.mem_singleton.1 hp
      rw [hsome, Option.isSome_some]
    · have hlast : (table ++ [Placeholder.waiting ctx owner slot node])[table.length]? =
          some (Placeholder.waiting ctx owner slot node) := by simp
      obtain ⟨q, hq, -, hcontext, hnode⟩ := hlater.getElem? hlast
      have hq' : q.meaning? = some b := by
        rw [← hsome, Placeholder.meaning?, Placeholder.meaning?, hcontext, hnode]
      rw [Operand.expand_pending, hq, Option.bind_some, hq']

/-- Staged resolution mirrors direct resolution: the staged operand stands for the direct one. -/
theorem mirrors_resolve (node : Node) (ctx : Context) (table : Placeholders) :
    Mirrors table (fun later x b => x.expand later = some b)
      (node.resolve Placeholder.staging ctx).attempt (node.resolve Staging.none ctx).attempt := by
  induction node using Node.induction generalizing ctx table with
  | step node ih =>
    rw [attempt_resolve Placeholder.callsOnly_staging, attempt_resolve Staging.callsOnly_none]
    cases hlayer : node.layer? ctx with
    | none => exact .failure
    | some l =>
      -- No child disturbs what the children before it recorded.
      have hgrows : ∀ e ∈ l.children, Grows
          (Placeholder.staging.answer (ctx.inside l.owner? e.1) e.1 e.2).attempt :=
        fun e he => (leaves_answer False hlayer he nofun).grows
      have hchildren : ∀ e ∈ l.children, ∀ table,
          Mirrors table (fun later x b => x.expand later = some b)
            (Placeholder.staging.answer (ctx.inside l.owner? e.1) e.1 e.2).attempt
            (Staging.none.answer (ctx.inside l.owner? e.1) e.1 e.2).attempt := by
        rintro ⟨slot, x⟩ he table
        rcases Placeholder.answer_staging (ctx.inside l.owner? slot) slot x with
          ⟨f, howner, -, hrecord⟩ | hresolve
        · -- A child that is staged is recorded; any other one is resolved on both sides.
          have hmirrors := mirrors_record slot x howner table
          rw [← hrecord] at hmirrors
          exact hmirrors
        · simp only [hresolve]
          exact ih x (within_of_layer hlayer he) _ _
      refine (Mirrors.mapM hgrows hchildren table).map fun later ys os hys => ?_
      exact Layer.expand_build (literal_of_layer hlayer) hys.1 hys.2

end Node

end StackTemplate
