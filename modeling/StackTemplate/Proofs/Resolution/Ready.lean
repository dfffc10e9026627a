import StackTemplate.Proofs.Resolution.Congruence
import StackTemplate.Proofs.Resolution.Settling

/-!
# Placeholders that are ready

A placeholder is resolved once, and only where it was recorded for. Where every placeholder of an
operand occurs once, in the place for which it was recorded, and stands for a node of limited depth,
settling the operand meets no fault of the bookkeeping, and it leaves the placeholders of other
operands waiting. If it succeeds, it resolves those of the operand and all that appear on the way;
it succeeds if all placeholders have a meaning.

* `Placeholders.Resolves` : which placeholders are resolved between two tables.
* `Placeholders.Outcome` : what settling some placeholders leaves, whether it fails or not.
* `Occurrence.Ready` : an occurrence of a placeholder that can be resolved there.
* `Operand.settling_settle` : settling an operand whose placeholders are ready.
-/

namespace StackTemplate

variable {α β : Type} {kept : Prop}

namespace Placeholders

/-- A placeholder that is not resolved yet. -/
def Waiting (table : Placeholders) (id : Nat) : Prop :=
  ∃ p, table[id]? = some p ∧ p.resolved = false

/-- Some placeholders are resolved, and all that are recorded on the way. -/
structure Resolves (before after : Placeholders) (ids : List Nat) : Prop where
  extends_before : after.Extends before
  waiting : ∀ id, after.Waiting id ↔ before.Waiting id ∧ id ∉ ids

theorem Resolves.refl (table : Placeholders) : Resolves table table [] :=
  ⟨.refl table, fun id => by simp⟩

theorem Resolves.append {first second third : Placeholders} {ids ids' : List Nat}
    (h : Resolves first second ids) (h' : Resolves second third ids') :
    Resolves first third (ids ++ ids') := by
  refine ⟨h'.extends_before.trans h.extends_before, fun id => ?_⟩
  rw [h'.waiting, h.waiting, List.mem_append, not_or, and_assoc]

/-- Which placeholders wait after one is resolved: the others, and those that its node brought. -/
theorem waiting_mark {table new : Placeholders} (hnew : ∀ p ∈ new, p.resolved = false) {id : Nat}
    (hid : id < table.length) (i : Nat) :
    Waiting (mark (table ++ new) id) i ↔ (table.Waiting i ∧ i ≠ id) ∨ i ∈ newIds table new := by
  rw [Waiting, mark, List.getElem?_modify, newIds, List.mem_range'_1, Waiting]
  -- Numbers below the length are those of the table, the others those of what was brought.
  by_cases hlt : i < table.length
  · rw [List.getElem?_append_left hlt]
    by_cases heq : id = i
    · subst heq
      have hout : ¬table.length ≤ id := by omega
      simp [hout]
    · have hout : ¬table.length ≤ i := by omega
      simp [heq, Ne.symm heq, hout]
  · have hne : id ≠ i := by omega
    have hnone : table[i]? = none := List.getElem?_eq_none (by omega)
    rw [List.getElem?_append_right (by omega)]
    simp only [hne, if_false, id_map', hnone, reduceCtorEq, false_and, exists_false, false_or]
    constructor
    · rintro ⟨p, hp, -⟩
      have := (List.getElem?_eq_some_iff.1 hp).1
      omega
    · intro hrange
      have hlt' : i - table.length < new.length := by omega
      exact ⟨_, List.getElem?_eq_getElem hlt', hnew _ (List.getElem_mem hlt')⟩

theorem Waiting.append {table : Placeholders} {id : Nat} (h : table.Waiting id)
    (new : Placeholders) : Waiting (table ++ new) id := by
  obtain ⟨p, hp, hresolved⟩ := h
  refine ⟨p, ?_, hresolved⟩
  rw [List.getElem?_append_left (List.getElem?_eq_some_iff.1 hp).1, hp]

/-- What settling some placeholders leaves. The faults that it meets are genuine; without a fault,
the placeholders are resolved where all is kept, and there is none where all have a meaning, or
where there is nothing to settle. -/
structure Outcome (kept : Prop) (before : Placeholders) (ids : List Nat) (faults : List Fault)
    (after : Placeholders) : Prop where
  extends_before : after.Extends before
  others : ∀ id, before.Waiting id → id ∉ ids → after.Waiting id
  genuine : ∀ e ∈ faults, e.isBookkeeping = false
  resolves : kept → faults = [] → Resolves before after ids
  succeeds : before.Meaningful → faults = [] ∧ after.Meaningful
  idle : ids = [] → faults = [] ∧ after = before

namespace Outcome

variable {before middle after : Placeholders} {ids ids' : List Nat} {faults faults' : List Fault}

theorem refl (table : Placeholders) : Outcome kept table [] [] table where
  extends_before := .refl table
  others _ h _ := h
  genuine := by simp
  resolves _ _ := .refl table
  succeeds h := ⟨rfl, h⟩
  idle _ := ⟨rfl, rfl⟩

/-- Settling goes on where no fault was met, and the faults of both parts are those of the whole. -/
theorem append (h : Outcome kept before ids faults middle)
    (h' : Outcome kept middle ids' faults' after) :
    Outcome kept before (ids ++ ids') (faults ++ faults') after where
  extends_before := h'.extends_before.trans h.extends_before
  others id hid hout := by
    rw [List.mem_append, not_or] at hout
    exact h'.others id (h.others id hid hout.1) hout.2
  genuine e he := by
    rcases List.mem_append.1 he with he | he
    · exact h.genuine e he
    · exact h'.genuine e he
  resolves hk hnil := by
    rw [List.append_eq_nil_iff] at hnil
    exact (h.resolves hk hnil.1).append (h'.resolves hk hnil.2)
  succeeds hbefore := by
    obtain ⟨hnil, hmiddle⟩ := h.succeeds hbefore
    obtain ⟨hnil', hafter⟩ := h'.succeeds hmiddle
    exact ⟨by rw [hnil, hnil', List.append_nil], hafter⟩
  idle hids := by
    rw [List.append_eq_nil_iff] at hids
    obtain ⟨hnil, rfl⟩ := h.idle hids.1
    obtain ⟨hnil', rfl⟩ := h'.idle hids.2
    exact ⟨by rw [hnil, hnil', List.append_nil], rfl⟩

/-- Behind a fault, nothing more is settled. -/
theorem stop (h : Outcome kept before ids faults after) (hfaults : faults ≠ []) (ids' : List Nat) :
    Outcome kept before (ids ++ ids') faults after where
  extends_before := h.extends_before
  others id hid hout := h.others id hid fun hmem => hout (List.mem_append_left ids' hmem)
  genuine := h.genuine
  resolves _ hnil := absurd hnil hfaults
  succeeds hbefore := absurd (h.succeeds hbefore).1 hfaults
  idle hids := absurd (h.idle (List.append_eq_nil_iff.1 hids).1).1 hfaults

/-- A genuine fault leaves what was recorded before it waiting. -/
theorem of_fault {table : Placeholders} {e : Fault} (hids : ids ≠ []) (new : Placeholders)
    (hgenuine : e.isBookkeeping = false) (hmeaningless : ¬ table.Meaningful) :
    Outcome kept table ids [e] (table ++ new) where
  extends_before := extends_append table new
  others _ h _ := h.append new
  genuine e' he' := by
    obtain rfl := List.mem_singleton.1 he'
    exact hgenuine
  resolves _ hnil := absurd hnil (List.cons_ne_nil e [])
  succeeds hmeaningful := absurd hmeaningful hmeaningless
  idle hnil := absurd hnil hids

/-- What the node of a placeholder brought is settled with the placeholder. -/
theorem of_mark {table new : Placeholders} {id : Nat} (hlt : id < table.length)
    (hnew : ∀ p ∈ new, p.resolved = false) (hids : Remains kept ids (newIds table new))
    (hmeaningful : table.Meaningful → Meaningful (mark (table ++ new) id))
    (h : Outcome kept (mark (table ++ new) id) ids faults after) :
    Outcome kept table [id] faults after := by
  have hextends : after.Extends table :=
    h.extends_before.trans ((extends_mark _ id).trans (extends_append table new))
  -- A placeholder that was there before is none of those that were brought.
  have hold : ∀ i, table.Waiting i → i ∉ newIds table new := by
    rintro i ⟨p, hp, -⟩ hi
    have := (List.getElem?_eq_some_iff.1 hp).1
    have := (List.mem_range'_1.1 hi).1
    omega
  refine ⟨hextends, fun i hi hne => ?_, h.genuine, fun hk hnil => ⟨hextends, fun i => ?_⟩,
    fun hbefore => h.succeeds (hmeaningful hbefore),
    fun hids => absurd hids (List.cons_ne_nil id [])⟩
  · refine h.others i ((waiting_mark hnew hlt i).2 (.inl ⟨hi, fun heq => hne ?_⟩)) fun hmem => ?_
    · exact List.mem_singleton.2 heq
    · exact hold i hi (hids.subset hmem)
  · rw [(h.resolves hk hnil).waiting, waiting_mark hnew hlt, (hids.perm hk).mem_iff,
      List.mem_singleton]
    constructor
    · rintro ⟨hi | hi, hout⟩
      · exact hi
      · exact absurd hi hout
    · rintro ⟨hi, hne⟩
      exact ⟨.inl ⟨hi, hne⟩, hold i hi⟩

end Outcome

end Placeholders

/-! ## Resolutions that settle -/

namespace Resolution

variable {σ : Type}

/-- The fault of a resolution from a state, if it fails. -/
def faults (x : Resolution σ α) (st : σ) : List Fault :=
  match (x.run st).1 with
  | .ok _ => []
  | .error e => [e]

theorem faults_of_ok {x : Resolution σ α} {st st' : σ} {a : α} (h : x.run st = (.ok a, st')) :
    x.faults st = [] := by
  rw [faults, h]

theorem faults_of_error {x : Resolution σ α} {st st' : σ} {e : Fault}
    (h : x.run st = (.error e, st')) : x.faults st = [e] := by
  rw [faults, h]

/-- A resolution that settles some placeholders of a table. -/
def Settling (kept : Prop) (table : Placeholders) (ids : List Nat)
    (x : Resolution Placeholders α) : Prop :=
  Placeholders.Outcome kept table ids (x.faults table) (x.run table).2

namespace Settling

variable {table : Placeholders} {ids ids' : List Nat} {x : Resolution Placeholders α}

theorem pure (a : α) : Settling kept table [] (pure a) := Placeholders.Outcome.refl table

/-- A sequence settles what its parts settle, or stops at a fault of the first one. -/
theorem bind {f : α → Resolution Placeholders β} (hx : x.Settling kept table ids)
    (hf : ∀ a after, x.run table = (.ok a, after) → (f a).Settling kept after ids') :
    (x >>= f).Settling kept table (ids ++ ids') := by
  have hrun := run_bind x f table
  unfold Settling at hx ⊢
  rcases hanswer : x.run table with ⟨e | a, after⟩
  · rw [hanswer] at hrun hx
    rw [faults_of_error hanswer] at hx
    rw [faults_of_error hrun, hrun]
    exact hx.stop (List.cons_ne_nil e []) ids'
  · rw [hanswer] at hrun hx
    rw [faults_of_ok hanswer] at hx
    rw [faults, hrun, ← faults]
    exact hx.append (hf a after hanswer)

theorem map (f : α → β) (hx : x.Settling kept table ids) : (f <$> x).Settling kept table ids := by
  rw [← bind_pure_comp, ← List.append_nil ids]
  exact hx.bind fun a after _ => .pure (f a)

end Settling

end Resolution

/-! ## Readiness -/

/-- A placeholder that can be resolved where it is found: it waits, was recorded for that place, and
stands for a collection of limited depth. -/
structure Placeholder.Ready (kept : Prop) (p : Placeholder) (depth : Nat) (e : Occurrence) :
    Prop where
  waiting : p.resolved = false
  owner : e.owner = some p.target.owner
  slot : e.slot = p.target.slot
  texts : kept → p.node.textsDiffer = true
  collection : p.node.isCollection = true
  depth : p.node.depth < depth

/-- An occurrence of a placeholder that can be resolved there. -/
def Occurrence.Ready (kept : Prop) (table : Placeholders) (depth : Nat) (e : Occurrence) : Prop :=
  ∃ p, table[e.id]? = some p ∧ p.Ready kept depth e

/-- What is ready stays so while others are settled. -/
theorem Occurrence.Ready.of_outcome {before after : Placeholders} {ids : List Nat}
    {faults : List Fault} {depth : Nat} {e : Occurrence} (h : e.Ready kept before depth)
    (houtcome : Placeholders.Outcome kept before ids faults after) (hid : e.id ∉ ids) :
    e.Ready kept after depth := by
  obtain ⟨p, hp, hready⟩ := h
  obtain ⟨q, hq, htarget, -, hnode⟩ := houtcome.extends_before.getElem? hp
  obtain ⟨q', hq', hresolved⟩ := houtcome.others e.id ⟨p, hp, hready.waiting⟩ hid
  rw [hq] at hq'
  cases hq'
  -- Settling changes nothing in a placeholder but the mark of being resolved.
  refine ⟨q, hq, hresolved, ?_, ?_, ?_, ?_, ?_⟩
  · rw [htarget, hready.owner]
  · rw [htarget, hready.slot]
  · rw [hnode]
    exact hready.texts
  · rw [hnode, hready.collection]
  · rw [hnode]
    exact hready.depth

/-! ## Settling a placeholder -/

namespace Placeholder

/-- A placeholder that is found where it was recorded for is resolved as its node is. -/
theorem run_resolve {id : Nat} {owner : Option Intrinsic} {slot : Slot} {table : Placeholders}
    {p : Placeholder} {depth : Nat} (hp : table[id]? = some p)
    (hready : p.Ready kept depth ⟨id, owner, slot⟩) (path : String) :
    (resolve id owner slot path).run table =
      match (p.node.resolve staging p.context).run table with
      | (.ok x, table') => (.ok x, Placeholders.mark table' id)
      | (.error e, table') => (.error e, table') := by
  have hget : (get : Resolution Placeholders Placeholders).run table = (.ok table, table) := rfl
  -- It waits and stands where it was recorded for, so none of the faults of the bookkeeping is met.
  have hplace : ¬(owner ≠ some p.target.owner ∨ slot ≠ p.target.slot) := by
    simp [show owner = _ from hready.owner, show slot = _ from hready.slot]
  rw [resolve, Resolution.run_bind, hget]
  simp only [hp, hready.waiting, hplace, Bool.false_eq_true, if_false]
  rw [Resolution.run_bind]
  rcases (p.node.resolve staging p.context).run table with ⟨e | x, table'⟩ <;> rfl

/-- Where every placeholder has a meaning, the node of each can be resolved, and so can those of the
placeholders that it brings. -/
theorem exists_resolve_of_meaningful {table : Placeholders} (h : table.Meaningful) {p : Placeholder}
    (hp : p ∈ table) :
    ∃ x new, (p.node.resolve staging p.context).attempt table = some (x, table ++ new) ∧
      ∀ q ∈ new, q.meaning?.isSome = true := by
  have hmeaning := (h p hp).1
  rw [meaning?, Option.isSome_map] at hmeaning
  change ((p.node.resolve Staging.none p.context).attempt ()).isSome = true at hmeaning
  -- The direct attempt succeeds, so the staged one does, and brings nothing without a meaning.
  cases Node.mirrors_resolve p.node p.context table with
  | fails _ hy =>
    rw [hy] at hmeaning
    cases hmeaning
  | flawed _ hy _ _ =>
    rw [hy] at hmeaning
    cases hmeaning
  | @agrees x b new hx _ hnew _ => exact ⟨x, new, hx, hnew⟩

/-- What a placeholder brings has a meaning where all others have one. -/
theorem meaningful_mark {table new : Placeholders} (h : table.Meaningful) {id : Nat}
    {p : Placeholder} (hp : table[id]? = some p) {x : Operand}
    (hx : (p.node.resolve staging p.context).attempt table = some (x, table ++ new))
    (hcollections : ∀ q ∈ new, q.node.isCollection = true) :
    Placeholders.Meaningful (Placeholders.mark (table ++ new) id) := by
  obtain ⟨x', new', hx', hmeanings⟩ := exists_resolve_of_meaningful h (List.mem_of_getElem? hp)
  rw [hx] at hx'
  simp only [Option.some.injEq, Prod.mk.injEq, List.append_cancel_left_eq] at hx'
  obtain ⟨-, rfl⟩ := hx'
  intro q hq
  -- A placeholder of the new table is an old one or was brought, up to the mark.
  obtain ⟨i, hi⟩ := List.mem_iff_getElem?.1 hq
  have hmark := Placeholders.extends_mark (table ++ new) id
  obtain ⟨r, hr, -, hcontext, hnode⟩ := hmark.getElem?_earlier (List.length_modify _ _ _) hi
  rw [meaning?, hcontext, hnode]
  rcases List.mem_append.1 (List.mem_of_getElem? hr) with hold | hrecent
  · exact h r hold
  · exact ⟨hmeanings r hrecent, hcollections r hrecent⟩

end Placeholder

/-- What the node of a placeholder brings is ready when the placeholder is resolved. -/
theorem Placeholder.Ready.brought {depth id : Nat} {owner : Option Intrinsic} {slot : Slot}
    {table new : Placeholders} {p : Placeholder} {e : Occurrence} {x : Operand}
    (hready : p.Ready kept (depth + 1) e) (hlt : id < table.length)
    (hrecords : ∀ q ∈ new, p.node.Records q)
    (hplaced : x.Placed kept owner slot (Placeholders.mark (table ++ new) id) (newIds table new)) :
    ∀ e ∈ x.occurrences owner slot, e.Ready kept (Placeholders.mark (table ++ new) id) depth := by
  intro e he
  have hid : e.id ∈ newIds table new := hplaced.remains.subset (List.mem_map.2 ⟨e, he, rfl⟩)
  obtain ⟨q, hq, howner, hslot⟩ := hplaced.fits e he
  obtain ⟨r, hr, q', hq', hnode, -⟩ :=
    Placeholders.exists_of_mem_newIds hid (Placeholders.extends_mark (table ++ new) id)
  rw [hq] at hq'
  cases hq'
  obtain ⟨q', hq', hresolved⟩ : Placeholders.Waiting (Placeholders.mark (table ++ new) id) e.id :=
    (Placeholders.waiting_mark (fun q hq => (hrecords q hq).waiting) hlt e.id).2 (.inr hid)
  rw [hq] at hq'
  cases hq'
  -- The node lies within that of the placeholder that brought it, so it is less deep.
  have hwithin := (hrecords r hr).within
  refine ⟨q, hq, hresolved, howner, hslot, fun hk => ?_, ?_, ?_⟩
  · rw [hnode]
    exact hwithin.textsDiffer (hready.texts hk)
  · rw [hnode]
    exact (hrecords r hr).collection
  · rw [hnode]
    have := hwithin.depth_lt hready.collection
    have := hready.depth
    omega

namespace Operand

/-- A placeholder that is ready is settled where what its node is resolved to is. -/
theorem settling_pending {depth id : Nat} {owner : Option Intrinsic} {slot : Slot}
    {table : Placeholders} (h : Occurrence.Ready kept table (depth + 1) ⟨id, owner, slot⟩)
    (path : String)
    (hsettle : ∀ (x : Operand) table, (∀ i, x ≠ .pending i) → (x.ids owner slot).Nodup →
      (∀ e ∈ x.occurrences owner slot, e.Ready kept table depth) →
        (x.settle depth (path ++ slot.segment)).Settling kept table (x.ids owner slot)) :
    (settleSlot (depth + 1) path owner slot (.pending id)).Settling kept table [id] := by
  obtain ⟨p, hp, hready⟩ := h
  have hlt : id < table.length := (List.getElem?_eq_some_iff.1 hp).1
  have hrun := Placeholder.run_resolve hp hready (path ++ slot.segment)
  obtain ⟨⟨new, hnew⟩, hgenuine⟩ := p.node.genuine_resolve p.context table
  have hslot : settleSlot (depth + 1) path owner slot (.pending id) =
      Placeholder.resolve id owner slot (path ++ slot.segment) >>= fun x =>
        x.settle depth (path ++ slot.segment) := rfl
  rcases hresolve : (p.node.resolve Placeholder.staging p.context).run table with ⟨e | x, table'⟩
  · -- The node is faulty, which it is not where the placeholder has a meaning.
    rw [hresolve] at hrun hnew hgenuine
    obtain rfl : table ++ new = table' := hnew
    have hstop : (settleSlot (depth + 1) path owner slot (.pending id)).run table =
        (.error e, table ++ new) := by
      rw [hslot, Resolution.run_bind, hrun]
    have hmeaningless : ¬ table.Meaningful := by
      intro hmeaningful
      obtain ⟨x, new', hx, -⟩ :=
        Placeholder.exists_resolve_of_meaningful hmeaningful (List.mem_of_getElem? hp)
      rw [Resolution.attempt_eq_some, hresolve] at hx
      cases hx
    rw [Resolution.Settling, Resolution.faults_of_error hstop, hstop]
    exact .of_fault (List.cons_ne_nil id []) new (hgenuine e rfl) hmeaningless
  · -- The node is resolved; settling goes on with what it brought.
    have hattempt := Resolution.attempt_eq_some.2 hresolve
    obtain ⟨new', rfl, hrecords, hplaced⟩ :=
      p.node.leaves_resolve kept hready.texts p.context owner slot table x table' hattempt
    -- Marking the placeholder leaves what it brought as it was recorded.
    have hplaced := hplaced _ (Placeholders.extends_mark (table ++ new') id)
    have hsettling := hsettle x (Placeholders.mark (table ++ new') id)
      (Node.resolve_ne_pending hattempt) (hplaced.remains.nodup List.nodup_range')
      (hready.brought hlt hrecords hplaced)
    have hnext : (settleSlot (depth + 1) path owner slot (.pending id)).run table =
        (x.settle depth (path ++ slot.segment)).run (Placeholders.mark (table ++ new') id) := by
      rw [hslot, Resolution.run_bind, hrun, hresolve]
    unfold Resolution.Settling at hsettling ⊢
    rw [Resolution.faults, hnext, ← Resolution.faults]
    exact hsettling.of_mark hlt (fun q hq => (hrecords q hq).waiting) hplaced.remains
      fun hmeaningful => Placeholder.meaningful_mark hmeaningful hp hattempt fun q hq =>
        (hrecords q hq).collection

/-- Children are settled one after the other, where each of them can be settled from every table in
which its placeholders are ready. -/
theorem settling_mapM {depth : Nat} {path : String} {owner : Option Intrinsic}
    {children : List (Slot × Operand)}
    (h : ∀ e ∈ children, ∀ table, (e.2.ids owner e.1).Nodup →
      (∀ occ ∈ e.2.occurrences owner e.1, occ.Ready kept table depth) →
        (settleSlot depth path owner e.1 e.2).Settling kept table (e.2.ids owner e.1))
    {table : Placeholders} (hnodup : (children.flatMap fun e => e.2.ids owner e.1).Nodup)
    (hready : ∀ e ∈ children, ∀ occ ∈ e.2.occurrences owner e.1, occ.Ready kept table depth) :
    (children.mapM fun e => settleSlot depth path owner e.1 e.2).Settling kept table
      (children.flatMap fun e => e.2.ids owner e.1) := by
  induction children generalizing table with
  | nil => exact .pure []
  | cons e children ih =>
    rw [List.flatMap_cons, List.nodup_append] at hnodup
    obtain ⟨hfirst, hrest, hdisjoint⟩ := hnodup
    have hsettling := h e List.mem_cons_self table hfirst (hready e List.mem_cons_self)
    rw [List.mapM_cons, List.flatMap_cons]
    refine hsettling.bind fun y after hy => ?_
    rw [Resolution.Settling, hy] at hsettling
    -- Settling the first child settles placeholders of its own only, so the others stay ready.
    have hstill : ∀ f ∈ children, ∀ occ ∈ f.2.occurrences owner f.1,
        occ.Ready kept after depth := by
      intro f hf occ hocc
      refine (hready f (List.mem_cons_of_mem e hf) occ hocc).of_outcome hsettling fun hid => ?_
      have hlater : occ.id ∈ children.flatMap fun e => e.2.ids owner e.1 :=
        List.mem_flatMap.2 ⟨f, hf, List.mem_map.2 ⟨occ, hocc, rfl⟩⟩
      exact hdisjoint occ.id hid occ.id hlater rfl
    exact (ih (fun f hf => h f (List.mem_cons_of_mem e hf)) hrest hstill).map (y :: ·)

/-- Where every placeholder of an operand occurs once and is ready, settling the operand settles
them, with all that it records on the way. -/
theorem settling_settle (depth : Nat) {o : Operand} (hne : ∀ id, o ≠ .pending id) (path : String)
    (owner : Option Intrinsic) (slot : Slot) {table : Placeholders}
    (hnodup : (o.ids owner slot).Nodup)
    (hready : ∀ e ∈ o.occurrences owner slot, e.Ready kept table depth) :
    (o.settle depth path).Settling kept table (o.ids owner slot) := by
  induction depth, o using settling_induction generalizing path owner slot table with
  | step depth o ihDepth ihPart =>
    -- A child that is a placeholder uses up some depth; any other one is a part of the operand.
    have hchildren : ∀ e ∈ o.children, ∀ table, (e.2.ids o.layer.owner? e.1).Nodup →
        (∀ occ ∈ e.2.occurrences o.layer.owner? e.1, occ.Ready kept table depth) →
          (settleSlot depth path o.layer.owner? e.1 e.2).Settling kept table
            (e.2.ids o.layer.owner? e.1) := by
      rintro ⟨slot, x⟩ he table hnodup hready
      rcases x.pending_or_ne with ⟨id, rfl⟩ | hx
      · have hpending : Occurrence.Ready kept table depth ⟨id, o.layer.owner?, slot⟩ :=
          hready _ (by simp)
        simp only [ids, occurrences_pending, List.map_cons, List.map_nil]
        cases depth with
        | zero =>
          obtain ⟨p, -, hp⟩ := hpending
          exact absurd hp.depth (Nat.not_lt_zero _)
        | succ depth =>
          exact settling_pending hpending path fun x table hne hnodup hready =>
            ihDepth depth (Nat.lt_succ_self depth) x hne _ _ _ hnodup hready
      · rw [settleSlot_of_ne_pending hx]
        exact ihPart x (mem_parts_of_mem_children he) hx _ _ _ hnodup hready
    have hreadyChildren : ∀ e ∈ o.children, ∀ occ ∈ e.2.occurrences o.layer.owner? e.1,
        occ.Ready kept table depth := by
      intro e he occ hocc
      refine hready occ ?_
      rw [occurrences_eq hne]
      exact List.mem_flatMap.2 ⟨e, he, hocc⟩
    rw [ids_eq hne] at hnodup ⊢
    rw [settle_eq]
    exact (settling_mapM hchildren hnodup hreadyChildren).map o.refill

end Operand

end StackTemplate
