import StackTemplate.Proofs.Elaboration.Drawing
import StackTemplate.Proofs.Elaboration.Transparency
import StackTemplate.Proofs.Resolution.Walk

/-!
# The walk over a template

What elaboration leaves is settled by a walk over the operands of the template, without any bound
on its depth. The walk has an end, and it gives what settling gives. On the way the table grows, but
every placeholder stages a collection of the document that no other one stages, and none is visited
twice.

* `Template.walk` : the walk over a template, which may have no end.
* `Placeholders.StageApart` : placeholders for different collections of a document.
* `Template.walk_of_elaborate` : the walk over what elaboration leaves.
-/

namespace StackTemplate

namespace Template

open Walk (Leads)

/-! ## Walking a template -/

/-- Walks over one operand of a template; the first fault inside of it is added to a list. Nothing
comes of a walk that has no end. -/
def walkOperand (path : String) (o : Operand) : StateM (Option (Walk × List Fault)) Operand
  | none => (o, none)
  | some (w, faults) =>
    match (o.walk path).run w with
    | none => (o, none)
    | some (.ok x, w) => (x, some (w, faults))
    | some (.error e, w) => (o, some (w, faults ++ [e]))

/-- The template with all placeholders replaced, and the walk that led to it; nothing if the walk
has no end. -/
def walk (t : Template) (table : Placeholders) : Option (Except (List Fault) Template × Walk) :=
  if table.isEmpty then some (.ok t, .start table)
  else
    match t.mapOperands walkOperand (some (.start table, [])) with
    | (_, none) => none
    | (walked, some (w, faults)) =>
      let faults := faults ++ unresolvedFaults w.table
      some (if faults.isEmpty then .ok walked else .error faults, w)

/-- The walk over an operand with placeholders of limited depth ends as settling the operand
does. -/
theorem exists_walkOperand {depth : Nat} {o : Operand} (hne : ∀ id, o ≠ .pending id) {w : Walk}
    (hshallow : ∀ e ∈ o.occurrences none (.index 0), e.Shallow w.table depth) (path : String)
    (faults : List Fault) :
    ∃ w' : Walk, w.Leads o.heldIds w' ∧
      (settleOperand depth path o (w.table, faults)).2.1 = w'.table ∧
      walkOperand path o (some (w, faults)) =
        ((settleOperand depth path o (w.table, faults)).1,
          some (w', (settleOperand depth path o (w.table, faults)).2.2)) := by
  obtain ⟨w', hrun, htable, hleads⟩ := Operand.follows_walk depth hne path none (.index 0) hshallow
  refine ⟨w', hleads, ?_⟩
  -- The walk within the operand ends with the answer of settling, a fault or an operand.
  rcases hsettle : (o.settle depth path).run w.table with ⟨e | x, after⟩ <;>
    rw [hsettle] at hrun htable
  · rw [settleOperand_error hsettle]
    simp [walkOperand, hrun, htable]
  · rw [settleOperand_ok hsettle]
    simp [walkOperand, hrun, htable]

/-- The operands are walked one after the other. -/
theorem leads_walkOperands {depth : Nat} {es : List (String × Operand)}
    (hplain : ∀ e ∈ es, ∀ id, e.2 ≠ .pending id) {w : Walk}
    (hshallow : ∀ e ∈ es, ∀ occ ∈ e.2.occurrences none (.index 0), occ.Shallow w.table depth)
    (faults : List Fault) :
    ∃ w' faults', es.foldl (fun s e => (walkOperand e.1 e.2 s).2) (some (w, faults)) =
        some (w', faults') ∧ w.Leads (es.flatMap fun e => e.2.heldIds) w' := by
  induction es generalizing w faults with
  | nil => exact ⟨w, faults, rfl, .refl w⟩
  | cons e es ih =>
    obtain ⟨w₁, hfirst, -, hwalk⟩ := exists_walkOperand (hplain e List.mem_cons_self)
      (hshallow e List.mem_cons_self) e.1 faults
    -- Placeholders keep their nodes, so those of the other operands are no deeper than before.
    have hstill : ∀ f ∈ es, ∀ occ ∈ f.2.occurrences none (.index 0), occ.Shallow w₁.table depth :=
      fun f hf occ hocc =>
        (hshallow f (List.mem_cons_of_mem e hf) occ hocc).of_extends hfirst.extends_before
    obtain ⟨w', faults', hfold, hrest⟩ :=
      ih (fun f hf => hplain f (List.mem_cons_of_mem e hf)) hstill _
    refine ⟨w', faults', ?_, ?_⟩
    · rw [List.foldl_cons, hwalk]
      exact hfold
    · rw [List.flatMap_cons]
      exact hfirst.append hrest

/-- A walk on the way, beside what settling has come to. -/
def Beside (table : Placeholders) (s : Option (Walk × List Fault)) (s' : Placeholders × List Fault) :
    Prop :=
  ∃ w : Walk, s = some (w, s'.2) ∧ w.table = s'.1 ∧ w.table.Extends table

/-- Walking over one operand keeps beside settling it. -/
theorem lockstep_walkOperand {table : Placeholders} {depth : Nat} {o : Operand}
    (hne : ∀ id, o ≠ .pending id)
    (hshallow : ∀ e ∈ o.occurrences none (.index 0), e.Shallow table depth) (path : String) :
    Lockstep (Beside table) (walkOperand path o) (settleOperand depth path o) := by
  rintro _ ⟨_, faults⟩ ⟨w, rfl, rfl, hextends⟩
  obtain ⟨w', hleads, htable, hwalk⟩ := exists_walkOperand hne
    (fun e he => (hshallow e he).of_extends hextends) path faults
  rw [hwalk]
  exact ⟨rfl, w', rfl, htable.symm, hleads.extends_before.trans hextends⟩

/-- The walk over a template that is ready ends as settling does. -/
theorem Ready.exists_walk {t : Template} {table : Placeholders} (h : t.Ready False table) :
    ∃ w, t.walk table = some (t.settle table, w) ∧ Leads (.start table) t.heldIds w := by
  have hshallow : ∀ e ∈ t.operands, ∀ occ ∈ e.2.occurrences none (.index 0),
      occ.Shallow table (settlingDepth table) := by
    intro e he occ hocc
    obtain ⟨p, hp, hready⟩ := h.ready e he occ hocc
    exact ⟨p, hp, hready.collection, hready.depth⟩
  -- Operand by operand the walk has an end; side by side with settling, it gives the same.
  obtain ⟨w, faults, hfold, hleads⟩ := leads_walkOperands (w := .start table) h.plain hshallow []
  have hlockstep := Lockstep.mapOperands (t := t) fun e he =>
    lockstep_walkOperand (h.plain e he) (hshallow e he) e.1
  obtain ⟨hvalue, w', hwalk, htable, -⟩ :=
    hlockstep (some (.start table, [])) (table, []) ⟨_, rfl, rfl, .refl table⟩
  unfold walk settle
  split
  · -- Nothing is recorded, and nothing is walked.
    exact ⟨.start table, rfl, (Leads.refl _).stop t.heldIds⟩
  · rw [← mapOperands_state, hwalk] at hfold
    cases hfold
    refine ⟨w, ?_, hleads⟩
    have hrun : t.mapOperands walkOperand (some (.start table, [])) =
        ((t.mapOperands (settleOperand (settlingDepth table)) (table, [])).1, some (w, _)) :=
      Prod.ext hvalue hwalk
    rw [hrun]
    dsimp only
    rw [htable]
    rfl

end Template

/-! ## Collections that are staged apart -/

namespace Placeholders

/-- Every placeholder stages a sequence or mapping of a document that no other one stages: each node
is found at a place of its own among the collections of the document. -/
def StageApart (table : Placeholders) (document : Node) : Prop :=
  ∃ places : List Nat, places.Nodup ∧
    List.Forall₂ (fun place p => document.everyCollection[place]? = some p.node) places table

/-- Nodes that are some of the collections of a document, each at most once, have places of their
own. -/
theorem stageApart_of_remains {table : Placeholders} {document : Node}
    (h : Remains False (table.map Placeholder.node) document.everyCollection) :
    table.StageApart document := by
  obtain ⟨places, hnodup, hplaces⟩ := h.exists_places
  rw [List.forall₂_map_right_iff] at hplaces
  exact ⟨places, hnodup, hplaces⟩

/-- There are no more placeholders than collections. -/
theorem length_le_of_remains {table : Placeholders} {document : Node}
    (h : Remains False (table.map Placeholder.node) document.everyCollection) :
    table.length ≤ document.collections := by
  have hlength := h.length_le
  rwa [List.length_map, Node.length_everyCollection] at hlength

end Placeholders

namespace Template

/-- What elaboration leaves reserves different collections of the document. -/
theorem Ready.lawful {t : Template} {table : Placeholders} {nodes : List Node}
    (h : t.Ready False table) (hdrawn : Placeholders.Drawn nodes table) :
    (Walk.start table).Lawful nodes t.heldIds := by
  refine .start hdrawn h.nodup fun id hid => ?_
  -- A placeholder that an operand holds is in the table.
  obtain ⟨e, he, hid⟩ := List.mem_flatMap.1 hid
  obtain ⟨occ, hocc, rfl⟩ := List.mem_map.1 hid
  obtain ⟨p, hp, -⟩ := h.ready e he occ hocc
  exact (List.getElem?_eq_some_iff.1 hp).1

/-- Where elaboration succeeds, the walk over what it leaves has an end, and it gives what settling
gives. No table on the way holds anything that the last one does not; its placeholders stage
different collections of the document, so it is no longer than there are any. No placeholder is
visited twice, and none but those that were visited is resolved. -/
theorem walk_of_elaborate {document : Node} {staged : Template} {table : Placeholders}
    (h : elaborate Placeholder.staging document [] = (.ok staged, table)) :
    ∃ w : Walk, staged.walk table = some (staged.settle table, w) ∧
      (∀ seen ∈ table :: w.table :: w.visits.map Visit.table,
        w.table.Extends seen ∧ seen.StageApart document ∧ seen.length ≤ document.collections) ∧
      w.visited.Nodup ∧
      ∀ id p, w.table[id]? = some p → p.resolved = true → id ∈ w.visited := by
  cases document with
  | map root =>
    obtain ⟨-, hsections⟩ := elaborate_eq_ok.1 h
    -- No condition on names is needed, since only placeholders that are held are walked.
    obtain ⟨hready, -⟩ := ready_of_attemptSections False.elim hsections
    have hdrawn := drawsFrom_elaborate (.map root) []
    rw [h] at hdrawn
    obtain ⟨new, rfl, hdrawn⟩ := hdrawn
    obtain ⟨w, hwalk, hleads⟩ := hready.exists_walk
    have hstart := hready.lawful hdrawn
    rw [← List.append_nil staged.heldIds] at hstart
    -- At the end nothing is left to visit, and all nodes that are staged are apart.
    have hend := hleads.lawful _ [] hstart
    refine ⟨w, hwalk, fun seen hseen => ?_, ?_, hend.resolved⟩
    · have hextends : w.table.Extends seen := by
        rcases List.mem_cons.1 hseen with rfl | hseen
        · exact hleads.extends_before
        rcases List.mem_cons.1 hseen with rfl | hseen
        · exact .refl _
        · obtain ⟨v, hv, rfl⟩ := List.mem_map.1 hseen
          exact hend.tables v hv
      have hapart := (Remains.of_sublist hextends.nodes.sublist).trans
        ((Remains.of_sublist (List.sublist_append_left _ _)).trans hend.apart)
      exact ⟨hextends, Placeholders.stageApart_of_remains hapart,
        Placeholders.length_le_of_remains hapart⟩
    · have hnodup := hend.nodup
      rwa [List.append_nil] at hnodup
  | _ => cases (Prod.mk.inj h).1

/-- A document with a list that is staged, and in it a call with a list of its own, which is staged
only when the first one is resolved. -/
def nestedLists : Node :=
  .map
    [(.string "Resources", .map [(.string "R", .map [(.string "Type", .string "T")])]),
      (.string "Outputs", .map
        [(.string "A", .map [(.string "Value", .map [(.string "Fn::Join", .seq
          [.string ",", .seq [.map [(.string "Fn::Join", .seq
            [.string "-", .seq [.string "a", .string "b"]])], .string "c"]])])])])]

/-- The second list is recorded while the first one is walked, and both are apart. -/
theorem nestedLists_walk : ∃ staged table, elaborate Placeholder.staging nestedLists [] =
    (.ok staged, table) ∧ table.length = 1 ∧ ∃ t w, staged.walk table = some (.ok t, w) ∧
      w.table.StageApart nestedLists ∧ w.table.length ≤ 11 ∧ w.visited.Nodup := by
  have htexts : nestedLists.textsDiffer = true := by decide +kernel
  have hnames : nestedLists.NamesDiffer := fun area => by cases area <;> decide +kernel
  have hdirect : (ofDocumentDirectly nestedLists).toBool = true := by decide +kernel
  have hlength : (elaborate Placeholder.staging nestedLists []).2.length = 1 := by decide +kernel
  have hcollections : nestedLists.collections = 11 := by decide +kernel
  cases hanswer : ofDocumentDirectly nestedLists with
  | error faults =>
    rw [hanswer] at hdirect
    cases hdirect
  | ok direct =>
    obtain ⟨t, ht⟩ := exists_ofDocument htexts hnames hanswer
    rcases hstaged : elaborate Placeholder.staging nestedLists [] with ⟨faults | staged, table⟩ <;>
      rw [ofDocument, hstaged] at ht
    · cases ht
    · rw [hstaged] at hlength
      obtain ⟨w, hwalk, htables, hnodup, -⟩ := walk_of_elaborate hstaged
      obtain ⟨-, hapart, hbound⟩ := htables w.table (by simp)
      rw [show staged.settle table = .ok t from ht] at hwalk
      exact ⟨staged, table, rfl, hlength, t, w, hwalk, hapart, hcollections ▸ hbound, hnodup⟩

end Template

end StackTemplate
