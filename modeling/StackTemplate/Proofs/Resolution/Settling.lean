import StackTemplate.Proofs.Resolution.Staging

/-!
# Settling of placeholders

Settling an operand keeps what it stands for: expanding the settled operand gives what expanding the
operand gave, and every placeholder that is resolved is accounted for by a staged resolution that
succeeded. Where all placeholders of a table are resolved, all of them have a meaning.

* `Operand.settleSlot` : settling the operand in a slot.
* `Operand.settles_of_settle` : what a successful settling leaves.
* `Placeholders.Accounted.meaningful` : what is resolved has a meaning.
-/

namespace StackTemplate

namespace Operand

/-! ## Refilled operands -/

variable {o : Operand} {ys zs : List Operand}

/-- An operand has as many parts as children. -/
theorem length_parts (o : Operand) : o.parts.length = o.children.length := by
  rw [← map_snd_children, List.length_map]

/-- An operand that is no placeholder takes the parts that it is given. -/
theorem parts_refill (hne : ∀ id, o ≠ .pending id) (h : ys.length = o.parts.length) :
    (o.refill ys).parts = ys := by
  cases o with
  | scalar s => exact (List.length_eq_zero_iff.1 h).symm
  | pending id => exact absurd rfl (hne id)
  | list items => rfl
  | map entries =>
    refine List.map_snd_zip ?_
    simpa [parts, Entries.values, Entries.keys] using Nat.le_of_eq h
  | call c => exact Call.operands_refill h

/-- Only the shape of a refilled operand counts. -/
theorem refill_refill (h : ys.length = o.parts.length) : (o.refill ys).refill zs = o.refill zs := by
  cases o with
  | scalar s => rfl
  | pending id => rfl
  | list items => rfl
  -- The keys come back out of the zip, since there is a value for each.
  | map entries =>
    have hlength : (Entries.keys entries).length ≤ ys.length := by
      simpa [parts, Entries.values, Entries.keys] using Nat.le_of_eq h.symm
    simp only [refill, layer, Layer.refill, Layer.toOperand, Entries.keys] at hlength ⊢
    rw [List.map_fst_zip hlength]
  | call c => exact congrArg Operand.call (Call.refill_refill h)

theorem refill_ne_pending (hne : ∀ id, o ≠ .pending id) (ys : List Operand) (id : Nat) :
    o.refill ys ≠ .pending id := by
  cases o with
  | pending id => exact absurd rfl (hne id)
  | _ => simp [refill, layer, Layer.refill, Layer.toOperand]

/-- Expanding an operand with other parts expands these. -/
theorem expand_refill {table : Placeholders} (hne : ∀ id, o ≠ .pending id)
    (h : ys.length = o.parts.length) :
    (o.refill ys).expand table = (ys.mapM (expand table)).map o.refill := by
  have hrefill : (o.refill ys).refill = o.refill := funext fun zs => refill_refill h
  rw [expand_eq (refill_ne_pending hne ys), parts_refill hne h, hrefill]

/-- An operand with other parts is free of placeholders if these are. -/
theorem hasPending_refill (hne : ∀ id, o ≠ .pending id) (h : ys.length = o.parts.length)
    (hys : ∀ y ∈ ys, y.hasPending = false) : (o.refill ys).hasPending = false := by
  rw [hasPending_eq (refill_ne_pending hne ys), parts_refill hne h, List.any_eq_false]
  exact fun y hy => by simp [hys y hy]

/-! ## Settling the operand in a slot -/

/-- Induction along settling: a statement about an operand at a depth may rely on the parts of the
operand at this depth and on all operands at lesser depths. -/
theorem settling_induction {P : Nat → Operand → Prop}
    (step : ∀ depth o, (∀ lesser < depth, ∀ x, P lesser x) → (∀ x ∈ o.parts, P depth x) →
      P depth o) (depth : Nat) (o : Operand) : P depth o := by
  induction depth using Nat.strongRecOn generalizing o with
  | ind depth ihDepth =>
    induction o using Operand.induction with
    | step o ihPart => exact step depth o ihDepth ihPart

/-- Settles the operand in a slot of a call or of a collection: a placeholder is resolved first. -/
def settleSlot (depth : Nat) (path : String) (owner : Option Intrinsic) (slot : Slot)
    (x : Operand) : Resolution Placeholders Operand :=
  match x, depth with
  | .pending id, depth + 1 => do
    let x ← Placeholder.resolve id owner slot (path ++ slot.segment)
    x.settle depth (path ++ slot.segment)
  | x, depth => x.settle depth (path ++ slot.segment)

theorem call?_map_function (o : Operand) : o.call?.map Call.function = o.layer.owner? := by
  cases o <;> rfl

/-- Settling an operand settles its children one after the other. -/
theorem settle_eq (depth : Nat) (path : String) (o : Operand) :
    o.settle depth path = o.refill <$> o.children.mapM fun e =>
      settleSlot depth path o.layer.owner? e.1 e.2 := by
  rw [settle, ← traverse_eq o fun slot x => settleSlot depth path o.layer.owner? slot x]
  refine congrArg (traverse o) ?_
  funext slot x _
  rw [← call?_map_function]
  unfold settleSlot
  cases x <;> cases depth <;> rfl

/-- Attempting to settle an operand attempts to settle its children one after the other. -/
theorem attempt_settle (depth : Nat) (path : String) (o : Operand) :
    (o.settle depth path).attempt = o.refill <$> o.children.mapM fun e =>
      (settleSlot depth path o.layer.owner? e.1 e.2).attempt := by
  rw [settle_eq, Resolution.attempt_map, Resolution.attempt_mapM]

theorem settleSlot_of_ne_pending {x : Operand} (h : ∀ id, x ≠ .pending id) (depth : Nat)
    (path : String) (owner : Option Intrinsic) (slot : Slot) :
    settleSlot depth path owner slot x = x.settle depth (path ++ slot.segment) := by
  cases x with
  | pending id => exact absurd rfl (h id)
  | _ => rfl

end Operand

namespace Placeholder

/-- A placeholder is resolved if it waits and is found where it was recorded for. -/
theorem attempt_resolve_eq_some {id : Nat} {owner : Option Intrinsic} {slot : Slot} {path : String}
    {table table' : Placeholders} {x : Operand} :
    (resolve id owner slot path).attempt table = some (x, table') ↔
      ∃ p table₁, table[id]? = some p ∧ p.resolved = false ∧ owner = some p.target.owner ∧
        slot = p.target.slot ∧
        (p.node.resolve staging p.context).attempt table = some (x, table₁) ∧
        table' = table₁.modify id fun p => { p with resolved := true } := by
  have hget : (get : Resolution Placeholders Placeholders).attempt table = some (table, table) := rfl
  rw [resolve, Resolution.attempt_bind, Attempt.bind_eq_some]
  simp only [hget, Option.some.injEq, Prod.mk.injEq]
  constructor
  · -- One case for each check that `resolve` makes before it turns to the node.
    rintro ⟨_, _, ⟨rfl, rfl⟩, h⟩
    cases hp : table[id]? with
    | none => simp [hp] at h
    | some p =>
      simp only [hp] at h
      by_cases hresolved : p.resolved = true
      · simp [hresolved] at h
      · by_cases hplace : owner ≠ some p.target.owner ∨ slot ≠ p.target.slot
        · simp [hresolved, hplace] at h
        · rw [if_neg hresolved, if_neg hplace, Resolution.attempt_bind, Attempt.bind_eq_some] at h
          obtain ⟨x', table₁, hx, h⟩ := h
          rw [Resolution.attempt_bind, Attempt.bind_eq_some] at h
          obtain ⟨u, table₂, hmodify, h⟩ := h
          cases hmodify
          cases h
          simp only [ne_eq, not_or, not_not] at hplace
          exact ⟨p, table₁, rfl, by simpa using hresolved, hplace.1, hplace.2, hx, rfl⟩
  · -- All checks are passed, and the node is resolved.
    rintro ⟨p, table₁, hp, hresolved, howner, hslot, hx, rfl⟩
    refine ⟨table, table, ⟨rfl, rfl⟩, ?_⟩
    simp only [hp, hresolved, howner, hslot]
    simp only [Bool.false_eq_true, if_false, ne_eq, not_true_eq_false, or_self]
    rw [Resolution.attempt_bind, Attempt.bind_eq_some]
    exact ⟨x, table₁, hx, rfl⟩

end Placeholder

/-! ## What settling leaves -/

namespace Placeholders

/-- Every placeholder stands for a collection; one that is resolved was resolved successfully, and
those that its node brought are in the table. -/
structure Accounted (table : Placeholders) : Prop where
  collections : ∀ p ∈ table, p.node.isCollection = true
  resolutions : ∀ p ∈ table, p.resolved = true → ∃ earlier x new,
    (p.node.resolve Placeholder.staging p.context).attempt earlier = some (x, earlier ++ new) ∧
      ∀ q ∈ new, ∃ q' ∈ table, q'.node = q.node ∧ q'.context = q.context

/-- Every placeholder stands for a collection that has a meaning. -/
def Meaningful (table : Placeholders) : Prop :=
  ∀ p ∈ table, p.meaning?.isSome = true ∧ p.node.isCollection = true

/-- The table with one placeholder marked as resolved. -/
def mark (table : Placeholders) (id : Nat) : Placeholders :=
  table.modify id fun p => { p with resolved := true }

/-- Marking a placeholder does not count as a change to the table. -/
theorem extends_mark (table : Placeholders) (id : Nat) : Extends (table.mark id) table := by
  have hsame : (table.mark id).map (fun p => { p with resolved := false }) =
      table.map fun p => { p with resolved := false } := by
    refine List.ext_getElem? fun i => ?_
    rw [mark, List.getElem?_map, List.getElem?_map, List.getElem?_modify]
    cases table[i]? with
    | none => rfl
    | some p => by_cases h : id = i <;> simp [h]
  exact ⟨[], (List.append_nil _).trans hsame.symm⟩

/-- A placeholder that may be marked is still found with its node and place. -/
theorem mem_mark {table : Placeholders} (id : Nat) {p : Placeholder} (h : p ∈ table) :
    ∃ q ∈ table.mark id, q.node = p.node ∧ q.context = p.context := by
  obtain ⟨i, hi⟩ := List.mem_iff_getElem?.1 h
  obtain ⟨q, hq, -, hcontext, hnode⟩ := (extends_mark table id).getElem? hi
  exact ⟨q, List.mem_of_getElem? hq, hnode, hcontext⟩

/-- If all placeholders of a table have a meaning, so have those of an earlier one. -/
theorem Meaningful.of_extends {later earlier : Placeholders} (h : later.Meaningful)
    (hextends : later.Extends earlier) : earlier.Meaningful := by
  intro p hp
  obtain ⟨i, hi⟩ := List.mem_iff_getElem?.1 hp
  obtain ⟨q, hq, -, hcontext, hnode⟩ := hextends.getElem? hi
  have hmeaning := h q (List.mem_of_getElem? hq)
  rw [Placeholder.meaning?, hcontext, hnode] at hmeaning
  exact hmeaning

end Placeholders

namespace Operand

/-- A settled operand stands for what the operand stood for, and it is free of placeholders if none
of those of the operand was too deep. -/
structure Stands (depth : Nat) (later : Placeholders) (owner : Option Intrinsic) (slot : Slot)
    (o settled : Operand) : Prop where
  expands : ∀ b, o.expand later = some b → settled.expand later = some b
  finished : (∀ e ∈ o.occurrences owner slot, ∃ p, later[e.id]? = some p ∧ p.node.depth < depth) →
    settled.hasPending = false

/-- What a successful settling of the operand in a slot leaves. -/
structure Settles (depth : Nat) (before after : Placeholders) (owner : Option Intrinsic)
    (slot : Slot) (o settled : Operand) : Prop where
  extends_before : after.Extends before
  accounted : before.Accounted → after.Accounted
  stands : ∀ later : Placeholders, later.Extends after → later.Meaningful →
    Stands depth later owner slot o settled

end Operand

namespace Node

/-- Where every placeholder has a meaning, what a staged resolution gives stands for what a direct
one gives. -/
theorem expands_of_meaningful {node : Node} {ctx : Context} {table new later : Placeholders}
    {x : Operand}
    (h : (node.resolve Placeholder.staging ctx).attempt table = some (x, table ++ new))
    (hlater : later.Extends (table ++ new)) (hmeaningful : later.Meaningful) :
    ∃ b, (node.resolve Staging.none ctx).attempt () = some (b, ()) ∧ x.expand later = some b := by
  -- A flaw is a placeholder without a meaning, of which the later table has none.
  cases mirrors_resolve node ctx table with
  | fails hx _ =>
    rw [hx] at h
    cases h
  | @flawed x' new' p hx _ hp hnone =>
    rw [hx] at h
    simp only [Option.some.injEq, Prod.mk.injEq, List.append_cancel_left_eq] at h
    obtain ⟨rfl, rfl⟩ := h
    have hsome := ((hmeaningful.of_extends hlater) p (List.mem_append_right table hp)).1
    rw [hnone] at hsome
    cases hsome
  | @agrees x' b new' hx hy _ hexpands =>
    rw [hx] at h
    simp only [Option.some.injEq, Prod.mk.injEq, List.append_cancel_left_eq] at h
    obtain ⟨rfl, rfl⟩ := h
    exact ⟨b, hy, hexpands later hlater⟩

end Node

/-- A recorded placeholder is found in every later table. -/
theorem Placeholders.exists_of_mem_newIds {table new later : Placeholders} {id : Nat}
    (hid : id ∈ newIds table new) (hlater : later.Extends (table ++ new)) :
    ∃ q ∈ new, ∃ p, later[id]? = some p ∧ p.node = q.node ∧ p.context = q.context := by
  rw [newIds, List.mem_range'_1] at hid
  have hlt : id - table.length < new.length := by omega
  -- New numbers start behind those of the table.
  have hget : (table ++ new)[id]? = some new[id - table.length] := by
    rw [List.getElem?_append_right hid.1]
    exact List.getElem?_eq_getElem hlt
  obtain ⟨p, hp, -, hcontext, hnode⟩ := hlater.getElem? hget
  exact ⟨_, List.getElem_mem hlt, p, hp, hnode, hcontext⟩

/-- An occurrence of a placeholder for a collection of limited depth. -/
def Occurrence.Shallow (table : Placeholders) (depth : Nat) (e : Occurrence) : Prop :=
  ∃ p, table[e.id]? = some p ∧ p.node.isCollection = true ∧ p.node.depth < depth

/-- An occurrence stays shallow in later tables. -/
theorem Occurrence.Shallow.of_extends {earlier later : Placeholders} {depth : Nat} {e : Occurrence}
    (h : e.Shallow earlier depth) (hlater : later.Extends earlier) : e.Shallow later depth := by
  obtain ⟨p, hp, hcollection, hdepth⟩ := h
  obtain ⟨q, hq, -, -, hnode⟩ := hlater.getElem? hp
  refine ⟨q, hq, ?_, ?_⟩
  · rw [hnode, hcollection]
  · rw [hnode]
    exact hdepth

/-- What a placeholder is resolved to holds placeholders that it brings, and none of these is as
deep. -/
theorem Placeholder.shallow_of_resolve {depth : Nat} {owner : Option Intrinsic} {slot : Slot}
    {table new later : Placeholders} {p : Placeholder} {x : Operand}
    (hcollection : p.node.isCollection = true) (hdepth : p.node.depth < depth + 1)
    (hx : (p.node.resolve Placeholder.staging p.context).attempt table = some (x, table ++ new))
    (hlater : later.Extends (table ++ new)) :
    Remains False (x.ids owner slot) (newIds table new) ∧
      ∀ e ∈ x.occurrences owner slot, e.Shallow later depth := by
  obtain ⟨new', hnew', hrecords, hplaced⟩ :=
    p.node.leaves_resolve False False.elim p.context owner slot table x _ hx
  obtain rfl := List.append_cancel_left hnew'
  have hids := (hplaced later hlater).remains
  refine ⟨hids, fun e he => ?_⟩
  obtain ⟨q, hq, r, hr, hnode, -⟩ :=
    Placeholders.exists_of_mem_newIds (hids.subset (List.mem_map.2 ⟨e, he, rfl⟩)) hlater
  -- Strictly within a collection the depth is less.
  have hless := (hrecords q hq).within.depth_lt hcollection
  refine ⟨r, hr, ?_, ?_⟩
  · rw [hnode, (hrecords q hq).collection]
  · rw [hnode]
    omega

/-- Resolving a placeholder accounts for it. -/
theorem Placeholders.Accounted.mark {table new : Placeholders} (h : table.Accounted) {id : Nat}
    {p : Placeholder} (hp : table[id]? = some p) {x : Operand}
    (hx : (p.node.resolve Placeholder.staging p.context).attempt table = some (x, table ++ new))
    (hnew : ∀ q ∈ new, q.resolved = false ∧ q.node.isCollection = true) :
    Accounted (Placeholders.mark (table ++ new) id) := by
  constructor
  · intro q hq
    obtain ⟨i, hi⟩ := List.mem_iff_getElem?.1 hq
    obtain ⟨r, hr, -, -, hnode⟩ := (extends_mark (table ++ new) id).getElem?_earlier
      (List.length_modify _ _ _) hi
    rw [hnode]
    rcases List.mem_append.1 (List.mem_of_getElem? hr) with hold | hrecent
    · exact h.collections r hold
    · exact (hnew r hrecent).2
  intro q hq hresolved
  obtain ⟨i, hi⟩ := List.mem_iff_getElem?.1 hq
  rw [Placeholders.mark, List.getElem?_modify] at hi
  by_cases hid : id = i
  · -- The placeholder that is marked: its resolution is the one at hand.
    subst hid
    have hlt : id < table.length := (List.getElem?_eq_some_iff.1 hp).1
    rw [List.getElem?_append_left hlt, hp] at hi
    simp only [if_true, Option.map_eq_map, Option.map_some, Option.some.injEq] at hi
    subst hi
    exact ⟨table, x, new, hx, fun r hr => mem_mark id (List.mem_append_right table hr)⟩
  · -- Any other one was accounted for before, as what is recorded now is still waiting.
    simp only [hid, if_false, id_map'] at hi
    rcases List.mem_append.1 (List.mem_of_getElem? hi) with hold | hrecent
    · obtain ⟨earlier, x', new', hx', hnew'⟩ := h.resolutions q hold hresolved
      refine ⟨earlier, x', new', hx', fun r hr => ?_⟩
      obtain ⟨r', hr', hnode, hcontext⟩ := hnew' r hr
      obtain ⟨r'', hr'', hnode', hcontext'⟩ :=
        mem_mark id (List.mem_append_left new hr')
      exact ⟨r'', hr'', hnode'.trans hnode, hcontext'.trans hcontext⟩
    · simp [hnew q hrecent] at hresolved

/-- Where every placeholder of a table is resolved, all of them have a meaning. -/
theorem Placeholders.Accounted.meaningful {table : Placeholders} (h : table.Accounted)
    (hresolved : ∀ p ∈ table, p.resolved = true) : table.Meaningful := by
  intro p hp
  refine ⟨?_, h.collections p hp⟩
  -- The induction is along the node: what it brought lies within it.
  induction hn : p.node using Node.induction generalizing p with
  | step node ih =>
    subst hn
    obtain ⟨earlier, x, new, hx, hnew⟩ := h.resolutions p hp (hresolved p hp)
    have hmirrors := Node.mirrors_resolve p.node p.context earlier
    rw [Placeholder.meaning?, Option.isSome_map]
    change ((p.node.resolve Staging.none p.context).attempt ()).isSome = true
    cases hmirrors with
    | fails hstaged _ =>
      rw [hstaged] at hx
      cases hx
    | @flawed x' new' q hstaged _ hq hnone =>
      rw [hstaged] at hx
      simp only [Option.some.injEq, Prod.mk.injEq, List.append_cancel_left_eq] at hx
      obtain ⟨-, rfl⟩ := hx
      obtain ⟨new'', hnew'', hrecords⟩ := Node.records_of_resolve hstaged
      obtain rfl := List.append_cancel_left hnew''
      obtain ⟨q', hq', hnode, hcontext⟩ := hnew q hq
      have hwithin : q'.node.Within p.node := by
        rw [hnode]
        exact (hrecords q hq).within
      have hmeaning := ih q'.node hwithin q' hq' rfl
      rw [Placeholder.meaning?, hcontext, hnode] at hmeaning
      rw [Placeholder.meaning?] at hnone
      rw [hnone] at hmeaning
      cases hmeaning
    | agrees _ hdirect _ _ =>
      rw [hdirect]
      rfl

namespace Operand

/-- Settling what a placeholder is resolved to settles the placeholder. -/
theorem Settles.of_pending {depth id : Nat} {owner : Option Intrinsic} {slot : Slot}
    {table new after : Placeholders} {p : Placeholder} {x settled : Operand}
    (hp : table[id]? = some p)
    (hx : (p.node.resolve Placeholder.staging p.context).attempt table = some (x, table ++ new))
    (h : Settles depth (Placeholders.mark (table ++ new) id) after owner slot x settled) :
    Settles (depth + 1) table after owner slot (.pending id) settled := by
  obtain ⟨new', hnew', hrecords⟩ := Node.records_of_resolve hx
  obtain rfl := List.append_cancel_left hnew'
  have hmark := Placeholders.extends_mark (table ++ new) id
  have hafter : after.Extends (table ++ new) := h.extends_before.trans hmark
  constructor
  · exact hafter.append_left
  · intro haccounted
    exact h.accounted
      (haccounted.mark hp hx fun q hq => ⟨(hrecords q hq).waiting, (hrecords q hq).collection⟩)
  · intro later hlater hmeaningful
    have hextends : later.Extends (table ++ new) := hlater.trans hafter
    obtain ⟨q, hq, -, hcontext, hnode⟩ := hextends.append_left.getElem? hp
    -- What the node is resolved to stands for what it means, and settling keeps that.
    obtain ⟨b, hdirect, hexpands⟩ := Node.expands_of_meaningful hx hextends hmeaningful
    have hmeaning : q.meaning? = some b := by
      rw [Placeholder.meaning?, hcontext, hnode, Node.resolveDirectly]
      change Option.map Prod.fst ((p.node.resolve Staging.none p.context).attempt ()) = some b
      rw [hdirect, Option.map_some]
    have hstands := h.stands later hlater hmeaningful
    constructor
    · intro c hc
      rw [expand_pending, hq, Option.bind_some, hmeaning] at hc
      cases hc
      exact hstands.expands b hexpands
    · intro hshallow
      obtain ⟨q', hq', hdepth⟩ := hshallow ⟨id, owner, slot⟩ (by simp)
      simp only [hq, Option.some.injEq] at hq'
      subst hq'
      have hcollection : q.node.isCollection = true := (hmeaningful q (List.mem_of_getElem? hq)).2
      rw [hnode] at hdepth hcollection
      -- What a collection brings is less deep than the collection.
      refine hstands.finished fun e he => ?_
      obtain ⟨r, hr, -, hless⟩ :=
        (Placeholder.shallow_of_resolve hcollection hdepth hx hextends).2 e he
      exact ⟨r, hr, hless⟩

/-- Settling children one after the other. -/
theorem settles_mapM {depth : Nat} {path : String} {owner : Option Intrinsic}
    {children : List (Slot × Operand)}
    (h : ∀ e ∈ children, ∀ table y after,
      (settleSlot depth path owner e.1 e.2).attempt table = some (y, after) →
        Settles depth table after owner e.1 e.2 y)
    {table after : Placeholders} {ys : List Operand}
    (hys : (children.mapM fun e => (settleSlot depth path owner e.1 e.2).attempt) table =
      some (ys, after)) :
    after.Extends table ∧ (table.Accounted → after.Accounted) ∧
      ∀ later : Placeholders, later.Extends after → later.Meaningful →
        List.Forall₂ (fun e y => Stands depth later owner e.1 e.2 y) children ys := by
  induction children generalizing table ys with
  | nil =>
    cases hys
    exact ⟨.refl _, id, fun _ _ _ => .nil⟩
  | cons e children ih =>
    rw [List.mapM_cons] at hys
    obtain ⟨y, table₁, hy, hys⟩ := Attempt.bind_eq_some.1 hys
    obtain ⟨ys', table₂, hys', hlast⟩ := Attempt.bind_eq_some.1 hys
    cases hlast
    have hfirst := h e List.mem_cons_self table y table₁ hy
    obtain ⟨hextends, haccounted, hstands⟩ :=
      ih (fun f hf => h f (List.mem_cons_of_mem e hf)) hys'
    -- The first child was settled in an earlier table, which the last one extends.
    refine ⟨hextends.trans hfirst.extends_before, fun ha => haccounted (hfirst.accounted ha), ?_⟩
    intro later hlater hmeaningful
    exact .cons (hfirst.stands later (hlater.trans hextends) hmeaningful)
      (hstands later hlater hmeaningful)

/-- Settled children stand for the same operands, one by one. -/
theorem expand_of_stands {depth : Nat} {later : Placeholders} {owner : Option Intrinsic}
    {children : List (Slot × Operand)} {ys bs : List Operand}
    (h : List.Forall₂ (fun e y => Stands depth later owner e.1 e.2 y) children ys)
    (hbs : (children.map Prod.snd).mapM (expand later) = some bs) :
    ys.mapM (expand later) = some bs := by
  rw [mapM_eq_some_iff] at hbs ⊢
  rw [List.forall₂_map_left_iff] at hbs
  induction h generalizing bs with
  | nil =>
    cases hbs
    exact .nil
  | cons hstands _ ih =>
    cases hbs with
    | cons hb hbs => exact .cons (hstands.expands _ hb) (ih hbs)

/-- Settled children are free of placeholders if none of those of the children was too deep. -/
theorem finished_of_stands {depth : Nat} {later : Placeholders} {owner : Option Intrinsic}
    {children : List (Slot × Operand)} {ys : List Operand}
    (h : List.Forall₂ (fun e y => Stands depth later owner e.1 e.2 y) children ys)
    (hshallow : ∀ e ∈ children.flatMap fun e => e.2.occurrences owner e.1,
      ∃ p, later[e.id]? = some p ∧ p.node.depth < depth) :
    ∀ y ∈ ys, y.hasPending = false := by
  induction h with
  | nil => simp
  | cons hstands _ ih =>
    intro y hy
    simp only [List.flatMap_cons, List.mem_append] at hshallow
    rcases List.mem_cons.1 hy with rfl | hy
    · exact hstands.finished fun e he => hshallow e (.inl he)
    · exact ih (fun e he => hshallow e (.inr he)) y hy

/-- An operand whose children are settled is settled. -/
theorem Stands.refill {depth : Nat} {later : Placeholders} {owner : Option Intrinsic} {slot : Slot}
    {o : Operand} {ys : List Operand} (hne : ∀ id, o ≠ .pending id)
    (h : List.Forall₂ (fun e y => Stands depth later o.layer.owner? e.1 e.2 y) o.children ys) :
    Stands depth later owner slot o (o.refill ys) := by
  have hlength : ys.length = o.parts.length := by
    rw [length_parts, h.length_eq]
  constructor
  · intro b hb
    rw [expand_eq hne, Option.map_eq_some_iff] at hb
    obtain ⟨bs, hbs, rfl⟩ := hb
    rw [← map_snd_children] at hbs
    rw [expand_refill hne hlength, expand_of_stands h hbs, Option.map_some]
  · intro hshallow
    rw [occurrences_eq hne] at hshallow
    exact hasPending_refill hne hlength (finished_of_stands h hshallow)

/-- A successful settling keeps what an operand stands for and accounts for the placeholders that it
resolves. -/
theorem settles_of_settle (depth : Nat) {o : Operand} (hne : ∀ id, o ≠ .pending id)
    (path : String) (owner : Option Intrinsic) (slot : Slot) {table after : Placeholders}
    {settled : Operand} (h : (o.settle depth path).attempt table = some (settled, after)) :
    Settles depth table after owner slot o settled := by
  induction depth, o using settling_induction generalizing path owner slot table after settled with
  | step depth o ihDepth ihPart =>
    rw [attempt_settle] at h
    obtain ⟨ys, hys, rfl⟩ := Attempt.map_eq_some.1 h
    -- A child that is a placeholder is settled at a lesser depth, any other one as a part.
    have hchildren : ∀ e ∈ o.children, ∀ table y after,
        (settleSlot depth path o.layer.owner? e.1 e.2).attempt table = some (y, after) →
          Settles depth table after o.layer.owner? e.1 e.2 y := by
      rintro ⟨slot, x⟩ he table y after hy
      rcases x.pending_or_ne with ⟨id, rfl⟩ | hx
      · cases depth with
        | zero =>
          -- Nothing is resolved at depth zero, and nothing is shallow enough for it.
          simp only [settleSlot] at hy
          rw [attempt_settle] at hy
          cases hy
          refine ⟨.refl table, fun ha => ha, fun later _ _ => ⟨fun b hb => hb, fun hshallow => ?_⟩⟩
          obtain ⟨p, -, hdepth⟩ := hshallow ⟨id, o.layer.owner?, slot⟩ (by simp)
          exact absurd hdepth (Nat.not_lt_zero _)
        | succ depth =>
          simp only [settleSlot, Resolution.attempt_bind] at hy
          obtain ⟨x, table₁, hx, hy⟩ := Attempt.bind_eq_some.1 hy
          obtain ⟨p, table₂, hp, -, -, -, hresolve, rfl⟩ :=
            Placeholder.attempt_resolve_eq_some.1 hx
          obtain ⟨new, rfl, -⟩ := Node.records_of_resolve hresolve
          have hne := Node.resolve_ne_pending hresolve
          exact .of_pending hp hresolve (ihDepth depth (Nat.lt_succ_self depth) x hne _ _ _ hy)
      · rw [settleSlot_of_ne_pending hx] at hy
        exact ihPart x (mem_parts_of_mem_children he) hx _ _ _ hy
    obtain ⟨hextends, haccounted, hstands⟩ := settles_mapM hchildren hys
    exact ⟨hextends, haccounted, fun later hlater hmeaningful =>
      .refill hne (hstands later hlater hmeaningful)⟩

end Operand

end StackTemplate
