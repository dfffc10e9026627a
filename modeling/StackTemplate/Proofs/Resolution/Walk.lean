import StackTemplate.Proofs.Resolution.Drawing
import StackTemplate.Proofs.Resolution.Settling

/-!
# Walks without a bound

Settling an operand takes a bound on the depth to which it follows placeholders. A walk takes none:
it goes down an operand, replaces every placeholder that it meets by what its node is resolved to,
and goes on in there. Nothing in the operand or in the table decreases on the way. What decreases is
the part of the document that may still be staged: a placeholder that waits reserves what lies
within its node, and when it is visited, the placeholders that it brings share what it had reserved.

* `Operand.walk` : the walk, which may have no end.
* `Walk.Lawful` : what is reserved for the placeholders that wait lies apart.
* `Walk.Lawful.visit` : one visit keeps the reservations apart.
* `Operand.follows_walk` : where the bound suffices, the walk ends as settling does.
-/

namespace StackTemplate

variable {α β ι : Type}

/-! ## Walks -/

/-- A visit to a placeholder, and the table after it. -/
structure Visit where
  id : Nat
  table : Placeholders

/-- How far a walk has come: the table, and the visits in their order. -/
structure Walk where
  table : Placeholders
  visits : List Visit

namespace Walk

def start (table : Placeholders) : Walk := ⟨table, []⟩

/-- The walk with one more visit, after which the table is `later`. -/
def advance (w : Walk) (id : Nat) (later : Placeholders) : Walk :=
  ⟨later, w.visits ++ [⟨id, later⟩]⟩

def visited (w : Walk) : List Nat := w.visits.map Visit.id

theorem visited_advance (w : Walk) (id : Nat) (later : Placeholders) :
    (w.advance id later).visited = w.visited ++ [id] := List.map_append

end Walk

/-- Computations on the way, which stop at a fault and may have no end. -/
abbrev Walking := ExceptT Fault (StateT Walk Option)

/-- Resolves the placeholder that was found in a slot of a call. -/
def Placeholder.visit (id : Nat) (owner : Option Intrinsic) (slot : Slot) (path : String) :
    Walking Operand := fun w =>
  let (answer, later) := (resolve id owner slot path).run w.table
  some (answer, w.advance id later)

namespace Operand

/-- The operand in a slot; a placeholder is replaced. -/
def reach (owner : Option Intrinsic) (slot : Slot) (path : String) : Operand → Walking Operand
  | .pending id => Placeholder.visit id owner slot path
  | x => pure x

/-- The operand with its placeholders replaced, and those that appear in their place. -/
def walk (path : String) (o : Operand) : Walking Operand := do
  let parts ← o.children.mapM fun e => do
    let x ← e.2.reach o.layer.owner? e.1 (path ++ e.1.segment)
    x |>.walk (path ++ e.1.segment)
  return o.refill parts
partial_fixpoint

end Operand

/-! ## Reservations -/

namespace Placeholders

/-- The nodes of an earlier table come first. -/
theorem Extends.nodes {later earlier : Placeholders} (h : later.Extends earlier) :
    earlier.map Placeholder.node <+: later.map Placeholder.node := by
  have hnodes := List.IsPrefix.map Placeholder.node h
  rwa [List.map_map, List.map_map] at hnodes

/-- The collections that lie within the node of a placeholder. -/
def within (table : Placeholders) (id : Nat) : List Node :=
  (table[id]?.map fun p => p.node.collectionsWithin).getD []

theorem within_of_getElem? {table : Placeholders} {id : Nat} {p : Placeholder}
    (h : table[id]? = some p) : table.within id = p.node.collectionsWithin := by
  rw [within, h, Option.map_some, Option.getD_some]

theorem Extends.within {later earlier : Placeholders} (h : later.Extends earlier) {id : Nat}
    (hid : id < earlier.length) : later.within id = earlier.within id := by
  have hp := List.getElem?_eq_getElem hid
  obtain ⟨q, hq, -, -, hnode⟩ := h.getElem? hp
  rw [within_of_getElem? hq, within_of_getElem? hp, hnode]

/-- What lies within the nodes of the placeholders that are recorded next. -/
theorem flatMap_within_newIds (table new : Placeholders) :
    (newIds table new).flatMap (within (table ++ new)) =
      new.flatMap fun p => p.node.collectionsWithin := by
  have hids : (newIds table new).map (within (table ++ new)) =
      new.map fun p => p.node.collectionsWithin := by
    refine List.ext_getElem (by simp [newIds]) fun i hi hi' => ?_
    have hlt : i < new.length := by simpa using hi'
    -- The new placeholders stand behind the table, in the order of their numbers.
    have hget : (table ++ new)[table.length + i]? = some new[i] := by
      rw [List.getElem?_append_right (Nat.le_add_right _ _), Nat.add_sub_cancel_left,
        List.getElem?_eq_getElem hlt]
    simp [newIds, within_of_getElem? hget]
  rw [List.flatMap_def, List.flatMap_def, hids]

/-- Of a collection that is drawn, the collection itself and what lies within it are apart. -/
theorem Drawn.remains {nodes : List Node} {new : Placeholders} (h : Drawn nodes new) :
    Remains False
      (new.map Placeholder.node ++ new.flatMap fun p => p.node.collectionsWithin) nodes := by
  have hsplit : (new.flatMap fun p => p.node.everyCollection) =
      new.flatMap fun p => [p.node] ++ p.node.collectionsWithin := by
    refine List.flatMap_congr fun p hp => ?_
    rw [Node.everyCollection_eq (h.collection p hp), List.singleton_append]
  refine .trans (.of_perm ?_) h.apart
  -- The collections themselves are moved in front of all that lies within them.
  rw [hsplit, List.map_eq_flatMap]
  exact List.flatMap_append_perm new (fun p => [p.node]) fun p => p.node.collectionsWithin

/-- The nodes that are staged, and what lies within those of the placeholders that are left. -/
def reserved (table : Placeholders) (ids : List Nat) : List Node :=
  table.map Placeholder.node ++ ids.flatMap table.within

/-- A table after a visit to a placeholder: others are added, and that one may be resolved. -/
structure After (table : Placeholders) (id : Nat) (new later : Placeholders) : Prop where
  extends_append : later.Extends (table ++ new)
  length : later.length = table.length + new.length
  others : ∀ i, i ≠ id → later[i]? = (table ++ new)[i]?

/-- After a visit that fails, what was recorded on the way is left waiting. -/
theorem after_append (table : Placeholders) (id : Nat) (new : Placeholders) :
    After table id new (table ++ new) := ⟨.refl _, List.length_append, fun _ _ => rfl⟩

/-- After a visit that succeeds, the placeholder is marked as well. -/
theorem after_mark (table : Placeholders) (id : Nat) (new : Placeholders) :
    After table id new (mark (table ++ new) id) where
  extends_append := extends_mark _ id
  length := by rw [mark, List.length_modify, List.length_append]
  others _ hi := List.getElem?_modify_ne _ _ (Ne.symm hi)

namespace After

variable {table new later : Placeholders} {id : Nat}

theorem extends_before (h : After table id new later) : later.Extends table :=
  h.extends_append.append_left

/-- What is resolved was so before, or it was visited. -/
theorem resolved (h : After table id new later) (hnew : ∀ p ∈ new, p.resolved = false) {i : Nat}
    {q : Placeholder} (hq : later[i]? = some q) (hresolved : q.resolved = true) :
    i = id ∨ table[i]? = some q := by
  refine or_iff_not_imp_left.2 fun hi => ?_
  rw [h.others i hi] at hq
  by_cases hlt : i < table.length
  · rwa [List.getElem?_append_left hlt] at hq
  · rw [List.getElem?_append_right (Nat.not_lt.1 hlt)] at hq
    rw [hnew q (List.mem_of_getElem? hq)] at hresolved
    cases hresolved

/-- A visit shares what the placeholder had reserved among those that it brings. -/
theorem remains_reserved (h : After table id new later) {p : Placeholder}
    (hp : table[id]? = some p) (hnew : Drawn p.node.collectionsWithin new) {ids : List Nat}
    (hids : ∀ i ∈ ids, i < table.length) :
    Remains False (later.reserved (newIds table new ++ ids)) (table.reserved (id :: ids)) := by
  have hnodes : later.map Placeholder.node =
      table.map Placeholder.node ++ new.map Placeholder.node := by
    rw [← List.map_append]
    refine (h.extends_append.nodes.eq_of_length ?_).symm
    rw [List.length_map, List.length_map, h.length, List.length_append]
  have hbrought : (newIds table new).flatMap later.within =
      new.flatMap fun q => q.node.collectionsWithin := by
    rw [← flatMap_within_newIds table new]
    refine List.flatMap_congr fun i hi => h.extends_append.within ?_
    rw [List.length_append]
    exact (List.mem_range'_1.1 hi).2
  have hothers : ids.flatMap later.within = ids.flatMap table.within :=
    List.flatMap_congr fun i hi => h.extends_before.within (hids i hi)
  -- What was reserved for the placeholder is shared out; all else stays as it was.
  have hshared := (Remains.refl (table.map Placeholder.node)).append
    (hnew.remains.append (.refl (ids.flatMap table.within)))
  rw [reserved, reserved, hnodes, List.flatMap_append, hbrought, hothers, List.flatMap_cons,
    within_of_getElem? hp]
  simpa only [List.append_assoc] using hshared

end After

end Placeholders

namespace Walk

/-- A walk on the way, some placeholders being left to visit. None of these was visited before, and
what lies within their nodes is apart from the node of every placeholder. -/
structure Lawful (nodes : List Node) (ids : List Nat) (w : Walk) : Prop where
  nodup : (w.visited ++ ids).Nodup
  known : ∀ id ∈ w.visited ++ ids, id < w.table.length
  apart : Remains False (w.table.reserved ids) nodes
  tables : ∀ v ∈ w.visits, w.table.Extends v.table
  resolved : ∀ id p, w.table[id]? = some p → p.resolved = true → id ∈ w.visited

namespace Lawful

variable {nodes : List Node} {ids ids' : List Nat} {w : Walk}

/-- Placeholders that were just recorded reserve different collections. -/
theorem start {table : Placeholders} (hdrawn : Placeholders.Drawn nodes table)
    (hnodup : ids.Nodup) (hknown : ∀ id ∈ ids, id < table.length) :
    (start table).Lawful nodes ids where
  nodup := hnodup
  known := hknown
  apart := by
    have hids : Remains False ids (newIds [] table) :=
      .of_nodup hnodup fun id hid => List.mem_range'_1.2 (by simpa using hknown id hid)
    have hreserved : Remains False (table.reserved ids) (table.reserved (newIds [] table)) :=
      (Remains.refl _).append (hids.flatMap _)
    have hall := Placeholders.flatMap_within_newIds [] table
    rw [List.nil_append] at hall
    refine hreserved.trans ?_
    rw [Placeholders.reserved, hall]
    exact hdrawn.remains
  tables := List.forall_mem_nil _
  resolved id p hp hresolved := by
    rw [hdrawn.waiting p (List.mem_of_getElem? hp)] at hresolved
    cases hresolved

/-- Some placeholders need not be visited. -/
theorem of_remains (h : w.Lawful nodes ids) (hids : Remains False ids' ids) :
    w.Lawful nodes ids' where
  nodup := ((Remains.refl w.visited).append hids).nodup h.nodup
  known id hid := h.known id (((Remains.refl w.visited).append hids).subset hid)
  apart := ((Remains.refl _).append (hids.flatMap _)).trans h.apart
  tables := h.tables
  resolved := h.resolved

/-- After a visit to a placeholder those that it brings are left, whether it is then resolved or
not. -/
theorem visit {id : Nat} (h : w.Lawful nodes (id :: ids)) {p : Placeholder}
    (hp : w.table[id]? = some p) {new later : Placeholders}
    (hnew : Placeholders.Drawn p.node.collectionsWithin new)
    (hlater : Placeholders.After w.table id new later) :
    (w.advance id later).Lawful nodes (newIds w.table new ++ ids) := by
  -- All that was or is to be visited was so before, or it is brought.
  have hall : (w.visited ++ [id] ++ (newIds w.table new ++ ids)).Perm
      (w.visited ++ id :: ids ++ newIds w.table new) := by
    rw [List.append_assoc, List.append_assoc, List.singleton_append]
    exact (List.perm_append_comm.cons id).append_left w.visited
  constructor
  · rw [visited_advance]
    refine hall.nodup_iff.2 (List.nodup_append.2 ⟨h.nodup, List.nodup_range', ?_⟩)
    rintro i hi _ hi' rfl
    have := h.known i hi
    have := (List.mem_range'_1.1 hi').1
    omega
  · intro i hi
    rw [visited_advance] at hi
    rw [show (w.advance id later).table.length = _ from hlater.length]
    rcases List.mem_append.1 (hall.subset hi) with hi | hi
    · exact Nat.lt_add_right _ (h.known i hi)
    · exact (List.mem_range'_1.1 hi).2
  · refine (hlater.remains_reserved hp hnew fun i hi => h.known i ?_).trans h.apart
    exact List.mem_append_right _ (List.mem_cons_of_mem id hi)
  · refine List.forall_mem_append.2 ⟨fun v hv => ?_, ?_⟩
    · exact hlater.extends_before.trans (h.tables v hv)
    · exact List.forall_mem_singleton.2 (.refl later)
  · intro i q hq hresolved
    rw [visited_advance, List.mem_append, List.mem_singleton]
    rcases hlater.resolved hnew.waiting hq hresolved with hi | hq'
    · exact .inr hi
    · exact .inl (h.resolved i q hq' hresolved)

end Lawful

/-- A walk goes on by visiting some placeholders, and all that are brought on the way. Whatever else
was left to visit is left. -/
structure Leads (w : Walk) (ids : List Nat) (w' : Walk) : Prop where
  extends_before : w'.table.Extends w.table
  lawful : ∀ nodes rest, w.Lawful nodes (ids ++ rest) → w'.Lawful nodes rest

namespace Leads

variable {w w' w'' : Walk} {ids ids' : List Nat}

theorem refl (w : Walk) : w.Leads [] w := ⟨.refl w.table, fun _ _ h => h⟩

theorem append (h : w.Leads ids w') (h' : w'.Leads ids' w'') : w.Leads (ids ++ ids') w'' := by
  refine ⟨h'.extends_before.trans h.extends_before, fun nodes rest hlawful => ?_⟩
  rw [List.append_assoc] at hlawful
  exact h'.lawful nodes rest (h.lawful nodes (ids' ++ rest) hlawful)

/-- Behind a fault, nothing more is visited. -/
theorem stop (h : w.Leads ids w') (ids' : List Nat) : w.Leads (ids ++ ids') w' := by
  refine ⟨h.extends_before, fun nodes rest hlawful => h.lawful nodes rest (hlawful.of_remains ?_)⟩
  rw [List.append_assoc]
  exact (Remains.refl ids).append (.of_sublist (List.sublist_append_right ids' rest))

/-- A visit to a placeholder leads on to where visiting some of those that it brings leads. -/
theorem visit {id : Nat} {p : Placeholder} (hp : w.table[id]? = some p)
    {new later : Placeholders} (hnew : Placeholders.Drawn p.node.collectionsWithin new)
    (hlater : Placeholders.After w.table id new later)
    (hids : Remains False ids (newIds w.table new)) (h : (w.advance id later).Leads ids w') :
    w.Leads [id] w' := by
  refine ⟨h.extends_before.trans hlater.extends_before, fun nodes rest hlawful => ?_⟩
  have hbrought := hlawful.visit hp hnew hlater
  exact h.lawful nodes rest (hbrought.of_remains (hids.append (.refl rest)))

end Leads

end Walk

/-! ## Walks that follow a resolution -/

/-- A sequence of computations on the way stops at a fault, or has no end where a part has none. -/
theorem Walking.run_bind (x : Walking α) (f : α → Walking β) (w : Walk) :
    (x >>= f).run w = (x.run w).bind fun
      | (.ok a, w') => (f a).run w'
      | (.error e, w') => some (.error e, w') := by
  have hcont : (x >>= f).run w =
      (x.run w).bind fun r => (ExceptT.bindCont f r.1 : StateT Walk Option (Except Fault β)) r.2 :=
    rfl
  rw [hcont]
  refine congrArg (x.run w).bind (funext fun r => ?_)
  rcases r with ⟨e | a, w'⟩ <;> rfl

namespace Walk

/-- From a walk on the way, a computation ends as a resolution from its table does; it visits some
placeholders, and all that are brought on the way. -/
def Follows (w : Walk) (ids : List Nat) (x : Walking α) (y : Resolution Placeholders α) : Prop :=
  ∃ w', x.run w = some ((y.run w.table).1, w') ∧ w'.table = (y.run w.table).2 ∧ w.Leads ids w'

namespace Follows

variable {w : Walk} {ids ids' : List Nat} {x : Walking α} {y : Resolution Placeholders α}

theorem pure (w : Walk) (a : α) : w.Follows [] (pure a) (pure a) := ⟨w, rfl, rfl, .refl w⟩

/-- A sequence follows a sequence of resolutions if each part follows its own. -/
theorem bind {f : α → Walking β} {g : α → Resolution Placeholders β} (hx : w.Follows ids x y)
    (hf : ∀ a (w' : Walk), w'.table.Extends w.table → w'.Follows ids' (f a) (g a)) :
    w.Follows (ids ++ ids') (x >>= f) (y >>= g) := by
  obtain ⟨w', hrun, htable, hleads⟩ := hx
  have hwalking := Walking.run_bind x f w
  have hresolution := Resolution.run_bind y g w.table
  rw [hrun] at hwalking
  rcases hanswer : y.run w.table with ⟨e | a, after⟩ <;>
    rw [hanswer] at hwalking htable hresolution
  · -- The resolution fails, and the walk stops there.
    refine ⟨w', ?_, ?_, hleads.stop ids'⟩
    · rw [hwalking, hresolution]
      rfl
    · rw [hresolution, htable]
  · obtain ⟨w'', hrun', htable', hleads'⟩ := hf a w' hleads.extends_before
    rw [show w'.table = after from htable] at hrun' htable'
    refine ⟨w'', ?_, ?_, hleads.append hleads'⟩
    · rw [hwalking, hresolution]
      exact hrun'
    · rw [hresolution, htable']

theorem map (f : α → β) (hx : w.Follows ids x y) : w.Follows ids (f <$> x) (f <$> y) := by
  rw [← bind_pure_comp, ← bind_pure_comp, ← List.append_nil ids]
  exact hx.bind fun a w' _ => .pure w' (f a)

/-- Computations one after the other, each of which may start from any later table. -/
theorem mapM {ids : ι → List Nat} {f : ι → Walking α} {g : ι → Resolution Placeholders α}
    {is : List ι}
    (h : ∀ i ∈ is, ∀ w' : Walk, w'.table.Extends w.table → w'.Follows (ids i) (f i) (g i)) :
    w.Follows (is.flatMap ids) (is.mapM f) (is.mapM g) := by
  induction is generalizing w with
  | nil => exact .pure w []
  | cons i is ih =>
    rw [List.mapM_cons, List.mapM_cons, List.flatMap_cons]
    refine (h i List.mem_cons_self w (.refl _)).bind fun a w' hw' => ?_
    have hrest := ih fun j hj w'' hw'' => h j (List.mem_cons_of_mem i hj) w'' (hw''.trans hw')
    exact hrest.map (a :: ·)

end Follows

end Walk

/-! ## Visits -/

namespace Placeholder

/-- Resolving a placeholder draws from the collections within its node, whatever comes of it. -/
theorem drawn_of_resolve {id : Nat} {table : Placeholders} {p : Placeholder}
    (hp : table[id]? = some p) (owner : Option Intrinsic) (slot : Slot) (path : String) :
    ∃ new, Placeholders.Drawn p.node.collectionsWithin new ∧
      ((∃ e, (resolve id owner slot path).run table = (.error e, table ++ new)) ∨
        ∃ x, (p.node.resolve staging p.context).attempt table = some (x, table ++ new) ∧
          (resolve id owner slot path).run table =
            (.ok x, Placeholders.mark (table ++ new) id)) := by
  have hget : (get : Resolution Placeholders Placeholders).run table = (.ok table, table) := rfl
  have hdraws := p.node.draws_resolve p.context table
  rw [resolve, Resolution.run_bind, hget]
  simp only [hp]
  -- Two checks come before the node, and neither records anything.
  split_ifs
  · exact ⟨[], .nil _, .inl ⟨_, by rw [List.append_nil]; rfl⟩⟩
  · exact ⟨[], .nil _, .inl ⟨_, by rw [List.append_nil]; rfl⟩⟩
  · rw [Resolution.run_bind]
    rcases hrun : (p.node.resolve staging p.context).run table with ⟨e | x, after⟩ <;>
      rw [hrun] at hdraws <;> obtain ⟨new, rfl, hnew⟩ := hdraws
    · exact ⟨new, hnew, .inl ⟨e, rfl⟩⟩
    · exact ⟨new, hnew, .inr ⟨x, Resolution.attempt_eq_some.2 hrun, rfl⟩⟩

/-- A visit gives what resolving the placeholder gives. -/
theorem run_visit {id : Nat} {owner : Option Intrinsic} {slot : Slot} {path : String} {w : Walk}
    {answer : Except Fault Operand} {later : Placeholders}
    (h : (resolve id owner slot path).run w.table = (answer, later)) :
    (visit id owner slot path).run w = some (answer, w.advance id later) := by
  have hvisit : (visit id owner slot path).run w =
      (fun r => some (r.1, w.advance id r.2)) ((resolve id owner slot path).run w.table) := rfl
  rw [hvisit, h]

end Placeholder

namespace Operand

open Walk (Follows)

/-- Walking an operand walks its children one after the other. -/
theorem walk_eq (path : String) (o : Operand) :
    o.walk path = o.refill <$> o.children.mapM fun e =>
      e.2.reach o.layer.owner? e.1 (path ++ e.1.segment) >>= fun x =>
        x.walk (path ++ e.1.segment) := by
  rw [walk, bind_pure_comp]

theorem reach_of_ne_pending {x : Operand} (h : ∀ id, x ≠ .pending id) (owner : Option Intrinsic)
    (slot : Slot) (path : String) : x.reach owner slot path = pure x := by
  cases x with
  | pending id => exact absurd rfl (h id)
  | _ => rfl

/-- A placeholder of limited depth is visited, and what it is resolved to is walked. -/
theorem follows_pending {depth id : Nat} {owner : Option Intrinsic} {slot : Slot} {w : Walk}
    (h : Occurrence.Shallow w.table (depth + 1) ⟨id, owner, slot⟩) (path : String)
    (hwalk : ∀ (x : Operand) (w : Walk), (∀ i, x ≠ .pending i) →
      (∀ e ∈ x.occurrences owner slot, e.Shallow w.table depth) →
        w.Follows (x.ids owner slot) (x.walk (path ++ slot.segment))
          (x.settle depth (path ++ slot.segment))) :
    w.Follows [id]
      (reach owner slot (path ++ slot.segment) (.pending id) >>= fun x =>
        x.walk (path ++ slot.segment))
      (settleSlot (depth + 1) path owner slot (.pending id)) := by
  obtain ⟨p, hp, hcollection, hdepth⟩ := h
  have hwalking := Walking.run_bind (Placeholder.visit id owner slot (path ++ slot.segment))
    (fun x => x.walk (path ++ slot.segment)) w
  have hsettling := Resolution.run_bind (Placeholder.resolve id owner slot (path ++ slot.segment))
    (fun x => x.settle depth (path ++ slot.segment)) w.table
  obtain ⟨new, hnew, ⟨e, hrun⟩ | ⟨x, hx, hrun⟩⟩ :=
    Placeholder.drawn_of_resolve hp owner slot (path ++ slot.segment)
  all_goals
    rw [Placeholder.run_visit hrun] at hwalking
    rw [hrun] at hsettling
  · -- Behind a fault, none of the placeholders that were brought is visited.
    refine ⟨w.advance id (w.table ++ new), hwalking.trans ?_, ?_, ?_⟩
    · rw [settleSlot, hsettling]
      rfl
    · rw [settleSlot, hsettling]
      rfl
    · exact .visit hp hnew (Placeholders.after_append w.table id new)
        (.of_sublist (List.nil_sublist _)) (.refl _)
  · -- The placeholder is marked, and what its node is resolved to is walked from there.
    have hafter := Placeholders.after_mark w.table id new
    obtain ⟨hids, hshallow⟩ :=
      Placeholder.shallow_of_resolve hcollection hdepth hx hafter.extends_append
    obtain ⟨w', hrun', htable, hleads⟩ :=
      hwalk x (w.advance id _) (Node.resolve_ne_pending hx) hshallow
    refine ⟨w', hwalking.trans ?_, ?_, .visit hp hnew hafter hids hleads⟩
    · rw [settleSlot, hsettling]
      exact hrun'
    · rw [settleSlot, hsettling]
      exact htable

/-- Where the placeholders of an operand are of limited depth, the walk has an end, and it is the
one that settling to this depth has. -/
theorem follows_walk (depth : Nat) {o : Operand} (hne : ∀ id, o ≠ .pending id) (path : String)
    (owner : Option Intrinsic) (slot : Slot) {w : Walk}
    (hshallow : ∀ e ∈ o.occurrences owner slot, e.Shallow w.table depth) :
    w.Follows (o.ids owner slot) (o.walk path) (o.settle depth path) := by
  induction depth, o using settling_induction generalizing path owner slot w with
  | step depth o ihDepth ihPart =>
    rw [occurrences_eq hne] at hshallow
    rw [walk_eq, settle_eq, ids_eq hne]
    refine Follows.map o.refill (Follows.mapM fun e he w' hw' => ?_)
    obtain ⟨slot, x⟩ := e
    have hchild : ∀ e ∈ x.occurrences o.layer.owner? slot, e.Shallow w'.table depth :=
      fun e hocc => (hshallow e (List.mem_flatMap.2 ⟨_, he, hocc⟩)).of_extends hw'
    -- A placeholder takes one level of depth; any other child is a part of the operand.
    rcases x.pending_or_ne with ⟨id, rfl⟩ | hx
    · have hpending : Occurrence.Shallow w'.table depth ⟨id, o.layer.owner?, slot⟩ :=
        hchild _ (by simp)
      simp only [ids, occurrences_pending, List.map_cons, List.map_nil]
      cases depth with
      | zero =>
        obtain ⟨p, -, -, hdepth⟩ := hpending
        exact absurd hdepth (Nat.not_lt_zero _)
      | succ depth =>
        exact follows_pending hpending path fun x w hne hshallow =>
          ihDepth depth (Nat.lt_succ_self depth) x hne _ _ _ hshallow
    · rw [reach_of_ne_pending hx, pure_bind, settleSlot_of_ne_pending hx]
      exact ihPart x (mem_parts_of_mem_children he) hx _ _ _ hchild

end Operand

end StackTemplate
