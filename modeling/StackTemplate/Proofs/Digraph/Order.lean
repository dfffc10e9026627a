import Mathlib.Data.List.Chain
import Mathlib.Data.List.Perm.Subperm
import StackTemplate.Proofs.Digraph.Placing

/-!
# Orders and cycles

A sub-graph without a closed walk is ordered: every member is placed once and after everything that
it reaches. Otherwise each vertex that is left over has an edge to another one, the walk among them
comes back to a vertex that it has visited, and what it went through since then is a cycle.

* `Digraph.IsCycle` : a simple cycle.
* `Digraph.Acyclic` : a sub-graph has no closed walk.
* `Digraph.order_of_acyclic`, `Digraph.order_of_not_acyclic` : what ordering answers.
-/

namespace StackTemplate.Digraph

open Relation

variable {V E : Type} [DecidableEq V] {g : Digraph V E} {member : V → Bool} {u v w : V}

/-! ## Cycles -/

/-- Distinct vertices, each with an edge to the next one, and the last one with an edge to the
first. -/
def IsCycle (g : Digraph V E) (c : List V) : Prop :=
  ∃ first rest, c = first :: rest ∧ c.Nodup ∧ (c ++ [first]).IsChain g.Points

/-- A walk among vertices that each have a target among them finds a cycle. -/
theorem isCycle_walk {remaining unvisited path : List V} {current : V}
    (htargets : ∀ u ∈ remaining, g.targets remaining u ≠ []) (hnodup : remaining.Nodup)
    (hperm : (path ++ unvisited).Perm remaining) (hcurrent : current ∈ remaining)
    (hchain : (path ++ [current]).IsChain g.Points) :
    g.IsCycle (g.walk remaining unvisited path current) ∧
      g.walk remaining unvisited path current ⊆ remaining := by
  -- The induction follows the walk: its path and the unvisited vertices make up the remaining ones.
  induction unvisited, path, current using walk.induct g remaining with
  -- Every remaining vertex has a target, so the walk does not end here.
  | case1 unvisited path current hmem hnone =>
    rw [List.head?_eq_none_iff] at hnone
    exact absurd hnone (htargets current hcurrent)
  -- The walk goes on, and one vertex fewer is unvisited.
  | case2 unvisited path current hmem next hnext ih =>
    have hpoints : g.Points current next ∧ next ∈ remaining :=
      mem_targets.1 (List.mem_of_head? hnext)
    have herase : (path ++ [current] ++ unvisited.erase current).Perm remaining := by
      rw [List.append_assoc]
      exact ((List.perm_cons_erase hmem).symm.append_left path).trans hperm
    have hextended : (path ++ [current] ++ [next]).IsChain g.Points := by
      rw [List.append_assoc]
      exact List.isChain_split.2 ⟨hchain, List.isChain_pair.2 hpoints.1⟩
    rw [walk, dif_pos hmem, hnext]
    exact ih herase hpoints.2 hextended
  -- The vertex was visited before; the path since then is the cycle.
  | case3 unvisited path current hmem =>
    have hvisited : current ∈ path :=
      (List.mem_append.1 (hperm.mem_iff.2 hcurrent)).resolve_right hmem
    obtain ⟨before, after, rfl, hbefore⟩ := List.eq_append_cons_of_mem hvisited
    have hclosed : (before ++ current :: after).dropWhile (· ≠ current) = current :: after := by
      rw [List.dropWhile_append_of_pos]
      · simp
      · intro x hx
        have hne : x ≠ current := fun heq => hbefore (heq ▸ hx)
        simpa using hne
    have hpath : (before ++ current :: after).Nodup :=
      (List.nodup_append.1 (hperm.nodup_iff.2 hnodup)).1
    rw [walk, dif_neg hmem, hclosed]
    refine ⟨⟨current, after, rfl, (List.nodup_append.1 hpath).2.1, ?_⟩, ?_⟩
    · rw [List.append_assoc, List.cons_append] at hchain
      exact hchain.right_of_append
    · intro x hx
      exact hperm.subset (List.mem_append_left _ (List.mem_append_right _ hx))

/-- Vertices that each have a target among them have a cycle. -/
theorem isCycle_cycle {remaining : List V}
    (htargets : ∀ u ∈ remaining, g.targets remaining u ≠ []) (hnodup : remaining.Nodup)
    (hne : remaining ≠ []) : g.IsCycle (g.cycle remaining) ∧ g.cycle remaining ⊆ remaining := by
  cases remaining with
  | nil => exact absurd rfl hne
  | cons v rest =>
    exact isCycle_walk htargets hnodup (List.Perm.refl _) (List.mem_cons_self ..)
      (List.isChain_singleton v)

/-! ## Orders -/

/-- The vertices that are placed are the members whose targets are all placed. -/
theorem place_initial {members : List V} (hnodup : members.Nodup) :
    (g.place (g.initial members)).Nodup ∧
      (∀ v, v ∈ g.place (g.initial members) ↔
        v ∈ members ∧ ∀ w ∈ g.targets members v, w ∈ g.place (g.initial members)) ∧
      g.Ordered members (g.place (g.initial members)) := by
  have hinitial : Run g members (g.initial members) [] := .initial
  obtain ⟨q, hrun, hdone, hplace⟩ := exists_run_place hinitial
  have hconsistent := hrun.consistent hnodup
  have hplaced := hconsistent.nodup
  have hmem := hconsistent.mem_iff
  rw [hdone, List.append_nil] at hplaced
  simp only [hdone, List.append_nil, List.count_nil, Nat.add_zero, unplaced_eq_zero_iff] at hmem
  rw [hplace]
  exact ⟨hplaced, hmem, hconsistent.ordered⟩

/-- The members that are not placed when nothing is ready any more. -/
def leftover (g : Digraph V E) (members : List V) : List V :=
  members.filter (· ∉ g.place (g.initial members))

/-- What is left over are the members that are not placed. -/
theorem mem_leftover {members : List V} :
    u ∈ g.leftover members ↔ u ∈ members ∧ u ∉ g.place (g.initial members) := by
  rw [leftover, List.mem_filter, decide_eq_true_iff]

theorem leftover_eq_nil_iff {members : List V} :
    g.leftover members = [] ↔ members ⊆ g.place (g.initial members) := by
  simp [leftover, List.filter_eq_nil_iff, List.subset_def]

/-- A member that is left over has a target that is left over. -/
theorem targets_leftover_ne_nil {members : List V} (hnodup : members.Nodup)
    (hu : u ∈ g.leftover members) : g.targets (g.leftover members) u ≠ [] := by
  obtain ⟨-, hmem, -⟩ := place_initial (g := g) hnodup
  obtain ⟨humember, huplaced⟩ := mem_leftover.1 hu
  intro hnil
  -- Without such a target, all its targets are placed, and so would it be.
  refine huplaced ((hmem u).2 ⟨humember, fun w hw => ?_⟩)
  by_contra hwplaced
  obtain ⟨hpoints, hwmember⟩ := mem_targets.1 hw
  have hwleft := mem_targets.2 ⟨hpoints, mem_leftover.2 ⟨hwmember, hwplaced⟩⟩
  rw [hnil] at hwleft
  cases hwleft

/-- As many vertices are placed as there are members exactly if every member is placed. -/
theorem length_place_eq_iff {members : List V} (hnodup : members.Nodup) :
    (g.place (g.initial members)).length = members.length ↔
      members ⊆ g.place (g.initial members) := by
  obtain ⟨hplaced, hmem, -⟩ := place_initial (g := g) hnodup
  have hsubset : g.place (g.initial members) ⊆ members := fun v hv => ((hmem v).1 hv).1
  have hsubperm := List.subperm_of_subset hplaced hsubset
  constructor
  · intro hlength
    have hperm := hsubperm.perm_of_length_le (Nat.le_of_eq hlength.symm)
    exact hperm.symm.subset
  · intro hall
    have hle := (List.subperm_of_subset hnodup hall).length_le
    exact Nat.le_antisymm hsubperm.length_le hle

/-- Where ordering succeeds, its answer has every member once, after its targets. -/
theorem order_eq_ok {vs : List V} (hnodup : g.vertices.Nodup) (h : g.order member = .ok vs) :
    vs.Nodup ∧ (∀ v, v ∈ vs ↔ v ∈ g.vertices ∧ member v = true) ∧
      g.Ordered (g.vertices.filter member) vs := by
  have hmembers : (g.vertices.filter member).Nodup := hnodup.filter member
  obtain ⟨hplaced, hmem, hordered⟩ := place_initial (g := g) hmembers
  simp only [order] at h
  split at h
  · next hlength =>
    cases h
    -- As many are placed as there are members, so all of them are.
    have hall := (length_place_eq_iff hmembers).1 hlength
    refine ⟨hplaced, ?_, hordered⟩
    intro v
    rw [← List.mem_filter]
    exact ⟨fun hv => ((hmem v).1 hv).1, fun hv => hall hv⟩
  · cases h

/-- Where ordering fails, its answer is a cycle of members. -/
theorem order_eq_error {c : List V} (hnodup : g.vertices.Nodup) (h : g.order member = .error c) :
    g.IsCycle c ∧ ∀ v ∈ c, v ∈ g.vertices ∧ member v = true := by
  have hmembers : (g.vertices.filter member).Nodup := hnodup.filter member
  simp only [order] at h
  split at h
  · cases h
  · next hlength =>
    cases h
    -- Fewer were placed than there are members, so some are left over.
    have hne : g.leftover (g.vertices.filter member) ≠ [] := by
      intro hnil
      rw [leftover_eq_nil_iff] at hnil
      exact hlength ((length_place_eq_iff hmembers).2 hnil)
    obtain ⟨hcycle, hsubset⟩ :=
      isCycle_cycle (fun u hu => targets_leftover_ne_nil hmembers hu) (hmembers.filter _) hne
    refine ⟨hcycle, fun v hv => ?_⟩
    exact List.mem_filter.1 (mem_leftover.1 (hsubset hv)).1

/-! ## Closed walks -/

/-- An edge leads from one vertex of a sub-graph to another one. -/
def Within (g : Digraph V E) (member : V → Bool) (u v : V) : Prop :=
  (u ∈ g.vertices ∧ member u = true) ∧ (v ∈ g.vertices ∧ member v = true) ∧ g.Points u v

/-- No walk in a sub-graph comes back to where it started. -/
def Acyclic (g : Digraph V E) (member : V → Bool) : Prop :=
  ∀ v, ¬ TransGen (g.Within member) v v

omit [DecidableEq V] in
/-- A chain from one vertex to another one is a walk. -/
theorem transGen_of_isChain {r : V → V → Prop} {path : List V}
    (h : (u :: (path ++ [v])).IsChain r) : TransGen r u v := by
  induction path generalizing u with
  | nil => exact .single (List.isChain_pair.1 h)
  | cons w path ih =>
    obtain ⟨huw, htail⟩ := List.isChain_cons_cons.1 h
    exact .head huw (ih htail)

omit [DecidableEq V] in
/-- A cycle of members is a closed walk. -/
theorem IsCycle.not_acyclic {c : List V} (h : g.IsCycle c)
    (hmember : ∀ v ∈ c, v ∈ g.vertices ∧ member v = true) : ¬ g.Acyclic member := by
  obtain ⟨first, rest, rfl, -, hchain⟩ := h
  intro hacyclic
  have hmem : ∀ v ∈ first :: rest ++ [first], v ∈ g.vertices ∧ member v = true := by
    intro v hv
    rcases List.mem_append.1 hv with hv | hv
    · exact hmember v hv
    · rw [List.mem_singleton.1 hv]
      exact hmember first (List.mem_cons_self ..)
  have hwithin : (first :: (rest ++ [first])).IsChain (g.Within member) :=
    hchain.imp_of_mem_imp fun u v hu hv hpoints => ⟨hmem u hu, hmem v hv, hpoints⟩
  exact hacyclic first (transGen_of_isChain hwithin)

/-- In an order, a vertex comes after everything that it reaches. -/
theorem Ordered.mem_before {vs before after : List V}
    (h : g.Ordered (g.vertices.filter member) vs) (hreach : TransGen (g.Within member) u w)
    (hsplit : vs = before ++ u :: after) : w ∈ before := by
  -- By induction on the walk, from its first edge on.
  induction hreach using TransGen.head_induction_on generalizing before after with
  | single hedge =>
    obtain ⟨-, hw, hpoints⟩ := hedge
    exact h before _ after hsplit w (mem_targets.2 ⟨hpoints, List.mem_filter.2 hw⟩)
  | head hedge _ ih =>
    obtain ⟨-, hv, hpoints⟩ := hedge
    have hbefore := h before _ after hsplit _ (mem_targets.2 ⟨hpoints, List.mem_filter.2 hv⟩)
    obtain ⟨before', after', rfl⟩ := List.append_of_mem hbefore
    rw [List.append_assoc, List.cons_append] at hsplit
    exact List.mem_append_left _ (ih hsplit)

/-- What can be ordered has no closed walk. -/
theorem acyclic_of_order {vs : List V} (hnodup : g.vertices.Nodup)
    (h : g.order member = .ok vs) : g.Acyclic member := by
  obtain ⟨hvs, hmem, hordered⟩ := order_eq_ok hnodup h
  intro v hreach
  have hv : v ∈ vs := by
    obtain ⟨_, hedge, -⟩ := TransGen.head'_iff.1 hreach
    exact (hmem v).2 hedge.1
  obtain ⟨before, after, rfl⟩ := List.append_of_mem hv
  -- The vertex would come before itself.
  have hbefore := hordered.mem_before hreach rfl
  exact List.disjoint_of_nodup_append hvs hbefore (List.mem_cons_self ..)

/-- A sub-graph without closed walks is ordered: every member comes once, and after everything that
it reaches. -/
theorem order_of_acyclic (hnodup : g.vertices.Nodup) (hacyclic : g.Acyclic member) :
    ∃ vs, g.order member = .ok vs ∧ vs.Nodup ∧
      (∀ v, v ∈ vs ↔ v ∈ g.vertices ∧ member v = true) ∧
      ∀ before u after, vs = before ++ u :: after →
        ∀ w, TransGen (g.Within member) u w → w ∈ before := by
  cases horder : g.order member with
  | error c =>
    obtain ⟨hcycle, hmember⟩ := order_eq_error hnodup horder
    exact absurd hacyclic (hcycle.not_acyclic hmember)
  | ok vs =>
    obtain ⟨hvs, hmem, hordered⟩ := order_eq_ok hnodup horder
    refine ⟨vs, rfl, hvs, hmem, ?_⟩
    intro before u after hsplit w hreach
    exact hordered.mem_before hreach hsplit

/-- A sub-graph with a closed walk is not ordered; the answer is a simple cycle of members. -/
theorem order_of_not_acyclic (hnodup : g.vertices.Nodup) (hcyclic : ¬ g.Acyclic member) :
    ∃ c, g.order member = .error c ∧ g.IsCycle c ∧
      ∀ v ∈ c, v ∈ g.vertices ∧ member v = true := by
  cases horder : g.order member with
  | error c => exact ⟨c, rfl, order_eq_error hnodup horder⟩
  | ok vs => exact absurd (acyclic_of_order hnodup horder) hcyclic

/-! ## Graphs with the same edges -/

section Congruence

variable {g' : Digraph V E}

theorem targets_congr (hedges : g.edges = g'.edges) (members : List V) (v : V) :
    g.targets members v = g'.targets members v := by
  unfold targets outgoing
  rw [hedges]

/-- Placing depends on the edges only. -/
theorem place_congr (hedges : g.edges = g'.edges) (p : Progress V) : g.place p = g'.place p := by
  have hadvance (p : Progress V) (v : V) (ready : List V) :
      g.advance p v ready = g'.advance p v ready := by
    unfold advance incoming
    rw [hedges]
  induction p using place.induct g with
  | case1 p hready => rw [place_of_ready_nil hready, place_of_ready_nil hready]
  | case2 p v ready hready ih =>
    rw [place_of_ready_cons hready, ih, hadvance]
    exact (place_of_ready_cons hready).symm

/-- The walk that looks for a cycle depends on the edges only. -/
theorem walk_congr (hedges : g.edges = g'.edges) (remaining unvisited path : List V) (current : V) :
    g.walk remaining unvisited path current = g'.walk remaining unvisited path current := by
  induction unvisited, path, current using walk.induct g remaining with
  | case1 unvisited path current hmem hnone =>
    rw [walk, walk, dif_pos hmem, dif_pos hmem, ← targets_congr hedges, hnone]
  | case2 unvisited path current hmem next hnext ih =>
    rw [walk, walk.eq_def g', dif_pos hmem, dif_pos hmem, ← targets_congr hedges, hnext]
    exact ih
  | case3 unvisited path current hmem =>
    rw [walk, walk, dif_neg hmem, dif_neg hmem]

/-- The order of the members is determined by the edges and the members. -/
theorem order_congr (hedges : g.edges = g'.edges)
    (hmembers : g.vertices.filter member = g'.vertices.filter member) :
    g.order member = g'.order member := by
  have hinitial (members : List V) : g.initial members = g'.initial members := by
    unfold initial
    simp only [targets_congr hedges]
  have hcycle (remaining : List V) : g.cycle remaining = g'.cycle remaining := by
    unfold cycle
    split
    · rfl
    · exact walk_congr hedges _ _ _ _
  simp only [order, hmembers, hinitial, place_congr hedges, hcycle]

end Congruence

end StackTemplate.Digraph
