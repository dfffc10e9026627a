import Mathlib.Data.List.Nodup
import StackTemplate.Digraph.Order

/-!
# Placing vertices

While vertices are placed, the counter of a member is the number of its edges to members that are
not placed, together with its edges to the vertex that was placed last that have not been released
yet. The members whose counters are zero are those that are placed or ready. Each release therefore
finds a counter that is not zero, and each vertex is placed after all of its targets.

* `Digraph.Run` : the states that placing goes through, release by release.
* `Digraph.Progress.Consistent` : the invariant of these states.
* `Digraph.Run.counter_pos` : the counter of a vertex that is released is never zero.
* `Digraph.exists_run_place` : placing ends in a state in which nothing is ready.
-/

namespace StackTemplate.Digraph

variable {V E : Type} [DecidableEq V] {g : Digraph V E} {members : List V} {u v : V}

/-! ## Edges between members -/

def Points (g : Digraph V E) (u v : V) : Prop := ∃ e ∈ g.edges, e.source = u ∧ e.target = v

theorem mem_targets : v ∈ g.targets members u ↔ g.Points u v ∧ v ∈ members := by
  simp [targets, outgoing, Points, and_assoc]

/-- An edge to a member is counted where it starts and released where it ends, as often as it
occurs. -/
theorem count_sources (hv : v ∈ members) :
    ((g.incoming v).map Edge.source).count u = (g.targets members u).count v := by
  have hfilter (ws : List V) : (ws.filter (· ∈ members)).count v = ws.count v :=
    List.count_filter (decide_eq_true hv)
  rw [targets, hfilter]
  simp only [List.count_eq_countP, List.countP_map, incoming, outgoing, List.countP_filter]
  congr 1
  funext e
  simp only [Function.comp_apply, beq_eq_decide]
  exact Bool.and_comm _ _

/-- The number of edges from a vertex to members that are not placed. -/
def unplaced (g : Digraph V E) (members placed : List V) (u : V) : Nat :=
  (g.targets members u).countP (· ∉ placed)

/-- No edge counts any more once all targets are placed. -/
theorem unplaced_eq_zero_iff {placed : List V} :
    g.unplaced members placed u = 0 ↔ ∀ w ∈ g.targets members u, w ∈ placed := by
  simp [unplaced, List.countP_eq_zero]

/-- Placing a member takes off one for each edge to it. -/
theorem unplaced_concat {placed : List V} (hv : v ∈ members) (hplaced : v ∉ placed) :
    g.unplaced members (placed ++ [v]) u + ((g.incoming v).map Edge.source).count u =
      g.unplaced members placed u := by
  rw [count_sources hv, unplaced, unplaced]
  induction g.targets members u with
  | nil => rfl
  | cons w ws ih =>
    rw [List.countP_cons, List.countP_cons, List.count_cons, ← ih]
    -- The edge leads to the placed member, to one placed before, or to neither.
    by_cases hw : w = v
    · subst hw
      simp [hplaced]
      omega
    · by_cases hmem : w ∈ placed
      · simp [hw, hmem]
      · simp [hw, hmem]
        omega

/-! ## Counters -/

variable {f : V → Nat}

/-- A vertex that is no member has no counter. -/
theorem takeOne?_map_of_not_mem (hu : u ∉ members) :
    takeOne? u (members.map fun w => (w, f w)) = none := by
  induction members with
  | nil => rfl
  | cons w ws ih =>
    rw [List.mem_cons, not_or] at hu
    simp [takeOne?, Ne.symm hu.1, ih hu.2]

/-- The counter of a member is lowered where it stands, and no other one changes. -/
theorem takeOne?_map_of_mem {n : Nat} (hnodup : members.Nodup) (hu : u ∈ members)
    (hn : f u = n + 1) : takeOne? u (members.map fun w => (w, f w)) =
      some (n, members.map fun w => (w, if w = u then n else f w)) := by
  induction members with
  | nil => cases hu
  | cons w ws ih =>
    obtain ⟨hw, hws⟩ := List.nodup_cons.1 hnodup
    by_cases heq : w = u
    · -- The counter is the first one; the member does not occur again.
      subst heq
      have hrest : (ws.map fun x => (x, f x)) = ws.map fun x => (x, if x = w then n else f x) := by
        apply List.map_congr_left
        intro x hx
        have hne : x ≠ w := fun h => hw (h ▸ hx)
        rw [if_neg hne]
      simp [takeOne?, hn, hrest]
    · have hmem : u ∈ ws := (List.mem_cons.1 hu).resolve_left (Ne.symm heq)
      simp [takeOne?, heq, ih hws hmem]

/-! ## The invariant -/

/-- Every vertex of a list comes after its targets among the members. -/
def Ordered (g : Digraph V E) (members vs : List V) : Prop :=
  ∀ before u after, vs = before ++ u :: after → ∀ w ∈ g.targets members u, w ∈ before

/-- What a state of an ordering says about the members, where `pending` are the sources of the edges
that are still to be released. -/
structure Progress.Consistent (g : Digraph V E) (members pending : List V) (p : Progress V) :
    Prop where
  /-- A counter counts the edges to members that are not placed, and those not yet released. -/
  unmet : p.unmet = members.map fun u => (u, g.unplaced members p.placed u + pending.count u)
  nodup : (p.placed ++ p.ready).Nodup
  /-- The members that are placed or ready are those with counter zero. -/
  mem_iff : ∀ u, u ∈ p.placed ++ p.ready ↔
    u ∈ members ∧ g.unplaced members p.placed u + pending.count u = 0
  /-- Every vertex was placed after its targets. -/
  ordered : g.Ordered members p.placed

namespace Progress

variable {p : Progress V} {ready pending : List V}

/-- Before anything is placed, every counter counts all edges of its member. -/
theorem consistent_initial (hnodup : members.Nodup) :
    Consistent g members [] (g.initial members) where
  unmet := by simp [initial, unplaced]
  nodup := hnodup.filter _
  mem_iff u := by
    simp [initial, unplaced, List.isEmpty_iff]
  ordered before u after h := by
    simp [initial] at h

/-- The vertex that is placed has no target left; the edges to it become the pending ones. -/
theorem Consistent.place (h : Consistent g members [] p) (hready : p.ready = v :: ready) :
    Consistent g members ((g.incoming v).map Edge.source)
      { p with ready, placed := p.placed ++ [v] } := by
  have hnodup := h.nodup
  rw [hready, List.append_cons] at hnodup
  have hv : v ∈ members ∧ g.unplaced members p.placed v + [].count v = 0 := by
    apply (h.mem_iff v).1
    simp [hready]
  have hplaced : v ∉ p.placed := by
    have hdisjoint := List.disjoint_of_nodup_append h.nodup
    intro hmem
    exact hdisjoint hmem (by simp [hready])
  have hcounter (u : V) : g.unplaced members (p.placed ++ [v]) u +
      ((g.incoming v).map Edge.source).count u = g.unplaced members p.placed u + [].count u :=
    unplaced_concat hv.1 hplaced
  refine ⟨?_, hnodup, ?_, ?_⟩
  · rw [h.unmet]
    simp only [hcounter]
  · intro u
    simp only [hcounter]
    rw [← h.mem_iff u, hready, ← List.append_cons]
  · intro before u after hsplit w hw
    rcases List.eq_nil_or_concat after with rfl | ⟨after', x, rfl⟩
    · -- The vertex is the one that is placed.
      obtain ⟨rfl, hu⟩ := List.append_inj' hsplit rfl
      obtain rfl : v = u := by simpa using hu
      exact unplaced_eq_zero_iff.1 (by simpa using hv.2) w hw
    · rw [List.concat_eq_append, ← List.cons_append, ← List.append_assoc] at hsplit
      obtain ⟨hbefore, -⟩ := List.append_inj' hsplit rfl
      exact h.ordered before u after' hbefore w hw

/-- Releasing a member takes one off its counter, which is not zero. -/
theorem Consistent.release_eq (hmembers : members.Nodup)
    (h : Consistent g members (u :: pending) p) (hu : u ∈ members) :
    p.release u =
      { p with
        unmet := members.map fun w => (w, g.unplaced members p.placed w + pending.count w)
        ready := if g.unplaced members p.placed u + pending.count u = 0 then p.ready ++ [u]
          else p.ready } := by
  have hcounter : g.unplaced members p.placed u + (u :: pending).count u =
      (g.unplaced members p.placed u + pending.count u) + 1 := by
    rw [List.count_cons_self]
    omega
  have hunmet : (members.map fun w => (w, if w = u then
      g.unplaced members p.placed u + pending.count u
      else g.unplaced members p.placed w + (u :: pending).count w)) =
      members.map fun w => (w, g.unplaced members p.placed w + pending.count w) := by
    apply List.map_congr_left
    intro w _
    by_cases hw : w = u
    · rw [if_pos hw, hw]
    · rw [if_neg hw, List.count_cons_of_ne (Ne.symm hw)]
  rw [Progress.release, h.unmet, takeOne?_map_of_mem hmembers hu hcounter, hunmet]

/-- A release of a member makes it ready if it was the last one. -/
theorem Consistent.release_member (hmembers : members.Nodup)
    (h : Consistent g members (u :: pending) p) (hu : u ∈ members) :
    Consistent g members pending (p.release u) := by
  -- The counter was above zero, so the member was neither placed nor ready.
  have habsent : u ∉ p.placed ++ p.ready := by
    rw [h.mem_iff u, List.count_cons_self]
    omega
  rw [h.release_eq hmembers hu]
  refine ⟨rfl, ?_, ?_, h.ordered⟩
  · -- It becomes ready at most once.
    show (p.placed ++ ite _ _ _).Nodup
    split
    · rw [← List.append_assoc]
      simpa using List.Nodup.concat habsent h.nodup
    · exact h.nodup
  · -- Its own counter is zero now or not; the others are as they were.
    intro w
    show w ∈ p.placed ++ ite _ _ _ ↔ _
    by_cases hw : w = u
    · subst hw
      split
      · next hzero => simp [hu, hzero]
      · next hpos => exact iff_of_false habsent fun hzero => hpos hzero.2
    · have hiff := h.mem_iff w
      rw [List.count_cons_of_ne (Ne.symm hw)] at hiff
      rw [← hiff]
      split
      · simp [hw]
      · rfl

/-- A release of a vertex that is no member changes nothing. -/
theorem Consistent.release_other (h : Consistent g members (u :: pending) p) (hu : u ∉ members) :
    Consistent g members pending (p.release u) := by
  have hcount : ∀ w ∈ members, (u :: pending).count w = pending.count w := by
    intro w hw
    have hne : u ≠ w := fun heq => hu (heq ▸ hw)
    exact List.count_cons_of_ne hne
  have hrelease : p.release u = p := by
    rw [Progress.release, h.unmet, takeOne?_map_of_not_mem hu]
  rw [hrelease]
  refine ⟨?_, h.nodup, ?_, h.ordered⟩
  · rw [h.unmet]
    apply List.map_congr_left
    intro w hw
    rw [hcount w hw]
  · intro w
    rw [h.mem_iff w]
    refine and_congr_right fun hw => ?_
    rw [hcount w hw]

/-- A release takes the vertex off the pending ones and keeps the counters right. -/
theorem Consistent.release (hmembers : members.Nodup)
    (h : Consistent g members (u :: pending) p) : Consistent g members pending (p.release u) := by
  by_cases hu : u ∈ members
  · exact h.release_member hmembers hu
  · exact h.release_other hu

end Progress

/-! ## Runs -/

/-- The states that placing goes through, each with the sources of the edges that are still to be
released. -/
inductive Run (g : Digraph V E) (members : List V) : Progress V → List V → Prop
  | initial : Run g members (g.initial members) []
  | place {p : Progress V} {v : V} {ready : List V} (h : Run g members p [])
      (hready : p.ready = v :: ready) :
      Run g members { p with ready, placed := p.placed ++ [v] } ((g.incoming v).map Edge.source)
  | release {p : Progress V} {u : V} {pending : List V} (h : Run g members p (u :: pending)) :
      Run g members (p.release u) pending

namespace Run

variable {p : Progress V} {ready pending : List V}

/-- Every state of a run is consistent. -/
theorem consistent (hnodup : members.Nodup) (h : Run g members p pending) :
    p.Consistent g members pending := by
  induction h with
  | initial => exact Progress.consistent_initial hnodup
  | place _ hready ih => exact ih.place hready
  | release _ ih => exact ih.release hnodup

/-- The counter of a vertex that is released is never zero. -/
theorem counter_pos (hnodup : members.Nodup) (h : Run g members p (u :: pending)) :
    (u, 0) ∉ p.unmet := by
  rw [(h.consistent hnodup).unmet, List.mem_map]
  rintro ⟨w, -, hw⟩
  simp only [Prod.mk.injEq] at hw
  obtain ⟨rfl, hzero⟩ := hw
  -- The pending edge itself is counted.
  rw [List.count_cons_self] at hzero
  omega

/-- The pending edges are released one after the other. -/
theorem foldl_release (h : Run g members p pending) :
    Run g members (pending.foldl Progress.release p) [] := by
  induction pending generalizing p with
  | nil => exact h
  | cons u pending ih => exact ih h.release

/-- A step of placing is a run: a vertex is placed, and all edges to it are released. -/
theorem advance (h : Run g members p []) (hready : p.ready = v :: ready) :
    Run g members (g.advance p v ready) [] :=
  (h.place hready).foldl_release

end Run

theorem place_of_ready_nil {p : Progress V} (h : p.ready = []) : g.place p = p.placed := by
  rw [place]
  split
  · rfl
  · simp_all

theorem place_of_ready_cons {p : Progress V} (h : p.ready = v :: ready) :
    g.place p = g.place (g.advance p v ready) := by
  rw [place]
  split
  · simp_all
  · next v' ready' hready' =>
    rw [h, List.cons.injEq] at hready'
    obtain ⟨rfl, rfl⟩ := hready'
    rfl

/-- Placing goes on through a run until nothing is ready. -/
theorem exists_run_place {p : Progress V} (h : Run g members p []) :
    ∃ q, Run g members q [] ∧ q.ready = [] ∧ g.place p = q.placed := by
  -- By induction along the recursion of placing, which is a run.
  induction p using place.induct g with
  | case1 p hready => exact ⟨p, h, hready, place_of_ready_nil hready⟩
  | case2 p v ready hready ih =>
    obtain ⟨q, hrun, hdone, hplace⟩ := ih (h.advance hready)
    exact ⟨q, hrun, hdone, (place_of_ready_cons hready).trans hplace⟩

end StackTemplate.Digraph
