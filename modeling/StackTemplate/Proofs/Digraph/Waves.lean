import Mathlib.Data.Finset.Max
import StackTemplate.Proofs.Digraph.Order

/-!
# Waves

Ready vertices are placed first come, first served, so an order goes wave by wave: first the members
without targets, then those that point at the first wave only, and so on. Within a wave, members that
point at the same vertices come in the order in which their edges are listed.

* `Digraph.DepthAt` : the depth of a vertex, one more than that of its deepest target.
* `Digraph.Progress.ByDepth` : what is placed or ready is sorted by depth.
* `Digraph.Progress.InTurn` : what is placed or ready comes after its twins of lower rank.
* `Digraph.order_sorted`, `Digraph.order_in_turn` : what this says about an order.
-/

namespace StackTemplate.Digraph

variable {V E : Type} [DecidableEq V] {g : Digraph V E} {members : List V} {u v : V}
  {depth rank : V → Nat}

/-! ## Depth -/

/-- The depth of a vertex is zero if it has no target among the members, and otherwise one more than
the depth of its deepest target. -/
def DepthAt (g : Digraph V E) (members : List V) (depth : V → Nat) (v : V) : Prop :=
  (g.targets members v = [] ∧ depth v = 0) ∨
    ∃ deepest ∈ g.targets members v,
      (∀ w ∈ g.targets members v, depth w ≤ depth deepest) ∧ depth v = depth deepest + 1

/-- A vertex is deeper than its targets. -/
theorem DepthAt.lt_of_mem_targets (h : g.DepthAt members depth u) (hv : v ∈ g.targets members u) :
    depth v < depth u := by
  -- A vertex at depth zero has no target.
  rcases h with ⟨hnil, -⟩ | ⟨deepest, -, hle, heq⟩
  · rw [hnil] at hv
    cases hv
  · have := hle v hv
    omega

/-- A vertex is at most one deeper than what all of its targets keep to. -/
theorem DepthAt.le_of_targets {n : Nat} (h : g.DepthAt members depth u)
    (htargets : ∀ w ∈ g.targets members u, depth w ≤ n) : depth u ≤ n + 1 := by
  rcases h with ⟨-, hzero⟩ | ⟨deepest, hmem, -, heq⟩
  · omega
  · have := htargets deepest hmem
    omega

/-- Whether a vertex has a depth depends on its own and on those of its targets only. -/
theorem DepthAt.congr {depth' : V → Nat} (h : g.DepthAt members depth u)
    (hu : depth' u = depth u) (htargets : ∀ w ∈ g.targets members u, depth' w = depth w) :
    g.DepthAt members depth' u := by
  rcases h with ⟨hnil, hzero⟩ | ⟨deepest, hmem, hle, heq⟩
  · left
    constructor
    · exact hnil
    · rw [hu, hzero]
  · right
    refine ⟨deepest, hmem, ?_, ?_⟩
    · intro w hw
      rw [htargets w hw, htargets deepest hmem]
      exact hle w hw
    · rw [hu, htargets deepest hmem, heq]

/-- There is a depth for a vertex once its targets have depths. -/
theorem exists_depthAt (g : Digraph V E) (members : List V) (depth : V → Nat)
    (hv : v ∉ g.targets members v) : ∃ n, g.DepthAt members (Function.update depth v n) v := by
  have hkept : ∀ n, ∀ w ∈ g.targets members v, Function.update depth v n w = depth w := by
    intro n w hw
    apply Function.update_of_ne
    intro hwv
    exact hv (hwv ▸ hw)
  by_cases hnil : g.targets members v = []
  · refine ⟨0, .inl ⟨hnil, ?_⟩⟩
    exact Function.update_self v 0 depth
  · -- There are finitely many targets, so one is deepest.
    have hne : (g.targets members v).toFinset.Nonempty := by simpa using hnil
    rcases Finset.exists_max_image _ depth hne with ⟨deepest, hmem, hle⟩
    simp only [List.mem_toFinset] at hmem hle
    refine ⟨depth deepest + 1, .inr ⟨deepest, hmem, ?_, ?_⟩⟩
    · intro w hw
      rw [hkept _ w hw, hkept _ deepest hmem]
      exact hle w hw
    · rw [hkept _ deepest hmem]
      exact Function.update_self v _ depth

/-- Where every vertex comes after its targets, each has a depth. -/
theorem exists_depth {vs : List V} (hnodup : vs.Nodup) (hordered : g.Ordered members vs) :
    ∃ depth, ∀ v ∈ vs, g.DepthAt members depth v := by
  -- The induction is on the last vertex: its depth is read off those before it.
  induction vs using List.reverseRecOn with
  | nil => exact ⟨fun _ => 0, by simp⟩
  | append_singleton vs v ih =>
    have hv : v ∉ vs := by
      intro hmem
      exact List.disjoint_of_nodup_append hnodup hmem (List.mem_singleton_self v)
    have hfront : g.Ordered members vs := by
      intro before u after hsplit w hw
      apply hordered before u (after ++ [v]) _ w hw
      rw [hsplit, List.append_assoc, List.cons_append]
    -- A vertex that comes after its targets is none of them.
    have hlast : v ∉ g.targets members v := by
      intro hloop
      exact hv (hordered vs v [] rfl v hloop)
    rcases ih hnodup.of_append_left hfront with ⟨depth, hdepth⟩
    rcases exists_depthAt g members depth hlast with ⟨n, hn⟩
    refine ⟨Function.update depth v n, ?_⟩
    intro u hu
    rcases List.mem_append.1 hu with hu | hu
    · -- An earlier vertex keeps its depth, for its targets are earlier too.
      rcases List.append_of_mem hu with ⟨before, after, hsplit⟩
      have hkept : ∀ w ∈ vs, Function.update depth v n w = depth w := by
        intro w hw
        apply Function.update_of_ne
        intro hwv
        exact hv (hwv ▸ hw)
      apply (hdepth u hu).congr (hkept u hu)
      intro w hw
      apply hkept
      rw [hsplit]
      exact List.mem_append_left _ (hfront before u after hsplit w hw)
    · rw [List.mem_singleton.1 hu]
      exact hn

/-- Two vertices have the same targets among the members. -/
def Twins (g : Digraph V E) (members : List V) (u v : V) : Prop :=
  ∀ w, w ∈ g.targets members u ↔ w ∈ g.targets members v

/-! ## What a release does -/

namespace Progress

variable {p : Progress V} {ready pending : List V}

/-- A release places nothing. It makes a member ready whose targets are all placed, or no vertex. -/
theorem Consistent.release_cases (hmembers : members.Nodup)
    (h : Consistent g members (u :: pending) p) :
    (p.release u).placed = p.placed ∧
      ((p.release u).ready = p.ready ∨
        u ∈ members ∧ (p.release u).ready = p.ready ++ [u] ∧
          g.unplaced members p.placed u = 0) := by
  by_cases hu : u ∈ members
  · rw [h.release_eq hmembers hu]
    refine ⟨rfl, ?_⟩
    -- The counter becomes zero, and the member ready, or it does not.
    by_cases hzero : g.unplaced members p.placed u + pending.count u = 0
    · right
      refine ⟨hu, if_pos hzero, ?_⟩
      omega
    · left
      exact if_neg hzero
  · have hrelease : p.release u = p := by
      rw [Progress.release, h.unmet, takeOne?_map_of_not_mem hu]
    rw [hrelease]
    exact ⟨rfl, .inl rfl⟩

/-- All targets of a vertex that is ready are placed. -/
theorem Consistent.targets_placed (h : Consistent g members pending p) (hu : u ∈ p.ready) :
    u ∈ members ∧ ∀ w ∈ g.targets members u, w ∈ p.placed := by
  rcases (h.mem_iff u).1 (List.mem_append_right _ hu) with ⟨hmember, hcounter⟩
  refine ⟨hmember, unplaced_eq_zero_iff.1 ?_⟩
  omega

/-! ## Placing by depth -/

/-- What is placed or ready is sorted by depth, and no vertex that is placed is deeper than the one
whose edges are being released. -/
structure ByDepth (g : Digraph V E) (members : List V) (depth : V → Nat) (pending : List V)
    (p : Progress V) : Prop where
  sorted : (p.placed ++ p.ready).Pairwise fun u v => depth u ≤ depth v
  deepest : ∀ u ∈ pending, ∃ v ∈ g.targets members u, ∀ w ∈ p.placed, depth w ≤ depth v

/-- The first wave has depth zero. -/
theorem byDepth_initial (hdepth : ∀ v ∈ members, g.DepthAt members depth v) :
    ByDepth g members depth [] (g.initial members) where
  sorted := by
    have hzero : ∀ u ∈ members.filter fun v => (g.targets members v).isEmpty, depth u = 0 := by
      intro u hu
      rcases List.mem_filter.1 hu with ⟨hmember, hempty⟩
      rcases hdepth u hmember with ⟨-, hzero⟩ | ⟨deepest, hmem, -⟩
      · exact hzero
      · rw [List.isEmpty_iff.1 hempty] at hmem
        cases hmem
    show (members.filter fun v => (g.targets members v).isEmpty).Pairwise _
    apply List.pairwise_of_forall_mem_list
    intro u hu v hv
    rw [hzero u hu, hzero v hv]
  deepest := by simp

/-- The first ready vertex goes to the end of what is placed, so nothing changes places. -/
theorem ByDepth.place (h : ByDepth g members depth [] p) (hconsistent : Consistent g members [] p)
    (hready : p.ready = v :: ready) :
    ByDepth g members depth ((g.incoming v).map Edge.source)
      { p with ready, placed := p.placed ++ [v] } where
  sorted := by
    show (p.placed ++ [v] ++ ready).Pairwise _
    rw [← List.append_cons, ← hready]
    exact h.sorted
  deepest := by
    have hmember : v ∈ members := (hconsistent.targets_placed (by simp [hready])).1
    intro u hu
    rcases List.mem_map.1 hu with ⟨e, he, rfl⟩
    rcases mem_incoming.1 he with ⟨hedge, htarget⟩
    -- Every pending vertex points at the one that is placed, which is deepest so far.
    refine ⟨v, mem_targets.2 ⟨⟨e, hedge, rfl, htarget⟩, hmember⟩, ?_⟩
    have hsorted := h.sorted
    rw [hready, List.append_cons] at hsorted
    intro w hw
    rcases List.mem_append.1 hw with hw | hw
    · have hpair := (List.pairwise_append.1 (List.pairwise_append.1 hsorted).1).2.2
      exact hpair w hw v (List.mem_singleton_self v)
    · rw [List.mem_singleton.1 hw]

/-- A vertex that becomes ready is as deep as everything before it: it points at the vertex that was
placed last, and what is ready is at most one deeper than that. -/
theorem ByDepth.release (hmembers : members.Nodup)
    (hdepth : ∀ v ∈ members, g.DepthAt members depth v)
    (h : ByDepth g members depth (u :: pending) p)
    (hconsistent : Consistent g members (u :: pending) p) :
    ByDepth g members depth pending (p.release u) := by
  rcases hconsistent.release_cases hmembers with ⟨hplaced, hready⟩
  rcases h.deepest u List.mem_cons_self with ⟨v, hv, hdeepest⟩
  constructor
  · rw [hplaced]
    rcases hready with hready | ⟨hu, hready, -⟩
    · rw [hready]
      exact h.sorted
    · -- The vertex points at the one that was placed last, so it is deeper.
      have hlt : depth v < depth u := (hdepth u hu).lt_of_mem_targets hv
      -- What is placed is no deeper than that vertex, and what is ready at most one deeper.
      have hle : ∀ w ∈ p.placed ++ p.ready, depth w ≤ depth u := by
        intro w hw
        rcases List.mem_append.1 hw with hw | hw
        · have := hdeepest w hw
          omega
        · rcases hconsistent.targets_placed hw with ⟨hmember, htargets⟩
          have hone := (hdepth w hmember).le_of_targets fun x hx => hdeepest x (htargets x hx)
          omega
      rw [hready, ← List.append_assoc]
      apply List.pairwise_append.2
      refine ⟨h.sorted, List.pairwise_singleton _ _, ?_⟩
      intro w hw x hx
      rw [List.mem_singleton.1 hx]
      exact hle w hw
  · -- The other pending vertices are not touched.
    intro w hw
    rw [hplaced]
    exact h.deepest w (List.mem_cons_of_mem u hw)

/-! ## Placing in turn -/

/-- What is placed or ready comes after every member of lower rank with the same targets, and edges
are released in the order of the ranks of their sources. -/
structure InTurn (g : Digraph V E) (members : List V) (rank : V → Nat) (pending : List V)
    (p : Progress V) : Prop where
  earlier : ∀ before v after, p.placed ++ p.ready = before ++ v :: after →
    ∀ u ∈ members, rank u < rank v → g.Twins members u v → u ∈ before
  ranked : pending.Pairwise fun u v => u ∈ members → v ∈ members → rank u ≤ rank v

/-- The first wave is in the order of the ranks. -/
theorem inTurn_initial (hrank : members.Pairwise fun u v => rank u < rank v) :
    InTurn g members rank [] (g.initial members) where
  earlier := by
    intro before v after hsplit u hu hlt htwins
    have hfirst : members.filter (fun v => (g.targets members v).isEmpty) =
        before ++ v :: after := hsplit
    have hmem : v ∈ members.filter fun v => (g.targets members v).isEmpty := by
      rw [hfirst]
      exact List.mem_append_right before List.mem_cons_self
    have hnil : g.targets members v = [] := List.isEmpty_iff.1 (List.mem_filter.1 hmem).2
    have htwin : u ∈ members.filter fun v => (g.targets members v).isEmpty := by
      apply List.mem_filter.2
      refine ⟨hu, List.isEmpty_iff.2 ?_⟩
      rw [List.eq_nil_iff_forall_not_mem]
      intro w hw
      rw [htwins w, hnil] at hw
      cases hw
    -- The first wave is in the order of the ranks, so a member of lower rank stands before.
    have hsorted := hrank.filter fun v => (g.targets members v).isEmpty
    rw [hfirst] at htwin hsorted
    rcases List.mem_append.1 htwin with hbefore | hrest
    · exact hbefore
    · have hafter := List.pairwise_cons.1 (List.pairwise_append.1 hsorted).2.1
      rcases List.mem_cons.1 hrest with heq | hrest
      · rw [heq] at hlt
        omega
      · have := hafter.1 u hrest
        omega
  ranked := List.Pairwise.nil

/-- The edges to the placed vertex are released in edge order, hence by rank. -/
theorem InTurn.place
    (hsources : (g.edges.map Edge.source).Pairwise fun u v =>
      u ∈ members → v ∈ members → rank u ≤ rank v)
    (h : InTurn g members rank [] p) (hready : p.ready = v :: ready) :
    InTurn g members rank ((g.incoming v).map Edge.source)
      { p with ready, placed := p.placed ++ [v] } where
  earlier := by
    intro before w after hsplit
    apply h.earlier before w after
    rw [← hsplit, hready]
    exact List.append_cons _ _ _
  ranked := hsources.sublist (List.filter_sublist.map _)

/-- A vertex that becomes ready has all of its targets placed, and so have its twins. Those of lower
rank have no edge that is still to be released: their edges came first. -/
theorem InTurn.release (hmembers : members.Nodup) (h : InTurn g members rank (u :: pending) p)
    (hconsistent : Consistent g members (u :: pending) p) :
    InTurn g members rank pending (p.release u) := by
  rcases hconsistent.release_cases hmembers with ⟨hplaced, hready⟩
  rcases List.pairwise_cons.1 h.ranked with ⟨hfirst, hranked⟩
  refine ⟨?_, hranked⟩
  rw [hplaced]
  rcases hready with hready | ⟨hu, hready, hzero⟩
  · rw [hready]
    exact h.earlier
  · rw [hready, ← List.append_assoc]
    intro before v after hsplit w hw hlt htwins
    rcases List.eq_nil_or_concat after with rfl | ⟨after', x, rfl⟩
    · -- The vertex is the one that becomes ready.
      rcases List.append_inj' hsplit rfl with ⟨rfl, hlast⟩
      obtain rfl : u = v := by simpa using hlast
      have htargets := unplaced_eq_zero_iff.1 hzero
      -- A twin has the same targets, and they are all placed.
      have hplacedAll : g.unplaced members p.placed w = 0 := by
        rw [unplaced_eq_zero_iff]
        intro x hx
        exact htargets x ((htwins x).1 hx)
      -- A twin of lower rank that is pending would have been released first.
      have hreleased : w ∉ u :: pending := by
        intro hmem
        rcases List.mem_cons.1 hmem with heq | hmem
        · rw [heq] at hlt
          omega
        · have := hfirst w hmem hu hw
          omega
      -- With its counter at zero, the twin is placed or ready.
      apply (hconsistent.mem_iff w).2
      refine ⟨hw, ?_⟩
      rw [hplacedAll, List.count_eq_zero_of_not_mem hreleased]
    · rw [List.concat_eq_append, ← List.cons_append, ← List.append_assoc] at hsplit
      rcases List.append_inj' hsplit rfl with ⟨hfront, -⟩
      exact h.earlier before v after' hfront w hw hlt htwins

end Progress

/-! ## Orders -/

/-- What is placed or ready is sorted by depth all along a run. -/
theorem Run.byDepth {p : Progress V} {pending : List V} (hmembers : members.Nodup)
    (hdepth : ∀ v ∈ members, g.DepthAt members depth v) (h : Run g members p pending) :
    p.ByDepth g members depth pending := by
  induction h with
  | initial => exact Progress.byDepth_initial hdepth
  | place hrun hready ih => exact ih.place (hrun.consistent hmembers) hready
  | release hrun ih => exact ih.release hmembers hdepth (hrun.consistent hmembers)

/-- What is placed or ready is in turn all along a run. -/
theorem Run.inTurn {p : Progress V} {pending : List V}
    (hrank : members.Pairwise fun u v => rank u < rank v)
    (hsources : (g.edges.map Edge.source).Pairwise fun u v =>
      u ∈ members → v ∈ members → rank u ≤ rank v)
    (hmembers : members.Nodup) (h : Run g members p pending) :
    p.InTurn g members rank pending := by
  induction h with
  | initial => exact Progress.inTurn_initial hrank
  | place _ hready ih => exact ih.place hsources hready
  | release hrun ih => exact ih.release hmembers (hrun.consistent hmembers)

variable {member : V → Bool} {vs : List V}

/-- An order is where a run ends. -/
theorem exists_run_of_order (h : g.order member = .ok vs) :
    ∃ p, Run g (g.vertices.filter member) p [] ∧ p.placed ++ p.ready = vs := by
  have hinitial : Run g (g.vertices.filter member) (g.initial (g.vertices.filter member)) [] :=
    .initial
  rcases exists_run_place hinitial with ⟨p, hrun, hdone, hplace⟩
  refine ⟨p, hrun, ?_⟩
  simp only [order] at h
  split at h
  · cases h
    rw [hdone, List.append_nil, hplace]
  · cases h

/-- The members of an ordered sub-graph have depths. -/
theorem exists_depth_of_order (hnodup : g.vertices.Nodup) (h : g.order member = .ok vs) :
    ∃ depth, ∀ v ∈ g.vertices.filter member, g.DepthAt (g.vertices.filter member) depth v := by
  rcases order_eq_ok hnodup h with ⟨hvs, hmem, hordered⟩
  rcases exists_depth hvs hordered with ⟨depth, hdepth⟩
  refine ⟨depth, ?_⟩
  intro v hv
  apply hdepth
  exact (hmem v).2 (List.mem_filter.1 hv)

/-- An order is sorted by depth. -/
theorem order_sorted (hnodup : g.vertices.Nodup)
    (hdepth : ∀ v ∈ g.vertices.filter member, g.DepthAt (g.vertices.filter member) depth v)
    (h : g.order member = .ok vs) : vs.Pairwise fun u v => depth u ≤ depth v := by
  rcases exists_run_of_order h with ⟨p, hrun, rfl⟩
  exact (hrun.byDepth (hnodup.filter member) hdepth).sorted

/-- Where ranks follow the vertices, and edges the ranks of their sources, members with the same
targets stand in an order by their ranks. -/
theorem order_in_turn (hrank : (g.vertices.filter member).Pairwise fun u v => rank u < rank v)
    (hsources : (g.edges.map Edge.source).Pairwise fun u v =>
      u ∈ g.vertices.filter member → v ∈ g.vertices.filter member → rank u ≤ rank v)
    (hnodup : g.vertices.Nodup) (h : g.order member = .ok vs) :
    vs.Pairwise fun u v => g.Twins (g.vertices.filter member) u v → rank u < rank v := by
  rcases exists_run_of_order h with ⟨p, hrun, hp⟩
  have hearlier := (hrun.inTurn hrank hsources (hnodup.filter member)).earlier
  rcases order_eq_ok hnodup h with ⟨hvs, hmem, -⟩
  -- Ranks tell the members apart.
  have hdistinct : ((g.vertices.filter member).map rank).Nodup := by
    apply List.pairwise_map.2
    exact hrank.imp fun hlt => Nat.ne_of_lt hlt
  -- Any two members in the order, the first one before the second.
  rw [List.pairwise_iff_forall_sublist]
  intro u v hsublist htwins
  rcases List.cons_sublist_iff.1 hsublist with ⟨front, rest, rfl, hu, hv⟩
  rcases List.append_of_mem hu with ⟨before, between, rfl⟩
  rw [List.singleton_sublist] at hv
  have humember : u ∈ g.vertices.filter member := by
    apply List.mem_filter.2
    exact (hmem u).1 (List.mem_append_left rest hu)
  have hvmember : v ∈ g.vertices.filter member := by
    apply List.mem_filter.2
    exact (hmem v).1 (List.mem_append_right _ hv)
  have hne : u ≠ v := by
    rintro rfl
    exact List.disjoint_of_nodup_append hvs hu hv
  have hranks : rank u ≠ rank v := by
    intro heq
    exact hne (List.inj_on_of_nodup_map hdistinct humember hvmember heq)
  by_contra hge
  -- Otherwise the second one has the lower rank, and would stand before the first one too.
  have hlt : rank v < rank u := by omega
  have hsplit : p.placed ++ p.ready = before ++ u :: (between ++ rest) := by
    rw [hp, List.append_assoc, List.cons_append]
  have hbefore := hearlier before u (between ++ rest) hsplit v hvmember hlt
    fun w => (htwins w).symm
  exact List.disjoint_of_nodup_append hvs (List.mem_append_left _ hbefore) hv

end StackTemplate.Digraph
