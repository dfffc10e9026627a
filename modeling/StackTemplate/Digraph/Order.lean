import StackTemplate.Digraph

/-!
# Dependency order

The vertices of a sub-graph are ordered so that the target of every edge comes before its source.
A vertex is ready once all of its targets have been placed; ready vertices are placed first come,
first served. Each member has a counter of its unplaced targets, one for every edge.

A sub-graph that cannot be ordered has a cycle: every vertex left over has an edge to another one,
so a walk along these edges closes.

- `Digraph.order` : the order of the members, or one cycle of members.
- `Digraph.Progress.weight_advance` : why placing vertices ends.
-/

namespace StackTemplate.Digraph

variable {V E : Type} [DecidableEq V]

/-! ## Counters -/

/-- The counters with one taken off that of a vertex, and what that counter has become; absent where
the vertex has no counter or its counter is zero. -/
def takeOne? (v : V) : List (V × Nat) → Option (Nat × List (V × Nat))
  | [] => none
  | (u, n) :: counters =>
    if u = v then
      match n with
      | 0 => none
      | n + 1 => some (n, (u, n) :: counters)
    else (takeOne? v counters).map fun (n', rest) => (n', (u, n) :: rest)

def total : List (V × Nat) → Nat
  | [] => 0
  | (_, n) :: counters => n + total counters

/-- Whenever a counter is lowered, the sum of the counters falls by one. -/
theorem total_of_takeOne? {v : V} {counters rest : List (V × Nat)} {n : Nat}
    (h : takeOne? v counters = some (n, rest)) : total rest + 1 = total counters := by
  induction counters generalizing rest with
  | nil => simp [takeOne?] at h
  | cons c counters ih =>
    obtain ⟨u, m⟩ := c
    unfold takeOne? at h
    split at h
    · split at h
      · simp at h
      · simp only [Option.some.injEq, Prod.mk.injEq] at h
        obtain ⟨rfl, rfl⟩ := h
        simp only [total]
        omega
    · simp only [Option.map_eq_some_iff, Prod.exists, Prod.mk.injEq] at h
      obtain ⟨n', rest', hrest, rfl, rfl⟩ := h
      have := ih hrest
      simp only [total] at this ⊢
      omega

/-! ## Placing vertices -/

/-- How far an ordering has come. -/
structure Progress (V : Type) where
  unmet : List (V × Nat)
  ready : List V
  placed : List V

namespace Progress

/-- One target of a vertex has been placed; the vertex is ready if it was the last one. -/
def release (p : Progress V) (v : V) : Progress V :=
  match takeOne? v p.unmet with
  | none => p
  | some (n, unmet) => { p with unmet, ready := if n = 0 then p.ready ++ [v] else p.ready }

/-- The number of steps that can remain. -/
def weight (p : Progress V) : Nat := total p.unmet + p.ready.length

/-- A release moves weight from a counter to the ready vertices and adds none. -/
theorem weight_release_le (p : Progress V) (v : V) : (p.release v).weight ≤ p.weight := by
  unfold release
  split
  · exact Nat.le_refl _
  · -- One target fewer is unplaced, and at most one vertex more is ready.
    next n unmet h =>
    have := total_of_takeOne? h
    simp only [weight]
    split
    · simp only [List.length_append, List.length_cons, List.length_nil]
      omega
    · omega

theorem weight_foldl_release_le (vs : List V) (p : Progress V) :
    (vs.foldl release p).weight ≤ p.weight := by
  induction vs generalizing p with
  | nil => exact Nat.le_refl _
  | cons v vs ih => exact Nat.le_trans (ih _) (weight_release_le p v)

end Progress

/-- Places a ready vertex, where `ready` are the other ones, and releases the sources of its
incoming edges. -/
def advance (g : Digraph V E) (p : Progress V) (v : V) (ready : List V) : Progress V :=
  ((g.incoming v).map Edge.source).foldl Progress.release
    { p with ready, placed := p.placed ++ [v] }

/-- Placing a ready vertex lowers the weight, so placing ends. -/
theorem Progress.weight_advance (g : Digraph V E) {p : Progress V} {v : V} {ready : List V}
    (h : p.ready = v :: ready) : (g.advance p v ready).weight < p.weight := by
  refine Nat.lt_of_le_of_lt (weight_foldl_release_le _ _) ?_
  simp only [weight, h, List.length_cons]
  omega

/-- Places vertices until none is ready. -/
def place (g : Digraph V E) (p : Progress V) : List V :=
  match _ : p.ready with
  | [] => p.placed
  | v :: ready => g.place (g.advance p v ready)
termination_by p.weight
decreasing_by exact Progress.weight_advance g ‹_›

/-- The targets of a vertex among the members, one for every edge. -/
def targets (g : Digraph V E) (members : List V) (v : V) : List V :=
  ((g.outgoing v).map Edge.target).filter (· ∈ members)

/-- The counters of the members before any vertex is placed. -/
def initial (g : Digraph V E) (members : List V) : Progress V where
  unmet := members.map fun v => (v, (g.targets members v).length)
  ready := members.filter fun v => (g.targets members v).isEmpty
  placed := []

/-! ## Cycles -/

/-- Walks from a vertex to its first target among the remaining vertices until a vertex repeats;
answers with the walk from its first occurrence. -/
def walk (g : Digraph V E) (remaining unvisited path : List V) (current : V) : List V :=
  if _ : current ∈ unvisited then
    match (g.targets remaining current).head? with
    | none => path ++ [current]
    | some next => g.walk remaining (unvisited.erase current) (path ++ [current]) next
  else path.dropWhile (· ≠ current)
termination_by unvisited.length
decreasing_by
  rw [List.length_erase_of_mem ‹_›]
  have := List.length_pos_of_mem ‹current ∈ unvisited›
  omega

/-- A cycle among vertices that each have a target among them. -/
def cycle (g : Digraph V E) (remaining : List V) : List V :=
  match remaining with
  | [] => []
  | v :: _ => g.walk remaining remaining [] v

/-- The members of a sub-graph in dependency order; where there is none, one cycle of members. -/
def order (g : Digraph V E) (member : V → Bool) : Except (List V) (List V) :=
  let members := g.vertices.filter member
  let placed := g.place (g.initial members)
  if placed.length = members.length then .ok placed
  else .error (g.cycle (members.filter (· ∉ placed)))

end StackTemplate.Digraph
