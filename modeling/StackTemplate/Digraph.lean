/-!
# Directed multigraphs

A directed graph with vertices and edges in the order of their insertion. A vertex is its own
identity; several edges may join the same pair of vertices, each with its own value.

- `Digraph.outgoing`, `Digraph.incoming` : the edges at a vertex, in edge order.
- `Digraph.retain` : the graph on some of its vertices.
-/

namespace StackTemplate

variable {V E : Type}

/-- A directed edge. -/
structure Edge (V E : Type) where
  source : V
  target : V
  value : E
deriving DecidableEq, Repr

/-- A directed multigraph. -/
structure Digraph (V E : Type) where
  vertices : List V
  edges : List (Edge V E)
deriving DecidableEq, Repr

namespace Digraph

variable [DecidableEq V]

def ofVertices (vertices : List V) : Digraph V E := ⟨vertices, []⟩

def outgoing (g : Digraph V E) (v : V) : List (Edge V E) := g.edges.filter fun e => e.source = v

def incoming (g : Digraph V E) (v : V) : List (Edge V E) := g.edges.filter fun e => e.target = v

/-- The vertices that no edge enters. -/
def roots (g : Digraph V E) : List V := g.vertices.filter fun v => (g.incoming v).isEmpty

/-- The graph with a vertex, at the end if it is new. -/
def addVertex (g : Digraph V E) (v : V) : Digraph V E :=
  if v ∈ g.vertices then g else { g with vertices := g.vertices ++ [v] }

/-- The graph with an edge, at the end if it is new. -/
def addEdge [DecidableEq E] (g : Digraph V E) (e : Edge V E) : Digraph V E :=
  if e ∈ g.edges then g else { g with edges := g.edges ++ [e] }

/-- The graph on the vertices that are kept, with the edges between them. -/
def retain (g : Digraph V E) (keep : V → Bool) : Digraph V E :=
  { vertices := g.vertices.filter keep
    edges := g.edges.filter fun e =>
      decide (e.source ∈ g.vertices.filter keep) && decide (e.target ∈ g.vertices.filter keep) }

@[simp] theorem edges_addVertex {g : Digraph V E} {v : V} : (g.addVertex v).edges = g.edges := by
  unfold addVertex
  split <;> rfl

theorem mem_outgoing {g : Digraph V E} {v : V} {e : Edge V E} :
    e ∈ g.outgoing v ↔ e ∈ g.edges ∧ e.source = v := by
  simp [outgoing]

theorem mem_incoming {g : Digraph V E} {v : V} {e : Edge V E} :
    e ∈ g.incoming v ↔ e ∈ g.edges ∧ e.target = v := by
  simp [incoming]

/-- The roots are the vertices that are the target of no edge. -/
theorem roots_eq_filter (g : Digraph V E) :
    g.roots = g.vertices.filter fun v => ∀ e ∈ g.edges, e.target ≠ v := by
  apply List.filter_congr
  intro v _
  rw [Bool.eq_iff_iff, incoming, List.isEmpty_iff, List.filter_eq_nil_iff]
  simp

theorem mem_roots {g : Digraph V E} {v : V} :
    v ∈ g.roots ↔ v ∈ g.vertices ∧ ∀ e ∈ g.edges, e.target ≠ v := by
  simp [roots, incoming, List.filter_eq_nil_iff]

end Digraph

end StackTemplate
