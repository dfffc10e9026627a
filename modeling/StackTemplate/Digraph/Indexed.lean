import StackTemplate.Digraph

/-!
# Indexed directed multigraphs

A directed multigraph that finds the edges at a vertex without going through all edges. Two indices
hold the places of edges in the list of edges: one by the vertices that the edges leave, one by
those that they enter. A vertex has an entry in an index from its first edge on.

- `EdgeIndex` : places of edges by vertices.
- `IndexedDigraph.outgoing`, `IndexedDigraph.incoming`, `IndexedDigraph.roots` : what the indices
  answer.
- `IndexedDigraph.retain` : the graph on some of its vertices, with new indices.
-/

namespace StackTemplate

variable {V E : Type} [DecidableEq V]

/-! ## Indices -/

/-- The places of edges, by a vertex at which they are. -/
structure EdgeIndex (V : Type) where
  entries : List (V × List Nat)
deriving DecidableEq, Repr

namespace EdgeIndex

def empty : EdgeIndex V := ⟨[]⟩

/-- The places under a vertex, where it has an entry. -/
def places? (index : EdgeIndex V) (v : V) : Option (List Nat) := index.entries.lookup v

/-- Entries with one more place under a vertex, at the end; an entry is made where there is none. -/
def pushEntry (v : V) (place : Nat) : List (V × List Nat) → List (V × List Nat)
  | [] => [(v, [place])]
  | (u, places) :: entries =>
    if u = v then (u, places ++ [place]) :: entries
    else (u, places) :: pushEntry v place entries

/-- The index with one more place under a vertex. -/
def push (index : EdgeIndex V) (v : V) (place : Nat) : EdgeIndex V :=
  ⟨pushEntry v place index.entries⟩

/-- Only the entry of the vertex changes; where there was none, it starts with the new place. -/
theorem places?_push (index : EdgeIndex V) (u v : V) (place : Nat) :
    (index.push v place).places? u =
      if u = v then some ((index.places? u).getD [] ++ [place]) else index.places? u := by
  rcases index with ⟨entries⟩
  simp only [push, places?]
  induction entries with
  | nil =>
    by_cases hu : u = v
    · simp [pushEntry, hu]
    · simp [pushEntry, List.lookup_cons, beq_false_of_ne hu, hu]
  -- The new place belongs to the first entry, or to one further back.
  | cons entry entries ih =>
    rcases entry with ⟨w, places⟩
    rw [pushEntry, List.lookup_cons]
    by_cases hw : w = v
    · subst hw
      by_cases hu : u = w
      · simp [hu]
      · simp [List.lookup_cons, beq_false_of_ne hu, hu]
    · rw [if_neg hw, List.lookup_cons, ih]
      by_cases hu : u = w
      · simp [hu, hw]
      · simp [beq_false_of_ne hu]

end EdgeIndex

/-! ## Graphs -/

/-- A directed multigraph with indices of its edges. -/
structure IndexedDigraph (V E : Type) extends Digraph V E where
  leaving : EdgeIndex V
  entering : EdgeIndex V
deriving DecidableEq, Repr

namespace IndexedDigraph

def ofVertices (vertices : List V) : IndexedDigraph V E :=
  ⟨.ofVertices vertices, .empty, .empty⟩

/-- The edges at places that an index holds. -/
def edgesAt (g : IndexedDigraph V E) (places? : Option (List Nat)) : List (Edge V E) :=
  (places?.getD []).filterMap fun place => g.edges[place]?

def outgoing (g : IndexedDigraph V E) (v : V) : List (Edge V E) := g.edgesAt (g.leaving.places? v)

def incoming (g : IndexedDigraph V E) (v : V) : List (Edge V E) := g.edgesAt (g.entering.places? v)

/-- The vertices that have no entry for edges that enter them. -/
def roots (g : IndexedDigraph V E) : List V :=
  g.vertices.filter fun v => (g.entering.places? v).isNone

/-- Whether an edge is among those that leave its source. -/
def containsEdge [DecidableEq E] (g : IndexedDigraph V E) (e : Edge V E) : Bool :=
  (g.outgoing e.source).any fun e' => e'.target = e.target && e'.value = e.value

def addVertex (g : IndexedDigraph V E) (v : V) : IndexedDigraph V E :=
  { g with toDigraph := g.toDigraph.addVertex v }

/-- The graph with an edge at the end, and its place in both indices. -/
def pushEdge (g : IndexedDigraph V E) (e : Edge V E) : IndexedDigraph V E where
  vertices := g.vertices
  edges := g.edges ++ [e]
  leaving := g.leaving.push e.source g.edges.length
  entering := g.entering.push e.target g.edges.length

def addEdge [DecidableEq E] (g : IndexedDigraph V E) (e : Edge V E) : IndexedDigraph V E :=
  if g.containsEdge e then g else g.pushEdge e

/-- The graph with an edge, if both of its ends are vertices. -/
def pushJoined (g : IndexedDigraph V E) (e : Edge V E) : IndexedDigraph V E :=
  if e.source ∈ g.vertices ∧ e.target ∈ g.vertices then g.pushEdge e else g

/-- The graph on the vertices that are kept: the edges are added again one by one, to a graph with
empty indices. -/
def retain (g : IndexedDigraph V E) (keep : V → Bool) : IndexedDigraph V E :=
  g.edges.foldl pushJoined (ofVertices (g.vertices.filter keep))

end IndexedDigraph

end StackTemplate
