import Mathlib.Data.List.Basic
import Mathlib.Data.List.Induction
import StackTemplate.Digraph.Indexed

/-!
# Indices of directed multigraphs

The indices of a graph are right if they hold under each vertex the places of exactly the edges at
it, in edge order, and have no entry for any other vertex. Adding a vertex or an edge keeps them
right, and so does building them anew for the vertices that are kept. The edges found through
indices that are right are those found by going through all edges.

* `EdgeIndex.Indexes` : the places of an index are those of the edges at each vertex.
* `IndexedDigraph.Coherent` : both indices of a graph are right.
* `IndexedDigraph.Coherent.pushEdge`, `IndexedDigraph.coherent_retain` : how they stay right.
* `IndexedDigraph.Coherent.outgoing_eq`, `IndexedDigraph.Coherent.incoming_eq`,
  `IndexedDigraph.Coherent.roots_eq` : what they answer.
* `IndexedDigraph.Coherent.toDigraph_addEdge`, `IndexedDigraph.toDigraph_retain` : the graph apart
  from its indices.
-/

namespace StackTemplate

variable {V E : Type} [DecidableEq V]

/-! ## Places of edges -/

/-- The places of the edges that have a vertex as one of their ends. -/
def placesAt (endOf : Edge V E → V) (edges : List (Edge V E)) (v : V) : List Nat :=
  (List.range edges.length).filter fun place => (edges[place]?).any fun e => endOf e = v

variable {endOf : Edge V E → V} {edges : List (Edge V E)} {e : Edge V E} {v : V} {place : Nat}

/-- A place belongs to a vertex if the edge there has the vertex as its end. -/
theorem mem_placesAt : place ∈ placesAt endOf edges v ↔ ∃ e, edges[place]? = some e ∧ endOf e = v := by
  rw [placesAt, List.mem_filter, List.mem_range]
  constructor
  · rintro ⟨hplace, hany⟩
    rw [List.getElem?_eq_getElem hplace] at hany ⊢
    exact ⟨_, rfl, by simpa using hany⟩
  · rintro ⟨e, he, hend⟩
    refine ⟨(List.getElem?_eq_some_iff.1 he).1, ?_⟩
    rw [he]
    simpa using hend

/-- An edge at the end adds its place under the vertex at its end. -/
theorem placesAt_concat (edges : List (Edge V E)) (e : Edge V E) (v : V) :
    placesAt endOf (edges ++ [e]) v =
      placesAt endOf edges v ++ if endOf e = v then [edges.length] else [] := by
  have hfront : ∀ place ∈ List.range edges.length, (edges ++ [e])[place]? = edges[place]? := by
    intro place hplace
    exact List.getElem?_append_left (List.mem_range.1 hplace)
  unfold placesAt
  rw [List.length_append, List.length_singleton, List.range_succ, List.filter_append]
  -- The places in front are judged by the same edges; the new one by the new edge.
  congr 1
  · apply List.filter_congr
    intro place hplace
    rw [hfront place hplace]
  · by_cases hend : endOf e = v
    · simp [hend]
    · simp [hend]

/-- The edges at the places of a vertex are those at the vertex, in edge order. -/
theorem filterMap_placesAt (edges : List (Edge V E)) (v : V) :
    (placesAt endOf edges v).filterMap (fun place => edges[place]?) =
      edges.filter fun e => endOf e = v := by
  -- Edges are added at the end, so the places of the others stay what they are.
  induction edges using List.reverseRecOn with
  | nil => rfl
  | append_singleton edges e ih =>
    have hfront : (placesAt endOf edges v).filterMap (fun place => (edges ++ [e])[place]?) =
        (placesAt endOf edges v).filterMap (fun place => edges[place]?) := by
      apply List.filterMap_congr
      intro place hplace
      rcases mem_placesAt.1 hplace with ⟨e', he', -⟩
      exact List.getElem?_append_left (List.getElem?_eq_some_iff.1 he').1
    rw [placesAt_concat, List.filterMap_append, hfront, ih, List.filter_append]
    by_cases hend : endOf e = v
    · simp [hend]
    · simp [hend]

/-- A vertex without places is the end of no edge. -/
theorem placesAt_eq_nil_iff : placesAt endOf edges v = [] ↔ ∀ e ∈ edges, endOf e ≠ v := by
  rw [List.eq_nil_iff_forall_not_mem]
  constructor
  · intro h e he hend
    rcases List.getElem?_of_mem he with ⟨place, hplace⟩
    exact h place (mem_placesAt.2 ⟨e, hplace, hend⟩)
  · intro h place hplace
    rcases mem_placesAt.1 hplace with ⟨e, he, hend⟩
    exact h e (List.mem_of_getElem? he) hend

/-! ## Indices -/

namespace EdgeIndex

variable {index : EdgeIndex V}

/-- An index holds the places of the edges at each vertex, and has no entry without places. -/
def Indexes (index : EdgeIndex V) (endOf : Edge V E → V) (edges : List (Edge V E)) : Prop :=
  ∀ v, index.places? v = if placesAt endOf edges v = [] then none else some (placesAt endOf edges v)

theorem indexes_empty (endOf : Edge V E → V) : (empty : EdgeIndex V).Indexes endOf [] :=
  fun _ => rfl

/-- What an index answers are the places of the vertex, also where it has no entry. -/
theorem Indexes.getD_places? (h : index.Indexes endOf edges) (v : V) :
    (index.places? v).getD [] = placesAt endOf edges v := by
  rw [h v]
  split
  · next hnone => exact hnone.symm
  · rfl

/-- An index stays right when the place of a new edge is pushed under the end of the edge. -/
theorem Indexes.push (h : index.Indexes endOf edges) (e : Edge V E) :
    (index.push (endOf e) edges.length).Indexes endOf (edges ++ [e]) := by
  intro v
  rw [places?_push, placesAt_concat]
  by_cases hend : v = endOf e
  · -- The first edge at a vertex makes its entry.
    subst hend
    rw [if_pos rfl, h.getD_places?]
    simp
  · rw [if_neg hend, if_neg (Ne.symm hend), List.append_nil]
    exact h v

/-- A vertex without an entry is the end of no edge. -/
theorem Indexes.places?_eq_none_iff (h : index.Indexes endOf edges) :
    index.places? v = none ↔ ∀ e ∈ edges, endOf e ≠ v := by
  rw [← placesAt_eq_nil_iff, h v]
  split
  · next hnone => exact ⟨fun _ => hnone, fun _ => rfl⟩
  · next hsome => simp [hsome]

/-- The places that an index holds are places of edges. -/
theorem Indexes.lt_length (h : index.Indexes endOf edges) {places : List Nat}
    (hplaces : index.places? v = some places) (hplace : place ∈ places) : place < edges.length := by
  have hlist : places = placesAt endOf edges v := by
    rw [← h.getD_places?, hplaces]
    rfl
  rw [hlist] at hplace
  rcases mem_placesAt.1 hplace with ⟨e, he, -⟩
  exact (List.getElem?_eq_some_iff.1 he).1

end EdgeIndex

/-! ## Graphs -/

namespace IndexedDigraph

/-- Both indices of a graph are right. -/
structure Coherent (g : IndexedDigraph V E) : Prop where
  leaving : g.leaving.Indexes Edge.source g.edges
  entering : g.entering.Indexes Edge.target g.edges

variable {g : IndexedDigraph V E}

theorem coherent_ofVertices (vertices : List V) :
    (ofVertices vertices : IndexedDigraph V E).Coherent :=
  ⟨EdgeIndex.indexes_empty _, EdgeIndex.indexes_empty _⟩

/-- A new vertex is the end of no edge, so the indices stay as they are. -/
theorem Coherent.addVertex (h : g.Coherent) (v : V) : (g.addVertex v).Coherent := by
  have hedges : (g.addVertex v).edges = g.edges := Digraph.edges_addVertex
  constructor
  · rw [hedges]
    exact h.leaving
  · rw [hedges]
    exact h.entering

theorem Coherent.pushEdge (h : g.Coherent) (e : Edge V E) : (g.pushEdge e).Coherent :=
  ⟨h.leaving.push e, h.entering.push e⟩

/-! ## Queries -/

/-- The index finds the edges that leave a vertex, in edge order. -/
theorem Coherent.outgoing_eq (h : g.Coherent) (v : V) : g.outgoing v = g.toDigraph.outgoing v := by
  rw [outgoing, edgesAt, h.leaving.getD_places?]
  exact filterMap_placesAt g.edges v

theorem Coherent.incoming_eq (h : g.Coherent) (v : V) : g.incoming v = g.toDigraph.incoming v := by
  rw [incoming, edgesAt, h.entering.getD_places?]
  exact filterMap_placesAt g.edges v

/-- The vertices without an entry are those that no edge enters. -/
theorem Coherent.roots_eq (h : g.Coherent) : g.roots = g.toDigraph.roots := by
  rw [Digraph.roots_eq_filter]
  apply List.filter_congr
  intro v _
  rw [Bool.eq_iff_iff, Option.isNone_iff_eq_none, h.entering.places?_eq_none_iff,
    decide_eq_true_iff]

/-- An edge is found among those that leave its source, if it is there at all. -/
theorem Coherent.containsEdge_iff [DecidableEq E] (h : g.Coherent) (e : Edge V E) :
    g.containsEdge e = true ↔ e ∈ g.edges := by
  rcases e with ⟨source, target, value⟩
  rw [containsEdge, h.outgoing_eq, List.any_eq_true]
  constructor
  · rintro ⟨⟨source', target', value'⟩, hmem, hsame⟩
    rcases Digraph.mem_outgoing.1 hmem with ⟨hedge, rfl⟩
    simp only [Bool.and_eq_true, decide_eq_true_eq] at hsame
    rcases hsame with ⟨rfl, rfl⟩
    exact hedge
  · intro hedge
    exact ⟨_, Digraph.mem_outgoing.2 ⟨hedge, rfl⟩, by simp⟩

/-! ## Edges that are added -/

variable [DecidableEq E]

theorem Coherent.addEdge (h : g.Coherent) (e : Edge V E) : (g.addEdge e).Coherent := by
  unfold IndexedDigraph.addEdge
  split
  · exact h
  · exact h.pushEdge e

/-- Apart from its indices, the graph gains an edge as a plain one does. -/
theorem Coherent.toDigraph_addEdge (h : g.Coherent) (e : Edge V E) :
    (g.addEdge e).toDigraph = g.toDigraph.addEdge e := by
  unfold IndexedDigraph.addEdge Digraph.addEdge
  simp only [h.containsEdge_iff e]
  split <;> rfl

/-! ## Vertices that are kept -/

omit [DecidableEq E] in
theorem Coherent.pushJoined (h : g.Coherent) (e : Edge V E) : (g.pushJoined e).Coherent := by
  unfold IndexedDigraph.pushJoined
  split
  · exact h.pushEdge e
  · exact h

omit [DecidableEq E] in
theorem Coherent.foldl_pushJoined (h : g.Coherent) (es : List (Edge V E)) :
    (es.foldl IndexedDigraph.pushJoined g).Coherent := by
  induction es generalizing g with
  | nil => exact h
  | cons e es ih => exact ih (h.pushJoined e)

omit [DecidableEq E] in
/-- The indices of what is kept are right, whatever they were before. -/
theorem coherent_retain (g : IndexedDigraph V E) (keep : V → Bool) : (g.retain keep).Coherent :=
  (coherent_ofVertices _).foldl_pushJoined g.edges

omit [DecidableEq E] in
/-- Edges that are pushed again are kept if both of their ends are vertices. -/
theorem toDigraph_foldl_pushJoined (g : IndexedDigraph V E) (es : List (Edge V E)) :
    (es.foldl pushJoined g).toDigraph =
      ⟨g.vertices, g.edges ++ es.filter fun e =>
        decide (e.source ∈ g.vertices) && decide (e.target ∈ g.vertices)⟩ := by
  -- No edge changes the vertices, so each is judged by the same ones.
  induction es generalizing g with
  | nil => simp
  | cons e es ih =>
    rw [List.foldl_cons, ih, pushJoined, List.filter_cons]
    -- The edge is pushed, or it is filtered out.
    by_cases hends : e.source ∈ g.vertices ∧ e.target ∈ g.vertices
    · rw [if_pos hends, if_pos (by simpa using hends)]
      change Digraph.mk g.vertices (g.edges ++ [e] ++ _) = _
      rw [List.append_assoc]
      rfl
    · rw [if_neg hends, if_neg (by simpa using hends)]

omit [DecidableEq E] in
/-- Apart from its indices, the graph is restricted as a plain one is. -/
theorem toDigraph_retain (g : IndexedDigraph V E) (keep : V → Bool) :
    (g.retain keep).toDigraph = g.toDigraph.retain keep :=
  toDigraph_foldl_pushJoined _ g.edges

end IndexedDigraph

end StackTemplate
