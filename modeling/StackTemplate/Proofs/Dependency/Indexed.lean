import StackTemplate.Dependency.Indexed
import StackTemplate.Proofs.Dependency.Order
import StackTemplate.Proofs.Digraph.Indexed
import StackTemplate.Proofs.Pruning.Excluding

/-!
# Indices of dependency graphs

Building a dependency graph with indices takes the same steps as building it without, and fails for
the same cause. The indices are right from the start and each step keeps them so, be it an edge that
is added or a removal of vertices, after which they are built anew. What a graph answers through its
indices is therefore what can be read off its edges.

* `Template.map_toDigraph_indexedGraph` : the graph apart from its indices.
* `IndexedGraph.Maintained` : the graphs that are built for templates, less some vertices.
* `DependencyGraph.Admitted` : the edges that dependencies give.
* `IndexedGraph.Faithful` : a graph with indices that agree with its edges.
* `IndexedGraph.Maintained.faithful` : every graph that is maintained is faithful.
-/

namespace StackTemplate

/-! ## Building -/

namespace IndexedGraph

variable {g : IndexedGraph}

/-- A dependency leaves the indices right. -/
theorem coherent_connect (h : g.Coherent) (e : Edge Vertex EdgeDetail) : (g.connect e).Coherent := by
  unfold connect
  apply IndexedDigraph.Coherent.addEdge
  split
  · exact h.addVertex e.target
  · exact h

/-- A dependency adds the same vertex and edge with indices as without. -/
theorem toDigraph_connect (h : g.Coherent) (e : Edge Vertex EdgeDetail) :
    (g.connect e).toDigraph = DependencyGraph.connect g.toDigraph e := by
  unfold connect DependencyGraph.connect
  split
  · exact (h.addVertex e.target).toDigraph_addEdge e
  · exact h.toDigraph_addEdge e

end IndexedGraph

namespace Template

variable {t : Template} {g : IndexedGraph}

/-- A dependency is admitted for its edge alone, whatever the graph is. -/
theorem addDependency_eq_map (t : Template) (g : DependencyGraph) (v : Vertex) (d : Dependency) :
    t.addDependency g v d = (t.edgeOf v d).map g.connect := by
  unfold addDependency edgeOf
  cases d.resolve t with
  | none => rfl
  | some y =>
    rcases y with ⟨target, detail⟩
    dsimp only
    -- An edge to itself, an edge from a condition to a resource, and the edges that are admitted.
    split_ifs with hself hprecede hkind
    · rfl
    · rfl
    · exact congrArg Except.ok (by rw [DependencyGraph.connect, if_pos hkind])
    · exact congrArg Except.ok (by rw [DependencyGraph.connect, if_neg hkind])

/-- Dependencies added to a graph with indices that are right keep them right, and give the graph
that they give without indices. -/
theorem foldlM_connect (t : Template) (xs : List (Vertex × Dependency)) (h : g.Coherent) :
    (xs.foldlM (fun g x => (t.edgeOf x.1 x.2).map (IndexedGraph.connect g)) g).map
        IndexedDigraph.toDigraph =
      xs.foldlM (fun g x => t.addDependency g x.1 x.2) g.toDigraph ∧
    ∀ g', xs.foldlM (fun g x => (t.edgeOf x.1 x.2).map (IndexedGraph.connect g)) g = .ok g' →
      g'.Coherent := by
  -- Whether an edge is there is read from the indices, so both facts are carried along.
  induction xs generalizing g with
  | nil =>
    refine ⟨rfl, ?_⟩
    intro g' hg'
    cases hg'
    exact h
  | cons x xs ih =>
    rw [List.foldlM_cons, List.foldlM_cons, addDependency_eq_map]
    cases t.edgeOf x.1 x.2 with
    | error e => exact ⟨rfl, fun g' hg' => nomatch hg'⟩
    | ok e =>
      -- The induction goes on from the graph with the edge, whose indices are right.
      have hnext := ih (IndexedGraph.coherent_connect h e)
      rw [IndexedGraph.toDigraph_connect h e] at hnext
      exact hnext

/-- The graph that is built with indices is the graph that is built without, and it is built exactly
where that one is. -/
theorem map_toDigraph_indexedGraph (t : Template) :
    t.indexedGraph.map IndexedDigraph.toDigraph = t.dependencyGraph := by
  unfold indexedGraph dependencyGraph
  cases t.resources.keys.find? t.parameters.contains with
  | some name => rfl
  | none => exact (foldlM_connect t _ (IndexedDigraph.coherent_ofVertices _)).1

/-- The indices of a graph that is built are right. -/
theorem coherent_of_indexedGraph (h : t.indexedGraph = .ok g) : g.Coherent := by
  unfold indexedGraph at h
  split at h
  · cases h
  · exact (foldlM_connect t _ (IndexedDigraph.coherent_ofVertices _)).2 g h

theorem dependencyGraph_of_indexedGraph (h : t.indexedGraph = .ok g) :
    t.dependencyGraph = .ok g.toDigraph := by
  rw [← map_toDigraph_indexedGraph, h]
  rfl

end Template

/-! ## Edges of dependencies -/

namespace DependencyGraph

variable {g : DependencyGraph}

/-- The edges are different, and each leads from an entity that has dependencies to another entity
that something can depend on. -/
structure Admitted (g : DependencyGraph) : Prop where
  nodup_edges : g.edges.Nodup
  allowed : ∀ e ∈ g.edges, Allowed e
  source : ∀ e ∈ g.edges, e.source.kind ≠ .parameter ∧ e.source.kind ≠ .pseudoParameter
  target : ∀ e ∈ g.edges, e.target.kind ≠ .output

/-- Only admitted edges are built. -/
theorem admitted_of_dependencyGraph {t : Template} (h : t.dependencyGraph = .ok g) :
    g.Admitted := by
  -- Each edge stands for a dependency, which says what kinds its ends are of.
  have hdepends : ∀ e ∈ g.edges, t.Depends e.source e.target e.value := fun e =>
    (Template.exact_of_dependencyGraph h).depends_of_mem_edges
  rcases Template.dependencyGraph_eq_ok.1 h with ⟨-, hconnects, rfl⟩
  constructor
  · exact nodup_edges_foldl_connect _ List.nodup_nil
  · intro e he
    exact Template.allowed_of_depends hconnects (hdepends e he)
  · intro e he
    rcases (hdepends e he).kinds.1 with hkind | hkind | hkind <;> simp [hkind]
  · intro e he
    rcases (hdepends e he).kinds.2 with hkind | hkind | hkind | hkind <;> simp [hkind]

/-- Removing vertices adds no edge, so the edges stay admitted. -/
theorem Admitted.removeVertices (h : g.Admitted) (vs : List Vertex) :
    (g.removeVertices vs).Admitted where
  nodup_edges := h.nodup_edges.filter _
  allowed e he := h.allowed e (List.mem_filter.1 he).1
  source e he := h.source e (List.mem_filter.1 he).1
  target e he := h.target e (List.mem_filter.1 he).1

theorem Obtained.admitted (h : g.Obtained) : g.Admitted := by
  induction h with
  | build hgraph => exact admitted_of_dependencyGraph hgraph
  | removeVertices _ vs ih => exact ih.removeVertices vs

end DependencyGraph

/-! ## Graphs that are maintained -/

namespace IndexedGraph

variable {g : IndexedGraph}

/-- The graphs that are built for templates with indices, and what remains of them when vertices are
removed. -/
inductive Maintained : IndexedGraph → Prop
  | build {t : Template} {g : IndexedGraph} (h : t.indexedGraph = .ok g) : Maintained g
  | removeVertices {g : IndexedGraph} (h : Maintained g) (vs : List Vertex) :
      Maintained (g.removeVertices vs)

theorem coherent_removeVertices (h : g.Coherent) (vs : List Vertex) :
    (g.removeVertices vs).Coherent := by
  unfold removeVertices
  split
  · exact h
  · exact IndexedDigraph.coherent_retain g _

theorem Maintained.coherent (h : g.Maintained) : g.Coherent := by
  induction h with
  | build hgraph => exact Template.coherent_of_indexedGraph hgraph
  | removeVertices _ vs ih => exact coherent_removeVertices ih vs

/-- Vertices are removed as they are without indices, although the graph is left alone where none
are to be removed. -/
theorem toDigraph_removeVertices (hjoined : DependencyGraph.Joined g.toDigraph)
    (vs : List Vertex) :
    (g.removeVertices vs).toDigraph = DependencyGraph.removeVertices g.toDigraph vs := by
  unfold removeVertices
  split
  · next hnone =>
    -- The graph is not built anew, which makes no difference where all edges have their ends.
    rw [hnone, DependencyGraph.removeVertices_nil hjoined]
  · exact IndexedDigraph.toDigraph_retain g _

theorem Maintained.obtained (h : g.Maintained) : DependencyGraph.Obtained g.toDigraph := by
  induction h with
  | build hgraph => exact .build (Template.dependencyGraph_of_indexedGraph hgraph)
  | removeVertices _ vs ih =>
    -- The graph before the removal has both ends of all its edges.
    rw [toDigraph_removeVertices ih.wellFormed.joined]
    exact ih.removeVertices vs

/-- The vertices and the edges of a graph are different, the edges lead from vertices to other
vertices, of kinds that depend on each other, and the indices lead to the edges at each vertex. -/
structure Faithful (g : IndexedGraph) : Prop where
  nodup_vertices : g.vertices.Nodup
  nodup_edges : g.edges.Nodup
  source_mem : ∀ e ∈ g.edges, e.source ∈ g.vertices
  target_mem : ∀ e ∈ g.edges, e.target ∈ g.vertices
  outgoing : ∀ v, g.outgoing v = g.edges.filter fun e => e.source = v
  incoming : ∀ v, g.incoming v = g.edges.filter fun e => e.target = v
  roots : g.roots = g.vertices.filter fun v => ∀ e ∈ g.edges, e.target ≠ v
  leaving_lt : ∀ v places, g.leaving.places? v = some places → ∀ i ∈ places, i < g.edges.length
  entering_lt : ∀ v places, g.entering.places? v = some places → ∀ i ∈ places, i < g.edges.length
  loopless : ∀ e ∈ g.edges, e.source ≠ e.target
  source_kind : ∀ e ∈ g.edges, e.source.kind ≠ .parameter ∧ e.source.kind ≠ .pseudoParameter
  target_kind : ∀ e ∈ g.edges, e.target.kind ≠ .output
  conditions : ∀ e ∈ g.edges, ¬ (e.source.kind = .condition ∧ e.target.kind = .resource)

/-- However often vertices are removed from a graph that was built for a template, it is faithful;
each removal leaves the other vertices, and the edges that touch none of the vertices removed, in
their order. -/
theorem Maintained.faithful (h : g.Maintained) : g.Faithful ∧
    ∀ vs, (g.removeVertices vs).vertices = (g.vertices.filter fun v => v ∉ vs) ∧
      (g.removeVertices vs).edges =
        g.edges.filter fun e => e.source ∉ vs ∧ e.target ∉ vs := by
  have hcoherent := h.coherent
  have hwell := h.obtained.wellFormed
  have hadmitted := h.obtained.admitted
  constructor
  · exact
      { nodup_vertices := hwell.nodup_vertices
        nodup_edges := hadmitted.nodup_edges
        source_mem := hwell.source_mem
        target_mem := hwell.target_mem
        outgoing := hcoherent.outgoing_eq
        incoming := hcoherent.incoming_eq
        roots := hcoherent.roots_eq.trans (Digraph.roots_eq_filter g.toDigraph)
        leaving_lt := fun v places hplaces i => hcoherent.leaving.lt_length hplaces
        entering_lt := fun v places hplaces i => hcoherent.entering.lt_length hplaces
        loopless := fun e he => (hadmitted.allowed e he).1
        source_kind := hadmitted.source
        target_kind := hadmitted.target
        conditions := fun e he => (hadmitted.allowed e he).2 }
  · intro vs
    -- The removal is read off the graph without indices.
    have hplain := toDigraph_removeVertices hwell.joined vs
    constructor
    · exact congrArg Digraph.vertices hplain
    · exact (congrArg Digraph.edges hplain).trans
        (DependencyGraph.edges_removeVertices hwell.joined vs)

/-- Removing the queue takes away its three edges and leaves the other ones in their order. -/
theorem repeatedDependencies_faithful : ∃ g, Template.repeatedDependencies.indexedGraph = .ok g ∧
    (g.removeVertices [⟨.resource, "Queue"⟩]).Faithful ∧
    ((g.removeVertices [⟨.resource, "Queue"⟩]).outgoing ⟨.resource, "Topic"⟩).map
        (fun e => (e.target.name, e.value)) =
      [("Live", .conditionReference), ("AWS::AccountId", .parameterReference),
        ("AWS::Region", .directReference)] := by
  have hgraph : Template.repeatedDependencies.indexedGraph = .ok _ := rfl
  have hmaintained := (Maintained.build hgraph).removeVertices [⟨.resource, "Queue"⟩]
  exact ⟨_, hgraph, (Maintained.faithful hmaintained).1, by decide +kernel⟩

end IndexedGraph

end StackTemplate
