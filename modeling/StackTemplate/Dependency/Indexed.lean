import StackTemplate.Dependency
import StackTemplate.Digraph.Indexed

/-!
# Indexed dependency graphs

The dependency graph of a template with indices of its edges. It is built dependency by dependency;
whether an edge is there already is looked up among the edges that leave its source.

- `Template.indexedGraph` : the graph, or the first dependency that is not admitted.
- `IndexedGraph.removeVertices` : the graph without some vertices.
-/

namespace StackTemplate

/-- The dependency graph of a template, with indices. -/
abbrev IndexedGraph := IndexedDigraph Vertex EdgeDetail

namespace IndexedGraph

/-- The graph with the edge of one more dependency. Only pseudo-parameters become vertices in this
way; an edge that is present is not repeated. -/
def connect (g : IndexedGraph) (e : Edge Vertex EdgeDetail) : IndexedGraph :=
  (if e.target.kind = .pseudoParameter then g.addVertex e.target else g).addEdge e

def removeVertices (g : IndexedGraph) (vs : List Vertex) : IndexedGraph :=
  if vs = [] then g else g.retain fun v => v ∉ vs

end IndexedGraph

namespace Template

/-- The edge of a dependency, or the cause for which it is not admitted. -/
def edgeOf (t : Template) (source : Vertex) (d : Dependency) :
    Except GraphError (Edge Vertex EdgeDetail) :=
  match d.resolve t with
  | none => .error (.unresolvedReference source d.name)
  | some (target, detail) =>
    if source = target then .error (.selfReference source)
    else if source.kind = .condition ∧ target.kind = .resource then
      .error (.illegalConditionReference source.name target.name)
    else .ok ⟨source, target, detail⟩

/-- The indexed dependency graph of a template, or the first cause for which there is none. -/
def indexedGraph (t : Template) : Except GraphError IndexedGraph :=
  match t.resources.keys.find? t.parameters.contains with
  | some name => .error (.duplicateVertex name .parameter .resource)
  | none =>
    t.dependencies.foldlM (fun g (source, d) => (t.edgeOf source d).map (IndexedGraph.connect g))
      (IndexedDigraph.ofVertices t.declaredVertices)

end Template

end StackTemplate
