import Mathlib.Data.List.Nodup
import StackTemplate.Proofs.Dependency.References

/-!
# The dependency graph of a template

What one entity depends on can be read off the declarations: the references in its operands, its
explicit entries and its governing condition. Building the graph goes through all of them in order;
it fails at the first one that is not admitted, and otherwise adds the vertex of a pseudo-parameter
and an edge, each unless it is there.

* `Template.Depends` : the dependencies of an entity, with the details of their edges.
* `Template.Admissible` : the templates whose dependencies are all admitted.
* `Template.dependencyGraph_eq_ok` : when the graph is built, and what it then is.
* `Template.dependencyGraph_exact` : the graph is built for the admissible templates, and has one
  edge for each dependency.
-/

namespace StackTemplate

/-! ## Adding vertices and edges -/

namespace Digraph

variable {V E : Type} [DecidableEq V] {g : Digraph V E}

/-- Adding a vertex that is there already adds nothing. -/
theorem mem_vertices_addVertex {u v : V} :
    u ∈ (g.addVertex v).vertices ↔ u ∈ g.vertices ∨ u = v := by
  unfold addVertex
  by_cases hv : v ∈ g.vertices
  · rw [if_pos hv]
    exact ⟨.inl, fun h => h.elim id fun heq => heq ▸ hv⟩
  · rw [if_neg hv]
    simp

/-- No vertex is there twice after one is added. -/
theorem nodup_vertices_addVertex {v : V} (h : g.vertices.Nodup) :
    (g.addVertex v).vertices.Nodup := by
  unfold addVertex
  by_cases hv : v ∈ g.vertices
  · rwa [if_pos hv]
  · rw [if_neg hv]
    simpa using List.Nodup.concat hv h

variable [DecidableEq E]

/-- Adding an edge that is there already adds nothing. -/
theorem mem_edges_addEdge {e e' : Edge V E} :
    e' ∈ (g.addEdge e).edges ↔ e' ∈ g.edges ∨ e' = e := by
  unfold addEdge
  by_cases he : e ∈ g.edges
  · rw [if_pos he]
    exact ⟨.inl, fun h => h.elim id fun heq => heq ▸ he⟩
  · rw [if_neg he]
    simp

theorem nodup_edges_addEdge {e : Edge V E} (h : g.edges.Nodup) : (g.addEdge e).edges.Nodup := by
  unfold addEdge
  by_cases he : e ∈ g.edges
  · rwa [if_pos he]
  · rw [if_neg he]
    simpa using List.Nodup.concat he h

@[simp] theorem vertices_addEdge {e : Edge V E} : (g.addEdge e).vertices = g.vertices := by
  unfold addEdge
  split <;> rfl

end Digraph

namespace DependencyGraph

/-- The graph with the edge of one more dependency. -/
def connect (g : DependencyGraph) (e : Edge Vertex EdgeDetail) : DependencyGraph :=
  (if e.target.kind = .pseudoParameter then g.addVertex e.target else g).addEdge e

/-- No entity depends on itself, and no condition on a resource. -/
def Allowed (e : Edge Vertex EdgeDetail) : Prop :=
  e.source ≠ e.target ∧ ¬ (e.source.kind = .condition ∧ e.target.kind = .resource)

variable {g : DependencyGraph} {e e' : Edge Vertex EdgeDetail} {v : Vertex}

/-- A dependency adds its target if that is a pseudo-parameter, and no other vertex. -/
theorem mem_vertices_connect :
    v ∈ (connect g e).vertices ↔ v ∈ g.vertices ∨ v.kind = .pseudoParameter ∧ e.target = v := by
  unfold connect
  rw [Digraph.vertices_addEdge]
  split
  · next hkind =>
    rw [Digraph.mem_vertices_addVertex]
    refine or_congr_right ⟨?_, fun h => h.2.symm⟩
    rintro rfl
    exact ⟨hkind, rfl⟩
  · -- The target was declared, and is no pseudo-parameter.
    next hkind =>
    refine ⟨.inl, fun h => h.elim id ?_⟩
    rintro ⟨hv, rfl⟩
    exact absurd hv hkind

theorem mem_edges_connect : e' ∈ (connect g e).edges ↔ e' ∈ g.edges ∨ e' = e := by
  unfold connect
  rw [Digraph.mem_edges_addEdge]
  split
  · rw [Digraph.edges_addVertex]
  · rfl

theorem nodup_vertices_connect (h : g.vertices.Nodup) : (connect g e).vertices.Nodup := by
  unfold connect
  rw [Digraph.vertices_addEdge]
  split
  · exact Digraph.nodup_vertices_addVertex h
  · exact h

theorem nodup_edges_connect (h : g.edges.Nodup) : (connect g e).edges.Nodup := by
  unfold connect
  apply Digraph.nodup_edges_addEdge
  split
  · rwa [Digraph.edges_addVertex]
  · exact h

variable (es : List (Edge Vertex EdgeDetail))

/-- Dependencies add the pseudo-parameters among their targets. -/
theorem mem_vertices_foldl_connect : v ∈ (es.foldl connect g).vertices ↔
    v ∈ g.vertices ∨ v.kind = .pseudoParameter ∧ ∃ e ∈ es, e.target = v := by
  induction es generalizing g with
  | nil => simp
  | cons e es ih =>
    rw [List.foldl_cons, ih, mem_vertices_connect, or_assoc, ← and_or_left]
    simp only [List.exists_mem_cons_iff]

/-- The edges after one more dependency, in their order. -/
theorem edges_connect : (connect g e).edges = if e ∈ g.edges then g.edges else g.edges ++ [e] := by
  have hvertex : (if e.target.kind = .pseudoParameter then g.addVertex e.target else g).edges =
      g.edges := by
    split
    · exact Digraph.edges_addVertex
    · rfl
  unfold connect Digraph.addEdge
  rw [hvertex]
  split
  · exact hvertex
  · rfl

/-- The edges of a graph without edges to which edges are added are these, each once. -/
theorem edges_foldl_connect (h : g.edges = []) :
    (es.foldl connect g).edges = firstOccurrences es := by
  -- Without the hypothesis on the edges, so that the induction can vary the graph.
  have hrun : (es.foldl connect g).edges =
      es.foldl (fun acc e => if e ∈ acc then acc else acc ++ [e]) g.edges := by
    clear h
    induction es generalizing g with
    | nil => rfl
    | cons e es ih => rw [List.foldl_cons, List.foldl_cons, ih, edges_connect]
  rw [hrun, h, firstOccurrences]

/-- The vertices of any other kind stay as they are, and in their order. -/
theorem vertices_connect_filter {keep : Vertex → Bool}
    (hkeep : ∀ v, v.kind = .pseudoParameter → keep v = false) :
    (connect g e).vertices.filter keep = g.vertices.filter keep := by
  unfold connect
  rw [Digraph.vertices_addEdge]
  split
  · next hkind =>
    unfold Digraph.addVertex
    split
    · rfl
    · simp [hkeep e.target hkind]
  · rfl

/-- Only pseudo-parameters become vertices when edges are added. -/
theorem vertices_foldl_connect_filter {keep : Vertex → Bool}
    (hkeep : ∀ v, v.kind = .pseudoParameter → keep v = false) :
    (es.foldl connect g).vertices.filter keep = g.vertices.filter keep := by
  induction es generalizing g with
  | nil => rfl
  | cons e es ih => rw [List.foldl_cons, ih, vertices_connect_filter hkeep]

/-- Dependencies add their edges and no others. -/
theorem mem_edges_foldl_connect :
    e ∈ (es.foldl connect g).edges ↔ e ∈ g.edges ∨ e ∈ es := by
  induction es generalizing g with
  | nil => simp
  | cons e' es ih => rw [List.foldl_cons, ih, mem_edges_connect, or_assoc, List.mem_cons]

theorem nodup_vertices_foldl_connect (h : g.vertices.Nodup) :
    (es.foldl connect g).vertices.Nodup := by
  induction es generalizing g with
  | nil => exact h
  | cons e es ih => exact ih (nodup_vertices_connect h)

theorem nodup_edges_foldl_connect (h : g.edges.Nodup) : (es.foldl connect g).edges.Nodup := by
  induction es generalizing g with
  | nil => exact h
  | cons e es ih => exact ih (nodup_edges_connect h)

end DependencyGraph

/-! ## Entities -/

namespace Template

/-- The operands of the entity that a vertex stands for. -/
def operandsAt (t : Template) : Vertex → List Operand
  | ⟨.condition, name⟩ => (t.conditions.find? name).toList
  | ⟨.resource, name⟩ => (t.resources.find? name).elim [] fun r => r.operands.map Prod.snd
  | ⟨.output, name⟩ => (t.outputs.find? name).elim [] fun out => out.operands.map Prod.snd
  | ⟨.parameter, _⟩ | ⟨.pseudoParameter, _⟩ => []

/-- The explicit entries of the entity that a vertex stands for. -/
def dependsOnAt (t : Template) : Vertex → List String
  | ⟨.resource, name⟩ => (t.resources.find? name).elim [] Resource.dependsOn
  | _ => []

/-- The condition that governs the entity that a vertex stands for. -/
def governingAt (t : Template) : Vertex → Option String
  | ⟨.resource, name⟩ => (t.resources.find? name).bind Resource.condition
  | ⟨.output, name⟩ => (t.outputs.find? name).bind Output.condition
  | _ => none

/-- The template declares what a reference names. -/
def Declares (t : Template) : Reference → Prop
  | .ref name => name ∈ t.parameters.keys ∨ name ∈ t.resources.keys ∨
    (PseudoParameter.ofName? name).isSome = true
  | .getAtt name _ => name ∈ t.resources.keys
  | .condition name => name ∈ t.conditions.keys

/-- One entity depends on another, for the reason that an edge states. A `Ref` reaches a parameter
before a resource, and a resource before a pseudo-parameter. -/
inductive Depends (t : Template) (v : Vertex) : Vertex → EdgeDetail → Prop
  | parameter {o : Operand} {name : String} (ho : o ∈ t.operandsAt v)
      (hr : .ref name ∈ o.references) (hname : name ∈ t.parameters.keys) :
      Depends t v ⟨.parameter, name⟩ .parameterReference
  | resource {o : Operand} {name : String} (ho : o ∈ t.operandsAt v)
      (hr : .ref name ∈ o.references) (hparameter : name ∉ t.parameters.keys)
      (hname : name ∈ t.resources.keys) : Depends t v ⟨.resource, name⟩ .directReference
  | pseudoParameter {o : Operand} {name : String} (ho : o ∈ t.operandsAt v)
      (hr : .ref name ∈ o.references) (hparameter : name ∉ t.parameters.keys)
      (hresource : name ∉ t.resources.keys)
      (hname : (PseudoParameter.ofName? name).isSome = true) :
      Depends t v ⟨.pseudoParameter, name⟩ .parameterReference
  | attributeOf {o : Operand} {name attributeName : String} (ho : o ∈ t.operandsAt v)
      (hr : .getAtt name attributeName ∈ o.references) (hname : name ∈ t.resources.keys) :
      Depends t v ⟨.resource, name⟩ (.attributeReference attributeName)
  | condition {o : Operand} {name : String} (ho : o ∈ t.operandsAt v)
      (hr : .condition name ∈ o.references) (hname : name ∈ t.conditions.keys) :
      Depends t v ⟨.condition, name⟩ .conditionReference
  | dependsOn {name : String} (he : name ∈ t.dependsOnAt v) (hname : name ∈ t.resources.keys) :
      Depends t v ⟨.resource, name⟩ .dependsOn
  | governing {name : String} (hc : t.governingAt v = some name)
      (hname : name ∈ t.conditions.keys) : Depends t v ⟨.condition, name⟩ .conditionReference

/-- Every name is declared and none by a parameter and a resource, nothing refers to itself, and
conditions refer to no resources. -/
structure Admissible (t : Template) : Prop where
  names : ∀ name ∈ t.resources.keys, name ∉ t.parameters.keys
  references : ∀ v, ∀ o ∈ t.operandsAt v, ∀ r ∈ o.references, t.Declares r
  dependsOn : ∀ v, ∀ name ∈ t.dependsOnAt v, name ∈ t.resources.keys
  governing : ∀ v name, t.governingAt v = some name → name ∈ t.conditions.keys
  resources_apart : ∀ name detail, ¬ t.Depends ⟨.resource, name⟩ ⟨.resource, name⟩ detail
  conditions_apart : ∀ name detail, ¬ t.Depends ⟨.condition, name⟩ ⟨.condition, name⟩ detail
  conditions_precede : ∀ name other detail,
    ¬ t.Depends ⟨.condition, name⟩ ⟨.resource, other⟩ detail

/-- The vertices of a graph for a template: what is declared, and the pseudo-parameters that
something refers to. -/
def HasVertex (t : Template) : Vertex → Prop
  | ⟨.parameter, name⟩ => name ∈ t.parameters.keys
  | ⟨.resource, name⟩ => name ∈ t.resources.keys
  | ⟨.output, name⟩ => name ∈ t.outputs.keys
  | ⟨.condition, name⟩ => name ∈ t.conditions.keys
  | ⟨.pseudoParameter, name⟩ => ∃ v detail, t.Depends v ⟨.pseudoParameter, name⟩ detail

/-- A graph has the vertices of a template, each once, and one edge for each dependency. -/
structure Exact (t : Template) (g : DependencyGraph) : Prop where
  nodup_vertices : g.vertices.Nodup
  mem_vertices : ∀ v, v ∈ g.vertices ↔ t.HasVertex v
  nodup_outgoing : ∀ v, (g.outgoing v).Nodup
  mem_outgoing : ∀ v e, e ∈ g.outgoing v ↔ e.source = v ∧ t.Depends v e.target e.value

/-! ## The dependencies of an entity -/

/-- What the declaration of an entity says that it depends on. -/
def States (t : Template) (v : Vertex) : Dependency → Prop
  | .reference r => ∃ o ∈ t.operandsAt v, r ∈ o.references
  | .dependsOn name => name ∈ t.dependsOnAt v
  | .governing name => t.governingAt v = some name

/-- The template declares what a dependency names. -/
def DeclaresTarget (t : Template) : Dependency → Prop
  | .reference r => t.Declares r
  | .dependsOn name => name ∈ t.resources.keys
  | .governing name => name ∈ t.conditions.keys

variable {t : Template} {v w : Vertex} {detail : EdgeDetail} {d : Dependency} {name : String}

theorem mem_operandsAt_condition {o : Operand} :
    o ∈ t.operandsAt ⟨.condition, name⟩ ↔ t.conditions.find? name = some o := by
  simp [operandsAt]

theorem mem_dependencies_condition : (⟨.condition, name⟩, d) ∈ t.dependencies ↔
    ∃ o, t.conditions.find? name = some o ∧ ∃ r ∈ o.references, .reference r = d := by
  simp [dependencies, Dict.find?_eq_some_iff]

theorem mem_dependencies_resource : (⟨.resource, name⟩, d) ∈ t.dependencies ↔
    ∃ r, t.resources.find? name = some r ∧ d ∈ r.dependencies := by
  simp [dependencies, Dict.find?_eq_some_iff]

theorem mem_dependencies_output : (⟨.output, name⟩, d) ∈ t.dependencies ↔
    ∃ out, t.outputs.find? name = some out ∧ d ∈ out.dependencies := by
  simp [dependencies, Dict.find?_eq_some_iff]

/-- References are collected over the operands of an entity, each once. -/
theorem mem_references_of_operands {operands : List (String × Operand)} {r : Reference} :
    r ∈ firstOccurrences (operands.flatMap fun e => e.2.references) ↔
      ∃ o ∈ operands.map Prod.snd, r ∈ o.references := by
  rw [mem_firstOccurrences, List.mem_flatMap]
  constructor
  · rintro ⟨e, he, hr⟩
    exact ⟨e.2, List.mem_map_of_mem he, hr⟩
  · rintro ⟨o, ho, hr⟩
    obtain ⟨e, he, rfl⟩ := List.mem_map.1 ho
    exact ⟨e, he, hr⟩

/-- The dependencies of a template are those of its entities. -/
theorem mem_dependencies : (v, d) ∈ t.dependencies ↔ t.States v d := by
  obtain ⟨kind, name⟩ := v
  cases kind with
  | parameter | pseudoParameter =>
    cases d <;> simp [dependencies, States, operandsAt, dependsOnAt, governingAt]
  | condition =>
    rw [mem_dependencies_condition]
    cases d <;> simp [States, operandsAt, dependsOnAt, governingAt]
  | resource =>
    rw [mem_dependencies_resource]
    cases hfind : t.resources.find? name with
    | none => cases d <;> simp [States, operandsAt, dependsOnAt, governingAt, hfind]
    | some r =>
      cases d <;>
        simp [States, operandsAt, dependsOnAt, governingAt, hfind, Resource.dependencies,
          mem_references_of_operands]
  | output =>
    rw [mem_dependencies_output]
    cases hfind : t.outputs.find? name with
    | none => cases d <;> simp [States, operandsAt, dependsOnAt, governingAt, hfind]
    | some out =>
      cases d <;>
        simp [States, operandsAt, dependsOnAt, governingAt, hfind, Output.dependencies,
          mem_references_of_operands]

/-! ## Resolution -/

/-- A resource is found under the name of a declared one. -/
theorem resource?_eq_some_iff :
    Dependency.resource? t name = some w ↔ name ∈ t.resources.keys ∧ ⟨.resource, name⟩ = w := by
  unfold Dependency.resource?
  rw [← Dict.contains_iff]
  split <;> simp_all

theorem condition?_eq_some_iff :
    Dependency.condition? t name = some w ↔ name ∈ t.conditions.keys ∧ ⟨.condition, name⟩ = w := by
  unfold Dependency.condition?
  rw [← Dict.contains_iff]
  split <;> simp_all

/-- What a `Ref` resolves to, in the order of precedence. -/
theorem resolve_ref_eq_some_iff : (Dependency.reference (.ref name)).resolve t = some (w, detail) ↔
    (name ∈ t.parameters.keys ∧ ⟨.parameter, name⟩ = w ∧ .parameterReference = detail) ∨
    (name ∉ t.parameters.keys ∧ name ∈ t.resources.keys ∧ ⟨.resource, name⟩ = w ∧
      .directReference = detail) ∨
    (name ∉ t.parameters.keys ∧ name ∉ t.resources.keys ∧
      (PseudoParameter.ofName? name).isSome = true ∧ ⟨.pseudoParameter, name⟩ = w ∧
      .parameterReference = detail) := by
  simp only [Dependency.resolve, resolveName, Dict.contains_iff]
  by_cases hparameter : name ∈ t.parameters.keys
  · simp [hparameter]
  · by_cases hresource : name ∈ t.resources.keys
    · simp [hparameter, hresource]
    · by_cases hpseudo : (PseudoParameter.ofName? name).isSome = true
      · simp [hparameter, hresource, hpseudo]
      · simp [hparameter, hresource, hpseudo]

theorem resolve_getAtt_eq_some_iff {attributeName : String} :
    (Dependency.reference (.getAtt name attributeName)).resolve t = some (w, detail) ↔
      name ∈ t.resources.keys ∧ ⟨.resource, name⟩ = w ∧
        .attributeReference attributeName = detail := by
  simp [Dependency.resolve, resource?_eq_some_iff, and_assoc]

theorem resolve_condition_eq_some_iff :
    (Dependency.reference (.condition name)).resolve t = some (w, detail) ↔
      name ∈ t.conditions.keys ∧ ⟨.condition, name⟩ = w ∧ .conditionReference = detail := by
  simp [Dependency.resolve, condition?_eq_some_iff, and_assoc]

theorem resolve_dependsOn_eq_some_iff : (Dependency.dependsOn name).resolve t = some (w, detail) ↔
    name ∈ t.resources.keys ∧ ⟨.resource, name⟩ = w ∧ .dependsOn = detail := by
  simp [Dependency.resolve, resource?_eq_some_iff, and_assoc]

theorem resolve_governing_eq_some_iff : (Dependency.governing name).resolve t = some (w, detail) ↔
    name ∈ t.conditions.keys ∧ ⟨.condition, name⟩ = w ∧ .conditionReference = detail := by
  simp [Dependency.resolve, condition?_eq_some_iff, and_assoc]

/-- A dependency resolves if its name is declared. -/
theorem exists_resolve_iff :
    (∃ w detail, d.resolve t = some (w, detail)) ↔ t.DeclaresTarget d := by
  cases d with
  | reference r =>
    cases r with
    | ref name =>
      -- The three alternatives exclude each other on the left only.
      simp only [resolve_ref_eq_some_iff, DeclaresTarget, Declares]
      grind
    | getAtt name _ => simp [resolve_getAtt_eq_some_iff, DeclaresTarget, Declares]
    | condition name => simp [resolve_condition_eq_some_iff, DeclaresTarget, Declares]
  | dependsOn name => simp [resolve_dependsOn_eq_some_iff, DeclaresTarget]
  | governing name => simp [resolve_governing_eq_some_iff, DeclaresTarget]

/-- What an entity depends on is stated in its declaration, and resolves. -/
theorem Depends.exists_states (h : t.Depends v w detail) :
    ∃ d, t.States v d ∧ d.resolve t = some (w, detail) := by
  cases h with
  | parameter ho hr hname =>
    exact ⟨.reference (.ref _), ⟨_, ho, hr⟩, resolve_ref_eq_some_iff.2 (.inl ⟨hname, rfl, rfl⟩)⟩
  | resource ho hr hparameter hname =>
    exact ⟨.reference (.ref _), ⟨_, ho, hr⟩,
      resolve_ref_eq_some_iff.2 (.inr (.inl ⟨hparameter, hname, rfl, rfl⟩))⟩
  | pseudoParameter ho hr hparameter hresource hname =>
    exact ⟨.reference (.ref _), ⟨_, ho, hr⟩,
      resolve_ref_eq_some_iff.2 (.inr (.inr ⟨hparameter, hresource, hname, rfl, rfl⟩))⟩
  | attributeOf ho hr hname =>
    exact ⟨.reference (.getAtt _ _), ⟨_, ho, hr⟩,
      resolve_getAtt_eq_some_iff.2 ⟨hname, rfl, rfl⟩⟩
  | condition ho hr hname =>
    exact ⟨.reference (.condition _), ⟨_, ho, hr⟩,
      resolve_condition_eq_some_iff.2 ⟨hname, rfl, rfl⟩⟩
  | dependsOn he hname =>
    exact ⟨.dependsOn _, he, resolve_dependsOn_eq_some_iff.2 ⟨hname, rfl, rfl⟩⟩
  | governing hc hname =>
    exact ⟨.governing _, hc, resolve_governing_eq_some_iff.2 ⟨hname, rfl, rfl⟩⟩

/-- An entity depends on what its declaration states if that resolves. -/
theorem depends_of_states (hd : t.States v d) (h : d.resolve t = some (w, detail)) :
    t.Depends v w detail := by
  cases d with
  | reference r =>
    obtain ⟨o, ho, hr⟩ := hd
    cases r with
    | ref name =>
      obtain ⟨hname, rfl, rfl⟩ | ⟨hparameter, hname, rfl, rfl⟩ |
        ⟨hparameter, hresource, hname, rfl, rfl⟩ := resolve_ref_eq_some_iff.1 h
      · exact .parameter ho hr hname
      · exact .resource ho hr hparameter hname
      · exact .pseudoParameter ho hr hparameter hresource hname
    | getAtt name attributeName =>
      obtain ⟨hname, rfl, rfl⟩ := resolve_getAtt_eq_some_iff.1 h
      exact .attributeOf ho hr hname
    | condition name =>
      obtain ⟨hname, rfl, rfl⟩ := resolve_condition_eq_some_iff.1 h
      exact .condition ho hr hname
  | dependsOn name =>
    obtain ⟨hname, rfl, rfl⟩ := resolve_dependsOn_eq_some_iff.1 h
    exact .dependsOn hd hname
  | governing name =>
    obtain ⟨hname, rfl, rfl⟩ := resolve_governing_eq_some_iff.1 h
    exact .governing hd hname

/-- An entity depends on what its declaration states, as far as that resolves. -/
theorem depends_iff :
    t.Depends v w detail ↔ ∃ d, t.States v d ∧ d.resolve t = some (w, detail) :=
  ⟨Depends.exists_states, fun ⟨_, hd, h⟩ => depends_of_states hd h⟩

/-- The kinds of entities that have dependencies, and the kinds that these lead to. -/
theorem Depends.kinds (h : t.Depends v w detail) :
    (v.kind = .condition ∨ v.kind = .resource ∨ v.kind = .output) ∧
      (w.kind = .parameter ∨ w.kind = .pseudoParameter ∨ w.kind = .condition ∨
        w.kind = .resource) := by
  constructor
  · obtain ⟨d, hd, -⟩ := depends_iff.1 h
    obtain ⟨kind, name⟩ := v
    cases kind with
    | condition | resource | output => simp
    -- These have no declaration that could state anything.
    | parameter | pseudoParameter =>
      cases d <;> simp [States, operandsAt, dependsOnAt, governingAt] at hd
  · cases h <;> simp

/-! ## Building the graph -/

/-- The edge of a dependency, where its name is declared. -/
def edge? (t : Template) (x : Vertex × Dependency) : Option (Edge Vertex EdgeDetail) :=
  (x.2.resolve t).map fun y => ⟨x.1, y.1, y.2⟩

variable {g g' : DependencyGraph} {e : Edge Vertex EdgeDetail}

/-- The edge leads from the entity to what the dependency resolves to. -/
theorem edge?_eq_some_iff : t.edge? (v, d) = some e ↔
    e.source = v ∧ d.resolve t = some (e.target, e.value) := by
  obtain ⟨source, target, value⟩ := e
  simp only [edge?, Option.map_eq_some_iff, Prod.exists, Edge.mk.injEq]
  constructor
  · rintro ⟨_, _, hresolve, rfl, rfl, rfl⟩
    exact ⟨rfl, hresolve⟩
  · rintro ⟨rfl, hresolve⟩
    exact ⟨_, _, hresolve, rfl, rfl, rfl⟩

/-- One dependency is added if it resolves to an edge that is allowed. -/
theorem addDependency_eq_ok : t.addDependency g v d = .ok g' ↔
    ∃ e, t.edge? (v, d) = some e ∧ DependencyGraph.Allowed e ∧ g' = g.connect e := by
  unfold addDependency edge?
  cases hresolve : d.resolve t with
  | none => simp
  | some x =>
    obtain ⟨target, value⟩ := x
    by_cases hself : v = target
    · simp [hself, DependencyGraph.Allowed]
    · by_cases hillegal : v.kind = .condition ∧ target.kind = .resource
      · simp [hself, hillegal, DependencyGraph.Allowed]
      · simp only [hself, hillegal, if_false, Except.ok.injEq, Option.map_some, Option.some.injEq,
          exists_eq_left', DependencyGraph.Allowed, DependencyGraph.connect, ne_eq,
          not_false_iff, true_and]
        exact eq_comm

/-- Dependencies are added if each resolves to an edge that is allowed. -/
theorem addDependencies_eq_ok {xs : List (Vertex × Dependency)} :
    xs.foldlM (fun g x => t.addDependency g x.1 x.2) g = .ok g' ↔
      (∀ x ∈ xs, ∃ e, t.edge? x = some e ∧ DependencyGraph.Allowed e) ∧
        g' = (xs.filterMap t.edge?).foldl DependencyGraph.connect g := by
  induction xs generalizing g with
  | nil => simp [pure, Except.pure, eq_comm]
  | cons x xs ih =>
    rw [List.foldlM_cons, List.forall_mem_cons]
    cases hx : t.addDependency g x.1 x.2 with
    | error err =>
      -- The first dependency that is not admitted ends the run with its error.
      have hnone : ¬ ∃ e, t.edge? x = some e ∧ DependencyGraph.Allowed e := by
        rintro ⟨e, he, hallowed⟩
        rw [addDependency_eq_ok.2 ⟨e, he, hallowed, rfl⟩] at hx
        cases hx
      simp [bind, Except.bind, hnone]
    | ok g₁ =>
      obtain ⟨e, he, hallowed, rfl⟩ := addDependency_eq_ok.1 hx
      show xs.foldlM _ (g.connect e) = Except.ok g' ↔ _
      rw [ih, List.filterMap_cons, he, List.foldl_cons]
      simp [hallowed]

/-- Every dependency resolves to an edge that is allowed. -/
def Connects (t : Template) : Prop :=
  ∀ x ∈ t.dependencies, ∃ e, t.edge? x = some e ∧ DependencyGraph.Allowed e

/-- When the graph is built, and what it then is. -/
theorem dependencyGraph_eq_ok : t.dependencyGraph = .ok g ↔
    (∀ name ∈ t.resources.keys, name ∉ t.parameters.keys) ∧ t.Connects ∧
      g = (t.dependencies.filterMap t.edge?).foldl DependencyGraph.connect
        (Digraph.ofVertices t.declaredVertices) := by
  unfold dependencyGraph Connects
  cases hfind : t.resources.keys.find? t.parameters.contains with
  | some name =>
    have hresource : name ∈ t.resources.keys := List.mem_of_find?_eq_some hfind
    have hparameter : name ∈ t.parameters.keys := Dict.contains_iff.1 (List.find?_some hfind)
    constructor
    · intro h
      cases h
    · intro h
      exact absurd hparameter (h.1 name hresource)
  | none =>
    -- No resource was found that has the name of a parameter.
    have hnames : ∀ name ∈ t.resources.keys, name ∉ t.parameters.keys := by
      intro name hname hparameter
      have := List.find?_eq_none.1 hfind name hname
      exact this (Dict.contains_iff.2 hparameter)
    rw [← addDependencies_eq_ok]
    exact ⟨fun h => ⟨hnames, h⟩, fun h => h.2⟩

/-- Where every dependency connects, an edge between two entities that depend on each other is
allowed. -/
theorem allowed_of_depends (h : t.Connects) (hdepends : t.Depends v w detail) :
    DependencyGraph.Allowed ⟨v, w, detail⟩ := by
  obtain ⟨d, hd, hresolve⟩ := depends_iff.1 hdepends
  obtain ⟨e, he, hallowed⟩ := h (v, d) (mem_dependencies.2 hd)
  have hedge : t.edge? (v, d) = some ⟨v, w, detail⟩ := edge?_eq_some_iff.2 ⟨rfl, hresolve⟩
  rw [hedge, Option.some.injEq] at he
  exact he ▸ hallowed

theorem declaresTarget_of_states (h : t.Connects) (hd : t.States v d) : t.DeclaresTarget d := by
  -- What connects has resolved.
  obtain ⟨e, he, -⟩ := h (v, d) (mem_dependencies.2 hd)
  exact exists_resolve_iff.1 ⟨_, _, (edge?_eq_some_iff.1 he).2⟩

/-- In an admissible template every dependency that is stated has a declared target. -/
theorem Admissible.declaresTarget (h : t.Admissible) (hd : t.States v d) : t.DeclaresTarget d := by
  cases d with
  | reference r =>
    obtain ⟨o, ho, hr⟩ := hd
    exact h.references v o ho r hr
  | dependsOn name => exact h.dependsOn v name hd
  | governing name => exact h.governing v name hd

/-- In an admissible template every dependency is allowed. -/
theorem Admissible.allowed (h : t.Admissible) (hdepends : t.Depends v w detail) :
    DependencyGraph.Allowed ⟨v, w, detail⟩ := by
  constructor
  · -- Only resources and conditions have dependencies and are what something depends on.
    intro hself
    obtain rfl : v = w := hself
    obtain ⟨kind, name⟩ := v
    have hkinds := hdepends.kinds
    cases kind with
    | resource => exact h.resources_apart name detail hdepends
    | condition => exact h.conditions_apart name detail hdepends
    | parameter | pseudoParameter | output => simp at hkinds
  · obtain ⟨kind, name⟩ := v
    obtain ⟨kind', other⟩ := w
    rintro ⟨hv, hw⟩
    obtain rfl : kind = .condition := hv
    obtain rfl : kind' = .resource := hw
    exact h.conditions_precede name other detail hdepends

/-- The admissible templates are those from which a graph is built. -/
theorem admissible_iff : t.Admissible ↔
    (∀ name ∈ t.resources.keys, name ∉ t.parameters.keys) ∧ t.Connects := by
  constructor
  · intro h
    refine ⟨h.names, ?_⟩
    rintro ⟨v, d⟩ hx
    have hd : t.States v d := mem_dependencies.1 hx
    obtain ⟨w, detail, hresolve⟩ := exists_resolve_iff.2 (h.declaresTarget hd)
    have hdepends : t.Depends v w detail := depends_iff.2 ⟨d, hd, hresolve⟩
    exact ⟨⟨v, w, detail⟩, edge?_eq_some_iff.2 ⟨rfl, hresolve⟩, h.allowed hdepends⟩
  · -- A graph that is built has refused nothing, so each condition on the template holds.
    rintro ⟨hnames, hconnects⟩
    exact
      { names := hnames
        references := fun v o ho r hr => declaresTarget_of_states hconnects (d := .reference r)
          ⟨o, ho, hr⟩
        dependsOn := fun v name hname => declaresTarget_of_states hconnects (d := .dependsOn name)
          hname
        governing := fun v name hname => declaresTarget_of_states hconnects (d := .governing name)
          hname
        resources_apart := fun name detail h => (allowed_of_depends hconnects h).1 rfl
        conditions_apart := fun name detail h => (allowed_of_depends hconnects h).1 rfl
        conditions_precede := fun name other detail h =>
          (allowed_of_depends hconnects h).2 ⟨rfl, rfl⟩ }

/-! ## The vertices and edges of the graph -/

/-- The edges that are added are those of the dependencies. -/
theorem mem_filterMap_edge? :
    e ∈ t.dependencies.filterMap t.edge? ↔ t.Depends e.source e.target e.value := by
  rw [List.mem_filterMap, depends_iff]
  constructor
  · rintro ⟨⟨v, d⟩, hx, he⟩
    obtain ⟨rfl, hresolve⟩ := edge?_eq_some_iff.1 he
    exact ⟨d, mem_dependencies.1 hx, hresolve⟩
  · rintro ⟨d, hd, hresolve⟩
    exact ⟨(e.source, d), mem_dependencies.2 hd, edge?_eq_some_iff.2 ⟨rfl, hresolve⟩⟩

/-- The graph starts with the declared entities, and without pseudo-parameters. -/
theorem mem_declaredVertices :
    v ∈ t.declaredVertices ↔ v.kind ≠ .pseudoParameter ∧ t.HasVertex v := by
  obtain ⟨kind, name⟩ := v
  cases kind <;> simp [declaredVertices, HasVertex]

/-- No vertex is declared twice, since vertices of one name differ in their kinds. -/
theorem nodup_declaredVertices : t.declaredVertices.Nodup := by
  have hsection (kind : EntityKind) {keys : List String} (hkeys : keys.Nodup) :
      (keys.map (Vertex.mk kind)).Nodup :=
    hkeys.map fun _ _ h => (Vertex.mk.inj h).2
  -- Two sections have no vertex in common, whatever their keys.
  have hapart {kind kind' : EntityKind} (hkinds : kind ≠ kind') (keys keys' : List String) :
      List.Disjoint (keys.map (Vertex.mk kind)) (keys'.map (Vertex.mk kind')) := by
    simp [List.disjoint_left, hkinds.symm]
  have hparameters := hsection .parameter t.parameters.nodup_keys
  have hresources := hsection .resource t.resources.nodup_keys
  have houtputs := hsection .output t.outputs.nodup_keys
  have hconditions := hsection .condition t.conditions.nodup_keys
  unfold declaredVertices
  refine ((hparameters.append hresources ?_).append houtputs ?_).append hconditions ?_
  · exact hapart (by decide) _ _
  · rw [List.disjoint_append_left]
    exact ⟨hapart (by decide) _ _, hapart (by decide) _ _⟩
  · rw [List.disjoint_append_left, List.disjoint_append_left]
    exact ⟨⟨hapart (by decide) _ _, hapart (by decide) _ _⟩, hapart (by decide) _ _⟩

/-- A graph that is built has exactly the vertices and edges of its template. -/
theorem exact_of_dependencyGraph (h : t.dependencyGraph = .ok g) : t.Exact g := by
  obtain ⟨-, -, rfl⟩ := dependencyGraph_eq_ok.1 h
  have hedges : ∀ e, e ∈ ((t.dependencies.filterMap t.edge?).foldl DependencyGraph.connect
      (Digraph.ofVertices t.declaredVertices)).edges ↔ t.Depends e.source e.target e.value := by
    intro e
    rw [DependencyGraph.mem_edges_foldl_connect, mem_filterMap_edge?]
    simp [Digraph.ofVertices]
  refine ⟨?_, ?_, ?_, ?_⟩
  · exact DependencyGraph.nodup_vertices_foldl_connect _ nodup_declaredVertices
  · rintro ⟨kind, name⟩
    rw [DependencyGraph.mem_vertices_foldl_connect]
    simp only [mem_filterMap_edge?, Digraph.ofVertices, mem_declaredVertices]
    -- Declared vertices are there from the start; the edges bring the pseudo-parameters.
    cases kind with
    | parameter | resource | output | condition => simp
    | pseudoParameter =>
      simp only [ne_eq, not_true, false_and, true_and, false_or, HasVertex]
      constructor
      · rintro ⟨e, hdepends, htarget⟩
        exact ⟨e.source, e.value, htarget ▸ hdepends⟩
      · rintro ⟨v, detail, hdepends⟩
        exact ⟨⟨v, _, detail⟩, hdepends, rfl⟩
  · intro v
    exact (DependencyGraph.nodup_edges_foldl_connect _ List.nodup_nil).filter _
  · intro v e
    rw [Digraph.mem_outgoing, hedges]
    constructor
    · rintro ⟨hdepends, rfl⟩
      exact ⟨rfl, hdepends⟩
    · rintro ⟨rfl, hdepends⟩
      exact ⟨hdepends, rfl⟩

theorem Exact.depends_of_mem_edges (h : t.Exact g) (he : e ∈ g.edges) :
    t.Depends e.source e.target e.value :=
  ((h.mem_outgoing e.source e).1 (Digraph.mem_outgoing.2 ⟨he, rfl⟩)).2

/-- The graph of a template is built exactly if the template is admissible, and it then has exactly
the vertices of the template and one edge for each dependency. -/
theorem dependencyGraph_exact (t : Template) :
    ((∃ g, t.dependencyGraph = .ok g) ↔ t.Admissible) ∧
      ∀ g, t.dependencyGraph = .ok g → t.Exact g := by
  refine ⟨?_, fun g => exact_of_dependencyGraph⟩
  rw [admissible_iff]
  constructor
  · rintro ⟨g, hg⟩
    obtain ⟨hnames, hconnects, -⟩ := dependencyGraph_eq_ok.1 hg
    exact ⟨hnames, hconnects⟩
  · rintro ⟨hnames, hconnects⟩
    exact ⟨_, dependencyGraph_eq_ok.2 ⟨hnames, hconnects, rfl⟩⟩

/-- A template in which a resource depends on another one for three reasons, on one condition twice,
and on a resource that has the name of a pseudo-parameter. -/
def repeatedDependencies : Template :=
  { empty with
    parameters := .ofList [("Stage", Parameter.ofType "String")]
    conditions := .ofList [("Live", .call (.equals (.call (.ref "Stage")) (.string "live")))]
    resources :=
      ⟨[("Queue", Resource.ofType "Service::Queue"),
        ("AWS::Region", Resource.ofType "Service::Region"),
        ("Topic",
          { Resource.ofType "Service::Topic" with
            properties :=
              ⟨[("Target", .call (.ref "Queue")),
                ("Backup", .call (.ifElse "Live" (.call (.getAtt "Queue" (.string "Arn")))
                  (.call (.ref "AWS::AccountId")))),
                ("Region", .call (.ref "AWS::Region"))], by decide⟩
            dependsOn := ["Queue", "Queue"]
            condition := some "Live" })], by decide⟩ }

/-- The second dependency on the same queue adds no edge, one for another reason does. -/
theorem repeatedDependencies_exact : repeatedDependencies.Admissible ∧
    ∃ g, repeatedDependencies.dependencyGraph = .ok g ∧ repeatedDependencies.Exact g ∧
      (g.outgoing ⟨.resource, "Topic"⟩).map (fun e => (e.target.name, e.value)) =
        [("Queue", .directReference), ("Live", .conditionReference),
          ("Queue", .attributeReference "Arn"), ("AWS::AccountId", .parameterReference),
          ("AWS::Region", .directReference), ("Queue", .dependsOn)] := by
  obtain ⟨hbuilt, hexact⟩ := dependencyGraph_exact repeatedDependencies
  have hgraph : repeatedDependencies.dependencyGraph = .ok _ := rfl
  exact ⟨hbuilt.1 ⟨_, hgraph⟩, _, hgraph, hexact _ hgraph, by decide⟩

end Template

end StackTemplate
