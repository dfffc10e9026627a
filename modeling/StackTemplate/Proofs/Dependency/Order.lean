import StackTemplate.Proofs.Dependency.Graph
import StackTemplate.Proofs.Digraph.Order

/-!
# Dependency orders

The edges of a dependency graph never lead up: outputs stand above resources, resources above
conditions, and conditions above parameters. A path between two resources therefore goes through
resources only, and a path between two conditions through conditions only, so an order of the
sub-graph of one kind respects the paths of the whole graph.

* `DependencyGraph.Obtained` : the graphs that are built for templates, less some vertices.
* `DependencyGraph.OrderCorrect` : what an order of the entities of one kind has to be.
* `DependencyGraph.Obtained.orders_correct` : the orders of resources and of conditions are correct.
-/

namespace StackTemplate

open Relation

/-! ## Levels -/

namespace EntityKind

/-- The height at which the entities of a kind stand. -/
def level : EntityKind → Nat
  | .parameter | .pseudoParameter => 0
  | .condition => 1
  | .resource => 2
  | .output => 3

/-- Only entities of one kind can depend on each other in a circle. -/
def HasOrder (kind : EntityKind) : Prop := kind = .resource ∨ kind = .condition

/-- Resources and conditions are alone on their levels. -/
theorem eq_of_level_eq {kind kind' : EntityKind} (horder : kind.HasOrder)
    (h : kind'.level = kind.level) : kind' = kind := by
  rcases horder with rfl | rfl <;> cases kind' <;> simp [level] at h ⊢

end EntityKind

namespace Template

variable {t : Template} {v w : Vertex} {detail : EdgeDetail} {d : Dependency}

/-- An entity whose declaration states a dependency is declared. -/
theorem hasVertex_of_states (h : t.States v d) : t.HasVertex v := by
  -- What is found under a name is declared under it.
  have hkeys {α : Type} {entries : Dict α} {name : String} {x : α}
      (hfind : entries.find? name = some x) : name ∈ entries.keys :=
    List.mem_map_of_mem (Dict.find?_eq_some_iff.1 hfind)
  have hmem := mem_dependencies.2 h
  obtain ⟨kind, name⟩ := v
  cases kind with
  | parameter | pseudoParameter =>
    cases d <;> simp [States, operandsAt, dependsOnAt, governingAt] at h
  | condition =>
    obtain ⟨o, hfind, -⟩ := mem_dependencies_condition.1 hmem
    exact hkeys hfind
  | resource =>
    obtain ⟨r, hfind, -⟩ := mem_dependencies_resource.1 hmem
    exact hkeys hfind
  | output =>
    obtain ⟨out, hfind, -⟩ := mem_dependencies_output.1 hmem
    exact hkeys hfind

/-- What depends on something is declared. -/
theorem Depends.hasVertex_source (h : t.Depends v w detail) : t.HasVertex v := by
  obtain ⟨d, hd, -⟩ := depends_iff.1 h
  exact hasVertex_of_states hd

/-- What something depends on is a vertex, as a declared entity or as a pseudo-parameter. -/
theorem Depends.hasVertex_target (h : t.Depends v w detail) : t.HasVertex w := by
  cases h with
  | parameter _ _ hname => exact hname
  | resource _ _ _ hname => exact hname
  | pseudoParameter ho hr hparameter hresource hname =>
    exact ⟨v, _, .pseudoParameter ho hr hparameter hresource hname⟩
  | attributeOf _ _ hname => exact hname
  | condition _ _ hname => exact hname
  | dependsOn _ hname => exact hname
  | governing _ hname => exact hname

/-- Conditions do not depend on resources, so nothing depends on what stands above it. -/
theorem Depends.level_le (h : t.Depends v w detail)
    (hallowed : DependencyGraph.Allowed ⟨v, w, detail⟩) : w.kind.level ≤ v.kind.level := by
  obtain ⟨hsource, htarget⟩ := h.kinds
  have hprecede : ¬ (v.kind = .condition ∧ w.kind = .resource) := hallowed.2
  -- Of all pairs of kinds only a condition and a resource would lead up.
  rcases hsource with hv | hv | hv <;> rcases htarget with hw | hw | hw | hw <;>
    simp [hv, hw, EntityKind.level] at hprecede ⊢

end Template

namespace DependencyGraph

variable {g : DependencyGraph} {kind : EntityKind} {v w : Vertex}

/-! ## Graphs of templates -/

/-- The graphs that are built for templates, and those that remain when vertices are removed. -/
inductive Obtained : DependencyGraph → Prop
  | build {t : Template} {g : DependencyGraph} (h : t.dependencyGraph = .ok g) : Obtained g
  | removeVertices {g : DependencyGraph} (h : Obtained g) (vs : List Vertex) :
      Obtained (g.removeVertices vs)

/-- Vertices are distinct, edges lead from vertices to vertices, and none of them leads up. -/
structure WellFormed (g : DependencyGraph) : Prop where
  nodup_vertices : g.vertices.Nodup
  source_mem : ∀ e ∈ g.edges, e.source ∈ g.vertices
  target_mem : ∀ e ∈ g.edges, e.target ∈ g.vertices
  level_le : ∀ e ∈ g.edges, e.target.kind.level ≤ e.source.kind.level

/-- A graph that is built is well-formed. -/
theorem wellFormed_of_dependencyGraph {t : Template} (h : t.dependencyGraph = .ok g) :
    g.WellFormed := by
  have hexact := Template.exact_of_dependencyGraph h
  obtain ⟨-, hconnects, -⟩ := Template.dependencyGraph_eq_ok.1 h
  have hdepends : ∀ e ∈ g.edges, t.Depends e.source e.target e.value := fun e =>
    hexact.depends_of_mem_edges
  exact
    { nodup_vertices := hexact.nodup_vertices
      source_mem := fun e he => (hexact.mem_vertices _).2 (hdepends e he).hasVertex_source
      target_mem := fun e he => (hexact.mem_vertices _).2 (hdepends e he).hasVertex_target
      level_le := fun e he =>
        (hdepends e he).level_le (Template.allowed_of_depends hconnects (hdepends e he)) }

/-- What remains keeps its edges only between vertices that remain. -/
theorem WellFormed.removeVertices (h : g.WellFormed) (vs : List Vertex) :
    (g.removeVertices vs).WellFormed := by
  have hedges : ∀ e ∈ (g.removeVertices vs).edges, e ∈ g.edges ∧
      e.source ∈ (g.removeVertices vs).vertices ∧ e.target ∈ (g.removeVertices vs).vertices := by
    intro e he
    obtain ⟨hmem, hends⟩ := List.mem_filter.1 he
    rw [Bool.and_eq_true, decide_eq_true_iff, decide_eq_true_iff] at hends
    exact ⟨hmem, hends⟩
  exact
    { nodup_vertices := h.nodup_vertices.filter _
      source_mem := fun e he => (hedges e he).2.1
      target_mem := fun e he => (hedges e he).2.2
      level_le := fun e he => h.level_le e (hedges e he).1 }

/-- Every graph of a template is well-formed, however often vertices have been removed. -/
theorem Obtained.wellFormed (h : g.Obtained) : g.WellFormed := by
  induction h with
  | build hgraph => exact wellFormed_of_dependencyGraph hgraph
  -- A removal leaves what the invariant speaks about or takes it away as a whole.
  | removeVertices _ vs ih => exact ih.removeVertices vs

/-! ## Paths -/

/-- A path does not lead up. -/
theorem WellFormed.level_le_of_reaches (h : g.WellFormed) (hreach : TransGen g.Points v w) :
    w.kind.level ≤ v.kind.level := by
  induction hreach with
  | single hpoints =>
    obtain ⟨e, he, rfl, rfl⟩ := hpoints
    exact h.level_le e he
  -- The last edge does not lead up, nor does what comes before it.
  | tail _ hpoints ih =>
    obtain ⟨e, he, rfl, rfl⟩ := hpoints
    exact Nat.le_trans (h.level_le e he) ih

/-- A path between two resources, or between two conditions, does not leave their kind. -/
theorem WellFormed.within_of_reaches (h : g.WellFormed) (horder : kind.HasOrder)
    (hv : v.kind = kind) (hw : w.kind = kind) (hreach : TransGen g.Points v w) :
    TransGen (g.Within fun u => u.kind = kind) v w := by
  -- An edge between two members of the kind is one of the sub-graph.
  have hmember {u u' : Vertex} (hu : u.kind = kind) (hu' : u'.kind = kind)
      (hpoints : g.Points u u') : g.Within (fun u => u.kind = kind) u u' := by
    obtain ⟨e, he, rfl, rfl⟩ := hpoints
    exact ⟨⟨h.source_mem e he, decide_eq_true hu⟩, ⟨h.target_mem e he, decide_eq_true hu'⟩,
      e, he, rfl, rfl⟩
  induction hreach using TransGen.head_induction_on with
  | single hpoints => exact .single (hmember hv hw hpoints)
  | @head v u hpoints hreach ih =>
    -- The level of the vertex in between is squeezed between those of the ends.
    have hfirst := h.level_le_of_reaches (.single hpoints)
    have hrest := h.level_le_of_reaches hreach
    have hu : u.kind = kind := by
      apply EntityKind.eq_of_level_eq horder
      rw [hv] at hfirst
      rw [hw] at hrest
      omega
    exact .head (hmember hv hu hpoints) (ih hu)

/-! ## Orders of one kind -/

/-- The entities of a kind, in the order of the vertices. -/
def membersOf (g : DependencyGraph) (kind : EntityKind) : List Vertex :=
  g.vertices.filter fun v => v.kind = kind

/-- The members that remain stay in their order. -/
theorem membersOf_removeVertices (vs : List Vertex) (kind : EntityKind) :
    (g.removeVertices vs).membersOf kind = (g.membersOf kind).filter (· ∉ vs) :=
  List.filter_comm ..

/-- An answer is right for the entities of a kind. Where no walk among them is closed, it has each
once, after all those that it reaches in the whole graph; else it reports a simple cycle of them.
The counters that the answer is computed with are above zero whenever one is taken off. -/
structure OrderCorrect (g : DependencyGraph) (kind : EntityKind)
    (circular : List String → GraphError) (answer : Except GraphError (List String)) : Prop where
  acyclic : g.Acyclic (fun v => v.kind = kind) → ∃ names, answer = .ok names ∧ names.Nodup ∧
    (∀ name, name ∈ names ↔ ⟨kind, name⟩ ∈ g.vertices) ∧
    ∀ before name after, names = before ++ name :: after →
      ∀ other, TransGen g.Points ⟨kind, name⟩ ⟨kind, other⟩ → other ∈ before
  cyclic : ¬ g.Acyclic (fun v => v.kind = kind) → ∃ names, answer = .error (circular names) ∧
    g.IsCycle (names.map (Vertex.mk kind)) ∧ ∀ name ∈ names, ⟨kind, name⟩ ∈ g.vertices
  run : ∃ p, Digraph.Run g (g.membersOf kind) p [] ∧ p.ready = [] ∧
    p.placed = g.place (g.initial (g.membersOf kind))
  counters : ∀ p v pending, Digraph.Run g (g.membersOf kind) p (v :: pending) → (v, 0) ∉ p.unmet

/-- Vertices of one kind are given by their names. -/
theorem map_name_of_kind {vs : List Vertex} (h : ∀ v ∈ vs, v.kind = kind) :
    (vs.map Vertex.name).map (Vertex.mk kind) = vs := by
  have hname : ∀ v ∈ vs, (Vertex.mk kind ∘ Vertex.name) v = id v := by
    rintro ⟨kind', name⟩ hv
    obtain rfl : kind' = kind := h _ hv
    rfl
  rw [List.map_map, List.map_congr_left hname, List.map_id]

theorem mk_mem_map (kind : EntityKind) {names : List String} {name : String} :
    Vertex.mk kind name ∈ names.map (Vertex.mk kind) ↔ name ∈ names := by
  simp

/-- The order of one kind in a well-formed graph is correct. -/
theorem WellFormed.orderCorrect (h : g.WellFormed) (horder : kind.HasOrder)
    (circular : List String → GraphError) :
    g.OrderCorrect kind circular ((g.orderOf kind).mapError circular) where
  acyclic hacyclic := by
    obtain ⟨vs, hvs, hnodup, hmem, hreach⟩ := Digraph.order_of_acyclic h.nodup_vertices hacyclic
    -- All vertices of the order are of one kind, so their names tell them apart.
    have hkind : ∀ v ∈ vs, v.kind = kind := fun v hv => of_decide_eq_true ((hmem v).1 hv).2
    have hnames := map_name_of_kind hkind
    refine ⟨vs.map Vertex.name, ?_, ?_, ?_, ?_⟩
    · rw [orderOf, hvs]
      rfl
    · rw [← hnames] at hnodup
      exact hnodup.of_map
    · intro name
      rw [← mk_mem_map kind, hnames, hmem]
      simp
    · intro before name after hsplit other hpath
      have hvertices : vs = before.map (Vertex.mk kind) ++
          ⟨kind, name⟩ :: after.map (Vertex.mk kind) := by
        rw [← hnames, hsplit, List.map_append, List.map_cons]
      -- What is reached in the whole graph is reached within the kind, which the order respects.
      have hwithin := h.within_of_reaches horder rfl rfl hpath
      exact (mk_mem_map kind).1 (hreach _ _ _ hvertices _ hwithin)
  cyclic hcyclic := by
    obtain ⟨c, hc, hcycle, hmem⟩ := Digraph.order_of_not_acyclic h.nodup_vertices hcyclic
    have hkind : ∀ v ∈ c, v.kind = kind := fun v hv => of_decide_eq_true (hmem v hv).2
    have hnames := map_name_of_kind hkind
    refine ⟨c.map Vertex.name, ?_, ?_, ?_⟩
    · rw [orderOf, hc]
      rfl
    · rwa [hnames]
    · intro name hname
      have hv : ⟨kind, name⟩ ∈ c := by
        rw [← hnames]
        exact (mk_mem_map kind).2 hname
      exact (hmem _ hv).1
  run := by
    have hinitial : Digraph.Run g (g.membersOf kind) (g.initial (g.membersOf kind)) [] := .initial
    -- Each pass takes its fuel, so the loop ends with nothing left to be placed.
    obtain ⟨p, hrun, hdone, hplace⟩ := Digraph.exists_run_place hinitial
    exact ⟨p, hrun, hdone, hplace.symm⟩
  counters p v pending hrun := hrun.counter_pos (h.nodup_vertices.filter _)

/-- For every graph of a template, also after vertices have been removed, the order of its resources
and that of its conditions are correct. -/
theorem Obtained.orders_correct (h : g.Obtained) :
    g.OrderCorrect .resource .circularDependency g.resourceOrder ∧
      g.OrderCorrect .condition .circularCondition g.conditionOrder :=
  ⟨h.wellFormed.orderCorrect (.inl rfl) _, h.wellFormed.orderCorrect (.inr rfl) _⟩

end DependencyGraph

namespace Template

variable {t : Template} {g : DependencyGraph}

/-- The edges of a graph that is built are those of the dependencies, each once. -/
theorem edges_of_dependencyGraph (h : t.dependencyGraph = .ok g) :
    g.edges = firstOccurrences (t.dependencies.filterMap t.edge?) := by
  obtain ⟨-, -, rfl⟩ := dependencyGraph_eq_ok.1 h
  exact DependencyGraph.edges_foldl_connect _ rfl

/-- Only pseudo-parameters become vertices after the declared entities. -/
theorem membersOf_of_dependencyGraph (h : t.dependencyGraph = .ok g) {kind : EntityKind}
    (hkind : kind ≠ .pseudoParameter) :
    g.membersOf kind = t.declaredVertices.filter fun v => v.kind = kind := by
  obtain ⟨-, -, rfl⟩ := dependencyGraph_eq_ok.1 h
  apply DependencyGraph.vertices_foldl_connect_filter
  intro v hv
  rw [hv]
  exact decide_eq_false hkind.symm

end Template

/-- A template in which a resource leads into a cycle of two other ones, with parallel edges. -/
def Template.circularResources : Template :=
  { empty with
    resources :=
      ⟨[("Alarm", { Resource.ofType "Service::Alarm" with dependsOn := ["Queue"] }),
        ("Queue",
          { Resource.ofType "Service::Queue" with
            properties := ⟨[("Target", .call (.ref "Topic"))], by decide⟩
            dependsOn := ["Topic"] }),
        ("Topic",
          { Resource.ofType "Service::Topic" with
            properties :=
              ⟨[("Source", .call (.getAtt "Queue" (.string "Arn"))),
                ("Name", .call (.ref "Queue"))], by decide⟩ })], by decide⟩ }

/-- The graph of that template. -/
def DependencyGraph.ofCircularResources : DependencyGraph where
  vertices := [⟨.resource, "Alarm"⟩, ⟨.resource, "Queue"⟩, ⟨.resource, "Topic"⟩]
  edges :=
    [⟨⟨.resource, "Alarm"⟩, ⟨.resource, "Queue"⟩, .dependsOn⟩,
      ⟨⟨.resource, "Queue"⟩, ⟨.resource, "Topic"⟩, .directReference⟩,
      ⟨⟨.resource, "Queue"⟩, ⟨.resource, "Topic"⟩, .dependsOn⟩,
      ⟨⟨.resource, "Topic"⟩, ⟨.resource, "Queue"⟩, .attributeReference "Arn"⟩,
      ⟨⟨.resource, "Topic"⟩, ⟨.resource, "Queue"⟩, .directReference⟩]

/-- The cycle is reported without the resource that leads into it, and removing one of its members
leaves an order. -/
theorem DependencyGraph.ofCircularResources_orders :
    Template.circularResources.dependencyGraph = .ok ofCircularResources ∧
      ofCircularResources.OrderCorrect .resource .circularDependency
        (.error (.circularDependency ["Queue", "Topic"])) ∧
      (ofCircularResources.removeVertices [⟨.resource, "Topic"⟩]).OrderCorrect .resource
        .circularDependency (.ok ["Queue", "Alarm"]) := by
  have hgraph : Template.circularResources.dependencyGraph = .ok ofCircularResources := rfl
  have hcycle : ofCircularResources.resourceOrder =
      .error (.circularDependency ["Queue", "Topic"]) := by decide +kernel
  have horder : (ofCircularResources.removeVertices [⟨.resource, "Topic"⟩]).resourceOrder =
      .ok ["Queue", "Alarm"] := by decide +kernel
  have hobtained := Obtained.build hgraph
  refine ⟨hgraph, ?_, ?_⟩
  · rw [← hcycle]
    exact (Obtained.orders_correct hobtained).1
  · rw [← horder]
    exact (Obtained.orders_correct (hobtained.removeVertices _)).1

end StackTemplate
