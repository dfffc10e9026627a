import StackTemplate.Proofs.Dependency.Order
import StackTemplate.Proofs.Digraph.Waves

/-!
# Dependency orders by waves

The entities of a kind become vertices in the order of their declaration, and the edges of an entity
are added before those of the entities declared after it. Removing vertices keeps both. An order of
one kind therefore goes wave by wave, from entities without dependencies of their kind upwards, and
entities with the same dependencies come in the order of their declaration.

* `Template.HasGraph` : the graphs of a template.
* `DependencyGraph.IsDepth` : the dependency depth of the entities of a kind.
* `DependencyGraph.Declared` : vertices and edges follow the declarations.
* `Template.HasGraph.orders_by_waves` : the orders of resources and of conditions go by waves.
-/

namespace StackTemplate

/-! ## Graphs of a template -/

namespace Template

variable {t : Template} {g : DependencyGraph} {kind : EntityKind}

/-- The graph that is built for a template, and what remains of it when vertices are removed. -/
inductive HasGraph (t : Template) : DependencyGraph → Prop
  | build {g : DependencyGraph} (h : t.dependencyGraph = .ok g) : HasGraph t g
  | removeVertices {g : DependencyGraph} (h : HasGraph t g) (vs : List Vertex) :
      HasGraph t (g.removeVertices vs)

/-- A graph of one template is one of some template. -/
theorem HasGraph.obtained (h : t.HasGraph g) : g.Obtained := by
  induction h with
  | build hgraph => exact .build hgraph
  | removeVertices _ vs ih => exact ih.removeVertices vs

/-- The names of the entities of a kind, in the order of their declaration. -/
def declaredNames (t : Template) : EntityKind → List String
  | .parameter => t.parameters.keys
  | .resource => t.resources.keys
  | .output => t.outputs.keys
  | .condition => t.conditions.keys
  | .pseudoParameter => []

/-- Names are declared once in each section. -/
theorem nodup_declaredNames : (t.declaredNames kind).Nodup := by
  cases kind with
  | parameter => exact t.parameters.nodup_keys
  | resource => exact t.resources.nodup_keys
  | output => exact t.outputs.nodup_keys
  | condition => exact t.conditions.nodup_keys
  | pseudoParameter => exact List.nodup_nil

theorem declaredVertices_filter (t : Template) (kind : EntityKind) :
    (t.declaredVertices.filter fun v => v.kind = kind) =
      (t.declaredNames kind).map (Vertex.mk kind) := by
  cases kind <;> simp [declaredVertices, declaredNames, List.filter_map, Function.comp_def]

end Template

/-- The members of a list without repetitions are sorted by their positions in it. -/
theorem pairwise_idxOf {names : List String} (h : names.Nodup) :
    names.Pairwise fun a b => names.idxOf a < names.idxOf b := by
  rw [List.pairwise_iff_getElem]
  intro i j hi hj hlt
  rw [h.idxOf_getElem i hi, h.idxOf_getElem j hj]
  exact hlt

/-! ## The order of declaration -/

namespace DependencyGraph

variable {g : DependencyGraph} {kind : EntityKind} {declared : List String}

/-- The vertices of a kind stand in the order of their declaration, and the edges that leave them in
the order in which their sources are declared. -/
structure Declared (g : DependencyGraph) (kind : EntityKind) (declared : List String) : Prop where
  vertices : (g.membersOf kind).Pairwise fun u v => declared.idxOf u.name < declared.idxOf v.name
  sources : (g.edges.map Edge.source).Pairwise fun u v =>
    u.kind = kind → v.kind = kind → declared.idxOf u.name ≤ declared.idxOf v.name

/-- A removal leaves the order of vertices and edges as it is. -/
theorem Declared.removeVertices (h : g.Declared kind declared) (vs : List Vertex) :
    (g.removeVertices vs).Declared kind declared where
  vertices := by
    rw [membersOf_removeVertices]
    exact h.vertices.filter _
  sources := h.sources.sublist (List.filter_sublist.map _)

end DependencyGraph

namespace Template

variable {t : Template} {g : DependencyGraph} {kind : EntityKind}

/-- The dependencies of the entities of one kind, each with its source. -/
def sourced {α : Type} (entities : Dict α) (kind : EntityKind) (stated : α → List Dependency) :
    List (Vertex × Dependency) :=
  entities.entries.flatMap fun (name, x) => (stated x).map fun d => (⟨kind, name⟩, d)

/-- Conditions state their dependencies first, then resources, then outputs. -/
theorem dependencies_eq (t : Template) : t.dependencies =
    sourced t.conditions .condition (fun o => o.references.map .reference) ++
      sourced t.resources .resource Resource.dependencies ++
      sourced t.outputs .output Output.dependencies := by
  simp [dependencies, sourced, Function.comp_def]

/-- All sources are of the one kind. -/
theorem kind_of_mem_sourced {α : Type} {entities : Dict α} {stated : α → List Dependency}
    {x : Vertex × Dependency} (h : x ∈ sourced entities kind stated) : x.1.kind = kind := by
  rcases List.mem_flatMap.1 h with ⟨⟨name, a⟩, -, hx⟩
  rcases List.mem_map.1 hx with ⟨d, -, rfl⟩
  rfl

/-- They stand in the order of their sources. -/
theorem sourced_pairwise {α : Type} (entities : Dict α) (kind : EntityKind)
    (stated : α → List Dependency) : (sourced entities kind stated).Pairwise fun x y =>
      entities.keys.idxOf x.1.name ≤ entities.keys.idxOf y.1.name := by
  unfold sourced
  rw [List.pairwise_flatMap]
  constructor
  · rintro ⟨name, a⟩ -
    apply List.pairwise_of_forall_mem_list
    intro x hx y hy
    rcases List.mem_map.1 hx with ⟨d, -, rfl⟩
    rcases List.mem_map.1 hy with ⟨d', -, rfl⟩
    exact Nat.le_refl _
  · -- Two sources differ, so the one that is declared first has all its dependencies first.
    have hkeys : (entities.entries.map Prod.fst).Pairwise fun a b =>
        entities.keys.idxOf a < entities.keys.idxOf b := pairwise_idxOf entities.nodup_keys
    rw [List.pairwise_map] at hkeys
    apply hkeys.imp
    rintro ⟨name, a⟩ ⟨name', a'⟩ hlt x hx y hy
    rcases List.mem_map.1 hx with ⟨d, -, rfl⟩
    rcases List.mem_map.1 hy with ⟨d', -, rfl⟩
    exact Nat.le_of_lt hlt

/-- Dependencies of one kind of entity stand in the order in which their sources are declared. -/
theorem dependencies_pairwise (t : Template) (kind : EntityKind) :
    t.dependencies.Pairwise fun x y => x.1.kind = kind → y.1.kind = kind →
      (t.declaredNames kind).idxOf x.1.name ≤ (t.declaredNames kind).idxOf y.1.name := by
  have hpart {α : Type} {entities : Dict α} {kind' : EntityKind} {stated : α → List Dependency}
      (hdeclared : kind' = kind → t.declaredNames kind = entities.keys) :
      (sourced entities kind' stated).Pairwise fun x y => x.1.kind = kind → y.1.kind = kind →
        (t.declaredNames kind).idxOf x.1.name ≤ (t.declaredNames kind).idxOf y.1.name := by
    -- A part is compared only if it is the part of this kind.
    apply List.Pairwise.imp_of_mem _ (sourced_pairwise entities kind' stated)
    intro x y hx _ hle hkind _
    rw [hdeclared ((kind_of_mem_sourced hx).symm.trans hkind)]
    exact hle
  -- Dependencies of different kinds of entity are not compared.
  have hapart {α β : Type} {entities : Dict α} {entities' : Dict β} {kind₁ kind₂ : EntityKind}
      {stated : α → List Dependency} {stated' : β → List Dependency} (hkinds : kind₁ ≠ kind₂)
      {x y : Vertex × Dependency} (hx : x ∈ sourced entities kind₁ stated)
      (hy : y ∈ sourced entities' kind₂ stated') : x.1.kind = kind → y.1.kind = kind →
        (t.declaredNames kind).idxOf x.1.name ≤ (t.declaredNames kind).idxOf y.1.name := by
    intro hxkind hykind
    rw [kind_of_mem_sourced hx] at hxkind
    rw [kind_of_mem_sourced hy] at hykind
    exact absurd (hxkind.trans hykind.symm) hkinds
  rw [dependencies_eq, List.pairwise_append, List.pairwise_append]
  refine ⟨⟨hpart ?_, hpart ?_, ?_⟩, hpart ?_, ?_⟩
  · rintro rfl
    rfl
  · rintro rfl
    rfl
  · intro x hx y hy
    exact hapart (by decide) hx hy
  · rintro rfl
    rfl
  · intro x hx y hy
    rcases List.mem_append.1 hx with hx | hx
    · exact hapart (by decide) hx hy
    · exact hapart (by decide) hx hy

/-- A graph that is built follows the declarations. -/
theorem declared_of_dependencyGraph (h : t.dependencyGraph = .ok g)
    (hkind : kind ≠ .pseudoParameter) : g.Declared kind (t.declaredNames kind) where
  vertices := by
    rw [membersOf_of_dependencyGraph h hkind, declaredVertices_filter, List.pairwise_map]
    exact pairwise_idxOf nodup_declaredNames
  sources := by
    have hedges : ((t.dependencies.filterMap t.edge?).map Edge.source).Pairwise fun u v =>
        u.kind = kind → v.kind = kind →
          (t.declaredNames kind).idxOf u.name ≤ (t.declaredNames kind).idxOf v.name := by
      rw [List.pairwise_map, List.pairwise_filterMap]
      apply (dependencies_pairwise t kind).imp
      rintro ⟨u, d⟩ ⟨v, d'⟩ hle e he e' he'
      rw [(edge?_eq_some_iff.1 he).1, (edge?_eq_some_iff.1 he').1]
      exact hle
    -- An edge is added where its first dependency is, so the edges are a sub-list of those of the
    -- dependencies.
    rw [edges_of_dependencyGraph h]
    exact hedges.sublist ((firstOccurrences_sublist _).map _)

/-- Every graph of a template follows the declarations. -/
theorem HasGraph.declared (h : t.HasGraph g) (hkind : kind ≠ .pseudoParameter) :
    g.Declared kind (t.declaredNames kind) := by
  induction h with
  | build hgraph => exact declared_of_dependencyGraph hgraph hkind
  | removeVertices _ vs ih => exact ih.removeVertices vs

end Template

/-! ## Waves of one kind -/

namespace DependencyGraph

variable {g : DependencyGraph} {kind : EntityKind} {declared names : List String}
  {depth : String → Nat}

/-- An entity depends directly on another one of its kind. -/
def DependsWithin (g : DependencyGraph) (kind : EntityKind) (name other : String) : Prop :=
  g.Points ⟨kind, name⟩ ⟨kind, other⟩

/-- The dependency depth of the entities of a kind: zero without dependencies of the kind, and
otherwise one more than the depth of the deepest one. -/
def IsDepth (g : DependencyGraph) (kind : EntityKind) (depth : String → Nat) : Prop :=
  ∀ name, ⟨kind, name⟩ ∈ g.vertices →
    ((∀ other, ¬ g.DependsWithin kind name other) ∧ depth name = 0) ∨
      ∃ deepest, g.DependsWithin kind name deepest ∧
        (∀ other, g.DependsWithin kind name other → depth other ≤ depth deepest) ∧
        depth name = depth deepest + 1

/-- Names are those of the entities of a kind, each once, and go wave by wave: they are sorted by
dependency depth, and those of depth zero, like those with the same dependencies, stand in the order
of their declaration. -/
structure ByWaves (g : DependencyGraph) (kind : EntityKind) (declared names : List String) :
    Prop where
  nodup : names.Nodup
  mem_iff : ∀ name, name ∈ names ↔ ⟨kind, name⟩ ∈ g.vertices
  exists_depth : ∃ depth, g.IsDepth kind depth
  sorted : ∀ depth, g.IsDepth kind depth → names.Pairwise fun a b => depth a ≤ depth b
  shallow : ∀ depth, g.IsDepth kind depth → names.Pairwise fun a b =>
    depth a = 0 → depth b = 0 → declared.idxOf a < declared.idxOf b
  twins : names.Pairwise fun a b =>
    (∀ other, g.DependsWithin kind a other ↔ g.DependsWithin kind b other) →
      declared.idxOf a < declared.idxOf b

theorem mem_membersOf {v : Vertex} : v ∈ g.membersOf kind ↔ v ∈ g.vertices ∧ v.kind = kind := by
  rw [membersOf, List.mem_filter, decide_eq_true_iff]

/-- The targets of an entity among those of its kind are what it depends on within the kind. -/
theorem WellFormed.mem_targets_iff (h : g.WellFormed) {v : Vertex} {name : String} :
    v ∈ g.targets (g.membersOf kind) ⟨kind, name⟩ ↔
      ∃ other, g.DependsWithin kind name other ∧ v = ⟨kind, other⟩ := by
  rw [Digraph.mem_targets, mem_membersOf]
  constructor
  · rintro ⟨hpoints, -, hkind⟩
    obtain rfl := hkind
    exact ⟨v.name, hpoints, rfl⟩
  · rintro ⟨other, hpoints, rfl⟩
    refine ⟨hpoints, ?_, rfl⟩
    rcases hpoints with ⟨e, he, -, htarget⟩
    rw [← htarget]
    exact h.target_mem e he

/-- The depth of a vertex is given by the depths of the names that its name depends on. -/
theorem WellFormed.depthAt_iff (h : g.WellFormed) (depth : Vertex → Nat) (name : String) :
    g.DepthAt (g.membersOf kind) depth ⟨kind, name⟩ ↔
      ((∀ other, ¬ g.DependsWithin kind name other) ∧ depth ⟨kind, name⟩ = 0) ∨
        ∃ deepest, g.DependsWithin kind name deepest ∧
          (∀ other, g.DependsWithin kind name other →
            depth ⟨kind, other⟩ ≤ depth ⟨kind, deepest⟩) ∧
          depth ⟨kind, name⟩ = depth ⟨kind, deepest⟩ + 1 := by
  unfold Digraph.DepthAt
  simp only [List.eq_nil_iff_forall_not_mem, h.mem_targets_iff]
  -- Targets are turned into names and back in each of the two cases.
  constructor
  · rintro (⟨hnone, hzero⟩ | ⟨_, ⟨deepest, hdeepest, rfl⟩, hle, heq⟩)
    · left
      exact ⟨fun other hother => hnone _ ⟨other, hother, rfl⟩, hzero⟩
    · right
      exact ⟨deepest, hdeepest, fun other hother => hle _ ⟨other, hother, rfl⟩, heq⟩
  · rintro (⟨hnone, hzero⟩ | ⟨deepest, hdeepest, hle, heq⟩)
    · left
      refine ⟨?_, hzero⟩
      rintro v ⟨other, hother, -⟩
      exact hnone other hother
    · right
      refine ⟨_, ⟨deepest, hdeepest, rfl⟩, ?_, heq⟩
      rintro v ⟨other, hother, rfl⟩
      exact hle other hother

/-- Depths of names are depths of the vertices with these names. -/
theorem WellFormed.isDepth_iff (h : g.WellFormed) (depth : Vertex → Nat) :
    g.IsDepth kind (fun name => depth ⟨kind, name⟩) ↔
      ∀ v ∈ g.membersOf kind, g.DepthAt (g.membersOf kind) depth v := by
  constructor
  · rintro hdepth ⟨kind', name⟩ hv
    rcases mem_membersOf.1 hv with ⟨hmem, hkind⟩
    obtain rfl : kind' = kind := hkind
    exact (h.depthAt_iff depth name).2 (hdepth name hmem)
  · intro hdepth name hmem
    exact (h.depthAt_iff depth name).1 (hdepth _ (mem_membersOf.2 ⟨hmem, rfl⟩))

/-- Entities with the same dependencies stand in an order as they are declared. -/
theorem WellFormed.twins_pairwise (h : g.WellFormed) (hdeclared : g.Declared kind declared)
    {vs : List Vertex} (hvs : g.order (fun v => v.kind = kind) = .ok vs) :
    (vs.map Vertex.name).Pairwise fun a b =>
      (∀ other, g.DependsWithin kind a other ↔ g.DependsWithin kind b other) →
        declared.idxOf a < declared.idxOf b := by
  rcases Digraph.order_eq_ok h.nodup_vertices hvs with ⟨-, hmem, -⟩
  have hkind : ∀ v ∈ vs, v.kind = kind := by
    intro v hv
    exact of_decide_eq_true ((hmem v).1 hv).2
  have hsources : (g.edges.map Edge.source).Pairwise fun u v =>
      u ∈ g.membersOf kind → v ∈ g.membersOf kind →
        declared.idxOf u.name ≤ declared.idxOf v.name := by
    apply hdeclared.sources.imp
    intro u v hle hu hv
    exact hle (mem_membersOf.1 hu).2 (mem_membersOf.1 hv).2
  -- Vertices with the same targets come in turn, whatever their order among the sources is.
  have hturn := Digraph.order_in_turn hdeclared.vertices hsources h.nodup_vertices hvs
  rw [List.pairwise_map]
  apply List.Pairwise.imp_of_mem _ hturn
  rintro ⟨kind₁, a⟩ ⟨kind₂, b⟩ ha hb hlt hsame
  obtain rfl : kind₁ = kind := hkind _ ha
  obtain rfl : kind₂ = kind₁ := hkind _ hb
  apply hlt
  intro w
  show w ∈ g.targets (g.membersOf kind₂) _ ↔ w ∈ g.targets (g.membersOf kind₂) _
  rw [h.mem_targets_iff, h.mem_targets_iff]
  simp only [hsame]

/-- The order of one kind in a graph that follows the declarations goes wave by wave. -/
theorem WellFormed.byWaves (h : g.WellFormed) (hdeclared : g.Declared kind declared)
    (horder : g.orderOf kind = .ok names) : g.ByWaves kind declared names := by
  -- Only an order of the vertices gives an order of the names.
  rcases hvs : g.order (fun v => v.kind = kind) with c | vs
  · rw [orderOf, hvs] at horder
    cases horder
  rw [orderOf, hvs] at horder
  obtain rfl : vs.map Vertex.name = names := Except.ok.inj horder
  rcases Digraph.order_eq_ok h.nodup_vertices hvs with ⟨hnodup, hmem, -⟩
  have hkind : ∀ v ∈ vs, v.kind = kind := by
    intro v hv
    exact of_decide_eq_true ((hmem v).1 hv).2
  have hnames := map_name_of_kind hkind
  have hmemNames : ∀ name, name ∈ vs.map Vertex.name ↔ ⟨kind, name⟩ ∈ g.vertices := by
    intro name
    rw [← mk_mem_map kind, hnames, hmem]
    simp
  have htwins := h.twins_pairwise hdeclared hvs
  constructor
  · rw [← hnames] at hnodup
    exact hnodup.of_map
  · exact hmemNames
  · rcases Digraph.exists_depth_of_order h.nodup_vertices hvs with ⟨depth, hdepth⟩
    exact ⟨_, (h.isDepth_iff depth).2 hdepth⟩
  · intro depth hdepth
    rw [List.pairwise_map]
    exact Digraph.order_sorted h.nodup_vertices
      ((h.isDepth_iff fun v => depth v.name).1 hdepth) hvs
  · intro depth hdepth
    -- Entities of depth zero have no dependencies, so they have the same ones.
    have hnone : ∀ a ∈ vs.map Vertex.name, depth a = 0 →
        ∀ other, ¬ g.DependsWithin kind a other := by
      intro a ha hzero
      rcases hdepth a ((hmemNames a).1 ha) with ⟨hnone, -⟩ | ⟨deepest, -, -, hsucc⟩
      · exact hnone
      · omega
    apply List.Pairwise.imp_of_mem _ htwins
    intro a b ha hb hlt hzero hzero'
    apply hlt
    intro other
    exact iff_of_false (hnone a ha hzero other) (hnone b hb hzero' other)
  · exact htwins

end DependencyGraph

/-- Renaming an error does not make a result. -/
theorem eq_ok_of_mapError {circular : List String → GraphError} {names : List String}
    {answer : Except (List String) (List String)} (h : answer.mapError circular = .ok names) :
    answer = .ok names := by
  cases answer with
  | error c => cases h
  | ok names' =>
    cases h
    rfl

/-- For every graph of a template, also after vertices have been removed, the orders of its
resources and of its conditions go wave by wave. -/
theorem Template.HasGraph.orders_by_waves {t : Template} {g : DependencyGraph} (h : t.HasGraph g) :
    (∀ names, g.resourceOrder = .ok names → g.ByWaves .resource t.resources.keys names) ∧
      ∀ names, g.conditionOrder = .ok names → g.ByWaves .condition t.conditions.keys names := by
  have hwell := h.obtained.wellFormed
  have hresources : g.Declared .resource t.resources.keys := h.declared (by decide)
  have hconditions : g.Declared .condition t.conditions.keys := h.declared (by decide)
  constructor
  · intro names hnames
    exact hwell.byWaves hresources (eq_ok_of_mapError hnames)
  · intro names hnames
    exact hwell.byWaves hconditions (eq_ok_of_mapError hnames)

/-- A template with three waves of resources, of which the last one is declared first. -/
def Template.layeredResources : Template :=
  { empty with
    resources :=
      ⟨[("Alarm", { Resource.ofType "Service::Alarm" with dependsOn := ["Topic", "Queue"] }),
        ("Queue",
          { Resource.ofType "Service::Queue" with
            properties := ⟨[("Key", .call (.ref "Key"))], by decide⟩
            dependsOn := ["Key"] }),
        ("Topic", { Resource.ofType "Service::Topic" with dependsOn := ["Key"] }),
        ("Key", Resource.ofType "Service::Key"),
        ("Bucket", Resource.ofType "Service::Bucket")], by decide⟩ }

/-- Without the key, the resources of the second wave come first. -/
theorem Template.layeredResources_by_waves : ∃ g, layeredResources.dependencyGraph = .ok g ∧
    g.ByWaves .resource ["Alarm", "Queue", "Topic", "Key", "Bucket"]
      ["Key", "Bucket", "Queue", "Topic", "Alarm"] ∧
    (g.removeVertices [⟨.resource, "Key"⟩]).ByWaves .resource
      ["Alarm", "Queue", "Topic", "Key", "Bucket"] ["Queue", "Topic", "Bucket", "Alarm"] := by
  have hgraph : layeredResources.dependencyGraph = .ok _ := rfl
  have hbuilt := HasGraph.build hgraph
  refine ⟨_, hgraph, ?_, ?_⟩
  · exact hbuilt.orders_by_waves.1 _ (by decide +kernel)
  · exact (hbuilt.removeVertices _).orders_by_waves.1 _ (by decide +kernel)

end StackTemplate
