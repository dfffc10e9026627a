import StackTemplate.Proofs.Pruning.Excluding

/-!
# Pruned graphs and rebuilt graphs

Pruning takes vertices out of a graph that was built. Building a graph for the pruned template gives
the same edges in the same order, and the same vertices of each kind that can be declared; only
pseudo-parameters that nothing refers to any more are left over in the pruned graph. It fails
exactly if something that remains depends on a resource that is gone, since nothing else that was
admitted before is refused now.

* `DependencyGraph.Matches` : graphs with the same edges and the same declared entities.
* `DependencyGraph.Matches.answersAlike` : such graphs have the same orders and unused parameters.
* `Template.connects_exclude_iff` : when the dependencies that remain are admitted.
* `Template.dependencyGraph_pruned` : rebuilding a pruned template agrees with pruning its graph.
-/

namespace StackTemplate

/-! ## Graphs that answer alike -/

namespace DependencyGraph

/-- Two graphs have the same edges, and the same vertices of each kind that can be declared. -/
structure Matches (g g' : DependencyGraph) : Prop where
  edges : g.edges = g'.edges
  members : ∀ kind, kind ≠ .pseudoParameter → g.membersOf kind = g'.membersOf kind

/-- Two graphs give the same answers when they are asked for edges, for unused parameters and for
orders. -/
structure AnswersAlike (g g' : DependencyGraph) : Prop where
  outgoing : ∀ v, g.outgoing v = g'.outgoing v
  incoming : ∀ v, g.incoming v = g'.incoming v
  unusedParameters : g.unusedParameters = g'.unusedParameters
  resourceOrder : g.resourceOrder = g'.resourceOrder
  conditionOrder : g.conditionOrder = g'.conditionOrder

variable {g g' : DependencyGraph}

/-- Orders are made of edges and of declared vertices, so matching graphs share them. -/
theorem Matches.orderOf_eq (h : g.Matches g') {kind : EntityKind} (hkind : kind ≠ .pseudoParameter) :
    g.orderOf kind = g'.orderOf kind := by
  unfold orderOf
  rw [Digraph.order_congr h.edges (h.members kind hkind)]

/-- The unused parameters are found among the parameters alone. -/
theorem unusedParameters_eq (g : DependencyGraph) : g.unusedParameters =
    ((g.membersOf .parameter).filter fun v => (g.incoming v).isEmpty).map Vertex.name := by
  unfold unusedParameters Digraph.roots membersOf
  rw [List.filter_comm]

/-- Matching graphs differ in vertices of pseudo-parameters only, which no query reports. -/
theorem Matches.answersAlike (h : g.Matches g') : g.AnswersAlike g' := by
  have hincoming (v : Vertex) : g.incoming v = g'.incoming v := by
    unfold Digraph.incoming
    rw [h.edges]
  refine ⟨fun v => ?_, hincoming, ?_, ?_, ?_⟩
  · unfold Digraph.outgoing
    rw [h.edges]
  · rw [unusedParameters_eq, unusedParameters_eq, h.members .parameter (by decide)]
    simp only [hincoming]
  · unfold resourceOrder
    rw [h.orderOf_eq (by decide)]
  · unfold conditionOrder
    rw [h.orderOf_eq (by decide)]

end DependencyGraph

/-! ## Graphs that are built -/

namespace Template

open Document

variable {document : Node} {t : Template} {g : DependencyGraph}

section Excluding

variable (resources outputs : List String)

theorem mem_declaredVertices_exclude {v : Vertex} (hv : v ∈ t.declaredVertices) :
    v ∈ (t.exclude resources outputs).declaredVertices ↔ v ∉ excludedVertices resources outputs := by
  rw [declaredVertices_exclude, List.mem_filter, decide_eq_true_iff]
  exact ⟨And.right, fun h => ⟨hv, h⟩⟩

/-- A graph is built without some entities if the dependencies that remain are admitted. -/
theorem exists_dependencyGraph_exclude (hgraph : t.dependencyGraph = .ok g) :
    (∃ g', (t.exclude resources outputs).dependencyGraph = .ok g') ↔
      (t.exclude resources outputs).Connects := by
  obtain ⟨hnames, -, -⟩ := dependencyGraph_eq_ok.1 hgraph
  constructor
  · rintro ⟨g', hg'⟩
    exact (dependencyGraph_eq_ok.1 hg').2.1
  · intro h
    refine ⟨_, dependencyGraph_eq_ok.2 ⟨?_, h, rfl⟩⟩
    intro name hname
    rw [keys_resources_exclude] at hname
    exact hnames name (List.mem_of_mem_filter hname)

/-- What depends on an entity that is gone is a resource or an output, and the entity is a resource:
conditions depend on no resources, and nothing depends on an output. -/
theorem kinds_of_gone (hgraph : t.dependencyGraph = .ok g) {e : Edge Vertex EdgeDetail}
    (he : e ∈ g.edges) (hgone : e.target ∈ excludedVertices resources outputs) :
    (e.source.kind = .resource ∨ e.source.kind = .output) ∧ e.target.kind = .resource := by
  obtain ⟨-, hconnects, -⟩ := dependencyGraph_eq_ok.1 hgraph
  have hdepends := (exact_of_dependencyGraph hgraph).depends_of_mem_edges he
  obtain ⟨hsources, htargets⟩ := hdepends.kinds
  have htarget : e.target.kind = .resource := by
    by_contra hkind
    apply not_mem_excludedVertices hkind ?_ hgone
    intro houtput
    simp [houtput] at htargets
  -- A condition that depended on a resource would have been refused.
  refine ⟨hsources.resolve_left fun hcondition => ?_, htarget⟩
  exact (allowed_of_depends hconnects hdepends).2 ⟨hcondition, htarget⟩

variable (hapart : ∀ name ∈ t.resources.keys, PseudoParameter.ofName? name = none)
include hapart

/-- The dependencies that remain are admitted if none of them leads to what is gone. -/
theorem connects_exclude_iff (hconnects : t.Connects) : (t.exclude resources outputs).Connects ↔
    ∀ e ∈ t.dependencies.filterMap t.edge?, e.source ∉ excludedVertices resources outputs →
      e.target ∉ excludedVertices resources outputs := by
  unfold Connects
  rw [dependencies_exclude]
  constructor
  · -- A dependency of something that remains finds an edge only if its end remains.
    intro h e he hsource
    obtain ⟨x, hx, hedge⟩ := List.mem_filterMap.1 he
    have hx' : e.source = x.1 := (edge?_eq_some_iff.1 hedge).1
    obtain ⟨e', he', -⟩ := h x (List.mem_filter.2 ⟨hx, by simpa [← hx'] using hsource⟩)
    rw [edge?_exclude resources outputs hapart, hedge, Option.filter_eq_some_iff] at he'
    obtain ⟨rfl, htarget⟩ : e = e' ∧ _ := ⟨Option.some.inj he'.1, he'.2⟩
    exact of_decide_eq_true htarget
  · -- The edge was there before, and its end is still there.
    intro h x hx
    obtain ⟨hx, hkept⟩ := List.mem_filter.1 hx
    obtain ⟨e, hedge, hallowed⟩ := hconnects x hx
    have hx' : e.source = x.1 := (edge?_eq_some_iff.1 hedge).1
    have htarget := h e (List.mem_filterMap.2 ⟨x, hx, hedge⟩) (by simpa [hx'] using hkept)
    refine ⟨e, ?_, hallowed⟩
    rw [edge?_exclude resources outputs hapart, hedge, Option.filter_eq_some_iff]
    exact ⟨rfl, decide_eq_true htarget⟩

/-- A graph that is built without some entities matches the graph that remains without them. -/
theorem matches_exclude (hgraph : t.dependencyGraph = .ok g) {g' : DependencyGraph}
    (hgraph' : (t.exclude resources outputs).dependencyGraph = .ok g') :
    g'.Matches (g.removeVertices (excludedVertices resources outputs)) where
  edges := by
    have hwell := DependencyGraph.wellFormed_of_dependencyGraph hgraph
    rw [edges_of_dependencyGraph hgraph', filterMap_edge?_exclude resources outputs hapart,
      firstOccurrences_filter, DependencyGraph.edges_removeVertices hwell.joined,
      edges_of_dependencyGraph hgraph]
  members kind hkind := by
    rw [membersOf_of_dependencyGraph hgraph' hkind, DependencyGraph.membersOf_removeVertices,
      membersOf_of_dependencyGraph hgraph hkind, declaredVertices_exclude, List.filter_comm]

/-- A graph is built without some entities unless a resource or an output that remains depends on a
resource that is gone: conditions depend on no resources, and nothing depends on an output. -/
theorem exists_dependencyGraph_exclude_iff (hgraph : t.dependencyGraph = .ok g) :
    (∃ g', (t.exclude resources outputs).dependencyGraph = .ok g') ↔
      ¬ ∃ e ∈ g.edges, (e.source.kind = .resource ∨ e.source.kind = .output) ∧
        e.source ∈ (t.exclude resources outputs).declaredVertices ∧ e.target.kind = .resource ∧
        e.target ∉ (t.exclude resources outputs).declaredVertices := by
  obtain ⟨-, hconnects, -⟩ := dependencyGraph_eq_ok.1 hgraph
  have hexact := exact_of_dependencyGraph hgraph
  have hdeclared {v : Vertex} (hv : v ∈ g.vertices) (hkind : v.kind ≠ .pseudoParameter) :
      v ∈ t.declaredVertices :=
    mem_declaredVertices.2 ⟨hkind, (hexact.mem_vertices v).1 hv⟩
  have hwell := DependencyGraph.wellFormed_of_dependencyGraph hgraph
  have hedges : ∀ e, e ∈ t.dependencies.filterMap t.edge? ↔ e ∈ g.edges := by
    intro e
    rw [edges_of_dependencyGraph hgraph, mem_firstOccurrences]
  rw [exists_dependencyGraph_exclude resources outputs hgraph,
    connects_exclude_iff resources outputs hapart hconnects]
  constructor
  · -- If the rest is admitted, the end of an edge out of it is in it.
    rintro h ⟨e, he, -, hsource, hkind, htarget⟩
    rw [declaredVertices_exclude, List.mem_filter, decide_eq_true_iff] at hsource
    have hkept := h e ((hedges e).2 he) hsource.2
    have hin := hdeclared (hwell.target_mem e he) (by simp [hkind])
    exact htarget ((mem_declaredVertices_exclude resources outputs hin).2 hkept)
  · -- An edge into what is gone would be one of those that are ruled out.
    intro h e he hsource hgone
    have he' := (hedges e).1 he
    obtain ⟨hkinds, htarget⟩ := kinds_of_gone resources outputs hgraph he' hgone
    have hin := hdeclared (hwell.source_mem e he') (by rcases hkinds with hk | hk <;> simp [hk])
    have hin' := hdeclared (hwell.target_mem e he') (by simp [htarget])
    refine h ⟨e, he', hkinds, ?_, htarget, ?_⟩
    · exact (mem_declaredVertices_exclude resources outputs hin).2 hsource
    · exact fun hmem => (mem_declaredVertices_exclude resources outputs hin').1 hmem hgone

end Excluding

variable {table : ConditionTable} {p : Pruning}

/-- Building a graph for a pruned template succeeds unless a resource or an output that remains
depends on a resource that is gone. The graph then matches the pruned one: it has the same edges and
the same declared entities, in the same order, and so gives the same answers. -/
theorem dependencyGraph_pruned (hparse : parseDocument document = .ok t)
    (hgraph : t.dependencyGraph = .ok g) (hprune : Pruning.prune t g table = .ok p) :
    ((∃ g', p.template.dependencyGraph = .ok g') ↔
      ¬ ∃ e ∈ g.edges, (e.source.kind = .resource ∨ e.source.kind = .output) ∧
        e.source ∈ p.template.declaredVertices ∧ e.target.kind = .resource ∧
        e.target ∉ p.template.declaredVertices) ∧
    ∀ g', p.template.dependencyGraph = .ok g' → g'.Matches p.graph ∧ g'.AnswersAlike p.graph := by
  obtain ⟨htemplate, hremaining⟩ := Pruning.prune_eq_ok hprune
  have hapart : ∀ name ∈ t.resources.keys, PseudoParameter.ofName? name = none := fun _ =>
    resources_apart hparse
  rw [htemplate, hremaining]
  refine ⟨exists_dependencyGraph_exclude_iff _ _ hapart hgraph, ?_⟩
  intro g' hgraph'
  have hmatches := matches_exclude _ _ hapart hgraph hgraph'
  exact ⟨hmatches, hmatches.answersAlike⟩

/-- A document with a resource that alone refers to a pseudo-parameter, and an output that refers to
the resource; each has a condition. -/
def guardedDocument : Node :=
  .map
    [(.string "Conditions", .map
        [(.string "Live", .map [(.string "Fn::Equals", .seq [.string "a", .string "b"])]),
          (.string "Shown", .map [(.string "Fn::Not", .seq
            [.map [(.string "Condition", .string "Live")]])])]),
      (.string "Resources", .map
        [(.string "Topic", .map [(.string "Type", .string "Service::Topic")]),
          (.string "Queue", .map
            [(.string "Type", .string "Service::Queue"),
              (.string "Condition", .string "Live"),
              (.string "Properties", .map
                [(.string "Region", .map [(.string "Ref", .string "AWS::Region")])])])]),
      (.string "Outputs", .map
        [(.string "Address", .map
          [(.string "Condition", .string "Shown"),
            (.string "Value", .map [(.string "Fn::GetAtt", .string "Queue.Arn")])])])]

/-- Without the resource and the output the pruned graph keeps the pseudo-parameter and the rebuilt
one does not; without the resource alone there is no graph to rebuild. -/
theorem guardedDocument_pruned : ∃ t g, parseDocument guardedDocument = .ok t ∧
    t.dependencyGraph = .ok g ∧
    (∃ p g', Pruning.prune t g [("Live", false), ("Shown", false)] = .ok p ∧
      p.template.dependencyGraph = .ok g' ∧ g'.Matches p.graph ∧ g'.AnswersAlike p.graph ∧
      g'.vertices ≠ p.graph.vertices) ∧
    ∃ p, Pruning.prune t g [("Live", false), ("Shown", true)] = .ok p ∧
      ¬ ∃ g', p.template.dependencyGraph = .ok g' := by
  have htexts : guardedDocument.textsDiffer = true := by decide +kernel
  have hnames : guardedDocument.NamesDiffer := fun area => by cases area <;> decide +kernel
  -- Both prunings are computed from the reading in one pass, and carried over to parsing below.
  have hdirect : (ofDocumentDirectly guardedDocument).toOption.any (fun t =>
      t.dependencyGraph.toOption.any fun g =>
        ((Pruning.prune t g [("Live", false), ("Shown", false)]).toOption.any fun p =>
          p.template.dependencyGraph.toOption.any fun g' => g'.vertices ≠ p.graph.vertices) &&
        ((Pruning.prune t g [("Live", false), ("Shown", true)]).toOption.any fun p =>
          g.edges.any fun e => e.source.kind = .output ∧
            e.source ∈ p.template.declaredVertices ∧ e.target.kind = .resource ∧
            e.target ∉ p.template.declaredVertices)) = true := by
    decide +kernel
  obtain ⟨t, ht, hdirect⟩ := exists_ok_of_any hdirect
  obtain ⟨g, hgraph, hdirect⟩ := exists_ok_of_any hdirect
  obtain ⟨hboth, hone⟩ := (Bool.and_eq_true ..).mp hdirect
  have hparse := parseDocument_of_ofDocumentDirectly htexts hnames ht
  refine ⟨t, g, hparse, hgraph, ?_, ?_⟩
  · obtain ⟨p, hprune, hboth⟩ := exists_ok_of_any hboth
    obtain ⟨g', hgraph', hdiffer⟩ := exists_ok_of_any hboth
    obtain ⟨hmatches, hanswers⟩ := (dependencyGraph_pruned hparse hgraph hprune).2 g' hgraph'
    exact ⟨p, g', hprune, hgraph', hmatches, hanswers, of_decide_eq_true hdiffer⟩
  · obtain ⟨p, hprune, hone⟩ := exists_ok_of_any hone
    obtain ⟨e, he, hends⟩ := List.any_eq_true.1 hone
    obtain ⟨hsource, hkept, htarget, hgone⟩ := of_decide_eq_true hends
    refine ⟨p, hprune, fun hbuilt => ?_⟩
    exact (dependencyGraph_pruned hparse hgraph hprune).1.1 hbuilt
      ⟨e, he, .inr hsource, hkept, htarget, hgone⟩

end Template

end StackTemplate
