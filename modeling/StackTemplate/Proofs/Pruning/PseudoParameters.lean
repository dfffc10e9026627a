import StackTemplate.Proofs.Pruning.Excluding

/-!
# Pseudo-parameters of pruned graphs

The vertex of a pseudo-parameter comes into a graph with the first edge that enters it. Pruning
removes the vertices of resources and outputs and the edges that touch them, but no other vertex. A
pseudo-parameter thus stays in the graph when the last entity that refers to it is removed, as a
vertex that no edge enters, and it stays through all further prunings.

* `Template.Pruned` : the templates and graphs that a sequence of prunings reaches.
* `Template.Pruned.remaining` : what such a sequence keeps of the vertices and edges.
* `Template.pseudoParameter_pruned` : the pseudo-parameters of a pruned graph are those of the
  original template, and edges enter those that something left refers to.
-/

namespace StackTemplate

namespace Template

variable {t t' : Template} {g g' : DependencyGraph} {table : ConditionTable} {p : Pruning}
  {v : Vertex} {detail : EdgeDetail} {name : String}

/-! ## Sequences of prunings -/

/-- The templates and graphs that successful prunings of a template and its graph reach one after
the other, each with a table of its own. -/
inductive Pruned (t : Template) (g : DependencyGraph) : Template → DependencyGraph → Prop
  | start : Pruned t g t g
  | prune {t' : Template} {g' : DependencyGraph} {table : ConditionTable} {p : Pruning}
      (h : Pruned t g t' g') (hprune : Pruning.prune t' g' table = .ok p) :
      Pruned t g p.template p.graph

/-- A graph has those vertices and edges of another one that concern what a template declares, and
all pseudo-parameters. -/
structure Remaining (g : DependencyGraph) (t' : Template) (g' : DependencyGraph) : Prop where
  vertices : ∀ v, v ∈ g'.vertices ↔
    v ∈ g.vertices ∧ (v.kind = .pseudoParameter ∨ v ∈ t'.declaredVertices)
  edges : ∀ e, e ∈ g'.edges ↔ e ∈ g.edges ∧ e.source ∈ g'.vertices ∧ e.target ∈ g'.vertices

/-- All of a graph remains before the first pruning. -/
theorem remaining_of_dependencyGraph (hgraph : t.dependencyGraph = .ok g) : Remaining g t g := by
  have hexact := exact_of_dependencyGraph hgraph
  have hjoined := (DependencyGraph.wellFormed_of_dependencyGraph hgraph).joined
  constructor
  · intro v
    refine ⟨fun hv => ⟨hv, ?_⟩, And.left⟩
    rw [or_iff_not_imp_left]
    intro hkind
    exact mem_declaredVertices.2 ⟨hkind, (hexact.mem_vertices v).1 hv⟩
  · exact fun e => ⟨fun he => ⟨he, hjoined e he⟩, And.left⟩

/-- A pruning keeps what remains of a graph. -/
theorem Remaining.prune (h : Remaining g t' g') (hprune : Pruning.prune t' g' table = .ok p) :
    Remaining g p.template p.graph := by
  rcases Pruning.prune_eq_ok hprune with ⟨htemplate, hgraph⟩
  constructor
  · intro v
    rw [htemplate, hgraph, declaredVertices_exclude]
    change v ∈ g'.vertices.filter _ ↔ _
    rw [List.mem_filter, List.mem_filter, decide_eq_true_iff, h.vertices]
    -- Only resources and outputs are excluded, so pseudo-parameters stay whatever is pruned.
    by_cases hkind : v.kind = .pseudoParameter
    · have hkept : v ∉ excludedVertices p.resources p.outputs := by
        apply not_mem_excludedVertices <;> simp [hkind]
      simp [hkind, hkept]
    · simp [hkind, and_assoc]
  · intro e
    -- An edge stays if both of its ends stay, and an end that stays was there before.
    have hends : e ∈ p.graph.edges ↔
        e ∈ g'.edges ∧ e.source ∈ p.graph.vertices ∧ e.target ∈ p.graph.vertices := by
      rw [hgraph]
      change e ∈ g'.edges.filter _ ↔ _
      rw [List.mem_filter, Bool.and_eq_true, decide_eq_true_iff, decide_eq_true_iff]
      rfl
    have hvertices : ∀ v ∈ p.graph.vertices, v ∈ g'.vertices := by
      rw [hgraph]
      exact fun v hv => List.mem_of_mem_filter hv
    rw [hends, h.edges]
    constructor
    · rintro ⟨⟨he, -, -⟩, hsource, htarget⟩
      exact ⟨he, hsource, htarget⟩
    · rintro ⟨he, hsource, htarget⟩
      exact ⟨⟨he, hvertices _ hsource, hvertices _ htarget⟩, hsource, htarget⟩

/-- What a sequence of prunings keeps of the graph that was built. -/
theorem Pruned.remaining (h : Pruned t g t' g') (hgraph : t.dependencyGraph = .ok g) :
    Remaining g t' g' := by
  induction h with
  | start => exact remaining_of_dependencyGraph hgraph
  | prune _ hprune ih => exact ih.prune hprune

/-! ## Referrers -/

/-- Some entity of a template refers to a pseudo-parameter. -/
def Refers (t : Template) (name : String) : Prop :=
  ∃ v detail, t.Depends v ⟨.pseudoParameter, name⟩ detail

/-- Some entity of a template that another one still declares refers to a pseudo-parameter. -/
def StillRefers (t t' : Template) (name : String) : Prop :=
  ∃ v ∈ t'.declaredVertices, ∃ detail, t.Depends v ⟨.pseudoParameter, name⟩ detail

/-- What depends on something is declared. -/
theorem Depends.mem_declaredVertices {w : Vertex} (h : t.Depends v w detail) :
    v ∈ t.declaredVertices := by
  have hkinds := h.kinds.1
  apply Template.mem_declaredVertices.2
  refine ⟨?_, h.hasVertex_source⟩
  intro hkind
  simp [hkind] at hkinds

/-- The edges of a graph are what depends on what in its template. -/
theorem depends_iff_mem_edges (hgraph : t.dependencyGraph = .ok g) {w : Vertex} :
    t.Depends v w detail ↔ ⟨v, w, detail⟩ ∈ g.edges := by
  have hexact := (exact_of_dependencyGraph hgraph).mem_outgoing v ⟨v, w, detail⟩
  rw [Digraph.mem_outgoing] at hexact
  simpa using hexact.symm

/-- Where no resource has the name of a pseudo-parameter, the entities that a pruning leaves refer
to what they referred to. -/
theorem depends_prune_iff (hapart : ∀ name ∈ t'.resources.keys, PseudoParameter.ofName? name = none)
    (hprune : Pruning.prune t' g' table = .ok p) :
    p.template.Depends v ⟨.pseudoParameter, name⟩ detail ↔
      t'.Depends v ⟨.pseudoParameter, name⟩ detail ∧ v ∈ p.template.declaredVertices := by
  rcases Pruning.prune_eq_ok hprune with ⟨htemplate, -⟩
  -- Pruning excludes no pseudo-parameter, so only the source of the edge is at stake.
  have hkept : (⟨.pseudoParameter, name⟩ : Vertex) ∉ excludedVertices p.resources p.outputs :=
    not_mem_excludedVertices nofun nofun
  have hedges := congrArg (fun es => ⟨v, ⟨.pseudoParameter, name⟩, detail⟩ ∈ es)
    (filterMap_edge?_exclude p.resources p.outputs hapart)
  simp only [List.mem_filter, mem_filterMap_edge?, decide_eq_true_eq, hkept, not_false_eq_true,
    and_true] at hedges
  rw [htemplate, declaredVertices_exclude, List.mem_filter, decide_eq_true_iff, hedges]
  exact and_congr_right fun hdepends => ⟨fun hv => ⟨hdepends.mem_declaredVertices, hv⟩, And.right⟩

/-- What prunings leave was declared before. -/
theorem mem_declaredVertices_of_prune (hprune : Pruning.prune t' g' table = .ok p)
    (hv : v ∈ p.template.declaredVertices) : v ∈ t'.declaredVertices := by
  rw [(Pruning.prune_eq_ok hprune).1, declaredVertices_exclude] at hv
  exact List.mem_of_mem_filter hv

/-- Prunings add no resources. -/
theorem Pruned.keys_resources_subset (h : Pruned t g t' g') :
    ∀ name ∈ t'.resources.keys, name ∈ t.resources.keys := by
  induction h with
  | start => exact fun _ => id
  | prune _ hprune ih =>
    intro name hname
    rw [(Pruning.prune_eq_ok hprune).1, keys_resources_exclude] at hname
    exact ih name (List.mem_of_mem_filter hname)

/-- Where no resource has the name of a pseudo-parameter, the entities that prunings leave refer to
what they referred to from the start. -/
theorem Pruned.depends_iff (h : Pruned t g t' g')
    (hapart : ∀ name ∈ t.resources.keys, PseudoParameter.ofName? name = none) :
    t'.Depends v ⟨.pseudoParameter, name⟩ detail ↔
      t.Depends v ⟨.pseudoParameter, name⟩ detail ∧ v ∈ t'.declaredVertices := by
  induction h with
  | start => exact (and_iff_left_of_imp Depends.mem_declaredVertices).symm
  | prune hpruned hprune ih =>
    -- The resources that are left are some of the first ones, so their names stay apart.
    have hapart' := fun name hname => hapart name (hpruned.keys_resources_subset name hname)
    rw [depends_prune_iff hapart' hprune, ih, and_assoc]
    refine and_congr_right fun _ => ⟨And.right, fun hv => ⟨?_, hv⟩⟩
    exact mem_declaredVertices_of_prune hprune hv

/-- Where names are apart, what is left refers to a pseudo-parameter if it did so from the start. -/
theorem Pruned.refers_iff (h : Pruned t g t' g')
    (hapart : ∀ name ∈ t.resources.keys, PseudoParameter.ofName? name = none) :
    t'.Refers name ↔ t.StillRefers t' name := by
  constructor
  · rintro ⟨v, detail, hdepends⟩
    rcases (h.depends_iff hapart).1 hdepends with ⟨hbefore, hv⟩
    exact ⟨v, hv, detail, hbefore⟩
  · rintro ⟨v, hv, detail, hbefore⟩
    exact ⟨v, detail, (h.depends_iff hapart).2 ⟨hbefore, hv⟩⟩

/-! ## Vertices of pseudo-parameters -/

/-- After any sequence of prunings, the vertices of pseudo-parameters are those of the graph that
was built: one for each that some entity of the original template refers to. Edges enter those that
an entity left refers to. Hence a vertex is left over, with no edge that enters it, exactly if all
entities that refer to it were removed. -/
theorem pseudoParameter_pruned (hgraph : t.dependencyGraph = .ok g) (hpruned : Pruned t g t' g')
    (name : String) :
    (⟨.pseudoParameter, name⟩ ∈ g'.vertices ↔ t.Refers name) ∧
    ((∃ e ∈ g'.edges, e.target = ⟨.pseudoParameter, name⟩) ↔ t.StillRefers t' name) ∧
    ((⟨.pseudoParameter, name⟩ ∈ g'.vertices ∧
        ∀ e ∈ g'.edges, e.target ≠ ⟨.pseudoParameter, name⟩) ↔
      t.Refers name ∧ ¬ t.StillRefers t' name) ∧
    ((∀ name ∈ t.resources.keys, PseudoParameter.ofName? name = none) →
      (t'.Refers name ↔ t.StillRefers t' name)) := by
  have hremaining := hpruned.remaining hgraph
  have hvertex : (⟨.pseudoParameter, name⟩ : Vertex) ∈ g'.vertices ↔ t.Refers name := by
    rw [hremaining.vertices, (exact_of_dependencyGraph hgraph).mem_vertices]
    simp [HasVertex, Refers]
  have hentered : (∃ e ∈ g'.edges, e.target = ⟨.pseudoParameter, name⟩) ↔
      t.StillRefers t' name := by
    constructor
    · -- Nothing depends on behalf of a pseudo parameter, so what the edge leaves is not one itself.
      rintro ⟨⟨v, w, detail⟩, he, rfl⟩
      rcases (hremaining.edges _).1 he with ⟨hedge, hsource, -⟩
      have hdepends := (depends_iff_mem_edges hgraph).2 hedge
      have hkinds := hdepends.kinds.1
      rcases (hremaining.vertices v).1 hsource with ⟨-, hkind | hv⟩
      · simp [hkind] at hkinds
      · exact ⟨v, hv, detail, hdepends⟩
    · rintro ⟨v, hv, detail, hdepends⟩
      have hedge := (depends_iff_mem_edges hgraph).1 hdepends
      -- What is still declared has kept its vertex through all prunings.
      have hsource : v ∈ g'.vertices := by
        apply (hremaining.vertices v).2
        have hbefore := ((exact_of_dependencyGraph hgraph).mem_vertices v).2 hdepends.hasVertex_source
        exact ⟨hbefore, .inr hv⟩
      exact ⟨_, (hremaining.edges _).2 ⟨hedge, hsource, hvertex.2 ⟨v, detail, hdepends⟩⟩, rfl⟩
  refine ⟨hvertex, hentered, ?_, hpruned.refers_iff⟩
  rw [hvertex, ← hentered]
  simp

/-- A template whose only reference to a pseudo-parameter is in a resource with a condition, and a
second resource. -/
def regionalQueue : Template :=
  { empty with
    conditions := ⟨[("Live", .call (.equals (.string "a") (.string "b")))], by decide⟩
    resources :=
      ⟨[("Queue",
          { Resource.ofType "Service::Queue" with
            properties := ⟨[("Region", .call (.ref "AWS::Region"))], by decide⟩
            condition := some "Live" }),
        ("Topic", Resource.ofType "Service::Topic")], by decide⟩ }

/-- With the resource goes the only reference, but not the vertex. -/
theorem regionalQueue_leftover : ∃ g p, regionalQueue.dependencyGraph = .ok g ∧
    Pruning.prune regionalQueue g [("Live", false)] = .ok p ∧
    ⟨.pseudoParameter, "AWS::Region"⟩ ∈ p.graph.vertices ∧
    ∀ e ∈ p.graph.edges, e.target ≠ ⟨.pseudoParameter, "AWS::Region"⟩ :=
  ⟨_, _, rfl, rfl, by decide +kernel, by decide +kernel⟩

/-- The vertices of pseudo-parameters are not always those that some edge enters. -/
theorem not_forall_mem_vertices_iff_entered : ¬ ∀ t g t' g' name, t.dependencyGraph = .ok g →
    Pruned t g t' g' → (⟨.pseudoParameter, name⟩ ∈ g'.vertices ↔
      ∃ e ∈ g'.edges, e.target = ⟨.pseudoParameter, name⟩) := by
  intro h
  rcases regionalQueue_leftover with ⟨g, p, hgraph, hprune, hvertex, hentered⟩
  rcases (h _ g _ _ "AWS::Region" hgraph (.prune .start hprune)).1 hvertex with ⟨e, he, htarget⟩
  exact hentered e he htarget

/-- The vertex is left over because the resource that was removed is the only one that refers to
it. -/
theorem regionalQueue_pruned : ∃ g, ∃ p : Pruning, regionalQueue.dependencyGraph = .ok g ∧
    Pruned regionalQueue g p.template p.graph ∧
    regionalQueue.Refers "AWS::Region" ∧ ¬ regionalQueue.StillRefers p.template "AWS::Region" := by
  rcases regionalQueue_leftover with ⟨g, p, hgraph, hprune, hvertex, hentered⟩
  have hpruned : Pruned regionalQueue g p.template p.graph := .prune .start hprune
  have hleft := (pseudoParameter_pruned hgraph hpruned "AWS::Region").2.2.1.1 ⟨hvertex, hentered⟩
  exact ⟨g, p, hgraph, hpruned, hleft⟩

end Template

end StackTemplate
