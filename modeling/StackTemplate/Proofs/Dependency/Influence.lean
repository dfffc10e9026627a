import StackTemplate.Proofs.Dependency.Order
import StackTemplate.Proofs.Evaluation.Alike

/-!
# The influence of parameters

Every name that an operand mentions is the target of an edge from the entity that has the operand,
and so are the names that the conditions among them mention. An evaluation therefore reads only
parameters that are reached in the dependency graph, and two evaluators that agree on these give the
same answers.

* `Settings.AgreeOn` : settings that differ in the values of some parameters at most.
* `Template.Asks` : the calls on an evaluator that an entity gives rise to.
* `Template.influence_of_dependencyGraph` : answers depend on the parameters that are reached, and
  on no unused parameter.
-/

namespace StackTemplate

open Relation

/-! ## Settings -/

namespace Settings

/-- The override of an attribute of a resource. -/
def attribute? (s : Settings) (key : String × String) : Option Value :=
  (s.attributes.reverse.find? fun e => e.1 = key).map Prod.snd

/-- Two settings differ at most in the values of parameters outside of a set. -/
structure AgreeOn (s s' : Settings) (parameter : String → Prop) : Prop where
  pseudo : s.pseudo = s'.pseudo
  imports : ∀ name, s.imports.find? name = s'.imports.find? name
  attributes : ∀ key, s.attribute? key = s'.attribute? key
  parameters : ∀ name, parameter name → s.parameters.find? name = s'.parameters.find? name

theorem AgreeOn.mono {s s' : Settings} {parameter fewer : String → Prop}
    (h : s.AgreeOn s' parameter) (hfewer : ∀ name, fewer name → parameter name) :
    s.AgreeOn s' fewer where
  pseudo := h.pseudo
  imports := h.imports
  attributes := h.attributes
  parameters name hname := h.parameters name (hfewer name hname)

end Settings

namespace Scope

variable {s s' : Scope}

/-- A `Ref` gives the same where the name is of the same kind, and a parameter has the same
value. -/
theorem ref_congr {name : String}
    (hresolve : s.template.resolveName name = s'.template.resolveName name)
    (hpseudo : s.settings.pseudo = s'.settings.pseudo)
    (hparameter : name ∈ s.template.parameters.keys → s.parameter name = s'.parameter name) :
    s.ref name = s'.ref name := by
  unfold ref
  rw [← hresolve, ← hpseudo]
  -- Only a parameter reads anything that the two scopes may not share.
  cases hkind : s.template.resolveName name with
  | none => rfl
  | some kind =>
    cases kind with
    | parameter => exact hparameter (Dict.contains_iff.1 (parameters_contains_of_resolveName hkind))
    | _ => rfl

/-- A parameter has one value if it is declared and set alike. -/
theorem parameter_congr {name : String}
    (hdeclared : s.template.parameters.find? name = s'.template.parameters.find? name)
    (hvalue : s.settings.parameters.find? name = s'.settings.parameters.find? name) :
    s.parameter name = s'.parameter name := by
  unfold parameter
  rw [hdeclared, hvalue]

/-- The value of an attribute depends on the resource, on the template and on its override alone. -/
theorem attributeValue_eq (s : Scope) (resource name : String) : s.attributeValue resource name =
    if s.template.resources.contains resource then
      .ok ((s.settings.attribute? (resource, name)).getD (.string (resource ++ "." ++ name)))
    else .error (.unknownResource resource) := by
  unfold attributeValue Settings.attribute?
  cases s.settings.attributes.reverse.find? fun e => e.1 = (resource, name) <;> rfl

theorem importValue_congr
    (h : ∀ name, s.settings.imports.find? name = s'.settings.imports.find? name) :
    s.importValue = s'.importValue := by
  funext name
  rw [importValue, importValue, h name]

theorem availabilityZones_congr (h : s.settings.pseudo = s'.settings.pseudo) :
    s.availabilityZones = s'.availabilityZones := by
  funext region
  rw [availabilityZones, availabilityZones, h]

end Scope

/-! ## Mentions are edges -/

/-- A path of the graph leads from an entity to a parameter. -/
def DependencyGraph.ReachesParameter (g : DependencyGraph) (v : Vertex) (name : String) : Prop :=
  TransGen g.Points v ⟨.parameter, name⟩

namespace Template

variable {t : Template} {g : DependencyGraph} {v w : Vertex} {o : Operand}

/-- In the graph of a template one entity points at another if it depends on it. -/
theorem Exact.points_iff (h : t.Exact g) : g.Points v w ↔ ∃ detail, t.Depends v w detail := by
  constructor
  · rintro ⟨e, he, rfl, rfl⟩
    exact ⟨e.value, h.depends_of_mem_edges he⟩
  · rintro ⟨detail, hdepends⟩
    have he := (h.mem_outgoing v ⟨v, w, detail⟩).2 ⟨rfl, hdepends⟩
    exact ⟨_, (Digraph.mem_outgoing.1 he).1, rfl, rfl⟩

/-- What an operand of an entity mentions resolves, and the graph has an edge to it. -/
theorem points_of_mention (hgraph : t.dependencyGraph = .ok g) (ho : o ∈ t.operandsAt v)
    {r : Reference} (hr : r ∈ o.mentions) :
    ∃ w detail, (Dependency.reference r).resolve t = some (w, detail) ∧ g.Points v w := by
  obtain ⟨-, hconnects, -⟩ := dependencyGraph_eq_ok.1 hgraph
  -- A mention is stated by the declaration, and what is stated has resolved when the graph was
  -- built.
  have hstates : t.States v (.reference r) := ⟨o, ho, Operand.mem_references.2 hr⟩
  obtain ⟨w, detail, hresolve⟩ := exists_resolve_iff.2 (declaresTarget_of_states hconnects hstates)
  have hdepends : t.Depends v w detail := depends_iff.2 ⟨_, hstates, hresolve⟩
  exact ⟨w, detail, hresolve, (exact_of_dependencyGraph hgraph).points_iff.2 ⟨detail, hdepends⟩⟩

/-- A condition that an operand of an entity mentions is the target of an edge. -/
theorem points_of_condition_mention (hgraph : t.dependencyGraph = .ok g) (ho : o ∈ t.operandsAt v)
    {name : String} (hname : .condition name ∈ o.mentions) : g.Points v ⟨.condition, name⟩ := by
  obtain ⟨w, detail, hresolve, hpoints⟩ := points_of_mention hgraph ho hname
  obtain ⟨-, rfl, -⟩ := resolve_condition_eq_some_iff.1 hresolve
  exact hpoints

/-! ## Answers -/

/-- An evaluator is asked for an operand of an entity, or whether an entity that is a condition
holds. -/
inductive Asks (t : Template) (v : Vertex) : Query → Prop
  | operand {o : Operand} (ho : o ∈ t.operandsAt v) : Asks t v (.operand o)
  | condition {name : String} (hv : v = ⟨.condition, name⟩) : Asks t v (.condition name)

variable {s s' : Settings}

/-- An edge leads to an entity that reaches less. -/
theorem agreeOn_of_points (h : s.AgreeOn s' (g.ReachesParameter v)) (hpoints : g.Points v w) :
    s.AgreeOn s' (g.ReachesParameter w) :=
  h.mono fun _ hreach => .head hpoints hreach

/-- Settings that agree on what is reached from an entity evaluate its operands alike. -/
theorem alike_at (hgraph : t.dependencyGraph = .ok g) (h : s.AgreeOn s' (g.ReachesParameter v))
    (ho : o ∈ t.operandsAt v) : Scope.Alike ⟨t, s⟩ ⟨t, s'⟩ o := by
  apply Scope.alike_of_lookups
  · intro name hname
    obtain ⟨w, detail, hresolve, hpoints⟩ := points_of_mention hgraph ho hname
    refine Scope.ref_congr rfl h.pseudo fun hparameter => ?_
    -- A parameter that is mentioned is reached in one step.
    obtain ⟨-, rfl, -⟩ | ⟨hfree, -⟩ | ⟨hfree, -⟩ := resolve_ref_eq_some_iff.1 hresolve
    · exact Scope.parameter_congr rfl (h.parameters name (.single hpoints))
    · exact absurd hparameter hfree
    · exact absurd hparameter hfree
  · -- Attributes, imports and zones do not depend on parameters.
    intro resource label name _
    rw [Scope.attributeValue_eq, Scope.attributeValue_eq, h.attributes (resource, name)]
  · exact Scope.importValue_congr h.imports
  · rfl
  · exact Scope.availabilityZones_congr h.pseudo

/-- Settings that agree on what is reached from a condition decide it alike. -/
theorem decideAfresh_alike (hgraph : t.dependencyGraph = .ok g) {name : String}
    (h : s.AgreeOn s' (g.ReachesParameter ⟨.condition, name⟩)) :
    Scope.decideAfresh ⟨t, s⟩ [] name = Scope.decideAfresh ⟨t, s'⟩ [] name := by
  -- What a condition needs is passed on along its edges, which is what carries the recursion.
  let agree (c : String) : Prop := s.AgreeOn s' (g.ReachesParameter ⟨.condition, c⟩)
  refine @Scope.decideAfresh_congr ⟨t, s⟩ ⟨t, s'⟩ agree rfl ?_ ?_ [] name h
  · intro c o hc hfind
    exact alike_at hgraph hc (mem_operandsAt_condition.2 hfind)
  · intro c o hc hfind other hother
    have ho : o ∈ t.operandsAt ⟨.condition, c⟩ := mem_operandsAt_condition.2 hfind
    exact agreeOn_of_points hc (points_of_condition_mention hgraph ho hother)

/-- Settings that agree on what is reached from an entity answer what it asks alike. -/
theorem answerAfresh_alike (hgraph : t.dependencyGraph = .ok g)
    (h : s.AgreeOn s' (g.ReachesParameter v)) {q : Query} (hq : t.Asks v q) :
    Evaluator.answerAfresh ⟨t, s⟩ q = Evaluator.answerAfresh ⟨t, s'⟩ q := by
  cases hq with
  | @operand o ho =>
    have hvalue : o.evaluate ⟨t, s⟩ (Scope.decideAfresh ⟨t, s⟩ []) =
        o.evaluate ⟨t, s'⟩ (Scope.decideAfresh ⟨t, s'⟩ []) := by
      apply alike_at hgraph h ho
      -- A condition that the operand mentions reaches no more than the entity does.
      intro name hname
      have hcondition := points_of_condition_mention hgraph ho hname
      exact decideAfresh_alike hgraph (agreeOn_of_points h hcondition)
    simp only [Evaluator.answerAfresh, hvalue]
  | condition hv =>
    subst hv
    simp only [Evaluator.answerAfresh, Scope.freshDecision, decideAfresh_alike hgraph h]

/-- No entity reaches an unused parameter. -/
theorem not_mem_unusedParameters_of_reaches {name : String} (h : g.ReachesParameter v name) :
    name ∉ g.unusedParameters := by
  intro hunused
  obtain ⟨u, hu, rfl⟩ := List.mem_map.1 hunused
  obtain ⟨hroot, hkind⟩ := List.mem_filter.1 hu
  obtain ⟨kind, name⟩ := u
  obtain rfl : kind = .parameter := of_decide_eq_true hkind
  -- The path has a last edge, and an unused parameter is a root.
  obtain ⟨_, -, e, he, -, htarget⟩ := TransGen.tail'_iff.1 h
  exact (Digraph.mem_roots.1 hroot).2 e he htarget

/-- The answers for an entity depend on the parameters that it reaches in the graph, whatever the
evaluators have been asked before. In particular no answer depends on an unused parameter. -/
theorem influence_of_dependencyGraph (hgraph : t.dependencyGraph = .ok g) (s s' : Settings)
    (history history' : List Query) :
    (∀ v, s.AgreeOn s' (g.ReachesParameter v) → ∀ q, t.Asks v q →
      ((Evaluator.after ⟨t, s⟩ history).ask ⟨t, s⟩ q).1 =
        ((Evaluator.after ⟨t, s'⟩ history').ask ⟨t, s'⟩ q).1) ∧
    (s.AgreeOn s' (· ∉ g.unusedParameters) → ∀ v q, t.Asks v q →
      ((Evaluator.after ⟨t, s⟩ history).ask ⟨t, s⟩ q).1 =
        ((Evaluator.after ⟨t, s'⟩ history').ask ⟨t, s'⟩ q).1) := by
  have hreached : ∀ v, s.AgreeOn s' (g.ReachesParameter v) → ∀ q, t.Asks v q →
      ((Evaluator.after ⟨t, s⟩ history).ask ⟨t, s⟩ q).1 =
        ((Evaluator.after ⟨t, s'⟩ history').ask ⟨t, s'⟩ q).1 := by
    intro v hagree q hq
    exact Evaluator.ask_congr (answerAfresh_alike hgraph hagree hq) history history'
  refine ⟨hreached, fun hagree v q hq => ?_⟩
  exact hreached v (hagree.mono fun _ h => not_mem_unusedParameters_of_reaches h) q hq

/-- A template with a parameter that a condition reads, one that a resource reads and one that
nothing reads. -/
def conditionalSize : Template :=
  { empty with
    parameters :=
      ⟨[("Stage", Parameter.ofType "String"), ("Size", Parameter.ofType "Number"),
        ("Spare", Parameter.ofType "String")], by decide⟩
    conditions := .ofList [("Live", .call (.equals (.call (.ref "Stage")) (.string "live")))]
    resources :=
      ⟨[("Queue",
          { Resource.ofType "Service::Queue" with
            properties :=
              ⟨[("Size", .call (.ifElse "Live" (.call (.sub "${Size} GiB" [])) (.string "")))],
                by decide⟩ })], by decide⟩ }

end Template

/-- The graph of that template. -/
def DependencyGraph.ofConditionalSize : DependencyGraph where
  vertices :=
    [⟨.parameter, "Stage"⟩, ⟨.parameter, "Size"⟩, ⟨.parameter, "Spare"⟩, ⟨.resource, "Queue"⟩,
      ⟨.condition, "Live"⟩]
  edges :=
    [⟨⟨.condition, "Live"⟩, ⟨.parameter, "Stage"⟩, .parameterReference⟩,
      ⟨⟨.resource, "Queue"⟩, ⟨.condition, "Live"⟩, .conditionReference⟩,
      ⟨⟨.resource, "Queue"⟩, ⟨.parameter, "Size"⟩, .parameterReference⟩]

/-- The settings with runtime values of parameters and nothing else. -/
def Settings.ofParameters (parameters : Dict Scalar) : Settings :=
  { (default : Settings) with parameters }

namespace DependencyGraph

/-- The condition of that template reaches one parameter. -/
theorem ofConditionalSize_reaches {name : String}
    (h : ofConditionalSize.ReachesParameter ⟨.condition, "Live"⟩ name) : name = "Stage" := by
  have hcondition : ∀ w, ofConditionalSize.Points ⟨.condition, "Live"⟩ w →
      w = ⟨.parameter, "Stage"⟩ := by
    simp [Digraph.Points, ofConditionalSize]
  have hparameter : ∀ w, ¬ ofConditionalSize.Points ⟨.parameter, "Stage"⟩ w := by
    simp [Digraph.Points, ofConditionalSize]
  obtain ⟨w, hfirst, hrest⟩ := TransGen.head'_iff.1 h
  obtain rfl := hcondition w hfirst
  rcases hrest.cases_head with heq | ⟨u, hpoints, -⟩
  · exact (Vertex.mk.inj heq).2.symm
  · exact absurd hpoints (hparameter u)

/-- Neither another size nor a value for the parameter that nothing reads changes the decision. -/
theorem ofConditionalSize_influence :
    ∃ small large spare : Settings,
      small.parameters.find? "Size" ≠ large.parameters.find? "Size" ∧
      spare.parameters.find? "Spare" ≠ small.parameters.find? "Spare" ∧
      ((Evaluator.after ⟨.conditionalSize, small⟩ []).ask ⟨.conditionalSize, small⟩
          (.condition "Live")).1 =
        ((Evaluator.after ⟨.conditionalSize, large⟩ [.condition "Live"]).ask
          ⟨.conditionalSize, large⟩ (.condition "Live")).1 ∧
      ((Evaluator.after ⟨.conditionalSize, small⟩ []).ask ⟨.conditionalSize, small⟩
          (.condition "Live")).1 =
        ((Evaluator.after ⟨.conditionalSize, spare⟩ [.condition "Live"]).ask
          ⟨.conditionalSize, spare⟩ (.condition "Live")).1 := by
  have hgraph : Template.conditionalSize.dependencyGraph = .ok ofConditionalSize := by
    decide +kernel
  let small := Settings.ofParameters
    ⟨[("Stage", .string "live"), ("Size", .int 1)], by decide⟩
  let large := Settings.ofParameters
    ⟨[("Stage", .string "live"), ("Size", .int 2)], by decide⟩
  let spare := Settings.ofParameters
    ⟨[("Stage", .string "live"), ("Size", .int 1), ("Spare", .string "spare")], by decide⟩
  -- The condition reaches only the stage, on which the settings agree though their sizes differ.
  have hlarge : small.AgreeOn large (ofConditionalSize.ReachesParameter ⟨.condition, "Live"⟩) :=
    { pseudo := rfl
      imports := fun _ => rfl
      attributes := fun _ => rfl
      parameters := fun name hname => by
        rw [ofConditionalSize_reaches hname]
        rfl }
  have hunused : ofConditionalSize.unusedParameters = ["Spare"] := by decide
  have hspare : small.AgreeOn spare (· ∉ ofConditionalSize.unusedParameters) :=
    { pseudo := rfl
      imports := fun _ => rfl
      attributes := fun _ => rfl
      parameters := fun name hname => by
        have hne : "Spare" ≠ name := by
          rintro rfl
          simp [hunused] at hname
        simp [small, spare, Settings.ofParameters, Dict.find?, Entries.find?, hne] }
  have hasks : Template.Asks .conditionalSize ⟨.condition, "Live"⟩ (.condition "Live") :=
    .condition rfl
  refine ⟨small, large, spare, by decide, by decide, ?_, ?_⟩
  · exact (Template.influence_of_dependencyGraph hgraph small large _ _).1 _ hlarge _ hasks
  · exact (Template.influence_of_dependencyGraph hgraph small spare _ _).2 hspare _ _ hasks

end DependencyGraph

end StackTemplate
