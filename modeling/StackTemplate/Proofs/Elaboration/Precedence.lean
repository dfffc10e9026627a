import StackTemplate.Proofs.Dependency.Influence
import StackTemplate.Proofs.Elaboration.WrittenSections
import StackTemplate.Proofs.Elaboration.Transparency
import StackTemplate.Proofs.Resolution.Admission

/-!
# Conditions precede resources

Conditions are decided before any resource or export exists. Two checks see to it together: a
document is read only if no condition calls a function that its section forbids, at any depth, and
a graph is built only if no condition refers to a resource, be it inside the text of a
substitution. What a condition is decided as thus depends on nothing but the parameters and the
pseudo-parameters.

* `Template.not_calls_importValue` : no condition that was read imports a value.
* `Template.alike_excluded` : the expression of a condition has the same value without resources.
* `Template.conditions_precede_resources` : conditions are decided alike whatever the resources,
  outputs, attributes and imports are.
-/

namespace StackTemplate

/-! ## Templates that were read -/

namespace Template

open Document

variable {document : Node} {t : Template} {g : DependencyGraph} {o : Operand} {name : String}

/-- No condition of a template that was read imports a value. -/
theorem not_calls_importValue (hparse : parseDocument document = .ok t)
    (hfind : t.conditions.find? name = some o) : ¬ o.Calls .importValue := by
  have hdirect := ofDocumentDirectly_of_ofDocument (parseDocument_eq_ok.1 hparse)
  obtain ⟨root, -, hread⟩ := exists_readDirectly hdirect
  have hsection : SectionWritable .conditions (fun o => ¬ o.Calls .importValue) t.conditions := by
    refine sectionWritable_of_attemptSection hread.conditions fun e _ o ho hcalls => ?_
    rcases hcalls.exists_occurs none with ⟨c, owner, hoccurs, hfunction⟩
    -- A call that is read is permitted in its section.
    have hpermitted := (Node.admitted_of_denotes ho hoccurs).1
    rw [hfunction] at hpermitted
    cases hpermitted
  exact hsection.values o (List.mem_map_of_mem (Dict.find?_eq_some_iff.1 hfind))

/-! ## Templates without some resources -/

/-- A name that is no resource means the same in the template without some resources. -/
theorem resolveName_exclude (resources outputs : List String)
    (h : name ∈ t.parameters.keys ∨ name ∉ t.resources.keys) :
    t.resolveName name = (t.exclude resources outputs).resolveName name := by
  have hparameters : (t.exclude resources outputs).parameters = t.parameters := rfl
  have hresources : name ∈ (t.exclude resources outputs).resources.keys → name ∈ t.resources.keys := by
    intro hin
    rw [exclude, Dict.keys_foldl_erase] at hin
    exact List.mem_of_mem_filter hin
  simp only [resolveName, hparameters, Dict.contains_iff]
  by_cases hparameter : name ∈ t.parameters.keys
  · rw [if_pos hparameter, if_pos hparameter]
  · -- The name is no resource, and none of the resources that are left either.
    have hnone := h.resolve_left hparameter
    rw [if_neg hparameter, if_neg hparameter, if_neg hnone, if_neg fun hin => hnone (hresources hin)]

/-! ## Decisions -/

variable {s s' : Settings}

/-- What the expression of a condition mentions is no resource. -/
theorem kind_ne_resource_of_mention (hgraph : t.dependencyGraph = .ok g)
    (ho : o ∈ t.operandsAt ⟨.condition, name⟩) {r : Reference} (hr : r ∈ o.mentions) {w : Vertex}
    {detail : EdgeDetail} (hresolve : (Dependency.reference r).resolve t = some (w, detail)) :
    w.kind ≠ .resource := by
  obtain ⟨-, hconnects, -⟩ := dependencyGraph_eq_ok.1 hgraph
  have hstates : t.States ⟨.condition, name⟩ (.reference r) :=
    ⟨o, ho, Operand.mem_references.2 hr⟩
  -- A mention of a resource would be an edge that is not allowed.
  have hdepends : t.Depends ⟨.condition, name⟩ w detail := depends_iff.2 ⟨_, hstates, hresolve⟩
  exact fun hw => (allowed_of_depends hconnects hdepends).2 ⟨rfl, hw⟩

/-- The expression of a condition that imports nothing has the same value without some resources and
outputs, with other attributes and with other imports. -/
theorem alike_excluded (hgraph : t.dependencyGraph = .ok g) (resources outputs : List String)
    (ho : o ∈ t.operandsAt ⟨.condition, name⟩) (himports : ¬ o.Calls .importValue)
    (hparameters : ∀ p, s.parameters.find? p = s'.parameters.find? p)
    (hpseudo : s.pseudo = s'.pseudo) :
    Scope.Alike ⟨t, s⟩ ⟨t.exclude resources outputs, s'⟩ o := by
  refine (Scope.alike_importing himports s'.imports).trans (Scope.alike_of_lookups ?_ ?_ rfl rfl ?_)
  · intro name' hname
    obtain ⟨w, detail, hresolve, -⟩ := points_of_mention hgraph ho hname
    have hkind := kind_ne_resource_of_mention hgraph ho hname hresolve
    -- What the mention resolves to says that the name is no resource, or that a parameter comes
    -- first.
    have hmeans : name' ∈ t.parameters.keys ∨ name' ∉ t.resources.keys := by
      obtain ⟨hin, -⟩ | ⟨-, -, rfl, -⟩ | ⟨-, hfree, -⟩ := resolve_ref_eq_some_iff.1 hresolve
      · exact .inl hin
      · exact absurd rfl hkind
      · exact .inr hfree
    refine Scope.ref_congr (resolveName_exclude resources outputs hmeans) hpseudo fun _ => ?_
    exact Scope.parameter_congr rfl (hparameters name')
  · -- An attribute would be one of a resource.
    intro resource label _ hname
    obtain ⟨w, detail, hresolve, -⟩ := points_of_mention hgraph ho hname
    have hkind := kind_ne_resource_of_mention hgraph ho hname hresolve
    obtain ⟨-, rfl, -⟩ := resolve_getAtt_eq_some_iff.1 hresolve
    exact absurd rfl hkind
  · exact Scope.availabilityZones_congr hpseudo

/-- Conditions of a template that was read are decided alike without some resources and outputs,
with other attributes and with other imports. -/
theorem decideAfresh_exclude (hparse : parseDocument document = .ok t)
    (hgraph : t.dependencyGraph = .ok g) (resources outputs : List String)
    (hparameters : ∀ p, s.parameters.find? p = s'.parameters.find? p)
    (hpseudo : s.pseudo = s'.pseudo) (name : String) :
    Scope.decideAfresh ⟨t, s⟩ [] name =
      Scope.decideAfresh ⟨t.exclude resources outputs, s'⟩ [] name := by
  refine @Scope.decideAfresh_congr ⟨t, s⟩ ⟨t.exclude resources outputs, s'⟩ (fun _ => True) rfl
    (fun c o _ hfind => ?_) (fun _ _ _ _ _ _ => trivial) [] name trivial
  have ho : o ∈ t.operandsAt ⟨.condition, c⟩ := mem_operandsAt_condition.2 hfind
  exact alike_excluded hgraph resources outputs ho (not_calls_importValue hparse hfind)
    hparameters hpseudo

/-- In a template that was read from a document and has a graph, every condition is decided alike
without some of the resources and outputs, with other attributes and with other imports, whatever
the evaluators have been asked before. -/
theorem conditions_precede_resources (hparse : parseDocument document = .ok t)
    (hgraph : t.dependencyGraph = .ok g) (resources outputs : List String) {s s' : Settings}
    (hparameters : ∀ p, s.parameters.find? p = s'.parameters.find? p)
    (hpseudo : s.pseudo = s'.pseudo) (history history' : List Query) (name : String) :
    ((Evaluator.after ⟨t, s⟩ history).ask ⟨t, s⟩ (.condition name)).1 =
      ((Evaluator.after ⟨t.exclude resources outputs, s'⟩ history').ask
        ⟨t.exclude resources outputs, s'⟩ (.condition name)).1 := by
  have hsame := decideAfresh_exclude hparse hgraph resources outputs hparameters hpseudo name
  refine Evaluator.ask_congr ?_ history history'
  simp only [Evaluator.answerAfresh, Scope.freshDecision, hsame]

/-- A document with conditions that read a parameter inside a substitution and each other, and with
resources and an output. -/
def conditionalDocument : Node :=
  .map
    [(.string "Parameters", .map [(.string "Stage", .map [(.string "Type", .string "String")])]),
      (.string "Conditions", .map
        [(.string "Live", .map [(.string "Fn::Equals", .seq
            [.map [(.string "Fn::Sub", .seq
              [.string "${Stage}-${Size}", .map [(.string "Size", .string "2")]])],
              .string "live-2"])]),
          (.string "Idle", .map [(.string "Fn::Not", .seq
            [.map [(.string "Condition", .string "Live")]])])]),
      (.string "Resources", .map
        [(.string "Queue", .map
            [(.string "Type", .string "Service::Queue"),
              (.string "Condition", .string "Live")]),
          (.string "Topic", .map [(.string "Type", .string "Service::Topic")])]),
      (.string "Outputs", .map
        [(.string "Address", .map
          [(.string "Value", .map [(.string "Fn::GetAtt", .string "Queue.Arn")])])])]

/-- The condition that refers to the other one is decided alike, with the other one remembered and
without. -/
theorem conditionalDocument_precede : ∃ t g, parseDocument conditionalDocument = .ok t ∧
    t.dependencyGraph = .ok g ∧ t.conditions.contains "Idle" = true ∧
    ∃ s s' : Settings, s.attributes ≠ s'.attributes ∧
      ((Evaluator.after ⟨t, s⟩ []).ask ⟨t, s⟩ (.condition "Idle")).1 =
        ((Evaluator.after ⟨t.exclude ["Queue"] ["Address"], s'⟩ [.condition "Live"]).ask
          ⟨t.exclude ["Queue"] ["Address"], s'⟩ (.condition "Idle")).1 := by
  have htexts : conditionalDocument.textsDiffer = true := by decide +kernel
  have hnames : conditionalDocument.NamesDiffer := fun area => by cases area <;> decide +kernel
  have hdirect : (ofDocumentDirectly conditionalDocument).toOption.any (fun t =>
      t.dependencyGraph.toOption.any fun _ => t.conditions.contains "Idle") = true := by
    decide +kernel
  obtain ⟨t, ht, hdirect⟩ := exists_ok_of_any hdirect
  obtain ⟨g, hgraph, hidle⟩ := exists_ok_of_any hdirect
  have hparse := parseDocument_of_ofDocumentDirectly htexts hnames ht
  let s := Settings.ofParameters ⟨[("Stage", .string "live")], by decide⟩
  let s' : Settings := { s with attributes := [(("Queue", "Arn"), .string "arn")] }
  refine ⟨t, g, hparse, hgraph, hidle, s, s', nofun, ?_⟩
  have hparameters : ∀ p, s.parameters.find? p = s'.parameters.find? p := fun _ => rfl
  have hpseudo : s.pseudo = s'.pseudo := rfl
  exact conditions_precede_resources hparse hgraph ["Queue"] ["Address"] hparameters hpseudo []
    [.condition "Live"] "Idle"

end Template

end StackTemplate
