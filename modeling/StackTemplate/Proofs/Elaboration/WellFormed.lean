import StackTemplate.Proofs.Dependency.References
import StackTemplate.Proofs.Elaboration.Origins
import StackTemplate.Proofs.Elaboration.Transparency
import StackTemplate.Proofs.Elaboration.WrittenSections
import StackTemplate.Proofs.Resolution.Admission

/-!
# Well-formed templates

The calls of a template were checked where they stand, each when its node was resolved, and the
names of its entities when the sections were divided. What these checks see to thus holds of every
template that is read.

* `Template.Admitted` : every operand of a template is admitted in its section.
* `Template.WellFormed` : what the checks see to, for a whole template.
* `Template.wellFormed_of_parseDocument` : every template that is read is well-formed.
-/

namespace StackTemplate

/-! ## Operands and names -/

/-- Every call in an operand of a section is permitted where it stands, and well-formed. -/
def Operand.Admitted (area : Section) (o : Operand) : Prop :=
  ∀ c owner, Occurs (.call c) owner none o →
    area.restriction? c.function owner = none ∧ c.WellFormed

theorem Node.yields_admitted (area : Section) :
    Yields area (fun _ => True) (Operand.Admitted area) :=
  ⟨fun _ _ => trivial, fun _ h _ _ hoccurs => admitted_of_denotes h hoccurs⟩

/-- The name of an entity of a template: ASCII letters and digits, at least one. -/
def IsEntityName (name : String) : Prop := name ≠ "" ∧ ∀ c ∈ name.toList, c.isAlphanum = true

/-- A logical name is the name of an entity. -/
theorem Document.isEntityName_of_logicalName {area : Section} {name : String}
    (h : logicalName area (.string name) = .ok name) : IsEntityName name := by
  unfold logicalName at h
  split at h
  · cases h
  · next text htext =>
    obtain rfl : name = text := Option.some.inj htext
    -- The text of the key is checked for length and characters.
    split at h
    · next hname => exact ⟨hname.1, List.all_eq_true.1 hname.2⟩
    · cases h

/-! ## Templates -/

namespace Template

open Document

variable {document : Node} {t : Template}

/-- The operands of the resources and the outputs of a template. -/
def lateOperands (t : Template) : List Operand :=
  (t.resources.values.flatMap fun r => r.operands.map Prod.snd) ++
    t.outputs.values.flatMap fun out => out.operands.map Prod.snd

/-- What the checks of reading see to, for a whole template. -/
structure WellFormed (t : Template) : Prop where
  /-- No condition calls a function that needs a resource or an export, at any depth. -/
  early : ∀ o ∈ t.conditions.values, ¬ o.Calls .getAtt ∧ ¬ o.Calls .importValue
  /-- In resources and outputs, conditions are named inside of boolean functions only. -/
  nested : ∀ o ∈ t.lateOperands, ∀ name owner, Operand.Occurs (.call (.condition name)) owner none o →
    owner = some .and ∨ owner = some .or ∨ owner = some .not
  /-- Conjunctions and disjunctions have two to ten operands. -/
  arity : ∀ e ∈ t.operands, ∀ c owner, Operand.Occurs (.call c) owner none e.2 →
    c.function = .and ∨ c.function = .or → 2 ≤ c.operands.length ∧ c.operands.length ≤ 10
  /-- The logical names in calls are not empty. -/
  called : ∀ e ∈ t.operands, ∀ c owner, Operand.Occurs (.call c) owner none e.2 →
    ∀ name, c.name? = some name → name ≠ ""
  /-- The names of all entities are made of letters and digits. -/
  declared : ∀ name, name ∈ t.parameters.keys ∨ name ∈ t.mappings.keys ∨ name ∈ t.conditions.keys ∨
    name ∈ t.resources.keys ∨ name ∈ t.outputs.keys → IsEntityName name

/-- The entities of a template have logical names and operands that are admitted. -/
structure Admitted (t : Template) : Prop where
  parameters : SectionWritable .parameters (fun _ => True) t.parameters
  mappings : SectionWritable .mappings (fun _ => True) t.mappings
  conditions : SectionWritable .conditions (Operand.Admitted .conditions) t.conditions
  resources : SectionWritable .resources (Resource.Every (Operand.Admitted .resources)) t.resources
  outputs : SectionWritable .outputs (Output.Every (Operand.Admitted .outputs)) t.outputs

/-- What is read in one pass is admitted. -/
theorem admitted_of_ofDocumentDirectly (h : ofDocumentDirectly document = .ok t) : t.Admitted := by
  rcases exists_readDirectly h with ⟨root, -, hread⟩
  constructor
  · exact sectionWritable_of_attemptSection hread.parameters fun _ _ _ _ => trivial
  · exact sectionWritable_of_attemptSection hread.mappings fun _ _ _ _ => trivial
  · apply sectionWritable_of_attemptSection hread.conditions
    intro e _ o ho
    exact (Node.yields_admitted .conditions).operands trivial ho
  · apply sectionWritable_of_attemptSection hread.resources
    intro e _ r hr
    exact Resource.every_of_ofNode (Node.yields_admitted .resources) trivial hr
  · apply sectionWritable_of_attemptSection hread.outputs
    intro e _ out hout
    exact Output.every_of_ofNode (Node.yields_admitted .outputs) trivial hout

namespace Admitted

variable {o : Operand}

/-- The operands of resources and outputs are admitted in one of their sections. -/
theorem lateOperands (h : t.Admitted) (ho : o ∈ t.lateOperands) :
    ∃ area, (area = .resources ∨ area = .outputs) ∧ o.Admitted area := by
  rcases List.mem_append.1 ho with ho | ho
  · rcases List.mem_flatMap.1 ho with ⟨r, hr, ho⟩
    rcases List.mem_map.1 ho with ⟨e, he, rfl⟩
    exact ⟨.resources, .inl rfl, Resource.every_iff.1 (h.resources.values r hr) e he⟩
  · rcases List.mem_flatMap.1 ho with ⟨out, hout, ho⟩
    rcases List.mem_map.1 ho with ⟨e, he, rfl⟩
    exact ⟨.outputs, .inr rfl, Output.every_iff.1 (h.outputs.values out hout) e he⟩

/-- Every call in a template is well-formed. -/
theorem wellFormed_call (h : t.Admitted) {e : String × Operand} (he : e ∈ t.operands)
    {c : Call Operand} {owner : Option Intrinsic}
    (hoccurs : Operand.Occurs (.call c) owner none e.2) : c.WellFormed := by
  have hmem : e.2 ∈ t.operands.map Prod.snd := List.mem_map_of_mem he
  rw [map_snd_operands, List.append_assoc] at hmem
  rcases List.mem_append.1 hmem with hcondition | hlate
  · -- The expression of a condition is its only operand.
    rw [List.flatMap_singleton'] at hcondition
    exact (h.conditions.values _ hcondition c owner hoccurs).2
  · rcases h.lateOperands hlate with ⟨area, -, hadmitted⟩
    exact (hadmitted c owner hoccurs).2

end Admitted

/-- Every template that is read from a document is well-formed. -/
theorem wellFormed_of_parseDocument (hparse : parseDocument document = .ok t) : t.WellFormed := by
  have h := admitted_of_ofDocumentDirectly
    (ofDocumentDirectly_of_ofDocument (parseDocument_eq_ok.1 hparse))
  constructor
  case early =>
    intro o ho
    -- What conditions may not call at all they do not call at any depth, whatever the owner.
    have hforbidden {f : Intrinsic}
        (hf : ∀ owner, Section.conditions.restriction? f owner ≠ none) : ¬ o.Calls f := by
      intro hcalls
      rcases hcalls.exists_occurs none with ⟨c, owner, hoccurs, rfl⟩
      exact hf owner (h.conditions.values o ho c owner hoccurs).1
    constructor
    · apply hforbidden
      rintro _ ⟨⟩
    · apply hforbidden
      rintro _ ⟨⟩
  case nested =>
    intro o ho name owner hoccurs
    rcases h.lateOperands ho with ⟨area, harea, hadmitted⟩
    have hpermitted := (hadmitted _ owner hoccurs).1
    -- Both sections forbid the call unless the owner is a boolean function.
    have howns : Section.ownsConditions owner = true := by
      rcases harea with rfl | rfl <;> simpa [Section.restriction?, Call.function] using hpermitted
    simpa [Section.ownsConditions, or_assoc] using howns
  case arity =>
    intro e he c owner hoccurs hfunction
    have hwellFormed := h.wellFormed_call he hoccurs
    cases c with
    | and xs => exact hwellFormed
    | or xs => exact hwellFormed
    | _ => simp [Call.function] at hfunction
  case called =>
    intro e he c owner hoccurs name hname
    have hwellFormed := h.wellFormed_call he hoccurs
    cases c with
    | ref n | condition n | getAtt n x | ifElse n x y =>
      obtain rfl : n = name := Option.some.inj hname
      exact hwellFormed
    | _ => cases hname
  case declared =>
    rintro name (hname | hname | hname | hname | hname)
    · exact isEntityName_of_logicalName (h.parameters.names name hname)
    · exact isEntityName_of_logicalName (h.mappings.names name hname)
    · exact isEntityName_of_logicalName (h.conditions.names name hname)
    · exact isEntityName_of_logicalName (h.resources.names name hname)
    · exact isEntityName_of_logicalName (h.outputs.names name hname)

/-- A document with calls in short and in long forms, in lists, mappings and variables of a text;
several of them are operands whose meaning depends on the call around them. -/
def nestedCalls : Node :=
  .map
    [(.string "Conditions", .map
        [(.string "Both", .map [(.string "Fn::And", .seq
            [.map [(.string "Condition", .string "Live")],
              .tagged "Not" (.seq [.map [(.string "Condition", .string "Idle")]])])]),
          (.string "Live", .tagged "Equals" (.seq [.string "x", .seq [.string "x"]])),
          (.string "Idle", .map [(.string "Fn::Not", .seq [.tagged "Condition" (.string "Live")])])]),
      (.string "Resources", .map
        [(.string "Queue", .map
          [(.string "Type", .string "Service::Queue"),
            (.string "Properties", .map
              [(.string "Guard", .tagged "Or" (.seq
                  [.map [(.string "Condition", .string "Live")],
                    .tagged "Condition" (.string "Idle")])),
                (.string "Tags", .seq [.map [(.string "Fn::Sub", .seq
                  [.string "${Zone}", .map [(.string "Zone", .tagged "If" (.seq
                    [.string "Both", .tagged "GetAtt" (.string "Queue.Arn"), .null]))]])]])])])])]

/-- The document with nested calls is read as a well-formed template. -/
theorem nestedCalls_wellFormed : ∃ t, parseDocument nestedCalls = .ok t ∧
    t.lateOperands.length = 2 ∧ t.WellFormed := by
  have htexts : nestedCalls.textsDiffer = true := by decide +kernel
  have hnames : nestedCalls.NamesDiffer := fun area => by cases area <;> decide +kernel
  have hdirect : (ofDocumentDirectly nestedCalls).toOption.any (fun t =>
      t.lateOperands.length = 2) = true := by decide +kernel
  rcases exists_ok_of_any hdirect with ⟨t, ht, hlength⟩
  have hparse := parseDocument_of_ofDocumentDirectly htexts hnames ht
  exact ⟨t, hparse, of_decide_eq_true hlength, wellFormed_of_parseDocument hparse⟩

end Template

end StackTemplate
