import StackTemplate.Proofs.Elaboration.LiteralSections
import StackTemplate.Proofs.Elaboration.OperandSections
import StackTemplate.Proofs.Elaboration.Transparency
import StackTemplate.Proofs.Elaboration.WrittenSections

/-!
# Writing templates back

A template that was read from a document is read again from what it is written as. What is written
is first read in one pass; neither the keys of its mappings nor the names of its entities repeat, so
two passes read the same.

* `Template.Writable` : every entity has a logical name and can be written.
* `Template.writable_of_ofDocumentDirectly` : a template that was read is writable.
* `Template.ofDocumentDirectly_toNode` : one pass reads what is written.
* `Template.parseDocument_toNode` : reading, writing and reading again gives the same template.
-/

namespace StackTemplate

open Document

namespace Template

/-- Every entity of a template has a logical name and can be written. -/
structure Writable (t : Template) : Prop where
  parameters : SectionWritable .parameters Parameter.Writable t.parameters
  mappings : SectionWritable .mappings Mapping.Writable t.mappings
  conditions : SectionWritable .conditions (Operand.Writable .conditions none) t.conditions
  resources : SectionWritable .resources Resource.Writable t.resources
  outputs : SectionWritable .outputs Output.Writable t.outputs

/-- No mapping of a template has the key of a function as its only top-level key. -/
def MappingsNameNoCall (t : Template) : Prop :=
  ∀ m ∈ t.mappings.values, ∀ key, Dict.keys m = [key] →
    key ≠ "Ref" ∧ Text.beginsWith "Fn::" key = false

instance (t : Template) : Decidable t.MappingsNameNoCall :=
  decidable_of_iff (∀ m ∈ t.mappings.values, ∀ key ∈ Dict.keys m, Dict.keys m = [key] →
      key ≠ "Ref" ∧ Text.beginsWith "Fn::" key = false)
    ⟨fun h m hm key hkey => h m hm key (hkey ▸ List.mem_singleton_self key) hkey,
      fun h m hm key _ => h m hm key⟩

variable {document : Node} {t : Template}

/-- A template that was read in one pass is writable, where no mapping in its document has the same
key twice. -/
theorem writable_of_ofDocumentDirectly (hkeys : document.keysDiffer = true)
    (h : ofDocumentDirectly document = .ok t) : t.Writable := by
  obtain ⟨root, rfl, hread⟩ := exists_readDirectly h
  -- One section after the other; each body keeps its keys apart, as the document does.
  constructor
  · refine sectionWritable_of_attemptSection hread.parameters fun e he x hx => ?_
    exact Parameter.writable_of_ofNode (Resolution.attempt_ofExcept_eq_some.1 hx).1
  · refine sectionWritable_of_attemptSection hread.mappings fun e he x hx => ?_
    exact Mapping.writable_of_ofNode (everyMapping_of_mem_entities hkeys he)
      (Resolution.attempt_ofExcept_eq_some.1 hx).1
  · refine sectionWritable_of_attemptSection hread.conditions fun e he x hx => ?_
    exact Node.writable_of_denotes (everyMapping_of_mem_entities hkeys he) hx
  · refine sectionWritable_of_attemptSection hread.resources fun e he x hx => ?_
    exact Resource.writable_of_ofNode (everyMapping_of_mem_entities hkeys he) hx
  · refine sectionWritable_of_attemptSection hread.outputs fun e he x hx => ?_
    exact Output.writable_of_ofNode (everyMapping_of_mem_entities hkeys he) hx

/-! ## What a template is written as -/

/-- The sections that a template is written with, in this order. -/
def writtenSections : List Section :=
  [.formatVersion, .description, .parameters, .mappings, .conditions, .resources, .outputs]

/-- What a section of a template is written as, absent where there is nothing in it. -/
def content? (t : Template) : Section → Option Node
  | .formatVersion => t.formatVersion.map .string
  | .description => t.description.map .string
  | .parameters => namedNode? Parameter.toNode t.parameters
  | .mappings => namedNode? Mapping.toNode t.mappings
  | .conditions => namedNode? Operand.toNode t.conditions
  | .resources => namedNode? Resource.toNode t.resources
  | .outputs => namedNode? Output.toNode t.outputs
  | .metadata | .rules | .transform => none

/-- The attributes that a template is written with. -/
def attributes (t : Template) : List (String × Option Node) :=
  writtenSections.map fun area => (area.key, t.content? area)

/-- The entries that a template is written with. -/
def written (t : Template) : List (Node × Node) :=
  (present t.attributes).map fun e => (.string e.1, e.2)

theorem toNode_eq (t : Template) : t.toNode = .map t.written := attributesNode_eq t.attributes

theorem keys_attributes (t : Template) :
    Entries.keys t.attributes = writtenSections.map Section.key := List.map_map

theorem nodup_keys_attributes (t : Template) : (Entries.keys t.attributes).Nodup := by
  rw [keys_attributes]
  decide

/-- The sections of what a template is written as. -/
theorem section?_written (t : Template) (area : Section) : section? t.written area =
    t.content? area := by
  by_cases hwritten : area ∈ writtenSections
  · exact section?_present t.nodup_keys_attributes (List.mem_map.2 ⟨area, hwritten, rfl⟩)
  · -- Metadata, rules and transforms are never written.
    have habsent : area.key ∉ writtenSections.map Section.key := by
      cases area <;> first | decide | exact absurd (by decide) hwritten
    have hcontent : t.content? area = none := by
      cases area <;> first | rfl | exact absurd (by decide) hwritten
    rw [hcontent]
    exact section?_present_of_not_mem t.nodup_keys_attributes (by rwa [keys_attributes])

/-- A template is written without repeated keys. -/
theorem textsDiffer_toNode (h : t.Writable) : t.toNode.textsDiffer = true := by
  refine Node.textsDiffer_attributesNode t.nodup_keys_attributes ?_
  change ∀ e ∈ writtenSections.map fun area => (area.key, t.content? area), _
  rw [List.forall_mem_map]
  intro area _ node hnode
  cases area with
  | formatVersion | description => exact Node.textsDiffer_of_text hnode
  | parameters => exact Node.textsDiffer_of_namedNode? (fun p _ => p.textsDiffer_toNode) hnode
  | mappings =>
    refine Node.textsDiffer_of_namedNode? (fun m hm => ?_) hnode
    exact Mapping.textsDiffer_toNode (h.mappings.values m hm)
  | conditions =>
    exact Node.textsDiffer_of_namedNode? (fun o ho => (h.conditions.values o ho).texts) hnode
  | resources =>
    refine Node.textsDiffer_of_namedNode? (fun r hr => ?_) hnode
    exact Resource.textsDiffer_toNode (h.resources.values r hr)
  | outputs =>
    refine Node.textsDiffer_of_namedNode? (fun out hout => ?_) hnode
    exact Output.textsDiffer_toNode (h.outputs.values out hout)
  | metadata | rules | transform => cases hnode

/-- A template is written without repeated names. -/
theorem namesDiffer_toNode (h : t.Writable) : t.toNode.NamesDiffer := by
  rw [toNode_eq]
  intro area harea
  rw [section?_written]
  rcases harea with rfl | rfl | rfl
  · exact nodup_keys_entities_namedNode? h.conditions
  · exact nodup_keys_entities_namedNode? h.resources
  · exact nodup_keys_entities_namedNode? h.outputs

/-! ## Reading what is written -/

/-- A section with a text is read from what it is written as. -/
theorem readText_written (area : Section) {text? : Option String}
    (h : t.content? area = text?.map .string) : readText t.written area = ([], text?) := by
  unfold readText
  rw [section?_written, h]
  cases text? <;> rfl

/-- A written template has no fault outside of its entities, if it has a resource. -/
theorem plainFaults_written (hresources : t.resources.isEmpty = false) :
    plainFaults t.written = [] := by
  have hkeys : (t.written.filterMap fun e => keyFault? e.1) = [] := by
    refine List.filterMap_eq_nil_iff.2 fun e he => ?_
    -- Each key is the one of a section that is written.
    rcases List.mem_map.1 he with ⟨⟨key, node⟩, hpresent, rfl⟩
    rcases List.mem_map.1 (mem_present.1 hpresent) with ⟨area, harea, heq⟩
    obtain rfl : area.key = key := congrArg Prod.fst heq
    exact (by decide : ∀ area ∈ writtenSections, keyFault? (.string area.key) = none) area harea
  have hpresent : (section? t.written .resources).isNone = false := by
    rw [section?_written, content?, namedNode?, hresources]
    rfl
  have hmetadata : metadataFaults t.written = [] := by
    rw [metadataFaults, section?_written, content?]
  rw [plainFaults, hkeys, readText_written .formatVersion rfl,
    readText_written .description rfl, hmetadata, hpresent]
  rfl

/-- One pass reads a template from what it is written as. -/
theorem ofDocumentDirectly_toNode (h : t.Writable) (hresources : t.resources.isEmpty = false)
    (hmappings : t.MappingsNameNoCall) : ofDocumentDirectly t.toNode = .ok t := by
  have hliteral {α : Type} {area : Section} {P : α → Prop} {write : α → Node} {d : Dict α}
      {read : String → Node → Except Fault α} (hcontent : t.content? area = namedNode? write d)
      (hd : SectionWritable area P d) (hread : ∀ x ∈ d.values, ∀ name, read name (write x) = .ok x) :
      attemptSection t.written area (fun name body => Resolution.ofExcept (read name body)) () =
        some (d, ()) := by
    refine attemptSection_namedNode? ((t.section?_written area).trans hcontent) hd ?_
    exact fun x hx name => Resolution.attempt_ofExcept_eq_some.2 ⟨hread x hx name, rfl⟩
  rw [toNode_eq, ofDocumentDirectly_eq_ok]
  refine ⟨plainFaults_written hresources, ?_⟩
  -- The sections are read one after the other.
  unfold attemptSections
  refine Attempt.bind_eq_some.2 ⟨t.parameters, (), hliteral rfl h.parameters fun p hp name => ?_, ?_⟩
  · exact Parameter.ofNode_toNode (h.parameters.values p hp)
  refine Attempt.bind_eq_some.2 ⟨t.mappings, (), hliteral rfl h.mappings fun m hm name => ?_, ?_⟩
  · -- The only place where a written template could be read as a call.
    refine Mapping.ofNode_toNode (h.mappings.values m hm) fun key hkey => ?_
    have harea : Section.mappings.HoldsData := .inr (.inl rfl)
    exact (harea.readsCall_eq_false_iff none key).2 (hmappings m hm key hkey)
  refine Attempt.bind_eq_some.2 ⟨t.conditions, (), attemptSection_namedNode?
    (t.section?_written .conditions) h.conditions fun o ho name => ?_, ?_⟩
  · exact (h.conditions.values o ho).denotes _
  refine Attempt.bind_eq_some.2 ⟨t.resources, (), attemptSection_namedNode?
    (t.section?_written .resources) h.resources fun r hr name => ?_, ?_⟩
  · exact Resource.ofNode_toNode (h.resources.values r hr)
  refine Attempt.bind_eq_some.2 ⟨t.outputs, (), attemptSection_namedNode?
    (t.section?_written .outputs) h.outputs fun out hout name => ?_, ?_⟩
  · exact Output.ofNode_toNode (h.outputs.values out hout)
  rw [readText_written .formatVersion rfl, readText_written .description rfl]
  rfl

/-- A template that was read from a document is read again, everything in its place, from what it is
written as. Documents have no mapping with the same key twice. A template without resources is
written without the section that a document needs, and a mapping whose only top-level key is one of
a function is written as a call. -/
theorem parseDocument_toNode (hkeys : document.keysDiffer = true)
    (h : parseDocument document = .ok t) (hresources : t.resources.isEmpty = false)
    (hmappings : t.MappingsNameNoCall) : parseDocument t.toNode = .ok t := by
  have hwritable := writable_of_ofDocumentDirectly hkeys
    (ofDocumentDirectly_of_ofDocument (parseDocument_eq_ok.1 h))
  have hdirect := ofDocumentDirectly_toNode hwritable hresources hmappings
  -- Two passes read something, which is then what one pass reads.
  rcases exists_ofDocument (textsDiffer_toNode hwritable) (namesDiffer_toNode hwritable) hdirect with
    ⟨t', ht'⟩
  have hsame := ofDocumentDirectly_of_ofDocument ht'
  rw [hdirect] at hsame
  cases hsame
  exact parseDocument_eq_ok.2 ht'

/-- A document with a key that is no string, a literal mapping with the key of a call, short forms
of calls and the operand of a call that is staged. -/
def normalized : Node :=
  .map
    [(.string "Mappings", .map
        [(.string "M", .map [(.string "top", .map [(.int 1, .string "one")])])]),
      (.string "Conditions", .map
        [(.string "A", .map [(.string "Fn::Not", .seq [.map [(.string "Condition", .string "B")]])]),
          (.string "B", .map [(.string "Fn::Equals", .seq [.string "x", .bool true])])]),
      (.string "Resources", .map
        [(.string "R", .map
          [(.string "Type", .string "T"),
            (.string "DependsOn", .string "S"),
            (.string "Properties", .map
              [(.string "Literal", .map [(.string "Condition", .string "A")]),
                (.string "Short", .map [(.string "Fn::GetAtt", .string "S.Arn")]),
                (.string "Zones", .map [(.string "Fn::GetAZs", .null)]),
                (.string "Text", .map [(.string "Fn::Sub", .seq [.string "${S}"])])])]),
          (.string "S", .map [(.string "Type", .string "T")])])]

/-- The document is not what its template is written as, and still both are read as one template. -/
theorem normalized_toNode : normalized.keysDiffer = true ∧ ∃ t, parseDocument normalized = .ok t ∧
    t.resources.isEmpty = false ∧ t.MappingsNameNoCall ∧ parseDocument t.toNode = .ok t := by
  have hkeys : normalized.keysDiffer = true := by decide +kernel
  have htexts : normalized.textsDiffer = true := by decide +kernel
  have hnames : normalized.NamesDiffer := fun area => by cases area <;> decide +kernel
  have hdirect : (ofDocumentDirectly normalized).toOption.any (fun t =>
      !t.resources.isEmpty && decide t.MappingsNameNoCall) = true := by decide +kernel
  cases h : ofDocumentDirectly normalized with
  | error faults =>
    rw [h] at hdirect
    cases hdirect
  | ok t =>
    rw [h] at hdirect
    simp only [Except.toOption, Option.any_some, Bool.and_eq_true, Bool.not_eq_true',
      decide_eq_true_eq] at hdirect
    rcases exists_ofDocument htexts hnames h with ⟨t', ht'⟩
    have hsame := ofDocumentDirectly_of_ofDocument ht'
    rw [h] at hsame
    cases hsame
    have hparse := parseDocument_eq_ok.2 ht'
    exact ⟨hkeys, t, hparse, hdirect.1, hdirect.2,
      parseDocument_toNode hkeys hparse hdirect.1 hdirect.2⟩

end Template

end StackTemplate
