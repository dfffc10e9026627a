import StackTemplate.Proofs.Elaboration.Outline

/-!
# Templates in short and long spellings

The expressions of a document can be respelled, local tags being written as mappings, without a
change to the template. One pass reads both documents alike, since respelled expressions are
resolved alike. Two passes do so where no section with operands declares a name twice: a mapping
with the key `Condition` is staged as an operand, a tag is not, so only the respelled document may
leave a placeholder behind when an entity replaces another.

* `Template.parseDocument_respelled` : a document and its respelling describe the same template.
-/

namespace StackTemplate

namespace Node

mutual

/-- Whether every tag in a node names a function. -/
def tagsKnown : Node → Bool
  | .seq items => tagsKnownOfItems items
  | .map entries => tagsKnownOfEntries entries
  | .tagged name content => (Intrinsic.ofName? (tagText name)).isSome && content.tagsKnown
  | _ => true

def tagsKnownOfItems : List Node → Bool
  | [] => true
  | item :: items => item.tagsKnown && tagsKnownOfItems items

def tagsKnownOfEntries : List (Node × Node) → Bool
  | [] => true
  | (key, value) :: entries => key.tagsKnown && value.tagsKnown && tagsKnownOfEntries entries

end

end Node

namespace Template

open Document

variable {document document' : Node}

/-- A document and its respelling describe the same template, or none. Conditions are named by tags
where they may be, the variables of substitutions are no tags, no mapping has two keys with the same
text, and no section whose entities hold operands declares a name twice. -/
theorem parseDocument_respelled (htexts : document.textsDiffer = true)
    (hnames : document.NamesDiffer)
    (hconforms : ∀ e ∈ Outline.template.operands document, e.2.conforms e.1 none = true)
    (h : Outline.template.Agree (fun _ => Node.Respelled) document document') (t : Template) :
    parseDocument document = .ok t ↔ parseDocument document' = .ok t := by
  have htexts' : document'.textsDiffer = true :=
    h.textsDiffer (fun _ x y hxy hx => hxy.textsDiffer hx) htexts
  have hnames' : document'.NamesDiffer := namesDiffer_of_agree h hnames
  have hresolved : Outline.template.Agree Node.ResolvedAlike document document' :=
    h.mono fun e he y hy path => Node.attempt_resolve_respelled hy (hconforms e he)
  -- Staging changes nothing in either document, so both may be read in one pass.
  constructor
  · intro ht
    have hdirect := ofDocumentDirectly_of_ofDocument (parseDocument_eq_ok.1 ht)
    exact parseDocument_of_ofDocumentDirectly htexts' hnames'
      ((ofDocumentDirectly_congr hresolved t).1 hdirect)
  · intro ht
    have hdirect := ofDocumentDirectly_of_ofDocument (parseDocument_eq_ok.1 ht)
    exact parseDocument_of_ofDocumentDirectly htexts hnames
      ((ofDocumentDirectly_congr hresolved t).2 hdirect)

/-- A document with tags in a condition, a property, metadata, the value of an output and the name
of its export. -/
def taggedCalls : Node :=
  .map
    [(.string "Conditions", .map
        [(.string "Live", .tagged "Not" (.seq [.tagged "Condition" (.string "Draft")]))]),
      (.string "Resources", .map
        [(.string "Topic", .map
          [(.string "Type", .string "Service::Topic"),
            (.string "Properties", .map
              [(.string "Name", .tagged "Fn::Join" (.seq
                [.string "-", .seq [.tagged "Ref" (.string "Stage"), .string "topic"]]))]),
            (.string "Metadata", .tagged "Sub" (.seq
              [.string "${Owner}", .map [(.string "Owner", .tagged "Ref" (.string "Team"))]]))])]),
      (.string "Outputs", .map
        [(.string "Name", .map
          [(.string "Value", .tagged "GetAtt" (.string "Topic.Name")),
            (.string "Export", .map [(.string "Name", .tagged "Ref" (.string "Stage"))])])])]

/-- The same document with some of its tags, at all depths, written as mappings. -/
def writtenCalls : Node :=
  .map
    [(.string "Conditions", .map
        [(.string "Live", .map
          [(.string "Fn::Not", .seq [.map [(.string "Condition", .string "Draft")]])])]),
      (.string "Resources", .map
        [(.string "Topic", .map
          [(.string "Type", .string "Service::Topic"),
            (.string "Properties", .map
              [(.string "Name", .map [(.string "Fn::Join", .seq
                [.string "-", .seq [.tagged "Ref" (.string "Stage"), .string "topic"]])])]),
            (.string "Metadata", .tagged "Sub" (.seq
              [.string "${Owner}", .map
                [(.string "Owner", .map [(.string "Ref", .string "Team")])]]))])]),
      (.string "Outputs", .map
        [(.string "Name", .map
          [(.string "Value", .map [(.string "Fn::GetAtt", .string "Topic.Name")]),
            (.string "Export", .map
              [(.string "Name", .map [(.string "Ref", .string "Stage")])])])])]

/-- Both documents are equal but for expressions that are respelled. -/
theorem taggedCalls_agree :
    Outline.template.Agree (fun _ => Node.Respelled) taggedCalls writtenCalls := by
  have href (name : String) :
      (Node.tagged "Ref" (.string name)).Respelled (.map [(.string "Ref", .string name)]) :=
    .of_key (f := .ref) (by decide) (by decide) (.refl _)
  have hdraft : (Node.tagged "Condition" (.string "Draft")).Respelled
      (.map [(.string "Condition", .string "Draft")]) :=
    .of_key (f := .condition) (by decide) (by decide) (.refl _)
  -- The three sections one after the other, each down to its expressions.
  refine .cons ⟨rfl, ?conditions⟩ (.cons ⟨rfl, ?resources⟩ (.cons ⟨rfl, ?outputs⟩ .nil))
  case conditions =>
    refine .cons ⟨rfl, ?_⟩ .nil
    exact .of_key (f := .not) (by decide) (by decide) (.seq (.cons hdraft .nil))
  case resources =>
    refine .cons ⟨rfl, .cons ⟨rfl, rfl⟩ (.cons ⟨rfl, .cons ⟨rfl, ?name⟩ .nil⟩
      (.cons ⟨rfl, ?metadata⟩ .nil))⟩ .nil
    case name => exact .of_key (f := .join) (by decide) (by decide) (.refl _)
    case metadata =>
      refine .tagged "Sub" (.seq (.cons (.refl _) (.cons ?_ .nil)))
      exact .map (.cons (.refl _) .nil) (.cons (href "Team") .nil)
  case outputs =>
    refine .cons ⟨rfl, .cons ⟨rfl, ?value⟩ (.cons ⟨rfl, .cons ⟨rfl, href "Stage"⟩ .nil⟩ .nil)⟩ .nil
    exact .of_key (f := .getAtt) (by decide) (by decide) (.refl _)

/-- Both documents describe one template. -/
theorem taggedCalls_respelled : taggedCalls.textsDiffer = true ∧ taggedCalls.NamesDiffer ∧
    (∀ e ∈ Outline.template.operands taggedCalls, e.2.conforms e.1 none = true) ∧
      Outline.template.Agree (fun _ => Node.Respelled) taggedCalls writtenCalls ∧
        ∃ t, parseDocument taggedCalls = .ok t ∧ parseDocument writtenCalls = .ok t := by
  have htexts : taggedCalls.textsDiffer = true := by decide +kernel
  have hnames : taggedCalls.NamesDiffer := fun area => by cases area <;> decide +kernel
  have hconforms : ∀ e ∈ Outline.template.operands taggedCalls, e.2.conforms e.1 none = true := by
    decide +kernel
  have hread : (ofDocumentDirectly taggedCalls).toBool = true := by decide +kernel
  cases hdirect : ofDocumentDirectly taggedCalls with
  | error faults =>
    rw [hdirect] at hread
    cases hread
  | ok t =>
    have ht := parseDocument_of_ofDocumentDirectly htexts hnames hdirect
    have hiff := parseDocument_respelled htexts hnames hconforms taggedCalls_agree t
    exact ⟨htexts, hnames, hconforms, taggedCalls_agree, t, ht, hiff.1 ht⟩

/-- Whether a template without placeholders leaves some that were recorded. -/
def leavesWaiting (r : Template × Placeholders) : Bool :=
  (r.1.operands.all fun e => !e.2.hasPending) && r.2.any fun p => !p.resolved

/-- A document is refused if the placeholders that were recorded for it are all lost. -/
theorem parseDocument_ne_ok_of_waiting {root : List (Node × Node)}
    (h : (attemptSections Placeholder.staging root []).all leavesWaiting = true) (t : Template) :
    parseDocument (.map root) ≠ .ok t := by
  intro ht
  obtain ⟨root', staged, table, hroot, -, hsections, hsettle⟩ :=
    exists_of_ofDocument (parseDocument_eq_ok.1 ht)
  cases hroot
  simp only [hsections, Option.all_some, leavesWaiting, Bool.and_eq_true, List.all_eq_true,
    Bool.not_eq_true', List.any_eq_true] at h
  obtain ⟨hpending, p, hp, hwaiting⟩ := h
  obtain ⟨id, hid⟩ := List.mem_iff_getElem?.1 hp
  -- Nothing in the template would resolve the placeholder that waits.
  exact settle_ne_ok hpending ⟨p, hid, hwaiting⟩ hsettle

/-- A document that declares the condition `A` twice, once under a tagged name. The condition that
is replaced names another condition by a tag. -/
def replacedTag : Node :=
  .map
    [(.string "Conditions", .map
        [(.string "A", .map [(.string "Fn::Not", .seq [.tagged "Condition" (.string "B")])]),
          (.tagged "Ref" (.string "A"), .bool true)]),
      (.string "Resources", .map [(.string "R", .map [(.string "Type", .string "T")])])]

/-- The same document with the tag in the replaced condition written as a mapping. -/
def replacedMapping : Node :=
  .map
    [(.string "Conditions", .map
        [(.string "A", .map
            [(.string "Fn::Not", .seq [.map [(.string "Condition", .string "B")]])]),
          (.tagged "Ref" (.string "A"), .bool true)]),
      (.string "Resources", .map [(.string "R", .map [(.string "Type", .string "T")])])]

/-- A document whose sections repeat a name may be accepted while its respelling is refused: the
operand of the replaced condition is staged in the one but not in the other. -/
theorem replacedMapping_refused : replacedTag.textsDiffer = true ∧ replacedTag.tagsKnown = true ∧
    (∀ e ∈ Outline.template.operands replacedTag, e.2.conforms e.1 none = true) ∧
      Outline.template.Agree (fun _ => Node.Respelled) replacedTag replacedMapping ∧
        (∃ t, parseDocument replacedTag = .ok t) ∧ ∀ t, parseDocument replacedMapping ≠ .ok t := by
  refine ⟨by decide +kernel, by decide +kernel, by decide +kernel, ?_, ?_, ?_⟩
  · have hcondition : (Node.tagged "Condition" (.string "B")).Respelled
        (.map [(.string "Condition", .string "B")]) :=
      .of_key (f := .condition) (by decide) (by decide) (.refl _)
    refine .cons ⟨rfl, .cons ⟨rfl, ?_⟩ (.cons ⟨rfl, .refl _⟩ .nil)⟩
      (.cons ⟨rfl, .cons ⟨rfl, .cons ⟨rfl, rfl⟩ .nil⟩ .nil⟩ .nil)
    exact .map (.cons (.refl _) .nil) (.cons (.seq (.cons hcondition .nil)) .nil)
  · have hread : (parseDocument replacedTag).toBool = true := by decide +kernel
    cases h : parseDocument replacedTag with
    | error diagnostics =>
      rw [h] at hread
      cases hread
    | ok t => exact ⟨t, rfl⟩
  · exact fun t => parseDocument_ne_ok_of_waiting (by decide +kernel) t

end Template

end StackTemplate
