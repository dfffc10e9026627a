import StackTemplate.Elaboration.Document
import StackTemplate.Proofs.Elaboration.Settling

/-!
# Two passes and one

Reading a document in two passes, operands staged and settled, gives what reading it in one pass
gives. What two passes accept, one pass accepts as the same template, whatever the document. The
converse needs that nothing in the document replaces an operand: a placeholder that was recorded
for an operand that is replaced later is never resolved.

* `Template.ofDocumentDirectly_of_ofDocument` : one pass accepts what two passes accept.
* `Template.parseDocument_eq_ok_iff` : both accept the same documents as the same templates.
-/

namespace StackTemplate

/-- No section of a document whose entities hold operands declares two entities under one name;
names are read through tags. -/
def Node.NamesDiffer : Node → Prop
  | .map root => Document.NamesDiffer root
  | _ => True

namespace Template

open Document

variable {document : Node} {t : Template}

/-! ## What two passes accept -/

/-- A document read in two passes was elaborated and settled. -/
theorem exists_of_ofDocument (h : ofDocument document = .ok t) :
    ∃ root staged table, document = .map root ∧ plainFaults root = [] ∧
      attemptSections Placeholder.staging root [] = some (staged, table) ∧
      staged.settle table = .ok t := by
  unfold ofDocument at h
  split at h
  · next staged table hstaged =>
    cases document with
    | map root =>
      obtain ⟨hplain, hsections⟩ := elaborate_eq_ok.1 hstaged
      exact ⟨root, staged, table, rfl, hplain, hsections, h⟩
    | _ => cases (Prod.mk.inj hstaged).1
  · cases h

/-- One pass accepts a document without faults, with what its sections hold. -/
theorem ofDocumentDirectly_eq_ok {root : List (Node × Node)} :
    ofDocumentDirectly (.map root) = .ok t ↔
      plainFaults root = [] ∧ attemptSections Staging.none root () = some (t, ()) := by
  rw [← elaborate_eq_ok]
  constructor
  · intro h
    exact Prod.ext h rfl
  · intro h
    exact (Prod.mk.inj h).1

/-- The sections of a template that was read in one pass. -/
structure ReadDirectly (root : List (Node × Node)) (t : Template) : Prop where
  parameters : attemptSection root .parameters
    (fun name body => Resolution.ofExcept (Parameter.ofNode name body)) () = some (t.parameters, ())
  mappings : attemptSection root .mappings
    (fun name body => Resolution.ofExcept (Mapping.ofNode name body)) () = some (t.mappings, ())
  conditions : attemptSection root .conditions (conditionOfNode Staging.none) () =
    some (t.conditions, ())
  resources : attemptSection root .resources (Resource.ofNode Staging.none) () =
    some (t.resources, ())
  outputs : attemptSection root .outputs (Output.ofNode Staging.none) () = some (t.outputs, ())

/-- What one pass accepts has sections that were read one by one. -/
theorem exists_readDirectly (h : ofDocumentDirectly document = .ok t) :
    ∃ root, document = .map root ∧ ReadDirectly root t := by
  cases document with
  | map root =>
    obtain ⟨-, hsections⟩ := ofDocumentDirectly_eq_ok.1 h
    -- Reading directly has no state, so the sections do not depend on each other.
    unfold attemptSections at hsections
    obtain ⟨parameters, ⟨⟩, hparameters, hsections⟩ := Attempt.bind_eq_some.1 hsections
    obtain ⟨mappings, ⟨⟩, hmappings, hsections⟩ := Attempt.bind_eq_some.1 hsections
    obtain ⟨conditions, ⟨⟩, hconditions, hsections⟩ := Attempt.bind_eq_some.1 hsections
    obtain ⟨resources, ⟨⟩, hresources, hsections⟩ := Attempt.bind_eq_some.1 hsections
    obtain ⟨outputs, ⟨⟩, houtputs, hsections⟩ := Attempt.bind_eq_some.1 hsections
    cases hsections
    exact ⟨root, rfl, hparameters, hmappings, hconditions, hresources, houtputs⟩
  | _ => cases h

/-- The table after elaboration: every placeholder waits and stands for a collection. -/
theorem accounted_of_recorded {kept : Prop} {table : Placeholders}
    (h : ∀ p ∈ table, p.Recorded kept) : table.Accounted := by
  refine ⟨fun p hp => (h p hp).collection, fun p hp hresolved => ?_⟩
  rw [(h p hp).waiting] at hresolved
  cases hresolved

/-- What two passes accept was elaborated, and the operands are what the staged ones stand for. -/
theorem exists_settled_of_ofDocument (h : ofDocument document = .ok t) :
    ∃ root staged table, ∃ later : Placeholders, document = .map root ∧ plainFaults root = [] ∧
      attemptSections Placeholder.staging root [] = some (staged, table) ∧ later.Extends table ∧
      later.Meaningful ∧ Related (Operand.SettledAs later) staged t := by
  obtain ⟨root, staged, table, rfl, hplain, hsections, hsettle⟩ := exists_of_ofDocument h
  obtain ⟨new, rfl, hnew, hgathered⟩ := leaves_attemptSections False nofun [] staged table hsections
  obtain ⟨later, hlater, hmeaningful, hsettled⟩ :=
    related_of_settle (accounted_of_recorded hnew) (hgathered _ (.refl table)) hsettle
  exact ⟨root, staged, table, later, rfl, hplain, hsections, hlater, hmeaningful, hsettled⟩

/-- What two passes accept holds no placeholder. -/
theorem hasPending_of_ofDocument (h : ofDocument document = .ok t) {e : String × Operand}
    (he : e ∈ t.operands) : e.2.hasPending = false := by
  obtain ⟨_, _, _, _, -, -, -, -, -, hsettled⟩ := exists_settled_of_ofDocument h
  -- Each operand of the template is a settled one.
  obtain ⟨o, ho⟩ := hsettled.exists_of_mem he
  exact ho.finished

/-- One pass accepts what two passes accept, as the same template. -/
theorem ofDocumentDirectly_of_ofDocument (h : ofDocument document = .ok t) :
    ofDocumentDirectly document = .ok t := by
  obtain ⟨root, staged, table, later, rfl, hplain, hsections, hlater, hmeaningful, hsettled⟩ :=
    exists_settled_of_ofDocument h
  rw [ofDocumentDirectly_eq_ok]
  refine ⟨hplain, ?_⟩
  cases mirrors_attemptSections root [] with
  | fails hstaged _ =>
    rw [hstaged] at hsections
    cases hsections
  | @flawed _ new p hstaged _ hp hnone =>
    rw [hstaged] at hsections
    simp only [List.nil_append, Option.some.injEq, Prod.mk.injEq] at hsections
    obtain ⟨-, rfl⟩ := hsections
    -- A placeholder without a meaning would be left, but settling found a meaning for each.
    have hsome := ((hmeaningful.of_extends hlater) p hp).1
    rw [hnone] at hsome
    cases hsome
  | @agrees _ direct new hstaged hdirect _ hmirrored =>
    rw [hstaged] at hsections
    simp only [List.nil_append, Option.some.injEq, Prod.mk.injEq] at hsections
    obtain ⟨rfl, rfl⟩ := hsections
    -- The direct template and the settled one are what the staged template stands for.
    have hdetermined : Determined (Operand.Expands later) (Operand.SettledAs later) :=
      fun o b settled hb hsettled => hsettled.eq_of_expands b hb
    rw [hdirect, hdetermined.template _ _ _ (hmirrored later hlater) hsettled]

/-! ## What one pass accepts -/

/-- The template that elaboration leaves to be settled is ready. -/
theorem ready_of_attemptSections {kept : Prop} {root : List (Node × Node)} {staged : Template}
    {table : Placeholders}
    (hkept : kept → (Node.map root).textsDiffer = true ∧ Document.NamesDiffer root)
    (h : attemptSections Placeholder.staging root [] = some (staged, table)) :
    staged.Ready kept table ∧ ∀ p ∈ table, p.Recorded kept := by
  obtain ⟨new, rfl, hrecorded, hgathered⟩ := leaves_attemptSections kept hkept [] staged table h
  have hall := hgathered table (.refl table)
  rw [newIds, List.length_nil, ← List.range_eq_range'] at hall
  exact ⟨ready_of_gathered hrecorded hall, hrecorded⟩

/-- Two passes accept what one pass accepts, where nothing in the document replaces an operand. -/
theorem exists_ofDocument (htexts : document.textsDiffer = true) (hnames : document.NamesDiffer)
    (h : ofDocumentDirectly document = .ok t) : ∃ t', ofDocument document = .ok t' := by
  cases document with
  | map root =>
    obtain ⟨hplain, hsections⟩ := ofDocumentDirectly_eq_ok.1 h
    cases mirrors_attemptSections root [] with
    | fails _ hdirect =>
      rw [hdirect] at hsections
      cases hsections
    -- A placeholder without a meaning would be a fault of direct reading.
    | flawed _ hdirect _ _ =>
      rw [hdirect] at hsections
      cases hsections
    | @agrees staged direct table hstaged _ hmeanings _ =>
      rw [List.nil_append] at hstaged
      -- Direct reading succeeded, so every recorded placeholder has a meaning.
      obtain ⟨hready, hrecorded⟩ := ready_of_attemptSections (fun _ => ⟨htexts, hnames⟩) hstaged
      obtain ⟨t', ht'⟩ :=
        exists_settle hready fun p hp => ⟨hmeanings p hp, (hrecorded p hp).collection⟩
      refine ⟨t', ?_⟩
      rw [ofDocument, elaborate_eq_ok.2 ⟨hplain, hstaged⟩]
      exact ht'
  | _ => cases h

/-- Reading a document accepts what two passes accept. -/
theorem parseDocument_eq_ok : parseDocument document = .ok t ↔ ofDocument document = .ok t := by
  unfold parseDocument
  cases ofDocument document <;> simp [Except.mapError]

/-- Two passes accept what one pass accepts, as the same template. -/
theorem parseDocument_of_ofDocumentDirectly (htexts : document.textsDiffer = true)
    (hnames : document.NamesDiffer) (h : ofDocumentDirectly document = .ok t) :
    parseDocument document = .ok t := by
  obtain ⟨t', ht'⟩ := exists_ofDocument htexts hnames h
  -- The template of two passes is the one of one pass.
  rw [ofDocumentDirectly_of_ofDocument ht'] at h
  cases h
  exact parseDocument_eq_ok.2 ht'

/-- Where no mapping has two keys with the same text and no section whose entities hold operands
declares a name twice, reading a document in two passes accepts what reading it in one pass accepts,
as the same template. -/
theorem parseDocument_eq_ok_iff (htexts : document.textsDiffer = true)
    (hnames : document.NamesDiffer) (t : Template) :
    parseDocument document = .ok t ↔ ofDocumentDirectly document = .ok t := by
  constructor
  · intro h
    exact ofDocumentDirectly_of_ofDocument (parseDocument_eq_ok.1 h)
  · exact parseDocument_of_ofDocumentDirectly htexts hnames

/-- A document whose condition `A` has operands that are staged, and an operand of its own that is
staged as well. -/
def nestedConditions : Node :=
  .map
    [(.string "Conditions", .map
        [(.string "A", .map [(.string "Fn::Not", .seq
          [.map [(.string "Fn::Or", .seq
            [.map [(.string "Condition", .string "B")],
              .map [(.string "Condition", .string "C")]])]])])]),
      (.string "Resources", .map [(.string "R", .map [(.string "Type", .string "T")])])]

/-- The document with staged operands inside of each other is read alike. -/
theorem nestedConditions_eq_ok_iff : nestedConditions.textsDiffer = true ∧
    nestedConditions.NamesDiffer ∧ ∃ t, ofDocumentDirectly nestedConditions = .ok t ∧
      parseDocument nestedConditions = .ok t := by
  have htexts : nestedConditions.textsDiffer = true := by decide +kernel
  have hnames : nestedConditions.NamesDiffer := fun area => by cases area <;> decide +kernel
  have hdirect : (ofDocumentDirectly nestedConditions).toBool = true := by decide +kernel
  cases h : ofDocumentDirectly nestedConditions with
  | error faults =>
    rw [h] at hdirect
    cases hdirect
  | ok t => exact ⟨htexts, hnames, t, rfl, (parseDocument_eq_ok_iff htexts hnames t).2 h⟩

/-- A document that declares the condition `A` twice, once under a tagged name: the texts of the
keys differ, for a tagged key has none. -/
def conditionDeclaredTwice : Node :=
  .map
    [(.string "Conditions", .map
        [(.string "A", .map [(.string "Fn::Not", .seq [.map [(.string "Condition", .string "B")]])]),
          (.tagged "x" (.string "A"), .map [(.string "Condition", .string "B")])]),
      (.string "Resources", .map [(.string "R", .map [(.string "Type", .string "T")])])]

/-- Two passes refuse the document: the operand of the condition that was replaced is never
resolved. -/
theorem conditionDeclaredTwice_refused : conditionDeclaredTwice.textsDiffer = true ∧
    (∃ t, ofDocumentDirectly conditionDeclaredTwice = .ok t) ∧
      ∀ t, parseDocument conditionDeclaredTwice ≠ .ok t := by
  refine ⟨by decide +kernel, ?_, fun t ht => ?_⟩
  · have hdirect : (ofDocumentDirectly conditionDeclaredTwice).toBool = true := by decide +kernel
    cases h : ofDocumentDirectly conditionDeclaredTwice with
    | error faults =>
      rw [h] at hdirect
      cases hdirect
    | ok t => exact ⟨t, rfl⟩
  · -- The template has no placeholder, and the first one of the table still waits.
    obtain ⟨root, staged, table, hroot, -, hsections, hsettle⟩ :=
      exists_of_ofDocument (parseDocument_eq_ok.1 ht)
    have hleft : ∀ root, conditionDeclaredTwice = .map root →
        (attemptSections Placeholder.staging root []).all (fun r =>
          r.1.operands.all (fun e => !e.2.hasPending) && r.2[0]?.any fun p => !p.resolved) = true := by
      rintro root ⟨⟩
      decide +kernel
    have hnone := hleft root hroot
    simp only [hsections, Option.all_some, Bool.and_eq_true, List.all_eq_true, Bool.not_eq_true',
      Option.any_eq_true] at hnone
    obtain ⟨hpending, p, hp, hwaiting⟩ := hnone
    exact settle_ne_ok (fun e he => by simpa using hpending e he) ⟨p, hp, by simpa using hwaiting⟩
      hsettle

end Template

end StackTemplate
