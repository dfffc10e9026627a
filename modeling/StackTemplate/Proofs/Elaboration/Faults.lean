import StackTemplate.Elaboration.Document
import StackTemplate.Proofs.Elaboration.Genuine

/-!
# The report on a document

The entities of a document are read one after the other, and an entity that is given up midway
leaves its placeholders in the table. No entity is read differently for it: the fault of an entity
is the one that it has while nothing is recorded. So what elaboration reports on a document is a
list that can be read off its sections, each entity on its own.

* `Document.sectionReport` : the faults of a section, each entity read with an empty table.
* `Document.report` : the faults of a document whose layout is right.
* `Template.elaborate_reports` : elaboration reports these faults, and succeeds without them.
-/

namespace StackTemplate

variable {α : Type}

open Resolution (SameFault)

namespace Document

/-- The faults of a section with entities: those of the section as a whole, and then that of each
well-named entity that cannot be read while nothing is recorded. -/
def sectionReport (root : List (Node × Node)) (area : Section)
    (read : String → Node → Resolution Placeholders α) : List Fault :=
  sectionFaults area (section? root area) ++
    (entities area (section? root area)).filterMap fun e => (read e.1 e.2).fault? []

/-- The faults of a document whose layout is right, section by section and in document order. -/
def report (root : List (Node × Node)) : List Fault :=
  (readText root .formatVersion).1 ++
  (readText root .description).1 ++
  metadataFaults root ++
  sectionReport root .parameters (fun name body => .ofExcept (Parameter.ofNode name body)) ++
  sectionReport root .mappings (fun name body => .ofExcept (Mapping.ofNode name body)) ++
  sectionReport root .conditions (conditionOfNode Placeholder.staging) ++
  (if (section? root .resources).isNone then [.noResources] else []) ++
  sectionReport root .resources (Resource.ofNode Placeholder.staging) ++
  sectionReport root .outputs (Output.ofNode Placeholder.staging)

variable {read : String → Node → Resolution Placeholders α}

/-- Reading entities one after the other reports the faults that they have on their own. -/
theorem faults_readEntities (h : ∀ name body, SameFault (read name body) (read name body))
    (es : List (String × Node)) (table : Placeholders) :
    (readEntities read es table).1.1 = es.filterMap fun e => (read e.1 e.2).fault? [] := by
  induction es generalizing table with
  | nil => rfl
  | cons e es ih =>
    obtain ⟨name, body⟩ := e
    have hfault := h name body [] table
    rcases hread : (read name body).run table with ⟨e | x, after⟩
    · -- The entity is left out, and the table that it leaves is not looked at.
      rw [readEntities_cons_error hread, ih after, List.filterMap_cons_some]
      rw [hfault, Resolution.fault?, hread]
    · rw [readEntities_cons_ok hread, ih after, List.filterMap_cons_none]
      rw [hfault, Resolution.fault?, hread]

/-- A section reports its own faults first, and then those of its entities. -/
theorem faults_readSection (h : ∀ name body, SameFault (read name body) (read name body))
    (root : List (Node × Node)) (area : Section) (table : Placeholders) :
    (readSection root area read table).1.1 = sectionReport root area read :=
  congrArg (sectionFaults area (section? root area) ++ ·) (faults_readEntities h _ table)

end Document

namespace Template

open Document

/-- Elaboration of a document whose layout is right gives a template, or else the report. -/
theorem exists_elaborate_eq {root : List (Node × Node)} (hlayout : ∀ e ∈ root, keyFault? e.1 = none)
    (table : Placeholders) : ∃ t, (elaborate Placeholder.staging (.map root) table).1 =
      if report root = [] then .ok t else .error (report root) := by
  rcases exists_sections Placeholder.staging root table with ⟨f₁, d₁, t₁, hparameters, f₂, d₂, t₂,
    hmappings, f₃, d₃, t₃, hconditions, f₄, d₄, t₄, hresources, f₅, d₅, t₅, houtputs⟩
  -- Each section is read with the table that the one before has left, which its report does not
  -- depend on.
  have hreport : faultsOf root f₁ f₂ f₃ f₄ f₅ = report root := by
    have hpaths (area : Section) : Resolution.Congruence.sameFault.paths.holds area.key := trivial
    have h₁ := faults_readSection
      (fun name body => Resolution.Congruence.sameFault.rel_ofExcept
        (Parameter.failsIn_ofNode hpaths name body)) root .parameters table
    have h₂ := faults_readSection
      (fun name body => Resolution.Congruence.sameFault.rel_ofExcept
        (Mapping.failsIn_ofNode hpaths name body)) root .mappings t₁
    have h₃ := faults_readSection (conditionOfNode_congr .sameFault hpaths) root .conditions t₂
    have h₄ := faults_readSection (Resource.ofNode_congr .sameFault hpaths) root .resources t₃
    have h₅ := faults_readSection (Output.ofNode_congr .sameFault hpaths) root .outputs t₄
    rw [hparameters] at h₁
    rw [hmappings] at h₂
    rw [hconditions] at h₃
    rw [hresources] at h₄
    rw [houtputs] at h₅
    subst h₁ h₂ h₃ h₄ h₅
    rfl
  have hnone : (root.filterMap fun e => keyFault? e.1) = [] := List.filterMap_eq_nil_iff.2 hlayout
  rw [elaborate_of_sections hparameters hmappings hconditions hresources houtputs, if_pos hnone,
    hreport]
  refine ⟨⟨(readText root .formatVersion).2, (readText root .description).2, d₁, d₂, d₃, d₄, d₅⟩, ?_⟩
  split_ifs <;> rfl

/-- A document is refused with the report on it, before any placeholder is settled. -/
theorem parseDocument_of_report {root : List (Node × Node)}
    (hlayout : ∀ e ∈ root, keyFault? e.1 = none) (h : report root ≠ []) :
    parseDocument (.map root) = .error ((report root).map Fault.diagnostic) := by
  obtain ⟨t, ht⟩ := exists_elaborate_eq hlayout []
  rcases helaborate : elaborate Placeholder.staging (.map root) [] with ⟨answer, after⟩
  rw [helaborate, if_neg h] at ht
  obtain rfl : answer = .error (report root) := ht
  -- Settling is not reached, so nothing else is reported.
  rw [parseDocument, ofDocument, helaborate]
  rfl

/-- Elaboration of a document whose layout is right, after whatever is recorded, reports the faults
of its sections and of its entities, each read on its own, and succeeds where there are none. -/
theorem elaborate_reports {root : List (Node × Node)} (hlayout : ∀ e ∈ root, keyFault? e.1 = none)
    (table : Placeholders) :
    ((∃ t, (elaborate Placeholder.staging (.map root) table).1 = .ok t) ↔ report root = []) ∧
    (∀ faults, (elaborate Placeholder.staging (.map root) table).1 = .error faults ↔
      report root ≠ [] ∧ faults = report root) ∧
    (report root ≠ [] →
      parseDocument (.map root) = .error ((report root).map Fault.diagnostic)) := by
  obtain ⟨t, ht⟩ := exists_elaborate_eq hlayout table
  rw [ht]
  refine ⟨?_, fun faults => ?_, parseDocument_of_report hlayout⟩
  · -- Without a report the outcome is a template.
    by_cases h : report root = []
    · rw [if_pos h]
      exact ⟨fun _ => h, fun _ => ⟨t, rfl⟩⟩
    · rw [if_neg h]
      exact ⟨nofun, fun hnil => absurd hnil h⟩
  · by_cases h : report root = []
    · rw [if_pos h]
      exact ⟨nofun, fun hsome => absurd h hsome.1⟩
    · rw [if_neg h]
      exact ⟨fun heq => ⟨h, (Except.error.inj heq).symm⟩, fun heq => congrArg _ heq.2.symm⟩

/-- A document with a resource that is given up after one of its operands is staged, a resource
without a type, a resource with a malformed name, and an output without a value. -/
def malformedEntities : List (Node × Node) :=
  [(.string "Resources", .map
      [(.string "A", .map
          [(.string "Type", .string "T"),
            (.string "Properties", .map
              [(.string "P", .map [(.string "Fn::Join", .seq
                [.string ",", .seq [.string "a", .string "b"]])]),
                (.string "Q", .map [(.string "Fn::Missing", .string "a")])])]),
        (.string "B", .map []),
        (.string "C-1", .map [(.string "Type", .string "T")])]),
    (.string "Outputs", .map [(.string "A", .map [])])]

/-- Each of them is reported, the malformed name first, whatever is recorded before. -/
theorem malformedEntities_reports : (∀ e ∈ malformedEntities, keyFault? e.1 = none) ∧
    ∀ table, (elaborate Placeholder.staging (.map malformedEntities) table).1 =
      .error [.invalidName .resources "C-1",
        .unknownFunction "Resources.A.Properties.Q" "Fn::Missing",
        .missingField "Resources.B" "Type", .missingField "Outputs.A" "Value"] := by
  have hlayout : ∀ e ∈ malformedEntities, keyFault? e.1 = none := by decide +kernel
  have hreport : report malformedEntities = [.invalidName .resources "C-1",
      .unknownFunction "Resources.A.Properties.Q" "Fn::Missing",
      .missingField "Resources.B" "Type", .missingField "Outputs.A" "Value"] := by decide +kernel
  refine ⟨hlayout, fun table => ?_⟩
  obtain ⟨-, hfaults, -⟩ := elaborate_reports hlayout table
  exact (hfaults _).2 ⟨hreport ▸ List.cons_ne_nil _ _, hreport.symm⟩

end Template

end StackTemplate
