import StackTemplate.Proofs.Elaboration.Bookkeeping
import StackTemplate.Proofs.Resolution.Labels

/-!
# Labels of diagnostics

Whatever is wrong within a section is reported inside of the section, whether it is found when the
document is elaborated or when the placeholders are settled: the path of each label starts with the
key of the section. Of the faults that are about no section, only an unknown one is reported under a
key that the document chooses.

* `Paths.inSections` : the paths that start with the key of a section.
* `Template.labels_of_parseDocument` : the labels of all diagnostics of a document.
* `Template.parseDocument_of_keyFaults` : top-level keys that are wrong are all that is reported.
-/

namespace StackTemplate

variable {α : Type} {P : Paths}

open Resolution (ReportsIn)

/-! ## Placeholders of elaboration -/

namespace Document

/-- Entities record placeholders on the paths on which they report. -/
theorem onPaths_readEntities {read : String → Node → Resolution Placeholders α}
    (h : ∀ name body, (read name body).StaysIn P) (es : List (String × Node))
    {table : Placeholders} (htable : table.OnPaths P) :
    Placeholders.OnPaths P (readEntities read es table).2 := by
  induction es generalizing table with
  | nil => exact htable
  | cons entry es ih =>
    rcases entry with ⟨name, body⟩
    have hafter := (h name body table htable).1
    -- A faulty entity leaves its placeholders behind, and they are on the same paths.
    rcases hread : (read name body).run table with ⟨e | x, after⟩ <;> rw [hread] at hafter
    · rw [readEntities_cons_error hread]
      exact ih hafter
    · rw [readEntities_cons_ok hread]
      exact ih hafter

/-- Reading a section records placeholders on the paths on which its entities report. -/
theorem onPaths_readSection {read : String → Node → Resolution Placeholders α}
    (h : ∀ name body, ReportsIn P (read name body)) {root : List (Node × Node)} {area : Section}
    {table after : Placeholders} {result : List Fault × Dict α} (htable : table.OnPaths P)
    (hread : readSection root area read table = (result, after)) : after.OnPaths P := by
  have hafter : (readEntities read (entities area (section? root area)) table).2 = after :=
    congrArg Prod.snd hread
  rw [← hafter]
  exact onPaths_readEntities (fun name body => (h name body).staysIn) _ htable

end Document

namespace Template

open Document

variable {document : Node}

section Sections

variable (hsections : ∀ area : Section, P.holds area.key)

include hsections

/-- Elaboration records placeholders inside of the sections. -/
theorem onPaths_of_elaborate {table after : Placeholders} {t : Template}
    (htable : table.OnPaths P)
    (h : elaborate Placeholder.staging document table = (.ok t, after)) : after.OnPaths P := by
  cases document with
  | map root =>
    rcases exists_sections Placeholder.staging root table with ⟨f₁, d₁, t₁, hparameters, f₂, d₂, t₂,
      hmappings, f₃, d₃, t₃, hconditions, f₄, d₄, t₄, hresources, f₅, d₅, t₅, houtputs⟩
    rw [elaborate_of_sections hparameters hmappings hconditions hresources houtputs] at h
    split_ifs at h
    · -- The table is handed from one section to the next.
      obtain rfl := (Prod.mk.inj h).2
      have h₁ := onPaths_readSection
        (fun name body => .ofExcept (Parameter.failsIn_ofNode hsections name body)) htable
        hparameters
      have h₂ := onPaths_readSection
        (fun name body => .ofExcept (Mapping.failsIn_ofNode hsections name body)) h₁ hmappings
      have h₃ := onPaths_readSection (conditionOfNode_congr (.reporting P) hsections) h₂ hconditions
      have h₄ := onPaths_readSection (Resource.ofNode_congr (.reporting P) hsections) h₃ hresources
      exact onPaths_readSection (Output.ofNode_congr (.reporting P) hsections) h₄ houtputs
    · cases (Prod.mk.inj h).1
    · cases (Prod.mk.inj h).1
  | _ => cases (Prod.mk.inj h).1

/-! ## Faults of settling -/

/-- The operands of a template lie in the sections. -/
theorem holds_of_mem_operands {t : Template} {e : String × Operand} (h : e ∈ t.operands) :
    P.holds e.1 := by
  simp only [operands, List.mem_append, List.mem_map, List.mem_flatMap] at h
  rcases h with (⟨b, -, rfl⟩ | ⟨b, -, b', -, rfl⟩) | ⟨b, -, b', -, rfl⟩
  · exact Paths.holds_entity hsections .conditions b.1
  · exact P.inside b'.1 (P.inside "." (Paths.holds_entity hsections .resources b.1))
  · exact P.inside b'.1 (P.inside "." (Paths.holds_entity hsections .outputs b.1))

omit hsections in
/-- Settling operands on paths with a property keeps to these paths. -/
theorem onPaths_settleOperands (depth : Nat) {es : List (String × Operand)}
    (hes : ∀ e ∈ es, P.holds e.1) {s : Placeholders × List Fault} (htable : s.1.OnPaths P)
    (hfaults : ∀ e ∈ s.2, e.LabelsIn P) :
    Placeholders.OnPaths P (es.foldl (fun s e => (settleOperand depth e.1 e.2 s).2) s).1 ∧
      ∀ e ∈ (es.foldl (fun s e => (settleOperand depth e.1 e.2 s).2) s).2, e.LabelsIn P := by
  induction es generalizing s with
  | nil => exact ⟨htable, hfaults⟩
  | cons e es ih =>
    rcases s with ⟨table, faults⟩
    rw [List.forall_mem_cons] at hes
    rcases e.2.staysIn_settle depth hes.1 table htable with ⟨hafter, hmet⟩
    rw [List.foldl_cons, settleOperand_state]
    apply ih hes.2 hafter
    rw [List.forall_mem_append]
    -- The new fault, if there is one, is the one that this operand met.
    refine ⟨hfaults, fun e' he' => ?_⟩
    unfold Resolution.faults at he'
    split at he'
    · cases he'
    · next met hmet' =>
      obtain rfl := List.mem_singleton.1 he'
      exact hmet e' hmet'

/-- The labels of the faults that settling reports are inside of the sections. -/
theorem labelsIn_of_settle {t : Template} {table : Placeholders} {faults : List Fault}
    (htable : table.OnPaths P) (h : t.settle table = .error faults) :
    ∀ e ∈ faults, e.LabelsIn P := by
  have hsettled := onPaths_settleOperands (settlingDepth table)
    (fun e he => holds_of_mem_operands hsections (t := t) he) (s := (table, [])) htable (by simp)
  rw [← mapOperands_state] at hsettled
  unfold settle at h
  split at h
  · cases h
  · rcases hrun : t.mapOperands (settleOperand (settlingDepth table)) (table, []) with
      ⟨settled, after, met⟩
    rw [hrun] at h hsettled
    simp only at h
    split at h
    · cases h
    · cases h
      rw [List.forall_mem_append]
      -- After the faults that were met come the placeholders that are left, each on its own path.
      refine ⟨hsettled.2, fun e he => ?_⟩
      rcases List.mem_map.1 he with ⟨p, hp, rfl⟩
      have hpath := hsettled.1 p (List.mem_filter.1 hp).1
      simpa [Fault.LabelsIn, Fault.diagnostic, Fault.diagnose] using hpath

/-- The labels of the faults of a document are inside of the sections, apart from those of the
layout. -/
theorem labelsIn_of_ofDocument {faults : List Fault} (h : ofDocument document = .error faults) :
    ∀ e ∈ faults, e.LabelsIn P ∨ e.OfLayout document := by
  intro e he
  unfold ofDocument at h
  split at h
  · next staged table hstaged =>
    have hempty : Placeholders.OnPaths P [] := by rintro _ ⟨⟩
    -- Settling starts with the table of elaboration, which is on these paths.
    have htable := onPaths_of_elaborate hsections hempty hstaged
    exact .inl (labelsIn_of_settle hsections htable h e he)
  · next met after helaborate =>
    cases h
    rcases (faults_of_elaborate hsections helaborate).2 e he with hlies | hlayout
    · exact .inl hlies.labels
    · exact .inr hlayout

end Sections

end Template

/-! ## Sections -/

/-- The paths that start with the key of a section. -/
def Paths.inSections : Paths where
  holds path := ∃ area : Section, area.key.toList <+: path.toList
  inside {path} segment h := by
    rcases h with ⟨area, harea⟩
    refine ⟨area, ?_⟩
    rw [String.toList_append]
    exact harea.trans (List.prefix_append path.toList segment.toList)

/-- Each label of the diagnostics of a document is on a path that starts with the key of a section,
unless the diagnostic is about the layout of the document. -/
theorem Template.labels_of_parseDocument {document : Node} {ds : List Diagnostic}
    (h : parseDocument document = .error ds) {d : Diagnostic} (hd : d ∈ ds) :
    (∀ label ∈ d.labels, Paths.inSections.holds label.path) ∨
      ∃ e : Fault, e.OfLayout document ∧ e.diagnostic = d := by
  rcases exists_faults_of_parseDocument h with ⟨faults, hfaults, rfl⟩
  rcases List.mem_map.1 hd with ⟨e, he, rfl⟩
  have hsections (area : Section) : Paths.inSections.holds area.key := ⟨area, List.prefix_rfl⟩
  rcases labelsIn_of_ofDocument hsections hfaults e he with hlabels | hlayout
  · exact .inl hlabels
  · exact .inr ⟨e, hlayout, rfl⟩

/-- Where top-level keys are wrong, they are reported in their order, and nothing else is. -/
theorem Template.parseDocument_of_keyFaults {root : List (Node × Node)}
    (h : (root.filterMap fun e => Document.keyFault? e.1) ≠ []) :
    parseDocument (.map root) =
      .error ((root.filterMap fun e => Document.keyFault? e.1).map Fault.diagnostic) := by
  have helaborate : elaborate Placeholder.staging (.map root) [] =
      (.error (root.filterMap fun e => Document.keyFault? e.1), []) := by
    rw [elaborate]
    dsimp only
    rw [if_pos (by simpa [List.isEmpty_iff] using h)]
    rfl
  rw [parseDocument, ofDocument, helaborate]
  rfl

end StackTemplate
