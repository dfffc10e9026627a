import StackTemplate.Proofs.Elaboration.Transparency

/-!
# The bookkeeping of placeholders

A placeholder that is found is known, waits, and is found where it was recorded for, so the only
fault of the bookkeeping that a document can have is a placeholder that is never resolved. Where
nothing in the document replaces an operand, that has a cause: a fault of the document was reported
before.

* `Template.faults_of_ofDocument` : the faults of a document, those of the bookkeeping at the end.
* `Template.parseDocument_bookkeeping` : the diagnostics of a refused document, and the operands of
  an accepted one.
-/

namespace StackTemplate

namespace Template

variable {document : Node}

/-- The faults of a document are genuine, up to the placeholders that are left at the end; where
nothing replaces an operand, there is a genuine fault. -/
theorem faults_of_ofDocument {kept : Prop}
    (hkept : kept → document.textsDiffer = true ∧ document.NamesDiffer) {faults : List Fault}
    (h : ofDocument document = .error faults) :
    ∃ met table, faults = met ++ unresolvedFaults table ∧
      (∀ e ∈ met, e.isBookkeeping = false) ∧ (kept → met ≠ []) := by
  unfold ofDocument at h
  split at h
  · -- The document was elaborated, so its faults are those of settling.
    next staged table hstaged =>
    cases document with
    | map root =>
      obtain ⟨-, hsections⟩ := elaborate_eq_ok.1 hstaged
      obtain ⟨hready, -⟩ := ready_of_attemptSections hkept hsections
      exact faults_of_settle hready h
    | _ => cases (Prod.mk.inj hstaged).1
  · -- Elaboration failed, so nothing was settled and no placeholder is reported.
    next faults' table hfaults =>
    cases h
    obtain ⟨hsome, hgenuine⟩ := genuine_of_elaborate hfaults
    exact ⟨faults, [], (List.append_nil faults).symm, hgenuine, fun _ => hsome⟩

/-- All faults of placeholders that are left have one code. -/
theorem code_of_mem_unresolvedFaults {table : Placeholders} {e : Fault}
    (h : e ∈ unresolvedFaults table) : e.diagnostic.code = some .unresolvedPlaceholder := by
  obtain ⟨p, -, rfl⟩ := List.mem_map.1 h
  rfl

/-- The diagnostics of a document that is refused are those of its faults. -/
theorem exists_faults_of_parseDocument {ds : List Diagnostic}
    (h : parseDocument document = .error ds) :
    ∃ faults, ofDocument document = .error faults ∧ ds = faults.map Fault.diagnostic := by
  unfold parseDocument at h
  cases hfaults : ofDocument document with
  | ok t =>
    rw [hfaults] at h
    cases h
  | error faults =>
    rw [hfaults] at h
    cases h
    exact ⟨faults, rfl, rfl⟩

/-- Where elaboration leaves a placeholder that the template does not hold, the document is refused
for it. -/
theorem exists_leftover_of_elaborate {staged : Template} {table : Placeholders}
    (h : elaborate Placeholder.staging document [] = (.ok staged, table))
    (hpending : ∀ e ∈ staged.operands, e.2.hasPending = false) {id : Nat}
    (hwaiting : table.Waiting id) :
    ∃ d rest, parseDocument document = .error (d :: rest) ∧
      d.code = some .unresolvedPlaceholder := by
  have hfaults : ofDocument document = .error (unresolvedFaults table) := by
    rw [ofDocument, h]
    exact settle_of_hasPending hpending hwaiting
  have hleft : unresolvedFaults table ≠ [] := fun hnil => unresolvedFaults_eq_nil.1 hnil id hwaiting
  obtain ⟨e, rest, hrest⟩ := List.exists_cons_of_ne_nil hleft
  refine ⟨e.diagnostic, rest.map Fault.diagnostic, ?_, ?_⟩
  · rw [parseDocument, hfaults, hrest]
    rfl
  · exact code_of_mem_unresolvedFaults (hrest ▸ List.mem_cons_self)

/-- No placeholder is found that is unknown, or resolved, or recorded for another place; an accepted
template holds none; and where no mapping has two keys with the same text and no section whose
entities hold operands declares a name twice, the diagnostics of a refused document start with one
that is not about a placeholder that was never resolved. -/
theorem parseDocument_bookkeeping (document : Node) :
    (∀ ds, parseDocument document = .error ds →
        ∀ d ∈ ds, d.code ≠ some .placeholderMismatch) ∧
      (∀ t, parseDocument document = .ok t → ∀ e ∈ t.operands, e.2.hasPending = false) ∧
      (document.textsDiffer = true → document.NamesDiffer →
        ∀ ds, parseDocument document = .error ds →
          ∃ d rest, ds = d :: rest ∧ d.code ≠ some .unresolvedPlaceholder) := by
  refine ⟨fun ds hds d hd => ?_, fun t ht e he => ?_, fun htexts hnames ds hds => ?_⟩
  · obtain ⟨faults, hfaults, rfl⟩ := exists_faults_of_parseDocument hds
    obtain ⟨met, table, rfl, hgenuine, -⟩ :=
      faults_of_ofDocument (fun hk : False => hk.elim) hfaults
    obtain ⟨e, he, rfl⟩ := List.mem_map.1 hd
    -- A fault is genuine, or it is about a placeholder that was never resolved.
    rcases List.mem_append.1 he with he | he
    · exact (Fault.code_of_genuine (hgenuine e he)).1
    · rw [code_of_mem_unresolvedFaults he]
      decide
  · exact hasPending_of_ofDocument (parseDocument_eq_ok.1 ht) he
  · obtain ⟨faults, hfaults, rfl⟩ := exists_faults_of_parseDocument hds
    obtain ⟨met, table, rfl, hgenuine, hsome⟩ :=
      faults_of_ofDocument (fun _ : True => ⟨htexts, hnames⟩) hfaults
    -- There is a fault besides those of the placeholders, and these come last.
    obtain ⟨e, met, rfl⟩ := List.exists_cons_of_ne_nil (hsome trivial)
    exact ⟨_, _, rfl, (Fault.code_of_genuine (hgenuine e List.mem_cons_self)).2⟩

/-- A document with a condition whose first operand is faulty, so that its second one is left. -/
def faultyOperand : Node :=
  .map
    [(.string "Conditions", .map
        [(.string "A", .map [(.string "Fn::And", .seq
          [.seq [.map [(.string "Fn::Missing", .string "B")]],
            .map [(.string "Condition", .string "B")]])])]),
      (.string "Resources", .map [(.string "R", .map [(.string "Type", .string "T")])])]

/-- The document is refused, and what is reported first is the fault of the first operand. The
document with nested conditions is accepted, as a template without placeholders. -/
theorem faultyOperand_bookkeeping :
    (faultyOperand.textsDiffer = true ∧ faultyOperand.NamesDiffer ∧
      ∃ d rest, parseDocument faultyOperand = .error (d :: rest) ∧
        d.code ≠ some .placeholderMismatch ∧ d.code ≠ some .unresolvedPlaceholder) ∧
    ∃ t, parseDocument nestedConditions = .ok t ∧ ∀ e ∈ t.operands, e.2.hasPending = false := by
  constructor
  · have htexts : faultyOperand.textsDiffer = true := by decide +kernel
    have hnames : faultyOperand.NamesDiffer := fun area => by cases area <;> decide +kernel
    have hdirect : (ofDocumentDirectly faultyOperand).toBool = false := by decide +kernel
    obtain ⟨hmismatch, -, hstart⟩ := parseDocument_bookkeeping faultyOperand
    refine ⟨htexts, hnames, ?_⟩
    cases h : parseDocument faultyOperand with
    | ok t =>
      -- A document that is accepted is read directly as well, and this one is not.
      rw [ofDocumentDirectly_of_ofDocument (parseDocument_eq_ok.1 h)] at hdirect
      cases hdirect
    | error ds =>
      obtain ⟨d, rest, rfl, hd⟩ := hstart htexts hnames ds h
      exact ⟨d, rest, rfl, hmismatch _ h d List.mem_cons_self, hd⟩
  · have htexts : nestedConditions.textsDiffer = true := by decide +kernel
    have hnames : nestedConditions.NamesDiffer := fun area => by cases area <;> decide +kernel
    have hdirect : (ofDocumentDirectly nestedConditions).toBool = true := by decide +kernel
    obtain ⟨-, hpending, -⟩ := parseDocument_bookkeeping nestedConditions
    cases h : ofDocumentDirectly nestedConditions with
    | error faults =>
      rw [h] at hdirect
      cases hdirect
    | ok t =>
      have ht := parseDocument_of_ofDocumentDirectly htexts hnames h
      exact ⟨t, ht, hpending t ht⟩

/-- A document that declares the output `A` twice, once under a tagged name. The list in the first
body is an operand that is staged. -/
def outputDeclaredTwice : Node :=
  .map
    [(.string "Resources", .map [(.string "R", .map [(.string "Type", .string "T")])]),
      (.string "Outputs", .map
        [(.string "A", .map [(.string "Value", .map [(.string "Fn::Join", .seq
          [.string ",", .seq [.string "a", .string "b"]])])]),
          (.tagged "x" (.string "A"), .map [(.string "Value", .string "c")])])]

/-- What is reported first is the operand of the output that was replaced. -/
theorem outputDeclaredTwice_leftover : outputDeclaredTwice.textsDiffer = true ∧
    ∃ d rest, parseDocument outputDeclaredTwice = .error (d :: rest) ∧
      d.code = some .unresolvedPlaceholder := by
  refine ⟨by decide +kernel, ?_⟩
  -- The template has lost the operand of the first output, while its placeholder still waits.
  have hleft : (match elaborate Placeholder.staging outputDeclaredTwice [] with
      | (.ok t, table) => t.operands.all (fun e => !e.2.hasPending) &&
          table[0]?.any fun p => !p.resolved
      | _ => false) = true := by
    decide +kernel
  split at hleft
  · next staged table hstaged =>
    simp only [Bool.and_eq_true, List.all_eq_true, Bool.not_eq_true', Option.any_eq_true] at hleft
    obtain ⟨hpending, p, hp, hwaiting⟩ := hleft
    exact exists_leftover_of_elaborate hstaged hpending ⟨p, hp, hwaiting⟩
  · cases hleft

end Template

end StackTemplate
