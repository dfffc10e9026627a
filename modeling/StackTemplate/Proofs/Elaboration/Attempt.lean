import StackTemplate.Elaboration.Document
import StackTemplate.Proofs.Entries
import StackTemplate.Proofs.Resolution.Within

/-!
# Attempts at elaboration

Elaboration goes on behind a fault, to report the others as well. It succeeds where reading the
entities one after the other, up to the first fault, does; then both give the same template and
leave the same state.

* `Document.attemptSection` : the entities of a section, up to the first fault.
* `Template.attemptSections` : the entities of all sections, up to the first fault.
* `Template.elaborate_eq_ok` : when elaboration succeeds.
-/

namespace StackTemplate

variable {σ α β : Type}

namespace Resolution

@[simp] theorem attempt_ofExcept_ok (a : α) :
    attempt (ofExcept (.ok a) : Resolution σ α) = pure a := rfl

@[simp] theorem attempt_ofExcept_error (e : Fault) :
    attempt (ofExcept (.error e) : Resolution σ α) = failure := rfl

/-- An outcome without a state is attempted with success if it is a result, and leaves the state. -/
theorem attempt_ofExcept_eq_some {x : Except Fault α} {st st' : σ} {a : α} :
    (ofExcept x).attempt st = some (a, st') ↔ x = .ok a ∧ st = st' := by
  cases x with
  | error e =>
    constructor
    · rintro ⟨⟩
    · rintro ⟨⟨⟩, _⟩
  | ok b =>
    constructor
    · rintro ⟨⟩
      exact ⟨rfl, rfl⟩
    · rintro ⟨⟨⟩, rfl⟩
      rfl

@[simp] theorem attempt_foldlM (f : β → α → Resolution σ β) (xs : List α) (b : β) :
    attempt (xs.foldlM f b) = xs.foldlM (fun b x => attempt (f b x)) b := by
  induction xs generalizing b with
  | nil => simp
  | cons x xs ih => simp [ih]

end Resolution

/-! ## Attributes -/

namespace Entry

/-- Keys are read one by one, and all have the one fault. -/
theorem mapM_keyText (path : String) (es : List (Node × Node)) :
    (es.mapM fun (key, value) => match Scalar.keyText? key with
      | some k => (.ok (k, value) : Except Fault (String × Node))
      | none => malformed path .keyNotScalar) =
        match keyTexts? es with
        | some bs => .ok bs
        | none => malformed path .keyNotScalar := by
  induction es with
  | nil => rfl
  | cons e es ih =>
    obtain ⟨key, value⟩ := e
    simp only [List.mapM_cons, ih, keyTexts?_cons]
    cases Scalar.keyText? key with
    | none => rfl
    | some k => cases keyTexts? es <;> rfl

/-- The attributes of a mapping are its values under the texts of their keys. -/
theorem attributes_map (path : String) (entries : List (Node × Node)) :
    Entry.attributes path (.map entries) =
      match keyTexts? entries with
      | some bs => .ok (Entries.ofList bs)
      | none => malformed path .keyNotScalar := by
  have hrun : Entry.attributes path (.map entries) =
      (match keyTexts? entries with
        | some bs => .ok bs
        | none => malformed path .keyNotScalar) >>= fun es => pure (Entries.ofList es) := by
    rw [← mapM_keyText]
    rfl
  rw [hrun]
  cases keyTexts? entries <;> rfl

/-- Attributes are those of a mapping all of whose keys have texts. -/
theorem exists_of_attributes {path : String} {body : Node} {attributes : List (String × Node)}
    (h : Entry.attributes path body = .ok attributes) :
    ∃ entries bs, body = .map entries ∧ keyTexts? entries = some bs ∧
      attributes = Entries.ofList bs := by
  cases body with
  | map entries =>
    rw [attributes_map] at h
    split at h
    · next bs hbs =>
      cases h
      exact ⟨entries, bs, rfl, hbs, rfl⟩
    · cases h
  | _ => cases h

theorem mem_members_of_attributes {path : String} {body : Node}
    {attributes : List (String × Node)} (h : Entry.attributes path body = .ok attributes)
    {e : String × Node} (he : e ∈ attributes) : e.2 ∈ body.members := by
  obtain ⟨entries, bs, rfl, hbs, rfl⟩ := exists_of_attributes h
  rw [Node.members, ← (keyTexts?_eq_some hbs).2]
  -- The last value under a key is one of those that are listed.
  exact List.mem_map.2 ⟨e, Entries.mem_of_mem_ofList he, rfl⟩

theorem nodup_keys_attributes {path : String} {body : Node} {attributes : List (String × Node)}
    (h : Entry.attributes path body = .ok attributes) : (Entries.keys attributes).Nodup := by
  obtain ⟨entries, bs, rfl, hbs, rfl⟩ := exists_of_attributes h
  exact Entries.nodup_keys_ofList bs

/-- A required attribute is found under its name. -/
theorem find?_of_required {path field : String} {attributes : List (String × Node)} {node : Node}
    (h : required path field attributes = .ok node) :
    Entries.find? attributes field = some node := by
  unfold required at h
  split at h
  · next hfind =>
    cases h
    exact hfind
  · cases h

end Entry

namespace Document

/-! ## Sections -/

/-- The entities that are read from their bodies, up to the first fault. -/
def attemptEntities (read : String → Node → Resolution σ α) (es : List (String × Node)) :
    Attempt σ (List (String × α)) :=
  es.mapM fun e => (fun x => (e.1, x)) <$> (read e.1 e.2).attempt

/-- An entity that is read comes first, and the rest is read from the state it leaves. -/
theorem readEntities_cons_ok {read : String → Node → Resolution σ α} {name : String} {body : Node}
    {es : List (String × Node)} {st st₁ : σ} {x : α} (h : (read name body).run st = (.ok x, st₁)) :
    readEntities read ((name, body) :: es) st =
      (((readEntities read es st₁).1.1, (name, x) :: (readEntities read es st₁).1.2),
        (readEntities read es st₁).2) := by
  simp only [readEntities, bind, StateT.bind, h]
  rfl

/-- A fault comes first, and the rest is read in spite of it. -/
theorem readEntities_cons_error {read : String → Node → Resolution σ α} {name : String}
    {body : Node} {es : List (String × Node)} {st st₁ : σ} {e : Fault}
    (h : (read name body).run st = (.error e, st₁)) :
    readEntities read ((name, body) :: es) st =
      ((e :: (readEntities read es st₁).1.1, (readEntities read es st₁).1.2),
        (readEntities read es st₁).2) := by
  simp only [readEntities, bind, StateT.bind, h]
  rfl

/-- Entities are read without a fault exactly if the attempt at them succeeds, with the same
entities. -/
theorem readEntities_eq_nil {read : String → Node → Resolution σ α} {es : List (String × Node)}
    {st st' : σ} {xs : List (String × α)} :
    readEntities read es st = (([], xs), st') ↔
      attemptEntities read es st = some (xs, st') := by
  induction es generalizing st xs with
  | nil =>
    change (([], []), st) = (([], xs), st') ↔ some ([], st) = some (xs, st')
    simp
  | cons e es ih =>
    obtain ⟨name, body⟩ := e
    rw [attemptEntities, List.mapM_cons, Attempt.bind_eq_some]
    simp only [Attempt.map_eq_some, Attempt.bind_eq_some]
    constructor
    · intro h
      cases hread : (read name body).run st with
      | mk answer st₁ =>
        cases answer with
        | error e =>
          -- The fault of a body is listed, and the list is empty.
          rw [readEntities_cons_error hread] at h
          cases (Prod.mk.inj (Prod.mk.inj h).1).1
        | ok x =>
          rw [readEntities_cons_ok hread] at h
          obtain ⟨hentries, hst⟩ := Prod.mk.inj h
          obtain ⟨hfaults, rfl⟩ := Prod.mk.inj hentries
          have hrun : readEntities read es st₁ = (([], (readEntities read es st₁).1.2), st') := by
            rw [← hfaults, ← hst]
            rfl
          have hrest := ih.1 hrun
          have hx := Resolution.attempt_eq_some.2 hread
          exact ⟨(name, x), st₁, ⟨x, hx, rfl⟩, _, st', hrest, rfl⟩
    · -- The first body has a result, so it adds no fault to those of the rest.
      rintro ⟨_, st₁, ⟨x, hx, rfl⟩, xs', _, hrest, hlast⟩
      cases hlast
      rw [readEntities_cons_ok (Resolution.attempt_eq_some.1 hx), ih.2 hrest]

/-- The entities of a section, where neither the section nor one of them is faulty. -/
def attemptSection (root : List (Node × Node)) (area : Section)
    (read : String → Node → Resolution σ α) : Attempt σ (Dict α) :=
  if sectionFaults area (section? root area) = [] then
    Dict.ofList <$> attemptEntities read (entities area (section? root area))
  else failure

/-- A section is read without a fault exactly if the attempt at it succeeds. -/
theorem readSection_eq_nil {root : List (Node × Node)} {area : Section}
    {read : String → Node → Resolution σ α} {st st' : σ} {d : Dict α} :
    readSection root area read st = (([], d), st') ↔
      attemptSection root area read st = some (d, st') := by
  have hread : readSection root area read st =
      ((sectionFaults area (section? root area) ++
          (readEntities read (entities area (section? root area)) st).1.1,
        Dict.ofList (readEntities read (entities area (section? root area)) st).1.2),
        (readEntities read (entities area (section? root area)) st).2) := rfl
  rw [hread, attemptSection]
  by_cases hfaults : sectionFaults area (section? root area) = []
  · rw [if_pos hfaults, hfaults, List.nil_append, Attempt.map_eq_some]
    constructor
    · intro h
      obtain ⟨hsection, hst⟩ := Prod.mk.inj h
      obtain ⟨hnil, hd⟩ := Prod.mk.inj hsection
      refine ⟨_, readEntities_eq_nil.1 ?_, hd⟩
      rw [← hnil, ← hst]
      rfl
    · rintro ⟨xs, hxs, rfl⟩
      rw [readEntities_eq_nil.2 hxs]
  · -- The section has a fault of its own, and neither side succeeds.
    rw [if_neg hfaults]
    constructor
    · intro h
      have hnil := (Prod.mk.inj (Prod.mk.inj h).1).1
      exact absurd (List.append_eq_nil_iff.1 hnil).1 hfaults
    · rintro ⟨⟩

end Document

namespace Template

open Document

/-- The faults of a document that its entities have no part in. -/
def plainFaults (root : List (Node × Node)) : List Fault :=
  (root.filterMap fun e => keyFault? e.1) ++ (readText root .formatVersion).1 ++
    (readText root .description).1 ++ metadataFaults root ++
    if (section? root .resources).isNone then [Fault.noResources] else []

/-- The template of a document without other faults, up to the first faulty section. -/
def attemptSections (staging : Staging σ) (root : List (Node × Node)) : Attempt σ Template := do
  let parameters ← attemptSection root .parameters fun name body =>
    Resolution.ofExcept (Parameter.ofNode name body)
  let mappings ← attemptSection root .mappings fun name body =>
    Resolution.ofExcept (Mapping.ofNode name body)
  let conditions ← attemptSection root .conditions (conditionOfNode staging)
  let resources ← attemptSection root .resources (Resource.ofNode staging)
  let outputs ← attemptSection root .outputs (Output.ofNode staging)
  return ⟨(readText root .formatVersion).2, (readText root .description).2, parameters, mappings,
    conditions, resources, outputs⟩

theorem run_bind {x : StateM σ α} {st st' : σ} {a : α} (h : x st = (a, st')) (f : α → StateM σ β) :
    (x >>= f) st = f a st' := by
  change (fun p : α × σ => f p.1 p.2) (x st) = f a st'
  rw [h]

/-- The faults of a document in their order, those of its sections with entities being given. -/
def faultsOf (root : List (Node × Node)) (parameters mappings conditions resources outputs :
    List Fault) : List Fault :=
  (readText root .formatVersion).1 ++ (readText root .description).1 ++ metadataFaults root ++
    parameters ++ mappings ++ conditions ++
    (if (section? root .resources).isNone then [Fault.noResources] else []) ++ resources ++ outputs

/-- There are no faults where nothing is faulty. -/
theorem faultsOf_eq_nil {root : List (Node × Node)} {f₁ f₂ f₃ f₄ f₅ : List Fault} :
    (root.filterMap fun e => keyFault? e.1) = [] ∧ faultsOf root f₁ f₂ f₃ f₄ f₅ = [] ↔
      plainFaults root = [] ∧ f₁ = [] ∧ f₂ = [] ∧ f₃ = [] ∧ f₄ = [] ∧ f₅ = [] := by
  simp only [faultsOf, plainFaults, List.append_eq_nil_iff]
  tauto

section Sections

variable {staging : Staging σ} {root : List (Node × Node)} {st st' st₁ st₂ st₃ st₄ st₅ : σ}
  {f₁ f₂ f₃ f₄ f₅ : List Fault} {parameters : Dict Parameter} {mappings : Dict Mapping}
  {conditions : Dict Operand} {resources : Dict Resource} {outputs : Dict Output} {t : Template}
  (hparameters : readSection root .parameters
    (fun name body => Resolution.ofExcept (Parameter.ofNode name body)) st =
      ((f₁, parameters), st₁))
  (hmappings : readSection root .mappings
    (fun name body => Resolution.ofExcept (Mapping.ofNode name body)) st₁ = ((f₂, mappings), st₂))
  (hconditions : readSection root .conditions (conditionOfNode staging) st₂ =
    ((f₃, conditions), st₃))
  (hresources : readSection root .resources (Resource.ofNode staging) st₃ = ((f₄, resources), st₄))
  (houtputs : readSection root .outputs (Output.ofNode staging) st₄ = ((f₅, outputs), st₅))

include hparameters hmappings hconditions hresources houtputs

/-- Elaboration of a document whose sections are read as given. -/
theorem elaborate_of_sections : elaborate staging (.map root) st =
    if (root.filterMap fun e => keyFault? e.1) = [] then
      if faultsOf root f₁ f₂ f₃ f₄ f₅ = [] then
        (.ok ⟨(readText root .formatVersion).2, (readText root .description).2, parameters,
          mappings, conditions, resources, outputs⟩, st₅)
      else (.error (faultsOf root f₁ f₂ f₃ f₄ f₅), st₅)
    else (.error (root.filterMap fun e => keyFault? e.1), st) := by
  unfold elaborate
  dsimp only
  by_cases hlayout : (root.filterMap fun e => keyFault? e.1) = []
  · simp only [hlayout, List.isEmpty_nil, Bool.not_true, Bool.false_eq_true, if_false, if_true]
    rw [run_bind hparameters, run_bind hmappings, run_bind hconditions, run_bind hresources,
      run_bind houtputs]
    change (if (faultsOf root f₁ f₂ f₃ f₄ f₅).isEmpty then pure (Except.ok _)
      else pure (Except.error (faultsOf root f₁ f₂ f₃ f₄ f₅)) : StateM σ _) st₅ = _
    by_cases hfaults : faultsOf root f₁ f₂ f₃ f₄ f₅ = []
    · have hempty := List.isEmpty_iff.2 hfaults
      rw [if_pos hfaults, if_pos hempty]
      rfl
    · have hnonempty := mt List.isEmpty_iff.1 hfaults
      rw [if_neg hfaults, if_neg hnonempty]
      rfl
  · -- An unknown key ends elaboration before any section is read, in the state it began with.
    have hnonempty : (!(root.filterMap fun e => keyFault? e.1).isEmpty) = true := by
      simpa [List.isEmpty_iff] using hlayout
    rw [if_neg hlayout, if_pos hnonempty]
    rfl

/-- Elaboration succeeds if nothing is faulty, with what the sections hold. -/
theorem elaborate_of_sections_eq_ok_iff : elaborate staging (.map root) st = (.ok t, st') ↔
    (plainFaults root = [] ∧ f₁ = [] ∧ f₂ = [] ∧ f₃ = [] ∧ f₄ = [] ∧ f₅ = []) ∧
      ⟨(readText root .formatVersion).2, (readText root .description).2, parameters, mappings,
        conditions, resources, outputs⟩ = t ∧ st₅ = st' := by
  rw [elaborate_of_sections hparameters hmappings hconditions hresources houtputs,
    ← faultsOf_eq_nil]
  split_ifs with hlayout hfaults
  · constructor
    · intro h
      obtain ⟨ht, hst⟩ := Prod.mk.inj h
      exact ⟨⟨hlayout, hfaults⟩, Except.ok.inj ht, hst⟩
    · rintro ⟨-, rfl, rfl⟩
      rfl
  · constructor
    · intro h
      cases (Prod.mk.inj h).1
    · intro h
      exact absurd h.1.2 hfaults
  · constructor
    · intro h
      cases (Prod.mk.inj h).1
    · intro h
      exact absurd h.1.1 hlayout

/-- The sections are attempted with success if none of them is faulty, with what they hold. -/
theorem attemptSections_of_sections_eq_some_iff :
    attemptSections staging root st = some (t, st') ↔
      (f₁ = [] ∧ f₂ = [] ∧ f₃ = [] ∧ f₄ = [] ∧ f₅ = []) ∧
        ⟨(readText root .formatVersion).2, (readText root .description).2, parameters, mappings,
          conditions, resources, outputs⟩ = t ∧ st₅ = st' := by
  simp only [attemptSections, Attempt.bind_eq_some, ← readSection_eq_nil]
  constructor
  · rintro ⟨_, _, h₁, _, _, h₂, _, _, h₃, _, _, h₄, _, _, h₅, ht⟩
    -- Each section is read once, so the two readings of it agree.
    obtain ⟨⟨rfl, rfl⟩, rfl⟩ := (Prod.mk.inj (hparameters.symm.trans h₁)).imp_left Prod.mk.inj
    obtain ⟨⟨rfl, rfl⟩, rfl⟩ := (Prod.mk.inj (hmappings.symm.trans h₂)).imp_left Prod.mk.inj
    obtain ⟨⟨rfl, rfl⟩, rfl⟩ := (Prod.mk.inj (hconditions.symm.trans h₃)).imp_left Prod.mk.inj
    obtain ⟨⟨rfl, rfl⟩, rfl⟩ := (Prod.mk.inj (hresources.symm.trans h₄)).imp_left Prod.mk.inj
    obtain ⟨⟨rfl, rfl⟩, rfl⟩ := (Prod.mk.inj (houtputs.symm.trans h₅)).imp_left Prod.mk.inj
    cases ht
    exact ⟨⟨rfl, rfl, rfl, rfl, rfl⟩, rfl, rfl⟩
  · -- The sections are attempted in the states in which they are read.
    rintro ⟨⟨rfl, rfl, rfl, rfl, rfl⟩, rfl, rfl⟩
    exact ⟨parameters, st₁, hparameters, mappings, st₂, hmappings, conditions, st₃, hconditions,
      resources, st₄, hresources, outputs, st₅, houtputs, rfl⟩

end Sections

/-- The sections with entities are read one after the other, each in the state that the one before
leaves behind. -/
theorem exists_sections (staging : Staging σ) (root : List (Node × Node)) (st : σ) :
    ∃ f₁ d₁ st₁, readSection root .parameters
        (fun name body => Resolution.ofExcept (Parameter.ofNode name body)) st =
          ((f₁, d₁), st₁) ∧
      ∃ f₂ d₂ st₂, readSection root .mappings
        (fun name body => Resolution.ofExcept (Mapping.ofNode name body)) st₁ =
          ((f₂, d₂), st₂) ∧
      ∃ f₃ d₃ st₃, readSection root .conditions (conditionOfNode staging) st₂ =
          ((f₃, d₃), st₃) ∧
      ∃ f₄ d₄ st₄, readSection root .resources (Resource.ofNode staging) st₃ =
          ((f₄, d₄), st₄) ∧
      ∃ f₅ d₅ st₅, readSection root .outputs (Output.ofNode staging) st₄ = ((f₅, d₅), st₅) :=
  ⟨_, _, _, rfl, _, _, _, rfl, _, _, _, rfl, _, _, _, rfl, _, _, _, rfl⟩

/-- Elaboration succeeds where nothing is faulty. -/
theorem elaborate_eq_ok {staging : Staging σ} {root : List (Node × Node)} {st st' : σ}
    {t : Template} :
    elaborate staging (.map root) st = (.ok t, st') ↔
      plainFaults root = [] ∧ attemptSections staging root st = some (t, st') := by
  obtain ⟨f₁, d₁, st₁, hparameters, f₂, d₂, st₂, hmappings, f₃, d₃, st₃, hconditions, f₄, d₄, st₄,
    hresources, f₅, d₅, st₅, houtputs⟩ := exists_sections staging root st
  -- Both sides speak of the same readings of the five sections.
  rw [elaborate_of_sections_eq_ok_iff hparameters hmappings hconditions hresources houtputs,
    attemptSections_of_sections_eq_some_iff hparameters hmappings hconditions hresources houtputs,
    and_assoc]

end Template

end StackTemplate
