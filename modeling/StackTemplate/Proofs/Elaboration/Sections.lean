import StackTemplate.Proofs.Elaboration.Declaration

/-!
# Staged sections

Reading the sections of a document while operands are staged records the placeholders that their
operands hold, and mirrors reading them directly. Names of entities are read through tags, so a
section can declare one name twice although its keys differ; then the later entity replaces the
earlier one, and the placeholders that were recorded for the earlier one are held by no operand.
Entities without operands can be replaced freely, for nothing is recorded for them.

* `Section.HoldsOperands` : the sections whose entities hold operands.
* `Document.NamesDiffer` : none of these sections declares a name twice.
* `Template.leaves_attemptSections` : what is recorded for the operands of a template.
* `Template.mirrors_attemptSections` : staged and direct elaboration side by side.
-/

namespace StackTemplate

variable {α β : Type} {kept : Prop}

/-- The sections whose entities hold operands, for which placeholders are recorded. -/
def Section.HoldsOperands (area : Section) : Prop :=
  area = .conditions ∨ area = .resources ∨ area = .outputs

instance (area : Section) : Decidable area.HoldsOperands :=
  inferInstanceAs (Decidable (_ ∨ _ ∨ _))

namespace Document

/-- No section whose entities hold operands declares two entities under one name. -/
def NamesDiffer (root : List (Node × Node)) : Prop :=
  ∀ area : Section, area.HoldsOperands → (Entries.keys (entities area (section? root area))).Nodup

/-! ## Entities -/

theorem exists_mem_of_section? {root : List (Node × Node)} {area : Section} {node : Node}
    (h : section? root area = some node) : ∃ key, (key, node) ∈ root := by
  obtain ⟨e, he, rfl⟩ := Option.map_eq_some_iff.1 h
  exact ⟨e.1, List.mem_reverse.1 (List.mem_of_find?_eq_some he)⟩

/-- The body of an entity lies within the document. -/
theorem everyMapping_of_mem_entities {test : List (Node × Node) → Bool} {root : List (Node × Node)}
    {area : Section} (h : (Node.map root).everyMapping test = true) {e : String × Node}
    (he : e ∈ entities area (section? root area)) : e.2.everyMapping test = true := by
  cases hsection : section? root area with
  | none =>
    rw [hsection] at he
    cases he
  | some node =>
    rw [hsection] at he
    obtain ⟨key, hkey⟩ := exists_mem_of_section? hsection
    have hnode : node.everyMapping test = true :=
      Node.everyMapping_of_mem_members h (List.mem_map.2 ⟨(key, node), hkey, rfl⟩)
    cases node with
    | map entries =>
      -- The section is a mapping in the document, and the body a value in the section.
      obtain ⟨⟨key, body⟩, hbody, he⟩ := List.mem_filterMap.1 he
      have htest : body.everyMapping test = true :=
        Node.everyMapping_of_mem_members hnode (List.mem_map.2 ⟨(key, body), hbody, rfl⟩)
      simp only at he
      split at he
      · cases he
        exact htest
      · cases he
    | _ => cases he

/-! ## Sections -/

variable {root : List (Node × Node)} {area : Section}
  {read : String → Node → Resolution Placeholders α}

/-- Reading a section leaves the placeholders that were there. -/
theorem grows_attemptSection (h : ∀ name body, Resolution.Genuine (read name body)) :
    Grows (attemptSection root area read) := by
  unfold attemptSection
  split_ifs
  · exact .map _ (.mapM fun e _ => (h e.1 e.2).grows.map _)
  · exact .failure

/-- Reading the bodies of entities records what the operands of the entities hold, one after the
other. -/
theorem leaves_bodies (operandsOf : α → List Operand) {es : List (String × Node)}
    (h : ∀ e ∈ es, Leaves (Placeholder.Recorded kept)
      (fun later ids x => Operand.Gathered kept later ids (operandsOf x)) (read e.1 e.2).attempt) :
    Leaves (Placeholder.Recorded kept)
      (fun later ids xs => Entries.keys xs = Entries.keys es ∧
        Operand.Gathered kept later ids (xs.flatMap fun x => operandsOf x.2))
      (attemptEntities read es) := by
  have hnamed : ∀ e ∈ es, Leaves (Placeholder.Recorded kept)
      (fun later ids x => x.1 = e.1 ∧ Operand.Gathered kept later ids (operandsOf x.2))
      ((fun x => (e.1, x)) <$> (read e.1 e.2).attempt) := fun e he =>
    (h e he).map fun later ids x hx => ⟨rfl, hx⟩
  exact (Leaves.mapM hnamed).mono (fun _ hp => hp) fun later ids xs hlinks =>
    hlinks.gathered operandsOf

/-- Reading a section records what the operands of its entities hold; where names differ, no entity
replaces another. -/
theorem leaves_attemptSection (operandsOf : α → List Operand)
    (hnames : kept → (Entries.keys (entities area (section? root area))).Nodup)
    (h : ∀ e ∈ entities area (section? root area), Leaves (Placeholder.Recorded kept)
      (fun later ids x => Operand.Gathered kept later ids (operandsOf x)) (read e.1 e.2).attempt) :
    Leaves (Placeholder.Recorded kept)
      (fun later ids d => Operand.Gathered kept later ids (d.values.flatMap operandsOf))
      (attemptSection root area read) := by
  unfold attemptSection
  split_ifs
  · refine (leaves_bodies operandsOf h).map fun later ids xs ⟨hkeys, hgathered⟩ => ?_
    -- Entities are put under their names; where names repeat, the last one is left.
    have hremains : Remains kept (Entries.ofList xs) xs :=
      Entries.remains_ofList fun hk => hkeys ▸ hnames hk
    have hvalues := hgathered.of_remains (hremains.flatMap fun x => operandsOf x.2)
    simpa only [Dict.values, Entries.values, Dict.ofList, List.flatMap_map] using hvalues
  · exact .failure

/-- A section whose entities are mirrored is mirrored. -/
theorem mirrors_attemptSection {R : Placeholders → α → β → Prop}
    {readDirectly : String → Node → Resolution Unit β}
    (hgenuine : ∀ name body, Resolution.Genuine (read name body))
    (h : ∀ name body table,
      Mirrors table R (read name body).attempt (readDirectly name body).attempt)
    (table : Placeholders) :
    Mirrors table (fun later => Dict.Related (R later)) (attemptSection root area read)
      (attemptSection root area readDirectly) := by
  unfold attemptSection
  split_ifs
  · refine (Mirrors.mapM (fun e _ => (hgenuine e.1 e.2).grows.map _) (fun e _ table =>
      (h e.1 e.2 table).map (W := fun later => Entries.Related (R later)) fun later x y hxy =>
        ⟨rfl, hxy⟩) table).map fun later xs ys hxs => ?_
    exact Entries.forall₂_ofList hxs.2
  · exact .failure

/-! ## Literal sections -/

/-- Reading a section of literal entities records nothing, whether or not one of them replaces
another. -/
theorem leaves_literalSection {read : String → Node → Except Fault α} :
    Leaves (Placeholder.Recorded kept) (fun later ids _ => Operand.Gathered kept later ids [])
      (attemptSection root area fun name body => Resolution.ofExcept (read name body)) := by
  unfold attemptSection
  split_ifs
  · have hbodies : ∀ e ∈ entities area (section? root area), Leaves (Placeholder.Recorded kept)
        (fun later ids (_ : α) => Operand.Gathered kept later ids [])
        (Resolution.ofExcept (read e.1 e.2) : Resolution Placeholders α).attempt := by
      intro e _
      cases read e.1 e.2 with
      | error fault => exact .failure
      | ok a => exact .pure fun _ => .nil
    refine (leaves_bodies (fun _ => []) hbodies).map fun later ids xs ⟨_, hgathered⟩ => ?_
    rwa [List.flatMap_eq_nil_iff.2 fun _ _ => rfl] at hgathered
  · exact .failure

/-- A section of literal entities is the same on both sides. -/
theorem mirrors_literalSection {read : String → Node → Except Fault α}
    (hgenuine : ∀ name body, Except.Genuine (read name body)) (table : Placeholders) :
    Mirrors table (fun _ d d' => d = d')
      (attemptSection root area fun name body => Resolution.ofExcept (read name body))
      (attemptSection root area fun name body => Resolution.ofExcept (read name body)) := by
  have hentities (name : String) (body : Node) (table : Placeholders) :
      Mirrors table (fun _ => Eq) (Resolution.ofExcept (read name body)).attempt
        (Resolution.ofExcept (read name body)).attempt := by
    cases read name body with
    | error fault => exact .failure
    | ok a => exact .pure fun _ _ => rfl
  refine (mirrors_attemptSection (fun name body => .ofExcept (hgenuine name body)) hentities
    table).mono fun later d d' hd => ?_
  -- What is read is determined, so both sides have the same entities.
  have hself : Dict.Related Eq d d := .refl (fun _ => rfl) d
  exact Determined.dict (fun a b c hab hac => hab.symm.trans hac) d d d' hself hd

end Document

/-! ## Templates -/

namespace Template

open Document

variable {root : List (Node × Node)}

/-- Elaborating a document while operands are staged records what the operands of the template
hold. -/
theorem leaves_attemptSections (kept : Prop)
    (hkept : kept → (Node.map root).textsDiffer = true ∧ NamesDiffer root) :
    Leaves (Placeholder.Recorded kept)
      (fun later ids t => Operand.Gathered kept later ids (t.operands.map Prod.snd))
      (attemptSections Placeholder.staging root) := by
  have hbody (area : Section) : ∀ e ∈ entities area (section? root area),
      kept → e.2.textsDiffer = true := fun e he hk => everyMapping_of_mem_entities (hkept hk).1 he
  have hnames {area : Section} (harea : area.HoldsOperands) (hk : kept) :
      (Entries.keys (entities area (section? root area))).Nodup := (hkept hk).2 area harea
  unfold attemptSections
  refine leaves_literalSection.bind fun parameters => ?_
  refine leaves_literalSection.bind fun mappings => ?_
  refine (leaves_attemptSection (fun o => [o]) (hnames (.inl rfl)) fun e he =>
    Node.leaves_operand (hbody _ e he) _).bind fun conditions => ?_
  refine (leaves_attemptSection (fun r => r.operands.map Prod.snd) (hnames (.inr (.inl rfl)))
    fun e he => Resource.leaves_ofNode (hbody _ e he)).bind fun resources => ?_
  refine (leaves_attemptSection (fun out => out.operands.map Prod.snd) (hnames (.inr (.inr rfl)))
    fun e he => Output.leaves_ofNode (hbody _ e he)).bind fun outputs => ?_
  -- The sections are gathered from the last one back; those of literal entities hold nothing.
  refine .pure fun later ids₅ houtputs ids₄ hresources ids₃ hconditions ids₂ hmappings ids₁
    hparameters => ?_
  have hgathered := hparameters.append
    (hmappings.append (hconditions.append (hresources.append (houtputs.append .nil))))
  rw [map_snd_operands]
  simpa only [List.nil_append, List.append_nil, List.append_assoc] using hgathered

/-- Elaborating a document while operands are staged mirrors elaborating it directly. -/
theorem mirrors_attemptSections (root : List (Node × Node)) (table : Placeholders) :
    Mirrors table (fun later => Related (Operand.Expands later))
      (attemptSections Placeholder.staging root) (attemptSections Staging.none root) := by
  have hmappingsGrow : Grows (attemptSection root .mappings fun name body =>
      Resolution.ofExcept (Mapping.ofNode name body)) :=
    grows_attemptSection fun name body => .ofExcept (Mapping.genuine_ofNode name body)
  have hconditionsGrow :
      Grows (attemptSection root .conditions (conditionOfNode Placeholder.staging)) :=
    grows_attemptSection genuine_conditionOfNode
  have hresourcesGrow :
      Grows (attemptSection root .resources (Resource.ofNode Placeholder.staging)) :=
    grows_attemptSection Resource.genuine_ofNode
  have houtputsGrow : Grows (attemptSection root .outputs (Output.ofNode Placeholder.staging)) :=
    grows_attemptSection Output.genuine_ofNode
  unfold attemptSections
  refine (mirrors_literalSection Parameter.genuine_ofNode table).bind
    (fun _ => hmappingsGrow.bind fun _ => hconditionsGrow.bind fun _ => hresourcesGrow.bind fun _ =>
      houtputsGrow.bind fun _ => .pure _) fun parameters parameters' n₁ h₁ _ => ?_
  refine (mirrors_literalSection Mapping.genuine_ofNode _).bind
    (fun _ => hconditionsGrow.bind fun _ => hresourcesGrow.bind fun _ =>
      houtputsGrow.bind fun _ => .pure _) fun mappings mappings' n₂ h₂ _ => ?_
  refine (mirrors_attemptSection genuine_conditionOfNode
    (fun name body => Node.mirrors_resolve body _) _).bind
    (fun _ => hresourcesGrow.bind fun _ => houtputsGrow.bind fun _ => .pure _)
    fun conditions conditions' n₃ h₃ hextends₃ => ?_
  refine (mirrors_attemptSection Resource.genuine_ofNode Resource.mirrors_ofNode _).bind
    (fun _ => houtputsGrow.bind fun _ => .pure _) fun resources resources' n₄ h₄ hextends₄ => ?_
  refine (mirrors_attemptSection Output.genuine_ofNode Output.mirrors_ofNode _).bind
    (fun _ => .pure _) fun outputs outputs' n₅ h₅ hextends₅ => ?_
  -- Each section is related in the table that it leaves, so also in the tables that extend it.
  obtain rfl := h₁ n₁ (.refl n₁)
  obtain rfl := h₂ n₂ (.refl n₂)
  refine .pure fun later hlater => ⟨rfl, rfl, rfl, rfl, ?_, ?_, ?_⟩
  · exact h₃ later ((hlater.trans hextends₅).trans hextends₄)
  · exact h₄ later (hlater.trans hextends₅)
  · exact h₅ later hlater

end Template

end StackTemplate
