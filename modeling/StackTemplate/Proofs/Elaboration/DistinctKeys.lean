import StackTemplate.Configuration
import StackTemplate.Proofs.Elaboration.LiteralSections
import StackTemplate.Proofs.Elaboration.WellFormed
import StackTemplate.Proofs.Evaluation.Equality

/-!
# Keys of what is read

A document may have a mapping in which keys with the same text occur twice; of such entries the last
one counts when the mapping is read. So keys differ in every map that a template or a configuration
brings into an evaluation, at any depth.

* `Value.keysDiffer_of_ofNode?`, `Node.keysDiffer_of_denotes` : the values and the operands that are
  read from documents.
* `Template.keysDiffer_of_parseDocument` : the scope and the operands of a template that was read.
-/

namespace StackTemplate

/-! ## Values -/

namespace Value

/-- Each entry of a map is read from an entry of the mapping. -/
theorem exists_of_mem_ofEntries? {entries : List (Node × Node)} {es : List (String × Value)}
    (h : ofEntries? entries = some es) {e : String × Value} (he : e ∈ es) :
    ∃ b ∈ entries, ofNode? b.2 = some e.2 := by
  induction entries generalizing es with
  | nil =>
    cases h
    cases he
  | cons b entries ih =>
    rcases b with ⟨key, node⟩
    rw [ofEntries?] at h
    split at h
    · next k v _ hv =>
      rcases Option.map_eq_some_iff.1 h with ⟨rest, hrest, rfl⟩
      rcases List.mem_cons.1 he with rfl | he
      · exact ⟨(key, node), List.mem_cons_self, hv⟩
      · rcases ih hrest he with ⟨b, hb, hbe⟩
        exact ⟨b, List.mem_cons_of_mem _ hb, hbe⟩
    · cases h

/-- In a value that is read keys differ. -/
theorem keysDiffer_of_ofNode? {node : Node} {v : Value} (h : ofNode? node = some v) :
    v.KeysDiffer := by
  -- The induction is on the size of the node: the values inside are read from smaller ones.
  induction hn : sizeOf node using Nat.strongRecOn generalizing node v with
  | ind n ih =>
    subst hn
    cases node with
    | null | bool b | float x | string text =>
      cases h
      exact .scalar _
    | int i =>
      rw [ofNode?] at h
      rcases Option.map_eq_some_iff.1 h with ⟨s, -, rfl⟩
      exact .scalar s
    | tagged name content => cases h
    | seq items =>
      rcases Option.map_eq_some_iff.1 h with ⟨vs, hvs, rfl⟩
      apply KeysDiffer.list
      intro v hv
      rcases exists_mem_of_forall₂ (ofItems?_eq_some_iff.1 hvs) hv with ⟨x, hx, hxv⟩
      have hsize := List.sizeOf_lt_of_mem hx
      exact ih (sizeOf x) (by simp only [Node.seq.sizeOf_spec]; omega) hxv rfl
    | map entries =>
      rcases Option.map_eq_some_iff.1 h with ⟨es, hes, rfl⟩
      -- Of entries with one key the last one is kept.
      apply KeysDiffer.map (Entries.nodup_keys_ofList es)
      intro e he
      rcases exists_of_mem_ofEntries? hes (Entries.mem_of_mem_ofList he) with ⟨b, hb, hbe⟩
      have hsize := List.sizeOf_lt_of_mem hb
      rcases b with ⟨key, x⟩
      simp only [Prod.mk.sizeOf_spec] at hsize
      exact ih (sizeOf x) (by simp only [Node.map.sizeOf_spec]; omega) hbe rfl

end Value

/-! ## Mappings -/

namespace Mapping

/-- In every value of a mapping keys differ. -/
def KeysDiffer (m : Mapping) : Prop :=
  ∀ level ∈ Dict.values m, ∀ v ∈ level.values, v.KeysDiffer

/-- One more entry keeps keys different, since it takes the place of any with its key. -/
theorem keysDiffer_of_withEntry {path topKey : String} {m m' : Mapping} {e : String × Node}
    (h : m.KeysDiffer) (hread : withEntry path topKey m e = .ok m') : m'.KeysDiffer := by
  rcases withEntry_eq_ok.1 hread with ⟨v, hv, rfl⟩
  intro level hlevel w hw
  rcases List.mem_map.1 hlevel with ⟨b, hb, rfl⟩
  rcases Entries.mem_of_mem_insert hb with rfl | hb
  · rcases List.mem_map.1 hw with ⟨c, hc, rfl⟩
    rcases Entries.mem_of_mem_insert hc with rfl | hc
    · exact Value.keysDiffer_of_ofNode? hv
    · -- The level had this entry before.
      cases hfind : Dict.find? m topKey with
      | none =>
        rw [hfind] at hc
        cases hc
      | some old =>
        rw [hfind] at hc
        exact h old (Dict.mem_values_of_find? hfind) c.2 (List.mem_map_of_mem hc)
  · exact h b.2 (List.mem_map_of_mem hb) w hw

/-- In a mapping that is read keys differ. -/
theorem keysDiffer_of_ofNode {name : String} {body : Node} {m : Mapping}
    (h : ofNode name body = .ok m) : m.KeysDiffer := by
  rcases bind_eq_ok.1 h with ⟨⟨⟩, -, h⟩
  rcases bind_eq_ok.1 h with ⟨levels, -, h⟩
  refine of_foldlM_eq_ok (P := KeysDiffer) h (by rintro _ ⟨⟩) fun e _ m m' hm hlevel => ?_
  rcases bind_eq_ok.1 hlevel with ⟨entries, -, hentries⟩
  refine of_foldlM_eq_ok (P := KeysDiffer) hentries hm fun e _ m m' hm hentry => ?_
  exact keysDiffer_of_withEntry hm hentry

end Mapping

/-! ## Operands -/

/-- In an operand keys differ if they do in its parts, and at the top where it is a map. -/
theorem Operand.keysDiffer_of_parts {o : Operand}
    (hkeys : ∀ entries, o = .map entries → (Entries.keys entries).Nodup)
    (hparts : ∀ x ∈ o.parts, x.KeysDiffer) : o.KeysDiffer := by
  cases o with
  | scalar s => exact .scalar s
  | pending id => exact .pending id
  | list items => exact .list hparts
  | map entries => exact .map (hkeys entries rfl) fun e he => hparts e.2 (List.mem_map_of_mem he)
  | call c => exact .call hparts

namespace Node

variable {ctx : Context} {node : Node} {o : Operand}

/-- A map that a layer builds has the last entry for each key. -/
theorem HasLayer.nodup_keys {l : Layer Node} {ys : List Operand} {entries : List (String × Operand)}
    (h : node.HasLayer ctx l) (hbuild : (l.refill ys).build = .map entries) :
    (Entries.keys entries).Nodup := by
  cases h with
  | literal _ _ _ => cases hbuild
  | call _ _ harguments =>
    -- A call that is built stays a call.
    have hsub := Arguments.function_ne_sub_of_ofNode harguments
    rw [Layer.refill, Layer.build_call (by simpa using hsub)] at hbuild
    cases hbuild
  | substitution _ _ _ _ => cases hbuild
  | list _ => cases hbuild
  | map _ _ _ =>
    cases hbuild
    exact Entries.nodup_keys_ofList _
  | scalar _ => cases hbuild

/-- In an operand that is read keys differ. -/
theorem keysDiffer_of_denotes (h : node.Denotes ctx o) : o.KeysDiffer := by
  induction node using Node.induction generalizing ctx o with
  | step node ih =>
    rcases denotes_iff.1 h with ⟨l, ys, hlayer, hchildren, rfl⟩
    have hhas := layer?_eq_some_iff.1 hlayer
    apply Operand.keysDiffer_of_parts
    · intro entries hbuild
      exact hhas.nodup_keys hbuild
    · intro x hx
      -- A part is an operand that was read from a node inside, or the text of a substitution.
      rcases hhas.mem_of_mem_parts hchildren.length_eq.symm hx with hmem | ⟨text, rfl⟩
      · rcases exists_mem_of_forall₂ hchildren hmem with ⟨⟨slot, part⟩, hpart, hdenotes⟩
        exact ih part (within_of_layer hlayer hpart) hdenotes
      · exact .scalar (.string text)

theorem yields_keysDiffer (area : Section) :
    Yields area (fun _ => True) Operand.KeysDiffer :=
  ⟨fun _ _ => trivial, fun _ h => keysDiffer_of_denotes h⟩

end Node

/-! ## Templates and configurations -/

/-- In the settings that a configuration gives keys differ: all of them are scalars. -/
theorem Configuration.keysDiffer_of_settings {c : Configuration} {settings : Settings}
    (h : c.settings = .ok settings) :
    (∀ v ∈ settings.pseudo.overrides.values, v.KeysDiffer) ∧
      (∀ v ∈ settings.imports.values, v.KeysDiffer) ∧ settings.attributes = [] := by
  rcases bind_eq_ok.1 h with ⟨pseudo, hpseudo, h⟩
  cases h
  refine ⟨?_, ?_, rfl⟩
  · -- An override is a text, whichever pseudo-parameter it is for.
    refine of_foldlM_eq_ok (P := fun values : PseudoValues =>
      ∀ v ∈ values.overrides.values, v.KeysDiffer) hpseudo (by rintro _ ⟨⟩) ?_
    intro e _ values values' hvalues hoverride v hv
    rcases e with ⟨name, text⟩
    simp only at hoverride
    split at hoverride
    · cases hoverride
      rcases List.mem_map.1 hv with ⟨b, hb, rfl⟩
      rcases Entries.mem_of_mem_insert hb with rfl | hb
      · exact .scalar (.string text)
      · exact hvalues b.2 (List.mem_map_of_mem hb)
    · cases hoverride
  · intro v hv
    rcases List.mem_map.1 (Entries.mem_values_of_mem_values_ofList hv) with ⟨e, he, rfl⟩
    rcases List.mem_map.1 he with ⟨b, -, rfl⟩
    exact .scalar (.string b.2)

namespace Template

open Document

variable {document : Node} {t : Template}

/-- In what is read from a document and from a configuration keys differ. -/
theorem keysDiffer_of_parseDocument {c : Configuration} {settings : Settings}
    (hparse : parseDocument document = .ok t) (hsettings : c.settings = .ok settings) :
    Scope.KeysDiffer ⟨t, settings⟩ ∧ ∀ e ∈ t.operands, e.2.KeysDiffer := by
  have hdirect := ofDocumentDirectly_of_ofDocument (parseDocument_eq_ok.1 hparse)
  rcases exists_readDirectly hdirect with ⟨root, -, hread⟩
  constructor
  · rcases Configuration.keysDiffer_of_settings hsettings with ⟨hpseudo, himports, hattributes⟩
    refine ⟨?_, hpseudo, himports, ?_⟩
    · have hmappings := sectionWritable_of_attemptSection (P := Mapping.KeysDiffer) hread.mappings
        fun e _ m hm => Mapping.keysDiffer_of_ofNode (Resolution.attempt_ofExcept_eq_some.1 hm).1
      exact hmappings.values
    · rw [hattributes]
      rintro _ ⟨⟩
  · -- Reading directly is enough, since both readings of an accepted document agree.
    have hconditions := sectionWritable_of_attemptSection (P := Operand.KeysDiffer) hread.conditions
      fun e _ o ho => (Node.yields_keysDiffer .conditions).operands trivial ho
    have hresources := sectionWritable_of_attemptSection (P := Resource.Every Operand.KeysDiffer)
      hread.resources fun e _ r hr => Resource.every_of_ofNode (Node.yields_keysDiffer _) trivial hr
    have houtputs := sectionWritable_of_attemptSection (P := Output.Every Operand.KeysDiffer)
      hread.outputs fun e _ out hout => Output.every_of_ofNode (Node.yields_keysDiffer _) trivial hout
    intro e he
    simp only [operands, List.mem_append, List.mem_map, List.mem_flatMap] at he
    rcases he with (⟨b, hb, rfl⟩ | ⟨b, hb, b', hb', rfl⟩) | ⟨b, hb, b', hb', rfl⟩
    · exact hconditions.values b.2 (List.mem_map_of_mem hb)
    · exact Resource.every_iff.1 (hresources.values b.2 (List.mem_map_of_mem hb)) b' hb'
    · exact Output.every_iff.1 (houtputs.values b.2 (List.mem_map_of_mem hb)) b' hb'

end Template

end StackTemplate
