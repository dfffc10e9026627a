import StackTemplate.Proofs.Elaboration.Attributes
import StackTemplate.Proofs.Elaboration.Sections

/-!
# Written sections

A section is written as a mapping from the names of its entities to what they are written as, and
left out where there are none. Where the names are logical names and each entity is read from what
it is written as, the section is read from what it is written as.

* `Document.SectionWritable` : logical names, and entities that can be written.
* `Document.sectionWritable_of_attemptSection` : what holds of the entities of a section that was
  read.
* `Document.section?_present` : the sections of a document that is written as attributes.
* `Document.attemptSection_namedNode?` : reading a written section.
-/

namespace StackTemplate.Document

variable {α : Type} {root : List (Node × Node)} {area : Section} {d : Dict α}

/-! ## Sections that were read -/

/-- Every entity of a section has a logical name and can be written. -/
structure SectionWritable (area : Section) (P : α → Prop) (d : Dict α) : Prop where
  names : ∀ key ∈ d.keys, logicalName area (.string key) = .ok key
  values : ∀ x ∈ d.values, P x

/-- A logical name is one without its tags. -/
theorem logicalName_string {key : Node} {name : String} (h : logicalName area key = .ok name) :
    logicalName area (.string name) = .ok name := by
  unfold logicalName at h
  split at h
  · cases h
  · split at h
    · next hname =>
      cases h
      exact if_pos hname
    · cases h

/-- The entities of a section have logical names. -/
theorem logicalName_of_mem_entities {content : Option Node} {e : String × Node}
    (he : e ∈ entities area content) : logicalName area (.string e.1) = .ok e.1 := by
  unfold entities at he
  split at he
  · rcases List.mem_filterMap.1 he with ⟨⟨key, body⟩, -, he⟩
    simp only at he
    split at he
    · next hname =>
      cases he
      exact logicalName_string hname
    · cases he
  · cases he

/-- What reading an entity from its body establishes holds of the entities of a section. -/
theorem sectionWritable_of_attemptSection {P : α → Prop} {read : String → Node → Resolution Unit α}
    (h : attemptSection root area read () = some (d, ()))
    (hread : ∀ e ∈ entities area (section? root area), ∀ x,
      (read e.1 e.2).attempt () = some (x, ()) → P x) : SectionWritable area P d := by
  unfold attemptSection at h
  split_ifs at h
  · rcases Attempt.map_eq_some.1 h with ⟨es, hes, rfl⟩
    rw [attemptEntities, Attempt.mapM_eq_some_iff] at hes
    -- What is kept under a name was read from one of the bodies under it.
    have hentity : ∀ e ∈ (Dict.ofList es).entries, ∃ b ∈ entities area (section? root area),
        b.1 = e.1 ∧ (read b.1 b.2).attempt () = some (e.2, ()) := by
      intro e he
      rcases exists_mem_of_forall₂ hes (Entries.mem_of_mem_ofList he) with ⟨b, hb, hbe⟩
      rcases Attempt.map_eq_some.1 hbe with ⟨x, hx, rfl⟩
      exact ⟨b, hb, rfl, hx⟩
    constructor
    · intro key hkey
      rcases List.mem_map.1 hkey with ⟨e, he, rfl⟩
      rcases hentity e he with ⟨b, hb, hname, -⟩
      rw [← hname]
      exact logicalName_of_mem_entities hb
    · intro x hx
      rcases List.mem_map.1 hx with ⟨e, he, rfl⟩
      rcases hentity e he with ⟨b, hb, -, hbe⟩
      exact hread b hb e.2 hbe
  · cases h

/-! ## Reading written sections -/

/-- A section of a document with different string keys is what stands under its key. -/
theorem section?_string {es : List (String × Node)} (hkeys : (Entries.keys es).Nodup)
    {content : Node} : section? (es.map fun e => (.string e.1, e.2)) area = some content ↔
      (area.key, content) ∈ es := by
  have hmem {e : Node × Node} (he : e ∈ es.map fun e => (Node.string e.1, e.2))
      (hkey : e.1.string? = some area.key) : (area.key, e.2) ∈ es := by
    rcases List.mem_map.1 he with ⟨b, hb, rfl⟩
    have hname : b.1 = area.key := Option.some.inj hkey
    rwa [← hname]
  -- Sections are looked up from the last entry back; with different keys this makes no difference.
  have hfound {content : Node} (h : section? (es.map fun e => (Node.string e.1, e.2)) area =
      some content) : (area.key, content) ∈ es := by
    rcases Option.map_eq_some_iff.1 h with ⟨e, he, rfl⟩
    exact hmem (List.mem_reverse.1 (List.mem_of_find?_eq_some he))
      (by simpa using List.find?_some he)
  constructor
  · exact hfound
  · intro h
    cases hsection : section? (es.map fun e => (Node.string e.1, e.2)) area with
    | none =>
      rw [section?, Option.map_eq_none_iff, List.find?_eq_none] at hsection
      have hin : (Node.string area.key, content) ∈ (es.map fun e => (Node.string e.1, e.2)).reverse :=
        List.mem_reverse.2 (List.mem_map.2 ⟨_, h, rfl⟩)
      exact absurd (by simp [Node.string?, Node.untagged]) (hsection _ hin)
    | some content' =>
      -- The key stands for one node only.
      have hfind := Entries.find?_eq_some_of_mem hkeys (hfound hsection)
      rw [Entries.find?_eq_some_of_mem hkeys h] at hfind
      exact hfind.symm

/-- A section is the attribute that is written under its key. -/
theorem section?_present {attributes : List (String × Option Node)} {content : Option Node}
    (hkeys : (Entries.keys attributes).Nodup) (h : (area.key, content) ∈ attributes) : section?
      ((present attributes).map fun e => (.string e.1, e.2)) area = content := by
  have hpresent := hkeys.sublist (Entries.keys_present_sublist attributes)
  refine Option.ext fun node => ?_
  rw [section?_string hpresent, mem_present]
  constructor
  · -- A key stands for one attribute only.
    intro hnode
    have hfind := Entries.find?_eq_some_of_mem hkeys hnode
    rw [Entries.find?_eq_some_of_mem hkeys h] at hfind
    exact Option.some.inj hfind
  · rintro rfl
    exact h

/-- A section whose key is none of those written is absent. -/
theorem section?_present_of_not_mem {attributes : List (String × Option Node)}
    (hkeys : (Entries.keys attributes).Nodup) (h : area.key ∉ Entries.keys attributes) : section?
      ((present attributes).map fun e => (.string e.1, e.2)) area = none := by
  have hpresent := hkeys.sublist (Entries.keys_present_sublist attributes)
  refine Option.eq_none_iff_forall_ne_some.2 fun node hnode => h ?_
  rw [section?_string hpresent, mem_present] at hnode
  exact List.mem_map.2 ⟨_, hnode, rfl⟩

variable {P : α → Prop} {write : α → Node}

/-- The entities of a written section are what its entities are written as. -/
theorem entities_namedNode? (h : SectionWritable area P d) :
    entities area (namedNode? write d) = d.entries.map fun e => (e.1, write e.2) := by
  unfold namedNode?
  split
  · next hempty =>
    rw [List.isEmpty_iff.1 hempty]
    rfl
  · -- Each name is logical, so no entity is left out.
    rw [namedNode, entities, List.filterMap_map, ← List.filterMap_eq_map]
    refine List.filterMap_congr fun e he => ?_
    simp only [Function.comp_def, h.names e.1 (List.mem_map.2 ⟨e, he, rfl⟩)]

/-- A written section has no fault of its own. -/
theorem sectionFaults_namedNode? (h : SectionWritable area P d) :
    sectionFaults area (namedNode? write d) = [] := by
  unfold namedNode?
  split
  · rfl
  · rw [namedNode, sectionFaults, List.filterMap_map, List.filterMap_eq_nil_iff]
    intro e he
    simp only [Function.comp_def, h.names e.1 (List.mem_map.2 ⟨e, he, rfl⟩)]

/-- A section is read from what it is written as, if each entity is. -/
theorem attemptSection_namedNode? {read : String → Node → Resolution Unit α}
    (hsection : section? root area = namedNode? write d) (h : SectionWritable area P d)
    (hread : ∀ x ∈ d.values, ∀ name, (read name (write x)).attempt () = some (x, ())) :
    attemptSection root area read () = some (d, ()) := by
  have hentities : attemptEntities read (d.entries.map fun e => (e.1, write e.2)) () =
      some (d.entries, ()) := by
    rw [attemptEntities, Attempt.mapM_eq_some_iff, List.forall₂_map_left_iff, List.forall₂_same]
    intro e he
    exact Attempt.map_eq_some.2 ⟨e.2, hread e.2 (List.mem_map.2 ⟨e, he, rfl⟩) e.1, rfl⟩
  rw [attemptSection, hsection, if_pos (sectionFaults_namedNode? h), entities_namedNode? h]
  exact Attempt.map_eq_some.2 ⟨_, hentities, Dict.ofList_entries d⟩

/-- A written section has as many different names as entities. -/
theorem nodup_keys_entities_namedNode? (h : SectionWritable area P d) :
    (Entries.keys (entities area (namedNode? write d))).Nodup := by
  rw [entities_namedNode? h, Entries.keys_map]
  exact d.nodup_keys

end StackTemplate.Document
