import StackTemplate.Proofs.Elaboration.Attributes

/-!
# Written parameters and mappings

A parameter or a mapping that was read from a document is written as a literal node without repeated
keys, from which it is read again. A mapping whose only top-level key is one of a call is the
exception: it is written as a call.

* `Parameter.ofNode_toNode`, `Mapping.ofNode_toNode` : reading what is written.
* `Parameter.writable_of_ofNode`, `Mapping.writable_of_ofNode` : what is read can be written.
-/

namespace StackTemplate

namespace Parameter

/-- The scalars of a parameter are read from what they are written as. -/
def Writable (p : Parameter) : Prop :=
  ∀ s ∈ p.default.toList ++ p.allowedValues, Scalar.ofNode? s.toNode = some s

variable {p : Parameter} {name : String} {body : Node}

/-- One more attribute keeps the scalars of a parameter writable. -/
theorem writable_of_withAttribute {path : String} {p p' : Parameter} {node : Node}
    (h : p.Writable) (hread : p.withAttribute path name node = .ok p') : p'.Writable := by
  have hscalar {path : String} {node : Node} {s : Scalar} (hs : Entry.scalar path node = .ok s) :
      Scalar.ofNode? s.toNode = some s := by
    unfold Entry.scalar at hs
    split at hs
    · next s' hs' =>
      cases hs
      exact Scalar.ofNode?_toNode_of_ofNode? hs'
    · cases hs
  -- Scalars are brought by the default and by the list of allowed values.
  unfold withAttribute at hread
  split_ifs at hread
  · cases hread
    exact h
  · rcases bind_eq_ok.1 hread with ⟨s, hs, hread⟩
    cases hread
    intro s' hs'
    rcases List.mem_append.1 hs' with hs' | hs'
    · obtain rfl : s' = s := by simpa using hs'
      exact hscalar hs
    · exact h s' (List.mem_append_right _ hs')
  · rcases bind_eq_ok.1 hread with ⟨text, _, hread⟩
    cases hread
    exact h
  · rcases bind_eq_ok.1 hread with ⟨ss, hss, hread⟩
    cases hread
    intro s hs
    rcases List.mem_append.1 hs with hs | hs
    · exact h s (List.mem_append_left _ hs)
    · cases node with
      | seq items =>
        rcases Entry.exists_of_mem_readItems hss hs with ⟨path, node, hnode⟩
        exact hscalar hnode
      | _ => cases hss
  · rcases bind_eq_ok.1 hread with ⟨flag, _, hread⟩
    cases hread
    exact h
  · cases hread
    exact h

/-- A parameter that was read is writable. -/
theorem writable_of_ofNode (h : ofNode name body = .ok p) : p.Writable := by
  unfold ofNode at h
  rcases bind_eq_ok.1 h with ⟨_, _, h⟩
  rcases bind_eq_ok.1 h with ⟨attributes, _, h⟩
  rcases bind_eq_ok.1 h with ⟨node, _, h⟩
  rcases bind_eq_ok.1 h with ⟨type, _, h⟩
  refine of_foldlM_eq_ok (P := Writable) h (by rintro _ ⟨⟩) ?_
  exact fun e _ p p' hp hread => writable_of_withAttribute hp hread

/-- The attributes that a parameter is written with. -/
def attributes (p : Parameter) : List (String × Option Node) :=
  [("Type", some (.string p.type)),
    ("Default", p.default.map Scalar.toNode),
    ("Description", p.description.map .string),
    ("AllowedValues", listNode? Scalar.toNode p.allowedValues),
    ("NoEcho", if p.noEcho then some (.bool true) else none)]

theorem nodup_keys_attributes (p : Parameter) : (Entries.keys p.attributes).Nodup := by
  simp [attributes, Entries.keys]

/-- What holds of strings, of the flag and of the scalars holds of all attributes. -/
theorem forall_attributes {P : Node → Prop} (hstring : ∀ text, P (.string text))
    (htrue : P (.bool true)) (hdefault : ∀ s, p.default = some s → P s.toNode)
    (hallowed : P (.seq (p.allowedValues.map Scalar.toNode))) :
    ∀ e ∈ p.attributes, ∀ node, e.2 = some node → P node := by
  refine List.forall_mem_cons.2 ⟨by rintro _ ⟨⟩; exact hstring p.type, ?_⟩
  refine List.forall_mem_cons.2 ⟨fun _ => of_map_eq_some hdefault, ?_⟩
  refine List.forall_mem_cons.2 ⟨fun _ => of_map_eq_some fun text _ => hstring text, ?_⟩
  refine List.forall_mem_cons.2 ⟨fun _ => of_listNode?_eq_some hallowed, ?_⟩
  refine List.forall_mem_singleton.2 fun node hnode => ?_
  split at hnode <;> cases hnode
  exact htrue

/-- A parameter is written as literal data. -/
theorem literal_toNode (h : p.Writable) : p.toNode.Literal .parameters := by
  change (attributesNode p.attributes).Literal .parameters
  rw [attributesNode_eq]
  refine Node.literal_map (fun key hkey => ?_) fun x hx => ?_
  · -- Of several attributes the type is the first, so a single one is the type.
    obtain rfl : "Type" = key := (List.cons.inj hkey).1
    decide
  · rcases List.mem_map.1 hx with ⟨e, he, rfl⟩
    refine forall_attributes (P := Node.Literal .parameters) (fun _ => .leaf rfl) (.leaf rfl)
      (fun s hs => ?_) (.seq ?_) _ (mem_present.1 he) e.2 rfl
    · exact .leaf (h s (List.mem_append_left _ (Option.mem_toList.2 hs)))
    · rw [List.forall_mem_map]
      exact fun s hs => .leaf (h s (List.mem_append_right _ hs))

theorem textsDiffer_toNode (p : Parameter) : p.toNode.textsDiffer = true := by
  refine Node.textsDiffer_attributesNode p.nodup_keys_attributes ?_
  refine forall_attributes (P := fun node => node.textsDiffer = true) (fun _ => rfl) rfl
    (fun s _ => s.textsDiffer_toNode) ?_
  rw [Node.textsDiffer_seq, List.forall_mem_map]
  exact fun s _ => s.textsDiffer_toNode

/-! ### Reading a written parameter -/

section

variable {path : String}

/-- The default value is read from what it is written as. -/
theorem readPresent_default (hp : p.default = none) {default : Option Scalar}
    (h : ∀ s, default = some s → Scalar.ofNode? s.toNode = some s) :
    readPresent (fun p e => p.withAttribute path e.1 e.2) p
      ("Default", default.map Scalar.toNode) = .ok { p with default } := by
  refine readPresent_map (m := Except Fault) (fun default => { p with default }) (by rw [← hp])
    fun s hs => ?_
  simp only [withAttribute, Entry.scalar, h s hs]
  rfl

/-- The description is read from what it is written as. -/
theorem readPresent_description (hp : p.description = none) {description : Option String} :
    readPresent (fun p e => p.withAttribute path e.1 e.2) p
      ("Description", description.map .string) = .ok { p with description } :=
  readPresent_map (m := Except Fault) (fun description => { p with description })
    (by rw [← hp]) fun _ _ => rfl

/-- The allowed values are read from what they are written as. -/
theorem readPresent_allowedValues (hp : p.allowedValues = []) {allowedValues : List Scalar}
    (h : ∀ s ∈ allowedValues, Scalar.ofNode? s.toNode = some s) :
    readPresent (fun p e => p.withAttribute path e.1 e.2) p
      ("AllowedValues", listNode? Scalar.toNode allowedValues) = .ok { p with allowedValues } := by
  cases allowedValues with
  | nil => exact congrArg Except.ok (by rw [← hp])
  | cons s ss =>
    have hitems := Entry.readItems_map Entry.scalar Scalar.toNode (path ++ "." ++ "AllowedValues")
      0 (s :: ss) fun x hx path => by rw [Entry.scalar, h x hx]
    change (Entry.readItems Entry.scalar _ 0 _ >>= fun allowedValues =>
      pure { p with allowedValues }) = _
    rw [hitems]
    rfl

/-- The flag is read from what it is written as. -/
theorem readPresent_noEcho (hp : p.noEcho = false) {noEcho : Bool} :
    readPresent (fun p e => p.withAttribute path e.1 e.2) p
      ("NoEcho", if noEcho then some (.bool true) else none) = .ok { p with noEcho } := by
  cases noEcho with
  | false => exact congrArg Except.ok (by rw [← hp])
  | true => rfl

end

/-- A parameter is read from what it is written as. -/
theorem ofNode_toNode (h : p.Writable) : ofNode name p.toNode = .ok p := by
  have hattributes : Entry.attributes (Section.parameters.key ++ "." ++ name) p.toNode =
      .ok (present p.attributes) := by
    change Entry.attributes _ (attributesNode p.attributes) = _
    rw [attributesNode_eq]
    exact Entry.attributes_string
      (p.nodup_keys_attributes.sublist (Entries.keys_present_sublist p.attributes))
  unfold ofNode
  refine bind_eq_ok.2 ⟨(), (literal_toNode h).checkLiteral _, ?_⟩
  refine bind_eq_ok.2 ⟨_, hattributes, bind_eq_ok.2 ⟨.string p.type, rfl, ?_⟩⟩
  refine bind_eq_ok.2 ⟨p.type, rfl, ?_⟩
  rw [foldlM_present]
  -- The attributes are read in the order in which they are written.
  refine bind_eq_ok.2 ⟨ofType p.type, rfl, ?_⟩
  refine bind_eq_ok.2 ⟨_, readPresent_default rfl fun s hs => ?_, ?_⟩
  · exact h s (List.mem_append_left _ (Option.mem_toList.2 hs))
  refine bind_eq_ok.2 ⟨_, readPresent_description rfl, ?_⟩
  refine bind_eq_ok.2 ⟨_, readPresent_allowedValues rfl fun s hs => ?_, ?_⟩
  · exact h s (List.mem_append_right _ hs)
  exact bind_eq_ok.2 ⟨_, readPresent_noEcho rfl, rfl⟩

end Parameter

/-! ## Mappings -/

namespace Mapping

def withEntry (path topKey : String) (m : Mapping) (e : String × Node) : Except Fault Mapping :=
  match Value.ofNode? e.2 with
  | some v => .ok (Dict.insert m topKey (((Dict.find? m topKey).getD ∅).insert e.1 v))
  | none => Entry.malformed (path ++ "." ++ e.1) .notLiteral

/-- An entry is added to the level of its top-level key, if its node has a value. -/
theorem withEntry_eq_ok {path topKey : String} {m m' : Mapping} {e : String × Node} :
    withEntry path topKey m e = .ok m' ↔ ∃ v, Value.ofNode? e.2 = some v ∧
      Dict.insert m topKey (((Dict.find? m topKey).getD ∅).insert e.1 v) = m' := by
  unfold withEntry
  cases Value.ofNode? e.2 with
  | none =>
    constructor
    · rintro ⟨⟩
    · rintro ⟨_, ⟨⟩, _⟩
  | some v =>
    constructor
    · rintro ⟨⟩
      exact ⟨v, rfl, rfl⟩
    · rintro ⟨_, ⟨⟩, rfl⟩
      rfl

/-- Entries that are added one after the other are added to the level of their top-level key; where
there are none, no level is added. -/
theorem foldlM_withEntry {path topKey : String} {entries : List (String × Node)} {m m' : Mapping} :
    entries.foldlM (withEntry path topKey) m = .ok m' ↔
    ∃ es, List.Forall₂ (Entries.Related fun x v => Value.ofNode? x = some v) entries es ∧
      m' = if es = [] then m
        else Dict.insert m topKey (((Dict.find? m topKey).getD ∅).insertAll es) := by
  induction entries generalizing m with
  | nil =>
    simp only [List.foldlM_nil, List.forall₂_nil_left_iff, exists_eq_left, if_true]
    exact ⟨fun h => (Except.ok.inj h).symm, fun h => congrArg Except.ok h.symm⟩
  | cons e entries ih =>
    -- All entries but the first one are added to a level that is there.
    have hstep (es : List (String × Value)) (v : Value) :
        (if es = [] then Dict.insert m topKey (((Dict.find? m topKey).getD ∅).insert e.1 v)
          else Dict.insert (Dict.insert m topKey (((Dict.find? m topKey).getD ∅).insert e.1 v)) topKey
            (((Dict.find? (Dict.insert m topKey (((Dict.find? m topKey).getD ∅).insert e.1 v))
              topKey).getD ∅).insertAll es)) =
        Dict.insert m topKey (((Dict.find? m topKey).getD ∅).insertAll ((e.1, v) :: es)) := by
      rw [Dict.find?_insert, if_pos rfl, Option.getD_some, Dict.insert_insert]
      split
      · next hnil =>
        subst hnil
        rfl
      · rfl
    -- The first value is read, and then the others, in the level that the first one has made.
    rw [List.foldlM_cons, bind_eq_ok]
    simp only [List.forall₂_cons_left_iff, withEntry_eq_ok]
    constructor
    · rintro ⟨_, ⟨v, hv, rfl⟩, hrest⟩
      rcases ih.1 hrest with ⟨es, hes, rfl⟩
      exact ⟨(e.1, v) :: es, ⟨(e.1, v), es, ⟨rfl, hv⟩, hes, rfl⟩, hstep es v⟩
    · rintro ⟨_, ⟨⟨_, v⟩, es, ⟨rfl, hv⟩, hes, rfl⟩, rfl⟩
      exact ⟨_, ⟨v, hv, rfl⟩, ih.2 ⟨es, hes, (hstep es v).symm⟩⟩

/-- A level of a mapping that can be written: it has an entry, is no call, and holds values that can
be written. -/
structure LevelWritable (level : Dict Value) : Prop where
  nonempty : level.entries ≠ []
  noCall : ∀ key, level.keys = [key] → Section.mappings.readsCall none key = false
  values : ∀ v ∈ level.values, v.Writable .mappings

/-- All levels of a mapping can be written. -/
def Writable (m : Mapping) : Prop := ∀ level ∈ Dict.values m, LevelWritable level

variable {m : Mapping} {name : String} {body : Node}

/-- A level that entries of a literal mapping were added to can be written. -/
theorem levelWritable_insertAll {path : String} {node : Node} {entries : List (String × Node)}
    {es : List (String × Value)} {level : Dict Value} (hliteral : node.Literal .mappings)
    (hkeys : node.keysDiffer = true) (hentries : Entry.attributes path node = .ok entries)
    (hes : List.Forall₂ (Entries.Related fun x v => Value.ofNode? x = some v) entries es)
    (hne : es ≠ []) (hlevel : ∀ v ∈ level.values, v.Writable .mappings) :
    LevelWritable (level.insertAll es) := by
  have hmem {key : String} : key ∈ (level.insertAll es).keys ↔
      key ∈ level.keys ∨ key ∈ Entries.keys es := by
    rw [Dict.keys, Dict.entries_insertAll, Entries.mem_keys_insertAll, Dict.keys]
  constructor
  · -- The entries that were added are there, whatever else is.
    intro hnil
    rcases List.exists_mem_of_ne_nil es hne with ⟨e, he⟩
    have hkey := hmem.2 (.inr (List.mem_map.2 ⟨e, he, rfl⟩))
    rw [Dict.keys, hnil] at hkey
    cases hkey
  · intro key hkey
    -- The entries that were added have this key only, so they are one entry.
    rcases Entry.exists_of_attributes hentries with ⟨nodeEntries, bs, rfl, hbs, rfl⟩
    have hall : ∀ k ∈ Entries.keys (Entries.ofList bs), k = key := by
      intro k hk
      rw [Entries.keys_eq_of_related hes] at hk
      have hk' := hmem.2 (.inr hk)
      rwa [hkey, List.mem_singleton] at hk'
    have hne' : Entries.keys (Entries.ofList bs) ≠ [] := by
      rw [Entries.keys_eq_of_related hes]
      exact fun hnil => hne (List.map_eq_nil_iff.1 hnil)
    have hsingle := Entries.eq_singleton_of_forall (Entries.nodup_keys_ofList bs) hne' hall
    cases hliteral with
    | leaf hs => cases hs
    | map hcall hbs' _ => exact Node.readsCall_of_call?_eq_none (hcall "") hkeys hbs hsingle
  · intro v hv
    rw [Dict.values, Dict.entries_insertAll] at hv
    rcases List.mem_map.1 hv with ⟨e, he, rfl⟩
    rcases Entries.mem_of_mem_insertAll he with he | he
    · exact hlevel e.2 (List.mem_map.2 ⟨e, he, rfl⟩)
    · rcases exists_mem_of_forall₂ hes he with ⟨b, hb, -, hbe⟩
      have hmember := Entry.mem_members_of_attributes hentries hb
      exact Value.writable_of_literal (hliteral.of_mem_members hmember)
        (Node.everyMapping_of_mem_members hkeys hmember) hbe

/-- One more level of literal data keeps a mapping writable. -/
theorem writable_of_withLevel {path topKey : String} {m m' : Mapping} {node : Node}
    (h : m.Writable) (hliteral : node.Literal .mappings) (hkeys : node.keysDiffer = true)
    (hread : withLevel path m topKey node = .ok m') : m'.Writable := by
  rcases bind_eq_ok.1 hread with ⟨entries, hentries, hfold⟩
  rcases foldlM_withEntry.1 hfold with ⟨es, hes, rfl⟩
  split
  · exact h
  · -- The level takes the place of the one that its key had.
    next hne =>
    intro level hlevel
    rcases List.mem_map.1 hlevel with ⟨e, he, rfl⟩
    rcases Entries.mem_of_mem_insert he with rfl | he
    · refine levelWritable_insertAll hliteral hkeys hentries hes hne fun v hv => ?_
      cases hfind : Dict.find? m topKey with
      | none =>
        rw [hfind] at hv
        cases hv
      | some old =>
        rw [hfind] at hv
        have hold := Dict.find?_eq_some_iff.1 hfind
        exact (h old (List.mem_map.2 ⟨_, hold, rfl⟩)).values v hv
    · exact h e.2 (List.mem_map.2 ⟨e, he, rfl⟩)

/-- A mapping that was read is writable, where no mapping in its body has the same key twice. -/
theorem writable_of_ofNode (hkeys : body.keysDiffer = true) (h : ofNode name body = .ok m) :
    m.Writable := by
  unfold ofNode at h
  rcases bind_eq_ok.1 h with ⟨⟨⟩, hcheck, h⟩
  rcases bind_eq_ok.1 h with ⟨levels, hlevels, h⟩
  have hliteral := Node.literal_of_checkLiteral hcheck
  refine of_foldlM_eq_ok (P := Writable) h (by rintro _ ⟨⟩) fun e he m m' hm hread => ?_
  have hmember := Entry.mem_members_of_attributes hlevels he
  exact writable_of_withLevel hm (hliteral.of_mem_members hmember)
    (Node.everyMapping_of_mem_members hkeys hmember) hread

/-! ### Reading a written mapping -/

def levelNode (level : Dict Value) : Node := namedNode Value.toNode level.entries

theorem literal_levelNode {level : Dict Value} (h : LevelWritable level) :
    (levelNode level).Literal .mappings :=
  Node.literal_namedNode h.noCall fun v hv => (h.values v hv).literal

/-- A mapping is written as literal data, unless all that it has is the key of a call. -/
theorem literal_toNode (h : m.Writable)
    (htop : ∀ key, Dict.keys m = [key] → Section.mappings.readsCall none key = false) :
    m.toNode.Literal .mappings :=
  Node.literal_namedNode htop fun level hlevel => literal_levelNode (h level hlevel)

theorem textsDiffer_toNode (h : m.Writable) : m.toNode.textsDiffer = true := by
  refine Node.textsDiffer_namedNode m.nodup_keys fun level hlevel => ?_
  exact Node.textsDiffer_namedNode level.nodup_keys fun v hv => ((h level hlevel).values v hv).texts

/-- A level is read from what it is written as, under a key that has no level yet. -/
theorem withLevel_levelNode {path topKey : String} {m : Mapping} {level : Dict Value}
    (h : LevelWritable level) (hfree : topKey ∉ Dict.keys m) :
    withLevel path m topKey (levelNode level) = .ok (Dict.insert m topKey level) := by
  have hattributes : Entry.attributes (path ++ "." ++ topKey) (levelNode level) =
      .ok (level.entries.map fun e => (e.1, e.2.toNode)) := by
    rw [levelNode, namedNode_eq]
    exact Entry.attributes_string (by rw [Entries.keys_map]; exact level.nodup_keys)
  have hvalues : List.Forall₂ (Entries.Related fun x v => Value.ofNode? x = some v)
      (level.entries.map fun e => (e.1, e.2.toNode)) level.entries := by
    rw [List.forall₂_map_left_iff, List.forall₂_same]
    exact fun e he => ⟨rfl, (h.values e.2 (List.mem_map.2 ⟨e, he, rfl⟩)).denotes⟩
  have hfind : Dict.find? m topKey = none := Entries.find?_eq_none_iff.2 hfree
  refine bind_eq_ok.2 ⟨_, hattributes, foldlM_withEntry.2 ⟨level.entries, hvalues, ?_⟩⟩
  rw [if_neg h.nonempty, hfind, Option.getD_none, Dict.insertAll_empty, Dict.ofList_entries]

/-- Levels under new and different keys are read one after the other. -/
theorem foldlM_withLevel {path : String} {levels : List (String × Dict Value)} {m : Mapping}
    (h : ∀ e ∈ levels, LevelWritable e.2)
    (hnodup : (Dict.keys m ++ Entries.keys levels).Nodup) :
    (levels.map fun e => (e.1, levelNode e.2)).foldlM
      (fun m (e : String × Node) => withLevel path m e.1 e.2) m = .ok (Dict.insertAll m levels) := by
  induction levels generalizing m with
  | nil => rfl
  | cons e levels ih =>
    have hfree : e.1 ∉ Dict.keys m := by
      intro hmem
      exact (List.nodup_append.1 hnodup).2.2 e.1 hmem e.1 List.mem_cons_self rfl
    rw [List.map_cons, List.foldlM_cons, withLevel_levelNode (h e List.mem_cons_self) hfree]
    -- The key that has just been read is no longer among those to come.
    refine ih (fun e' he' => h e' (List.mem_cons_of_mem e he')) ?_
    rw [Dict.keys_insert, if_neg hfree]
    simpa using hnodup

/-- A mapping is read from what it is written as, unless all that it has is the key of a call. -/
theorem ofNode_toNode (h : m.Writable)
    (htop : ∀ key, Dict.keys m = [key] → Section.mappings.readsCall none key = false) :
    ofNode name m.toNode = .ok m := by
  have hattributes : Entry.attributes (Section.mappings.key ++ "." ++ name) m.toNode =
      .ok (m.entries.map fun e => (e.1, levelNode e.2)) := by
    change Entry.attributes _ (namedNode levelNode m.entries) = _
    rw [namedNode_eq]
    exact Entry.attributes_string (by rw [Entries.keys_map]; exact m.nodup_keys)
  unfold ofNode
  refine bind_eq_ok.2 ⟨(), (literal_toNode h htop).checkLiteral _, bind_eq_ok.2 ⟨_, hattributes, ?_⟩⟩
  refine (foldlM_withLevel (fun e he => h e.2 (List.mem_map.2 ⟨e, he, rfl⟩)) ?_).trans ?_
  · exact m.nodup_keys
  · rw [Dict.insertAll_empty, Dict.ofList_entries]

end Mapping

end StackTemplate
