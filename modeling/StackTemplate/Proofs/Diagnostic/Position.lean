import StackTemplate.Diagnostic.Location
import StackTemplate.Elaboration.Document
import StackTemplate.Proofs.Elaboration.Labels
import StackTemplate.Proofs.Text.Cut
import StackTemplate.Proofs.Text.Numeral

/-!
# Paths that are read as positions

The label of a syntax error is a position, those of all other diagnostics are paths of keys. Both
are texts, and which one a text is can be told from the text alone. A path that starts with the key
of a section is never read as a position. The only other path that has a key in it is the key of an
unknown section, as the document writes it; so a document can choose a key that is read as a
position, and no other label of its diagnostics is.

* `Location.lineColumn?_of_inSections` : paths inside of sections are no positions.
* `Location.lineColumn?_path` : the path of a syntax error is read back as its position.
* `Template.positions_of_parse` : which labels are read as positions.
-/

namespace StackTemplate

namespace Location

/-! ## Paths of keys -/

theorem lineColumn?_of_inSections {path : String} (h : Paths.inSections.holds path) :
    lineColumn? path = none := by
  rcases h with ⟨area, harea⟩
  have hline : Text.stripStart? "line " path = none := by
    apply if_neg
    intro hprefix
    -- The keys of sections begin with capitals.
    rcases harea with ⟨rest, hrest⟩
    rcases List.isPrefixOf_iff_prefix.1 hprefix with ⟨rest', hrest'⟩
    rw [← hrest] at hrest'
    cases area <;> cases hrest'
  rw [lineColumn?, hline]
  rfl

/-! ## Positions -/

theorem position?_toString {n : Nat} (h : n < 0x10000000000000000) :
    position? (toString n) = some n := by
  rw [position?, Text.readUnsigned?_toString]
  exact Option.filter_eq_some_iff.2 ⟨rfl, by simpa using h⟩

/-- The two numbers of a position are separated at the place where it says so. -/
theorem splitOnce?_column (line column : Nat) :
    Text.splitOnce? ", column " (toString line ++ ", column " ++ toString column) =
      some (toString line, toString column) := by
  -- Numerals are digits.
  have hspace : (toString line).toList.count ' ' = 0 := by
    rw [List.count_eq_zero]
    intro hmem
    cases Text.isDigit_of_mem_toString hmem
  -- The separator has two blanks, so it does not begin before it ends.
  have hfirst : ¬ ", column ".toList <:+: (toString line).toList ++ ", column ".toList.dropLast := by
    intro hinside
    have hcount := hinside.sublist.count_le ' '
    rw [List.count_append, hspace] at hcount
    exact absurd hcount (by decide)
  rw [Text.splitOnce?, String.toList_append, String.toList_append,
    Text.cut?_append (by decide) hfirst]
  simp only [Option.map_some, String.ofList_toList]

/-- A path that is written as a position is read as the position. -/
theorem lineColumn?_path {line column : Nat} (hline : line < 0x10000000000000000)
    (hcolumn : column < 0x10000000000000000) :
    lineColumn? ("line " ++ toString line ++ ", column " ++ toString column) =
      some (line, column) := by
  have hstrip : Text.stripStart? "line " ("line " ++ toString line ++ ", column " ++
      toString column) = some (toString line ++ ", column " ++ toString column) := by
    have hlist : ("line " ++ toString line ++ ", column " ++ toString column).toList =
        "line ".toList ++ (toString line ++ ", column " ++ toString column).toList := by
      simp only [String.toList_append, List.append_assoc]
    rw [Text.stripStart?, hlist, List.drop_left, String.ofList_toList]
    exact if_pos (List.isPrefixOf_iff_prefix.2 (List.prefix_append _ _))
  rw [lineColumn?, hstrip]
  simp only [Option.bind_eq_bind, Option.bind_some, splitOnce?_column, position?_toString hline,
    position?_toString hcolumn]
  rfl

/-! ## Spans -/

theorem locate?_of_lineColumn? {path : String} (h : lineColumn? path = none) (source : String) :
    locate? source path = locateKeys? 0 source.toList none (pathKeys path) := by
  rw [locate?, h]

/-- The label of a syntax error is located by the position of the error, counted from one. -/
theorem locate?_syntaxError {e : Markup.SyntaxError} {line column : Nat}
    (hposition : e.position = some (line, column)) (hline : line + 1 < 0x10000000000000000)
    (hcolumn : column + 1 < 0x10000000000000000) (source : String) :
    locate? source e.path = some (spanAt source.toList (line + 1) (column + 1)) := by
  rw [Markup.SyntaxError.path, hposition, locate?, lineColumn?_path hline hcolumn]

end Location

/-! ## Labels of documents -/

open Location Document

namespace Template

variable {document : Node} {ds : List Diagnostic}

/-- A label of the layout is no position, or else it is an unknown key. -/
theorem lineColumn?_of_ofLayout {e : Fault} (h : e.OfLayout document) {label : Label}
    (hlabel : label ∈ e.diagnostic.labels) :
    lineColumn? label.path = none ∨ e = .unknownSection label.path := by
  cases h with
  | unknownSection =>
    obtain rfl := List.mem_singleton.1 hlabel
    exact .inr rfl
  | transformSection =>
    obtain rfl := List.mem_singleton.1 hlabel
    exact .inl (lineColumn?_of_inSections ⟨.transform, List.prefix_rfl⟩)
  -- The document itself is labelled, whose path is empty.
  | _ =>
    obtain rfl := List.mem_singleton.1 hlabel
    exact .inl rfl

/-- A label of a document is no position, or else it is an unknown key at the top of the document,
as it is written there. -/
theorem label_of_parseDocument (h : parseDocument document = .error ds) {d : Diagnostic}
    (hd : d ∈ ds) {label : Label} (hlabel : label ∈ d.labels) :
    lineColumn? label.path = none ∨
      ∃ root, document = .map root ∧ ∃ entry ∈ root, entry.1.string? = some label.path ∧
        Section.ofKey? label.path = none ∧ d = (Fault.unknownSection label.path).diagnostic := by
  rcases labels_of_parseDocument h hd with hinside | ⟨e, hlayout, rfl⟩
  · exact .inl (lineColumn?_of_inSections (hinside label hlabel))
  · rcases lineColumn?_of_ofLayout hlayout hlabel with hnone | rfl
    · exact .inl hnone
    · -- Of the faults of the layout only an unknown key has a label that is no fixed path.
      cases hlayout with
      | unknownSection hroot hentry hname hunknown =>
        exact .inr ⟨_, hroot, _, hentry, hname, hunknown, rfl⟩

/-- Each unknown key at the top of a document is a label, as it is written. -/
theorem mem_of_unknown {root : List (Node × Node)} (h : parseDocument (.map root) = .error ds)
    {entry : Node × Node} (hentry : entry ∈ root) {key : String}
    (hkey : entry.1.string? = some key) (hunknown : Section.ofKey? key = none) :
    (Fault.unknownSection key).diagnostic ∈ ds := by
  have hfault : keyFault? entry.1 = some (.unknownSection key) := by
    rw [keyFault?, hkey]
    simp only [hunknown]
  have hmem : .unknownSection key ∈ root.filterMap fun e => keyFault? e.1 :=
    List.mem_filterMap.2 ⟨entry, hentry, hfault⟩
  rw [parseDocument_of_keyFaults (List.ne_nil_of_mem hmem)] at h
  cases h
  exact List.mem_map_of_mem hmem

/-- No key of a section is a position. -/
theorem ofKey?_of_lineColumn? {key : String} {position : Nat × Nat}
    (h : lineColumn? key = some position) : Section.ofKey? key = none := by
  cases harea : Section.ofKey? key with
  | none => rfl
  | some area =>
    rw [← Section.key_of_ofKey? harea,
      lineColumn?_of_inSections ⟨area, List.prefix_rfl⟩] at h
    cases h

/-- No label of a document that is refused is read as a position exactly if no key at the top of the
document spells out a position. All labels but those of unknown keys are located by their keys in
whatever text. A document that cannot be read has one label, which is located by the position of the
syntax error. -/
theorem positions_of_parse (h : parseDocument document = .error ds) :
    ((∀ d ∈ ds, ∀ label ∈ d.labels, lineColumn? label.path = none) ↔
      ∀ root, document = .map root → ∀ entry ∈ root, ∀ key, entry.1.string? = some key →
        lineColumn? key = none) ∧
    (∀ d ∈ ds, ∀ label ∈ d.labels,
      (lineColumn? label.path = none ∧ ∀ source,
        locate? source label.path = locateKeys? 0 source.toList none (pathKeys label.path)) ∨
      ∃ root, document = .map root ∧ ∃ entry ∈ root, entry.1.string? = some label.path ∧
        Section.ofKey? label.path = none ∧
        d = (Fault.unknownSection label.path).diagnostic) ∧
    ∀ {text : String} {e : Markup.SyntaxError}, Markup.read text = .error e →
      parse text = .error [e.diagnostic] ∧ (∀ label ∈ e.diagnostic.labels, label.path = e.path) ∧
      ∀ line column, e.position = some (line, column) → line + 1 < 0x10000000000000000 →
        column + 1 < 0x10000000000000000 →
        ∀ source, locate? source e.path =
          some (spanAt source.toList (line + 1) (column + 1)) := by
  refine ⟨?_, ?_, ?_⟩
  · constructor
    · intro hlabels root hroot entry hentry key hkey
      rw [hroot] at h
      cases hposition : lineColumn? key with
      | none => rfl
      | some position =>
        -- A key that spells out a position is unknown, so it is a label itself.
        have hmem := mem_of_unknown h hentry hkey (ofKey?_of_lineColumn? hposition)
        have hnone : lineColumn? key = none := hlabels _ hmem _ (List.mem_singleton_self _)
        rw [hposition] at hnone
        cases hnone
    · intro hkeys d hd label hlabel
      rcases label_of_parseDocument h hd hlabel with hnone | ⟨root, hroot, entry, hentry, hkey, -⟩
      · exact hnone
      · exact hkeys root hroot entry hentry label.path hkey
  · intro d hd label hlabel
    rcases label_of_parseDocument h hd hlabel with hnone | hunknown
    · exact .inl ⟨hnone, locate?_of_lineColumn? hnone⟩
    · exact .inr hunknown
  · -- The text was not read at all, so the syntax error is the only diagnostic.
    intro text e hread
    refine ⟨?_, ?_, ?_⟩
    · rw [parse, hread]
      rfl
    · intro label hlabel
      obtain rfl := List.mem_singleton.1 hlabel
      rfl
    · intro line column hposition hline hcolumn source
      exact locate?_syntaxError hposition hline hcolumn source

/-- A document with keys that name no section, none of which spells out a position. -/
def outlined : Node :=
  .map [(.string "Resources", .map []), (.string "line 1", .string "x"), (.string "Outline", .null)]

/-- A key that begins like a position, but is none, is located by its text. -/
theorem outlined_positions : ∃ ds, parseDocument outlined = .error ds ∧ ds.length = 2 ∧
    ∀ d ∈ ds, ∀ label ∈ d.labels, lineColumn? label.path = none := by
  have hparse : parseDocument outlined = .error [(Fault.unknownSection "line 1").diagnostic,
      (Fault.unknownSection "Outline").diagnostic] := by rfl
  refine ⟨_, hparse, rfl, (positions_of_parse hparse).1.2 ?_⟩
  intro root hroot entry hentry key hkey
  cases hroot
  simp only [List.mem_cons, List.not_mem_nil, or_false] at hentry
  rcases hentry with rfl | rfl | rfl <;> cases hkey <;> decide

/-- A document with a key that spells out a position. -/
def positionKeyed : Node :=
  .map [(.string "Resources", .map []), (.string "line 1, column 1", .string "x")]

/-- Not every label of a document is located by its keys. -/
theorem exists_label_misread : ¬ ∀ document ds, parseDocument document = .error ds →
    ∀ d ∈ ds, ∀ label ∈ d.labels, lineColumn? label.path = none := by
  intro h
  have hnone := h positionKeyed [(Fault.unknownSection "line 1, column 1").diagnostic] rfl _
    List.mem_cons_self _ List.mem_cons_self
  revert hnone
  decide

end Template

end StackTemplate
