import StackTemplate.Proofs.Resolution.Within
import StackTemplate.Proofs.Text.Numeral

/-!
# Keys of calls

A mapping whose single key denotes a call is read as one, unless the key is `Condition` and the
place does not read it. Only a string can be such a key: the texts of other scalars use none of the
capitals `F`, `R` and `C` that keys of calls begin with.

* `Section.readsCall` : a mapping with a single key is read as a call.
* `Section.HoldsData` : the sections of literal data, where `Condition` is no key of a call.
* `Node.call?_of_path` : what a node calls does not depend on its path.
* `Node.call?_map_eq_none_iff` : when a mapping with string keys is no call.
* `Node.readsCall_of_call?_eq_none` : a mapping that is no call is none under the texts of its keys.
-/

namespace StackTemplate

/-! ## Texts of scalars -/

/-- The capitals that keys of calls begin with. -/
def Intrinsic.capitals : List Char := ['F', 'R', 'C']

/-- No digit is one of the capitals. -/
theorem Intrinsic.not_mem_capitals_of_isDigit {c : Char} (h : c.isDigit = true) :
    c ∉ capitals := by
  intro hc
  simp only [capitals, List.mem_cons, List.not_mem_nil, or_false] at hc
  rcases hc with rfl | rfl | rfl <;> cases h

/-- What holds of all characters of a text holds of each, in a form that `decide` can check. -/
theorem Intrinsic.not_mem_capitals_of_all {text : String}
    (h : (text.toList.all fun c => decide (c ∉ capitals)) = true) {c : Char}
    (hc : c ∈ text.toList) : c ∉ capitals :=
  of_decide_eq_true (List.all_eq_true.1 h c hc)

namespace Binary64

/-- The digits of a number are written without the capitals. -/
theorem Digits.not_mem_capitals {d : Digits} {c : Char} (h : c ∈ d.text.toList) :
    c ∉ Intrinsic.capitals := by
  have hdigits : ∀ n, ∀ c ∈ List.replicate n '0' ++ (toString d.digits).toList,
      c.isDigit = true := by
    intro n c hc
    rcases List.mem_append.1 hc with hc | hc
    · rw [List.eq_of_mem_replicate hc]
      decide
    · exact Text.isDigit_of_mem_toString hc
  unfold Digits.text at h
  dsimp only at h
  split at h
  · rw [String.toList_ofList, List.mem_append, or_comm, ← List.mem_append] at h
    exact Intrinsic.not_mem_capitals_of_isDigit (hdigits _ c h)
  · -- The point stands between two parts of the padded digits.
    simp only [String.toList_ofList, List.mem_append, List.mem_singleton, or_assoc] at h
    rcases h with h | rfl | h
    · exact Intrinsic.not_mem_capitals_of_isDigit (hdigits _ c (List.mem_of_mem_take h))
    · decide
    · exact Intrinsic.not_mem_capitals_of_isDigit (hdigits _ c (List.mem_of_mem_drop h))

/-- A floating-point number is written without the capitals, also where it is no number. -/
theorem not_mem_capitals {x : Binary64} {c : Char} (h : c ∈ x.text.toList) :
    c ∉ Intrinsic.capitals := by
  -- What follows the sign is a word in small letters or the digits.
  have hmagnitude : ∀ c ∈ (if x.isInfinite then "inf" else if x.isZero then "0"
      else x.shortest.text).toList, c ∉ Intrinsic.capitals := by
    intro c hc
    split at hc
    · exact Intrinsic.not_mem_capitals_of_all (by decide) hc
    · split at hc
      · exact Intrinsic.not_mem_capitals_of_all (by decide) hc
      · exact Digits.not_mem_capitals hc
  unfold text at h
  dsimp only at h
  split at h
  · exact Intrinsic.not_mem_capitals_of_all (by decide) h
  · split at h
    · rw [String.toList_append, List.mem_append] at h
      rcases h with h | h
      · exact Intrinsic.not_mem_capitals_of_all (by decide) h
      · exact hmagnitude c h
    · exact hmagnitude c h

end Binary64

/-- The text of a scalar that is no string is written without the capitals. -/
theorem Scalar.not_mem_capitals {s : Scalar} (hs : s.string? = none) {c : Char}
    (h : c ∈ s.text.toList) : c ∉ Intrinsic.capitals := by
  cases s with
  | null => cases h
  | bool b =>
    cases b with
    | false => exact Intrinsic.not_mem_capitals_of_all (by decide) h
    | true => exact Intrinsic.not_mem_capitals_of_all (by decide) h
  | int i =>
    rw [text, Int.toString_eq_repr, Int.repr_eq_if] at h
    split at h
    · exact Intrinsic.not_mem_capitals_of_isDigit (Text.isDigit_of_mem_toString h)
    · rw [String.toList_append, List.mem_append] at h
      rcases h with h | h
      · exact Intrinsic.not_mem_capitals_of_all (by decide) h
      · exact Intrinsic.not_mem_capitals_of_isDigit (Text.isDigit_of_mem_toString h)
  | float x => exact Binary64.not_mem_capitals h
  | string t => cases hs

/-! ## Keys of calls -/

/-- Every key of a call has one of the capitals. -/
theorem Intrinsic.exists_mem_capitals {key : String} (h : isCallKey key = true) :
    ∃ c ∈ key.toList, c ∈ capitals := by
  simp only [isCallKey, Bool.or_eq_true, decide_eq_true_eq] at h
  rcases h with (h | rfl) | rfl
  · rcases List.isPrefixOf_iff_prefix.1 h with ⟨rest, hrest⟩
    refine ⟨'F', ?_, by decide⟩
    rw [← hrest]
    exact List.mem_append_left rest (by decide)
  · exact ⟨'R', by decide, by decide⟩
  · exact ⟨'C', by decide, by decide⟩

/-- The leaf that a string is read from. -/
theorem Scalar.eq_of_ofNode?_eq_string {node : Node} {text : String}
    (h : ofNode? node = some (.string text)) : node = .string text := by
  cases node with
  | string s =>
    cases h
    rfl
  -- An integer becomes a number of some width, never a string.
  | int i =>
    simp only [ofNode?, Option.some.injEq] at h
    split at h <;> cases h
  | _ => cases h

/-- Only a string has the text of a key of a call. -/
theorem Scalar.eq_string_of_isCallKey {key : Node} {text : String}
    (htext : keyText? key = some text) (hcall : Intrinsic.isCallKey text = true) :
    key = .string text := by
  rcases Intrinsic.exists_mem_capitals hcall with ⟨c, hmem, hc⟩
  unfold keyText? at htext
  split at htext
  · cases htext
  · cases htext
  · next s _ hs =>
    cases htext
    cases hstring : s.string? with
    | none => exact absurd hc (not_mem_capitals hstring hmem)
    | some t =>
      cases s with
      | string t => exact eq_of_ofNode?_eq_string hs
      | _ => cases hstring

/-- Whether a mapping with a single key is read as a call, as an operand of a call of `owner`. -/
def Section.readsCall (area : Section) (owner : Option Intrinsic) (key : String) : Bool :=
  Intrinsic.isCallKey key && (key ≠ Intrinsic.condition.longName || area.readsConditionKey owner)

/-- The sections that hold literal data. -/
def Section.HoldsData (area : Section) : Prop :=
  area = .parameters ∨ area = .mappings ∨ area = .metadata

namespace Section.HoldsData

variable {area : Section}

theorem readsConditionKey (h : area.HoldsData) (owner : Option Intrinsic) :
    area.readsConditionKey owner = false := by
  rcases h with rfl | rfl | rfl <;> rfl

theorem restriction? (h : area.HoldsData) (f : Intrinsic) (owner : Option Intrinsic) :
    area.restriction? f owner = some .literalSection := by
  rcases h with rfl | rfl | rfl <;> rfl

/-- Among literal data a mapping is read as a call by its only key, unless that is `Condition`. -/
theorem readsCall_eq_false_iff (h : area.HoldsData) (owner : Option Intrinsic) (key : String) :
    area.readsCall owner key = false ↔ key ≠ "Ref" ∧ Text.beginsWith "Fn::" key = false := by
  unfold readsCall Intrinsic.isCallKey
  rw [h.readsConditionKey, Bool.or_false]
  by_cases hcondition : key = Intrinsic.condition.longName
  · subst hcondition
    decide
  · have hname : key ≠ "Condition" := hcondition
    simp [hcondition, hname, and_comm]

end Section.HoldsData

/-- Every key of a mapping has a text, where all of them have. -/
theorem exists_keyText_of_mem {es : List (Node × Node)} {bs : List (String × Node)}
    (h : keyTexts? es = some bs) {e : Node × Node} (he : e ∈ es) :
    ∃ k ∈ Entries.keys bs, Scalar.keyText? e.1 = some k := by
  induction es generalizing bs with
  | nil => cases he
  | cons f es ih =>
    rw [keyTexts?_cons] at h
    rcases Option.bind_eq_some_iff.1 h with ⟨k, hk, h⟩
    rcases Option.map_eq_some_iff.1 h with ⟨bs', hbs', rfl⟩
    rcases List.mem_cons.1 he with rfl | he
    · exact ⟨k, List.mem_cons_self, hk⟩
    · rcases ih hbs' he with ⟨l, hl, htext⟩
      exact ⟨l, List.mem_cons_of_mem k hl, htext⟩

namespace Node

/-- What a node calls does not depend on its path. -/
theorem call?_of_path {area : Section} {owner : Option Intrinsic} {path : String} {node : Node}
    {answer : Option (Intrinsic × Node)} (h : node.call? ⟨area, path, owner⟩ = .ok answer)
    (path' : String) : node.call? ⟨area, path', owner⟩ = .ok answer := by
  unfold call? at h ⊢
  split at h
  · split at h
    · exact h
    · cases h
  · -- Only faults carry the path, and the answer is none of these.
    dsimp only at h ⊢
    grind
  · exact h

/-- A mapping with a single string key is no call if its key is not read as one. -/
theorem call?_single_eq_none_iff {ctx : Context} {key : String} {x : Node} :
    (map [(.string key, x)]).call? ctx = .ok none ↔
      ctx.area.readsCall ctx.owner key = false := by
  unfold call? Section.readsCall
  dsimp only
  cases Intrinsic.isCallKey key with
  | false => simp
  | true =>
    by_cases hcondition : key = Intrinsic.condition.longName
    · have htransform : Intrinsic.condition.longName ≠ "Fn::Transform" := by decide
      have hname : Intrinsic.ofName? Intrinsic.condition.longName = some .condition := by decide
      subst hcondition
      cases ctx.area.readsConditionKey ctx.owner <;> simp [htransform, hname]
    · by_cases htransform : key = "Fn::Transform"
      · simp [htransform]
      · cases Intrinsic.ofName? key <;> simp [hcondition, htransform]

/-- A mapping with string keys is no call unless it is read as one. -/
theorem call?_map_eq_none_iff {ctx : Context} {es : List (String × Node)} :
    (map (es.map fun e => (.string e.1, e.2))).call? ctx = .ok none ↔
      ∀ key, Entries.keys es = [key] → ctx.area.readsCall ctx.owner key = false := by
  match es with
  | [] =>
    constructor
    · rintro - _ ⟨⟩
    · exact fun _ => rfl
  -- Mappings of any other size are never calls.
  | [(key, x)] =>
    rw [List.map_cons, List.map_nil, call?_single_eq_none_iff]
    constructor
    · rintro h _ ⟨⟩
      exact h
    · intro h
      exact h key rfl
  | e :: f :: es =>
    constructor
    · rintro - _ ⟨⟩
    · exact fun _ => rfl

/-- A mapping that is no call is none either under the texts of its keys: a key of a call that all
of them have as their text was a string, and the only one. -/
theorem readsCall_of_call?_eq_none {ctx : Context} {entries : List (Node × Node)}
    {bs : List (String × Node)} (h : (map entries).call? ctx = .ok none)
    (hkeys : (map entries).keysDiffer = true) (hbs : keyTexts? entries = some bs) {key : String}
    (hsingle : Entries.keys (Entries.ofList bs) = [key]) :
    ctx.area.readsCall ctx.owner key = false := by
  by_contra hreads
  rw [Bool.not_eq_false] at hreads
  -- All keys have the same text, and it is that of a key of a call.
  have hstring : ∀ e ∈ entries, e.1 = .string key := by
    intro e he
    rcases exists_keyText_of_mem hbs he with ⟨k, hk, htext⟩
    rw [← Entries.mem_keys_ofList, hsingle, List.mem_singleton] at hk
    subst hk
    exact Scalar.eq_string_of_isCallKey htext (Bool.and_eq_true_iff.1 hreads).1
  match entries with
  | [] =>
    cases hbs
    cases hsingle
  | [(k, x)] =>
    obtain rfl : k = .string key := hstring (k, x) List.mem_cons_self
    rw [call?_single_eq_none_iff, hreads] at h
    cases h
  -- Two keys would be the same string, but the keys of a mapping differ.
  | e :: f :: rest =>
    have hdiffer := List.rel_of_pairwise_cons (pairwise_of_keysDiffer hkeys) List.mem_cons_self
    rw [hstring e List.mem_cons_self, hstring f (List.mem_cons_of_mem e List.mem_cons_self)]
      at hdiffer
    simp [same] at hdiffer

end Node

end StackTemplate
