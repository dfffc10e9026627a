import Mathlib.Data.List.Forall2
import Mathlib.Data.List.TakeWhile
import StackTemplate.Diagnostic.Location

/-!
# Located spans

A path is located by its keys, each looked for behind the one before. So the keys of a located path
stand in the text in the order of the path and apart from each other, each one used as the key of a
mapping, and the span is that of the last one. A position is cut off at the end of the text. In both
cases the span lies within the text.

* `Location.KeyAt` : a span covers a key that a colon follows.
* `Location.exists_spans` : the spans of all keys of a path that is located.
* `Location.locate?_on_key` : a located span is within the text and on the last key of the path.
-/

namespace StackTemplate

/-- One span stands in front of another one, without overlap. -/
def Span.Precedes (a b : Span) : Prop := a.offset < b.offset ∧ a.offset + a.length ≤ b.offset

namespace Location

variable {cs ds key front rest after source : List Char} {keys : List (List Char)}
  {offset start skip : Nat} {before : Option Char} {span : Span} {found : Option Span}

/-! ## Bytes -/

theorem byteLength_append (cs ds : List Char) :
    byteLength (cs ++ ds) = byteLength cs + byteLength ds := by
  induction cs with
  | nil => simp [byteLength]
  | cons c cs ih => rw [List.cons_append, byteLength, byteLength, ih, Nat.add_assoc]

/-- A text that is not empty takes bytes. -/
theorem byteLength_pos (h : cs ≠ []) : 0 < byteLength cs := by
  cases cs with
  | nil => exact absurd rfl h
  | cons c cs =>
    have hc := c.utf8Size_pos
    rw [byteLength]
    omega

/-- Lengths in bytes are those of the UTF-8 encoding. -/
theorem utf8ByteSize_ofChars (cs : List Char) : (String.ofList cs).utf8ByteSize = byteLength cs := by
  induction cs with
  | nil => rfl
  | cons c cs ih =>
    rw [String.ofList_cons, String.utf8ByteSize_append, String.utf8ByteSize_singleton, ih, byteLength]

/-! ## Positions -/

/-- The span of a position is cut off at the end of the text. -/
theorem spanAt_within (source : List Char) (line column : Nat) :
    (spanAt source line column).offset + (spanAt source line column).length ≤
      byteLength source := by
  simp only [spanAt]
  split
  · omega
  · omega

/-! ## Keys -/

/-- A text goes on with a colon, after a closing quote and blanks at most. -/
def ColonFollows (after : List Char) : Prop :=
  ∃ quote blanks rest, after = quote ++ blanks ++ ':' :: rest ∧
    (quote = [] ∨ quote = ['"'] ∨ quote = ['\'']) ∧ ∀ c ∈ blanks, c = ' ' ∨ c = '\t'

/-- At most one quote is left out. -/
theorem exists_dropQuote (cs : List Char) : ∃ quote, cs = quote ++ dropQuote cs ∧
    (quote = [] ∨ quote = ['"'] ∨ quote = ['\'']) := by
  unfold dropQuote
  split
  · exact ⟨['"'], rfl, .inr (.inl rfl)⟩
  · exact ⟨['\''], rfl, .inr (.inr rfl)⟩
  · exact ⟨[], rfl, .inl rfl⟩

/-- What is checked behind a key is that a colon follows. -/
theorem colonFollows_of_startsWithColon (h : startsWithColon after = true) :
    ColonFollows after := by
  rcases exists_dropQuote after with ⟨quote, hquote, hkind⟩
  -- What is left behind the quote is cut in front of the first character that is no blank.
  have hblanks := List.takeWhile_append_dropWhile (p := fun c => c = ' ' || c = '\t')
    (l := dropQuote after)
  rw [startsWithColon, decide_eq_true_iff] at h
  rcases List.head?_eq_some_iff.1 h with ⟨rest, hrest⟩
  refine ⟨quote, (dropQuote after).takeWhile fun c => c = ' ' || c = '\t', rest, ?_, hkind, ?_⟩
  · rw [List.append_assoc, ← hrest, hblanks]
    exact hquote
  · intro c hc
    simpa using List.mem_takeWhile_imp hc

/-- A span covers a key, which is used as the key of a mapping. -/
structure KeyAt (source key : List Char) (span : Span) : Prop where
  length : span.length = byteLength key
  covered : ∃ before after, source = before ++ key ++ after ∧ byteLength before = span.offset ∧
    ColonFollows after

/-- A key that stands in the text ends within it. -/
theorem KeyAt.within (h : KeyAt source key span) :
    span.offset + span.length ≤ byteLength source := by
  rcases h.covered with ⟨before, after, rfl, hoffset, -⟩
  rw [h.length, ← hoffset, byteLength_append, byteLength_append]
  omega

/-- A key that is found stands at its offset, with a colon behind it. -/
theorem findKey?_eq_some (h : findKey? key offset before skip cs = some (start, after)) :
    ∃ front, cs = front ++ key ++ after ∧ start = offset + byteLength front ∧
      ColonFollows after := by
  induction cs generalizing offset before skip with
  | nil => cases h
  | cons c cs ih =>
    -- What is found behind this character is found with it in front.
    have hbehind {skip : Nat}
        (h : findKey? key (offset + c.utf8Size) (some c) skip cs = some (start, after)) :
        ∃ front, c :: cs = front ++ key ++ after ∧ start = offset + byteLength front ∧
          ColonFollows after := by
      rcases ih h with ⟨front, hcs, hstart, hcolon⟩
      refine ⟨c :: front, ?_, ?_, hcolon⟩
      · rw [hcs]
        rfl
      · rw [hstart, byteLength]
        omega
    unfold findKey? at h
    split at h
    · exact hbehind h
    · split at h
      · -- The text starts with the key here; without the colon it is looked for further on.
        next hprefix =>
        dsimp only at h
        split at h
        · next hkey =>
          cases h
          rcases List.isPrefixOf_iff_prefix.1 hprefix with ⟨after, hafter⟩
          rw [← hafter, List.drop_left] at hkey ⊢
          simp only [Bool.and_eq_true] at hkey
          exact ⟨[], rfl, rfl, colonFollows_of_startsWithColon hkey.2⟩
        · exact hbehind h
      · exact hbehind h

/-- Each key of a path that is located has a span, and the last one is what is located. -/
theorem exists_spans (hsource : source = front ++ rest) (hkeys : ∀ key ∈ keys, key ≠ [])
    (h : locateKeys? (byteLength front) rest found keys = some span) :
    ∃ spans, List.Forall₂ (KeyAt source) keys spans ∧ spans.Pairwise Span.Precedes ∧
      (∀ s ∈ spans, byteLength front ≤ s.offset) ∧ spans.getLast?.or found = some span := by
  induction keys generalizing front rest found with
  | nil => exact ⟨[], .nil, .nil, by simp, h⟩
  | cons key keys ih =>
    rw [List.forall_mem_cons] at hkeys
    rw [locateKeys?] at h
    split at h
    · cases h
    · next start after hfind =>
      rcases findKey?_eq_some hfind with ⟨before, rfl, hstart, hcolon⟩
      -- The next key is looked for behind this one.
      have hlength : start + byteLength key = byteLength (front ++ before ++ key) := by
        rw [byteLength_append, byteLength_append, hstart]
      have hsplit : source = front ++ before ++ key ++ after := by
        rw [hsource]
        simp
      rw [hlength] at h
      rcases ih hsplit hkeys.2 h with ⟨spans, hspans, hordered, hbound, hlast⟩
      refine ⟨⟨start, byteLength key⟩ :: spans, .cons ?_ hspans, ?_, ?_, ?_⟩
      · -- This key is covered by its own span.
        exact ⟨rfl, front ++ before, after, hsplit, by rw [byteLength_append, hstart], hcolon⟩
      · refine List.pairwise_cons.2 ⟨fun s hs => ?_, hordered⟩
        have hs := hbound s hs
        have hpos := byteLength_pos hkeys.1
        simp only [Span.Precedes]
        omega
      · refine List.forall_mem_cons.2 ⟨by simp only; omega, fun s hs => ?_⟩
        have hs := hbound s hs
        omega
      · -- The last span is this one if there are no more keys.
        cases spans with
        | nil => simpa using hlast
        | cons s spans =>
          rw [List.getLast?_cons_cons]
          simpa [List.getLast?_eq_some_getLast] using hlast

/-- The last members of two related lists are related. -/
theorem getLast?_of_forall₂ {α β : Type} {R : α → β → Prop} {xs : List α} {ys : List β} {y : β}
    (h : List.Forall₂ R xs ys) (hy : ys.getLast? = some y) : ∃ x, xs.getLast? = some x ∧ R x y := by
  induction h with
  | nil => cases hy
  | @cons x y' xs ys hxy hrest ih =>
    cases hrest with
    | nil =>
      cases hy
      exact ⟨x, rfl, hxy⟩
    | cons _ _ =>
      rw [List.getLast?_cons_cons] at hy
      rw [List.getLast?_cons_cons]
      exact ih hy

theorem ne_nil_of_mem_pathKeys {path : String} (h : key ∈ pathKeys path) : key ≠ [] := by
  simpa using (List.mem_filter.1 h).2

/-- A located span is within the text. Unless the path is a position, all keys of the path stand in
the text, in the order of the path and apart from each other, and the span is on the last one. -/
theorem locate?_on_key {source path : String} {span : Span} (h : locate? source path = some span) :
    span.offset + span.length ≤ source.utf8ByteSize ∧
    (lineColumn? path = none →
      (∃ key, (pathKeys path).getLast? = some key ∧ KeyAt source.toList key span) ∧
      ∃ spans, List.Forall₂ (KeyAt source.toList) (pathKeys path) spans ∧
        spans.Pairwise Span.Precedes ∧ spans.getLast? = some span) := by
  have hsize : source.utf8ByteSize = byteLength source.toList := by
    rw [← utf8ByteSize_ofChars, String.ofList_toList]
  rw [hsize]
  unfold locate? at h
  cases hposition : lineColumn? path with
  | some position =>
    rw [hposition] at h
    cases h
    refine ⟨spanAt_within source.toList _ _, ?_⟩
    rintro ⟨⟩
  | none =>
    rw [hposition] at h
    -- Only a key that is not empty keeps the next one apart from it.
    have hnonempty : ∀ key ∈ pathKeys path, key ≠ [] := fun key => ne_nil_of_mem_pathKeys
    have hsource : source.toList = [] ++ source.toList := rfl
    rcases exists_spans hsource hnonempty h with ⟨spans, hspans, hordered, -, hlast⟩
    rw [Option.or_none] at hlast
    rcases getLast?_of_forall₂ hspans hlast with ⟨key, hkey, hat⟩
    exact ⟨hat.within, fun _ => ⟨⟨key, hkey, hat⟩, spans, hspans, hordered, hlast⟩⟩

/-- A text with characters of several bytes, and keys that occur elsewhere before they are used. -/
def quoted : String := "# Size: Größe\nGröße[0]: x\nItems:\n  Größer: 1\n  'Größe' \t: 2\n"

/-- A path with an index, an empty part and an operand. -/
def quotedPath : String := "Items[0]..Größe[1]::left"

/-- The key is found behind the one before it, past a character of two bytes and past a longer key.
-/
theorem quotedPath_on_key : locate? quoted quotedPath = some ⟨54, 7⟩ ∧ 54 + 7 ≤ quoted.utf8ByteSize ∧
    ∃ key, (pathKeys quotedPath).getLast? = some key ∧ KeyAt quoted.toList key ⟨54, 7⟩ := by
  have hposition : lineColumn? quotedPath = none := by decide +kernel
  have hlocated : locate? quoted quotedPath = some ⟨54, 7⟩ := by
    rw [locate?, hposition]
    decide +kernel
  rcases locate?_on_key hlocated with ⟨hwithin, honKey⟩
  exact ⟨hlocated, hwithin, (honKey hposition).1⟩

end Location

end StackTemplate
