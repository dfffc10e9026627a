import Mathlib.Data.List.Infix
import StackTemplate.Text.Cut

/-!
# Splitting and joining text

The first occurrence of a separator is where no earlier one begins. Splitting cuts there and goes on
behind it, so no part has an occurrence of the separator, and the parts joined by the separator are
the text again. Joined parts are found again where no occurrence begins in a part; with a separator
of one character that is where no part has the character.

* `Text.cut?_eq_none_iff`, `Text.cut?_append` : where a text is cut.
* `Text.not_infix_of_mem_split` : no part contains the separator.
* `Text.intercalate_split`, `Text.split_intercalate` : splitting and joining are inverse.
-/

namespace StackTemplate

namespace Text

/-! ## First occurrences -/

variable {sep before after s : List Char}

/-- A text is cut unless the separator occurs nowhere in it. -/
theorem cut?_eq_none_iff (hsep : sep ≠ []) : cut? sep s = none ↔ ¬ sep <:+: s := by
  induction s with
  | nil => simp [cut?, hsep]
  | cons c s ih =>
    rw [cut?, List.infix_cons_iff, ← List.isPrefixOf_iff_prefix]
    -- An occurrence begins here, or it lies in the rest.
    by_cases hbegin : sep.isPrefixOf (c :: s) = true
    · simp [hbegin]
    · simp [hbegin, ih]

/-- A text is cut at a separator that does not begin any earlier. -/
theorem cut?_append (hsep : sep ≠ []) (h : ¬ sep <:+: before ++ sep.dropLast) :
    cut? sep (before ++ sep ++ after) = some (before, after) := by
  induction before with
  | nil =>
    obtain ⟨c, cs, rfl⟩ := List.exists_cons_of_ne_nil hsep
    simp [cut?]
  | cons c before ih =>
    have hlater : ¬ sep <:+: before ++ sep.dropLast := fun hinside =>
      h (List.infix_cons_iff.2 (Or.inr hinside))
    have hhere : ¬ sep.isPrefixOf (c :: (before ++ sep ++ after)) = true := by
      intro hbegin
      -- A separator that begins here ends before the last character of the given one.
      have hwhole : c :: (before ++ sep ++ after) =
          (c :: before ++ sep.dropLast) ++ (sep.getLast hsep :: after) := by
        conv_lhs => rw [← List.dropLast_append_getLast hsep]
        simp
      refine h (List.prefix_of_prefix_length_le (List.isPrefixOf_iff_prefix.1 hbegin)
        (hwhole ▸ List.prefix_append _ _) ?_).isInfix
      simp only [List.length_append, List.length_cons, List.length_dropLast]
      omega
    change cut? sep (c :: (before ++ sep ++ after)) = _
    rw [cut?, if_neg hhere, ih hlater]
    rfl

/-- The cut is made at the first occurrence: there is none in what stands before it. -/
theorem not_infix_of_cut? (hsep : sep ≠ []) (h : cut? sep s = some (before, after)) :
    ¬ sep <:+: before := by
  induction s generalizing before with
  | nil => simp [cut?, hsep] at h
  | cons c s ih =>
    unfold cut? at h
    split at h
    · -- The cut is made here, and nothing stands before it.
      cases h
      simpa using hsep
    · next hhere =>
      obtain ⟨⟨front, back⟩, hcut, heq⟩ := Option.map_eq_some_iff.1 h
      cases heq
      rw [List.infix_cons_iff]
      -- An occurrence in front of the cut begins here, where there is none, or further back.
      rintro (hbegin | hinside)
      · refine hhere (List.isPrefixOf_iff_prefix.2 (hbegin.trans ?_))
        rw [cut?_eq_some hcut, List.append_assoc]
        exact List.prefix_append (c :: front) _
      · exact ih hcut hinside

/-! ## Splitting -/

theorem splitAll_nil (s : List Char) : splitAll [] s = [s] := by
  rw [splitAll]
  simp

/-- A text that is not cut is its only part. -/
theorem splitAll_eq_self (h : cut? sep s = none) : splitAll sep s = [s] := by
  rw [splitAll]
  split
  · rfl
  · split
    · rfl
    · next hcut =>
      rw [h] at hcut
      cases hcut

/-- Splitting cuts once and goes on behind the separator. -/
theorem splitAll_eq_cons (hsep : sep ≠ []) (h : cut? sep s = some (before, after)) :
    splitAll sep s = before :: splitAll sep after := by
  rw [splitAll, dif_neg hsep]
  split
  · next hcut =>
    rw [h] at hcut
    cases hcut
  · next hcut =>
    rw [h] at hcut
    cases hcut
    rfl

/-- No part has an occurrence of the separator. -/
theorem not_infix_of_mem_splitAll (hsep : sep ≠ []) {part : List Char}
    (h : part ∈ splitAll sep s) : ¬ sep <:+: part := by
  induction s using splitAll.induct sep with
  | case1 s hnil => exact absurd hnil hsep
  | case2 s _ hcut =>
    rw [splitAll_eq_self hcut, List.mem_singleton] at h
    rw [h]
    exact (cut?_eq_none_iff hsep).1 hcut
  -- The first part ends at the first occurrence; the others are those of the rest.
  | case3 s _ before after hcut ih =>
    rw [splitAll_eq_cons hsep hcut, List.mem_cons] at h
    rcases h with rfl | hlater
    · exact not_infix_of_cut? hsep hcut
    · exact ih hlater

/-- The parts joined by the separator are the text. -/
theorem intercalate_splitAll (sep s : List Char) : sep.intercalate (splitAll sep s) = s := by
  induction s using splitAll.induct sep with
  | case1 s hnil => rw [hnil, splitAll_nil, List.intercalate_singleton]
  | case2 s _ hcut => rw [splitAll_eq_self hcut, List.intercalate_singleton]
  | case3 s hsep before after hcut ih =>
    rw [splitAll_eq_cons hsep hcut, List.intercalate_cons_of_ne_nil (splitAll_ne_nil sep after), ih,
      cut?_eq_some hcut]

/-- A separator of one character is found behind each part that does not have the character. -/
theorem splitAll_intercalate {c : Char} {parts : List (List Char)} (hparts : parts ≠ [])
    (h : ∀ part ∈ parts, c ∉ part) : splitAll [c] ([c].intercalate parts) = parts := by
  have hsep : [c] ≠ [] := List.cons_ne_nil c []
  induction parts with
  | nil => exact absurd rfl hparts
  | cons part parts ih =>
    rw [List.forall_mem_cons] at h
    rcases h with ⟨hpart, hothers⟩
    have hfirst : ¬ [c] <:+: part := mt (List.singleton_infix_iff c part).1 hpart
    -- The last part has no separator behind it.
    by_cases hlast : parts = []
    · subst hlast
      rw [List.intercalate_singleton]
      exact splitAll_eq_self ((cut?_eq_none_iff hsep).2 hfirst)
    · rw [List.intercalate_cons_of_ne_nil hlast]
      have hcut : cut? [c] (part ++ [c] ++ [c].intercalate parts) =
          some (part, [c].intercalate parts) :=
        cut?_append hsep (by simpa using hfirst)
      rw [splitAll_eq_cons hsep hcut, ih hlast hothers]

/-! ## Splitting texts -/

theorem split_ne_nil (sep s : String) : split sep s ≠ [] := by
  intro h
  exact splitAll_ne_nil _ _ (List.map_eq_nil_iff.1 h)

/-- No part of a text that is split contains the separator. -/
theorem not_infix_of_mem_split {sep s part : String} (hsep : sep ≠ "") (h : part ∈ split sep s) :
    ¬ sep.toList <:+: part.toList := by
  rcases List.mem_map.1 h with ⟨cs, hcs, rfl⟩
  rw [String.toList_ofList]
  exact not_infix_of_mem_splitAll (mt String.toList_eq_nil_iff.1 hsep) hcs

/-- The parts of a text joined by the separator are the text, also if the separator is empty. -/
theorem intercalate_split (sep s : String) : String.intercalate sep (split sep s) = s := by
  apply String.toList_inj.1
  rw [String.toList_intercalate, split, List.map_map]
  simp [Function.comp_def, intercalate_splitAll]

/-- Texts joined by a character that none of them has are found again by splitting at it. -/
theorem split_intercalate {c : Char} {parts : List String} (hparts : parts ≠ [])
    (h : ∀ part ∈ parts, c ∉ part.toList) :
    split (String.singleton c) (String.intercalate (String.singleton c) parts) = parts := by
  rw [split, String.toList_intercalate, String.toList_singleton,
    splitAll_intercalate (by simpa using hparts) (by simpa using h), List.map_map]
  simp [Function.comp_def]

end Text

end StackTemplate
