/-!
# Cutting text

`cut? sep s` finds the first occurrence of `sep` in `s` and returns what stands before and after
it; `splitAll sep s` cuts at every occurrence, from left to right and without overlaps. Trimming
removes the blanks at both ends of a text and nothing else; a character is blank when it has the
Unicode property `White_Space`.

- `cut?_eq_some` : the two parts and the separator make up the text.
- `splitAll` never returns an empty list (`splitAll_ne_nil`).
-/

namespace StackTemplate.Text

/-! ## Separators -/

/-- The parts of `s` before and after the first occurrence of `sep`. -/
def cut? (sep : List Char) : List Char → Option (List Char × List Char)
  | [] => if sep = [] then some ([], []) else none
  | c :: cs =>
    if sep.isPrefixOf (c :: cs) then some ([], (c :: cs).drop sep.length)
    else (cut? sep cs).map fun (before, after) => (c :: before, after)

/-- The parts before and after a separator make up the text with it. -/
theorem cut?_eq_some {sep s before after : List Char} (h : cut? sep s = some (before, after)) :
    s = before ++ sep ++ after := by
  induction s generalizing before with
  | nil => grind [cut?]
  | cons c cs ih =>
    unfold cut? at h
    split at h
    · -- The separator starts here.
      next hp =>
      obtain ⟨rest, hrest⟩ := List.isPrefixOf_iff_prefix.1 hp
      simp only [Option.some.injEq, Prod.mk.injEq] at h
      obtain ⟨rfl, rfl⟩ := h
      rw [← hrest]
      simp
    · simp only [Option.map_eq_some_iff, Prod.exists, Prod.mk.injEq] at h
      obtain ⟨before', after', hcut, rfl, rfl⟩ := h
      rw [ih hcut]
      simp

/-- What follows a separator is shorter than the text, so cutting again and again ends. -/
theorem length_lt_of_cut? {sep s before after : List Char} (hsep : sep ≠ [])
    (h : cut? sep s = some (before, after)) : after.length < s.length := by
  have hpos := List.length_pos_iff.2 hsep
  rw [cut?_eq_some h]
  simp only [List.length_append]
  omega

/-- The parts of `s` between the occurrences of `sep`; an empty separator does not divide. -/
def splitAll (sep s : List Char) : List (List Char) :=
  if _ : sep = [] then [s]
  else
    match _ : cut? sep s with
    | none => [s]
    | some (before, after) => before :: splitAll sep after
termination_by s.length
decreasing_by exact length_lt_of_cut? ‹¬ sep = []› ‹_›

/-- There is always a part, for the empty text too. -/
theorem splitAll_ne_nil (sep s : List Char) : splitAll sep s ≠ [] := by
  unfold splitAll
  split
  · simp
  · split <;> simp

/-- The texts before and after the first occurrence of `sep`. -/
def splitOnce? (sep s : String) : Option (String × String) :=
  (cut? sep.toList s.toList).map fun (before, after) => (String.ofList before, String.ofList after)

/-- The texts between the occurrences of `sep`. -/
def split (sep s : String) : List String :=
  (splitAll sep.toList s.toList).map String.ofList

/-- The text after `start`, where the text begins with it. -/
def stripStart? (start s : String) : Option String :=
  if start.toList.isPrefixOf s.toList then some (String.ofList (s.toList.drop start.toList.length))
  else none

/-- Whether the text begins with `start`. -/
def beginsWith (start s : String) : Bool :=
  start.toList.isPrefixOf s.toList

/-! ## Blanks -/

/-- The Unicode property `White_Space`. -/
def isBlank (c : Char) : Bool :=
  let n := c.toNat
  (0x09 ≤ n && n ≤ 0x0D) || n == 0x20 || n == 0x85 || n == 0xA0 || n == 0x1680 ||
    (0x2000 ≤ n && n ≤ 0x200A) || n == 0x2028 || n == 0x2029 || n == 0x202F ||
    n == 0x205F || n == 0x3000

/-- Characters without the blanks at either end. -/
def trimChars (cs : List Char) : List Char :=
  ((cs.dropWhile isBlank).reverse.dropWhile isBlank).reverse

/-- Text without the blanks at either end. -/
def trim (s : String) : String :=
  String.ofList (trimChars s.toList)

@[simp] theorem trimChars_nil : trimChars [] = [] := rfl

end StackTemplate.Text
