import StackTemplate.Text.Numeral

/-!
# Numerals that are written

The decimal numeral that a number is written as consists of digits and is read as the number.

* `Text.isDigit_of_mem_toString` : the characters of a numeral.
* `Text.readUnsigned?_toString` : reading a numeral that was written.
-/

namespace StackTemplate.Text

variable {cs : List Char} {c : Char}

theorem isDigit_of_mem_toString {n : Nat} (h : c ∈ (toString n).toList) : c.isDigit = true := by
  rw [Nat.toString_eq_repr, Nat.toList_repr] at h
  exact Nat.isDigit_of_mem_toDigits (by decide) (by decide) h

theorem digitValue?_of_isDigit (h : c.isDigit = true) :
    digitValue? c = some (c.toNat - '0'.toNat) := by
  simp only [Char.isDigit, Bool.and_eq_true, decide_eq_true_eq] at h
  exact if_pos h

/-- Digits are read from left to right, as they are weighed. -/
theorem readDigitsFrom_eq_ofDigitChars (h : ∀ c ∈ cs, c.isDigit = true) (value : Nat) :
    readDigitsFrom digitValue? 10 value cs = some (Nat.ofDigitChars 10 cs value) := by
  induction cs generalizing value with
  | nil => rfl
  | cons c cs ih =>
    rw [List.forall_mem_cons] at h
    rw [readDigitsFrom, digitValue?_of_isDigit h.1, Nat.ofDigitChars_cons, Nat.mul_comm 10]
    exact ih h.2 _

/-- A number is read from the numeral that it is written as. -/
theorem readUnsigned?_toString (n : Nat) : readUnsigned? (toString n) = some n := by
  have hdigits : ∀ c ∈ (toString n).toList, c.isDigit = true := fun c => isDigit_of_mem_toString
  -- Reading and writing weigh the digits alike.
  have hread := readDigitsFrom_eq_ofDigitChars hdigits 0
  have hlist : (toString n).toList = Nat.toDigits 10 n := by
    rw [Nat.toString_eq_repr, Nat.toList_repr]
  rw [hlist] at hdigits hread
  rw [Nat.ofDigitChars_toDigits (by decide) (by decide)] at hread
  unfold readUnsigned?
  rw [hlist]
  split
  · next cs hplus =>
    -- A plus sign is no digit.
    rw [hplus] at hdigits
    cases hdigits '+' List.mem_cons_self
  · unfold readNat? readDigits?
    split
    · next hnil => exact absurd hnil Nat.toDigits_ne_nil
    · exact hread

end StackTemplate.Text
