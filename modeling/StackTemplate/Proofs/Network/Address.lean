import Mathlib.Data.Nat.Bitwise
import StackTemplate.Network.Subnet
import StackTemplate.Proofs.Entries

/-!
# Addresses in range

An address that is read is a number of as many bits as its family has. It is put together from
digits of one base, each of them below the base, and there are only so many.

* `ofDigits_lt` : the bound of a number with given digits.
* `Address.InRange` : an address has no more bits than its family.
* `Block.inRange_of_parse` : the address of a block that is read is in range.
-/

namespace StackTemplate

/-! ## Digits -/

/-- One more digit below the base takes one more place. -/
theorem digit_le {base value d : Nat} (h : d < base) (places : Nat) :
    (value * base + d + 1) * base ^ places ≤ (value + 1) * base ^ (places + 1) := by
  have hfirst : value * base + d + 1 ≤ (value + 1) * base := by
    rw [Nat.add_mul]
    omega
  calc (value * base + d + 1) * base ^ places
      ≤ ((value + 1) * base) * base ^ places := Nat.mul_le_mul_right _ hfirst
    _ = (value + 1) * base ^ (places + 1) := by rw [Nat.pow_succ', Nat.mul_assoc]

namespace Text

/-- A hexadecimal digit is below sixteen. -/
theorem lt_of_hexDigitValue? {c : Char} {d : Nat} (h : hexDigitValue? c = some d) : d < 16 := by
  have htoNat (a b : Char) : a ≤ b ↔ a.toNat ≤ b.toNat := Iff.rfl
  simp only [hexDigitValue?, htoNat] at h
  split_ifs at h <;> cases h
  all_goals
    simp only [Char.reduceToNat] at *
    omega

/-- A number that is read from digits below a base has as many places as there are digits. -/
theorem readDigitsFrom_lt {digit? : Char → Option Nat} {base : Nat}
    (hdigit : ∀ c d, digit? c = some d → d < base) {value n : Nat} {cs : List Char}
    (h : readDigitsFrom digit? base value cs = some n) : n < (value + 1) * base ^ cs.length := by
  induction cs generalizing value with
  | nil =>
    obtain rfl : value = n := Option.some.inj h
    simp
  | cons c cs ih =>
    unfold readDigitsFrom at h
    split at h
    · next d hd => exact Nat.lt_of_lt_of_le (ih h) (digit_le (hdigit c d hd) cs.length)
    · cases h

end Text

namespace Network

open Text

/-- A number with digits below a base has as many places as there are digits. -/
theorem ofDigits_lt {base : Nat} {digits : List Nat} (h : ∀ d ∈ digits, d < base) :
    ofDigits base digits < base ^ digits.length := by
  -- The induction is over any number that was read before.
  have hfold : ∀ value, digits.foldl (fun value d => value * base + d) value <
      (value + 1) * base ^ digits.length := by
    induction digits with
    | nil => simp
    | cons d digits ih =>
      intro value
      have hrest := ih (fun d hd => h d (List.mem_cons_of_mem _ hd)) (value * base + d)
      exact Nat.lt_of_lt_of_le hrest (digit_le (h d List.mem_cons_self) digits.length)
  simpa [ofDigits] using hfold 0

/-- The digits of a number are below the base. -/
theorem lt_of_mem_toDigits {base count value d : Nat} (hbase : 0 < base)
    (h : d ∈ toDigits base count value) : d < base := by
  induction count with
  | zero => cases h
  | succ count ih =>
    rcases List.mem_cons.1 h with rfl | h
    · exact Nat.mod_lt _ hbase
    · exact ih h

/-! ## Addresses -/

/-- An address has no more bits than its family. -/
def Address.InRange (a : Address) : Prop := a.value < 2 ^ a.family.width

/-- An octet is a byte. -/
theorem lt_of_readOctet? {cs : List Char} {n : Nat} (h : readOctet? cs = some n) : n < 256 := by
  unfold readOctet? at h
  split_ifs at h
  split at h
  · split_ifs at h with hle
    obtain rfl := Option.some.inj h
    omega
  · cases h

/-- Four octets make 32 bits. -/
theorem lt_of_readV4? {cs : List Char} {value : Nat} (h : readV4? cs = some value) :
    value < 2 ^ 32 := by
  unfold readV4? at h
  simp only at h
  split_ifs at h with hlength
  obtain ⟨octets, hoctets, rfl⟩ := Option.map_eq_some_iff.1 h
  have hread := mapM_eq_some_iff.1 hoctets
  -- Four parts were read, one octet each.
  have hfour : octets.length = 4 := hread.length_eq ▸ hlength
  have hbound : ∀ d ∈ octets, d < 256 := by
    intro d hd
    obtain ⟨part, -, hpart⟩ := exists_mem_of_forall₂ hread hd
    exact lt_of_readOctet? hpart
  simpa [hfour] using ofDigits_lt hbound

/-- A group has at most four hexadecimal digits. -/
theorem lt_of_readGroup? {cs : List Char} {g : Nat} (h : readGroup? cs = some g) : g < 0x10000 := by
  unfold readGroup? at h
  split_ifs at h with hlength
  cases cs with
  | nil => cases h
  | cons c cs =>
    have hlt := readDigitsFrom_lt (fun _ _ => lt_of_hexDigitValue?) h
    calc g < (0 + 1) * 16 ^ (c :: cs).length := hlt
      _ ≤ (0 + 1) * 16 ^ 4 := Nat.mul_le_mul_left _ (Nat.pow_le_pow_right (by decide) hlength)

/-- The groups of a run have 16 bits each, also those of an address at its end. -/
theorem lt_of_mem_readGroups? {mixed : Bool} {parts : List (List Char)} {groups : List Nat}
    (h : readGroups? mixed parts = some groups) {g : Nat} (hg : g ∈ groups) : g < 0x10000 := by
  induction parts generalizing groups with
  | nil =>
    obtain rfl : [] = groups := Option.some.inj h
    cases hg
  | cons part parts ih =>
    cases parts with
    | nil =>
      -- The last part may be an address of the other family, which makes two groups.
      unfold readGroups? at h
      split at h
      · next hpart =>
        obtain rfl := Option.some.inj h
        obtain rfl := List.mem_singleton.1 hg
        exact lt_of_readGroup? hpart
      · split_ifs at h
        obtain ⟨value, -, rfl⟩ := Option.map_eq_some_iff.1 h
        exact lt_of_mem_toDigits (by decide) hg
    | cons next parts =>
      unfold readGroups? at h
      split at h
      · next hpart hrest =>
        obtain rfl := Option.some.inj h
        rcases List.mem_cons.1 hg with rfl | hg
        · exact lt_of_readGroup? hpart
        · exact ih hrest hg
      · cases h

theorem lt_of_mem_readRun? {mixed : Bool} {cs : List Char} {groups : List Nat}
    (h : readRun? mixed cs = some groups) {g : Nat} (hg : g ∈ groups) : g < 0x10000 := by
  unfold readRun? at h
  split_ifs at h
  · obtain rfl := Option.some.inj h
    cases hg
  · exact lt_of_mem_readGroups? h hg

/-- Eight groups make an address. -/
theorem ofDigits_lt_of_groups {groups : List Nat} (h : ∀ g ∈ groups, g < 0x10000)
    (hlength : groups.length = 8) : ofDigits 0x10000 groups < 2 ^ 128 := by
  simpa [hlength] using ofDigits_lt h

/-- Eight groups make 128 bits, with or without a gap that stands for zeros. -/
theorem lt_of_readV6? {cs : List Char} {value : Nat} (h : readV6? cs = some value) :
    value < 2 ^ 128 := by
  unfold readV6? at h
  split at h
  · -- Without a gap there are eight groups.
    split at h
    · -- Without a gap there are eight groups.
      next groups hgroups =>
      split_ifs at h with hlength
      obtain rfl := Option.some.inj h
      exact ofDigits_lt_of_groups (fun g => lt_of_mem_readGroups? hgroups) hlength
    · cases h
  · split at h
    · -- A gap is filled with as many zeros as there are groups missing.
      next head tail hhead htail =>
      split_ifs at h with hlength
      obtain rfl := Option.some.inj h
      refine ofDigits_lt_of_groups (fun g hg => ?_) ?_
      · simp only [List.mem_append, List.mem_replicate] at hg
        rcases hg with (hg | ⟨-, rfl⟩) | hg
        · exact lt_of_mem_readRun? hhead hg
        · decide
        · exact lt_of_mem_readRun? htail hg
      · simp only [List.length_append, List.length_replicate]
        omega
    · cases h

/-- An address that is read has no more bits than its family. -/
theorem Address.inRange_of_parse? {text : String} {a : Address} (h : Address.parse? text = some a) :
    a.InRange := by
  unfold parse? at h
  split at h
  · next hv4 =>
    obtain rfl := Option.some.inj h
    exact lt_of_readV4? hv4
  · obtain ⟨value, hv6, rfl⟩ := Option.map_eq_some_iff.1 h
    exact lt_of_readV6? hv6

/-- The address of a block that is read is in range, and the length is one of 32 bits. -/
theorem Block.inRange_of_parse {text : String} {b : Block} (h : Block.parse text = .ok b) :
    b.address.InRange ∧ b.prefixLength < 2 ^ 32 := by
  unfold parse at h
  split at h
  · cases h
  · split at h
    · cases h
    · next hlength =>
      split_ifs at h with hlong
      split at h
      · cases h
      · next haddress =>
        obtain rfl := Except.ok.inj h
        exact ⟨Address.inRange_of_parse? haddress, Nat.lt_of_not_le hlong⟩

end Network

end StackTemplate
