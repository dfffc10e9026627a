import Mathlib.Data.List.Range
import StackTemplate.Proofs.Network.Address

/-!
# Carved subnets

Subnets are carved out of a block whose address has no more bits than its family. They follow each
other from the start of the block, so each starts at a multiple of its size, no two overlap, and
none leaves the block. The same is computed in words of 128 bits, where no step overflows.

* `Block.Contains` : the addresses of a block.
* `Block.Divides` : what carved subnets are.
* `Block.carveInWords` : carving by shifts, masks and sums of words.
* `Block.carve_eq_ok_iff` : when a block is carved.
* `subnets_exact` : when a written block is carved, into what, and that no step overflows.
-/

namespace StackTemplate.Network

variable {b : Block} {bits count i : Nat}

namespace Block

/-! ## The addresses of a block -/

/-- The number of bits of an address of a block that are not fixed. -/
def hostBits (b : Block) : Nat := b.address.family.width - b.prefixLength

/-- The addresses of a block are those of its family that agree with its own in all but the host
bits. -/
def Contains (b : Block) (a : Address) : Prop :=
  a.family = b.address.family ∧ a.value / size b.hostBits = b.address.value / size b.hostBits

theorem size_pos (hostBits : Nat) : 0 < size hostBits := Nat.two_pow_pos hostBits

/-- A block is made of as many smaller ones as the bits between them can tell apart. -/
theorem size_mul_size {m n : Nat} (h : m ≤ n) : size (n - m) * size m = size n := by
  simpa only [size, Nat.pow_eq] using Nat.pow_sub_mul_pow 2 h

/-- The bits of the start of a block are those of its address from the host bits on. -/
theorem testBit_network (b : Block) (i : Nat) :
    b.network.testBit i = (decide (b.hostBits ≤ i) && b.address.value.testBit i) := by
  change (b.address.value / 2 ^ b.hostBits * 2 ^ b.hostBits).testBit i = _
  rw [Nat.testBit_mul_two_pow, Nat.testBit_div_two_pow]
  by_cases h : b.hostBits ≤ i <;> simp [h]

/-- A block starts at a multiple of the size of each of its subnets. -/
theorem size_dvd_network (h : bits ≤ b.hostBits) : size bits ∣ b.network :=
  (Nat.pow_dvd_pow 2 h).trans (Nat.dvd_mul_left _ _)

/-- A block ends where the addresses of its family end, or before. -/
theorem network_add_size_le (hrange : b.address.InRange) :
    b.network + size b.hostBits ≤ size b.address.family.width := by
  have hhost : b.hostBits ≤ b.address.family.width := Nat.sub_le _ _
  -- The fixed bits make a number of as many bits as are fixed.
  have hfixed : b.address.value / size b.hostBits < size (b.address.family.width - b.hostBits) := by
    rw [Nat.div_lt_iff_lt_mul (size_pos _), size_mul_size hhost]
    exact hrange
  calc b.network + size b.hostBits
      = (b.address.value / size b.hostBits + 1) * size b.hostBits := by
        rw [Nat.add_one_mul]
        rfl
    _ ≤ size (b.address.family.width - b.hostBits) * size b.hostBits :=
        Nat.mul_le_mul_right _ hfixed
    _ = size b.address.family.width := size_mul_size hhost

/-- The addresses of a block are those from its start up to its size. -/
theorem contains_iff {a : Address} :
    b.Contains a ↔ a.family = b.address.family ∧ b.network ≤ a.value ∧
      a.value < b.network + size b.hostBits := by
  have hpos := size_pos b.hostBits
  have hnetwork : b.network = b.address.value / size b.hostBits * size b.hostBits := rfl
  rw [Contains, Nat.div_eq_iff hpos, ← hnetwork]
  exact and_congr_right fun _ => and_congr_right fun _ => by omega

/-! ## The subnets of a block -/

def subnet (b : Block) (bits i : Nat) : Block :=
  ⟨⟨b.address.family, b.network + i * size bits⟩, b.address.family.width - bits⟩

theorem hostBits_subnet (h : bits ≤ b.hostBits) : (b.subnet bits i).hostBits = bits := by
  have hhost : b.hostBits ≤ b.address.family.width := Nat.sub_le _ _
  change b.address.family.width - (b.address.family.width - bits) = bits
  omega

theorem size_dvd_subnet (h : bits ≤ b.hostBits) : size bits ∣ (b.subnet bits i).address.value :=
  (Nat.dvd_add_right (size_dvd_network h)).2 (Nat.dvd_mul_left _ _)

/-- The address of a subnet is its start. -/
theorem network_subnet (h : bits ≤ b.hostBits) :
    (b.subnet bits i).network = b.network + i * size bits := by
  have hnetwork : (b.subnet bits i).network = (b.subnet bits i).address.value /
    size (b.subnet bits i).hostBits * size (b.subnet bits i).hostBits := rfl
  rw [hnetwork, hostBits_subnet h, Nat.div_mul_cancel (size_dvd_subnet h)]
  rfl

/-- The addresses of a subnet are those from its start to the start of the next one. -/
theorem contains_subnet_iff (h : bits ≤ b.hostBits) {a : Address} :
    (b.subnet bits i).Contains a ↔ a.family = b.address.family ∧
      b.network + i * size bits ≤ a.value ∧ a.value < b.network + (i + 1) * size bits := by
  -- A subnet is a block, whose start and size are known.
  rw [contains_iff, network_subnet h, hostBits_subnet h, Nat.add_one_mul, Nat.add_assoc]
  rfl

/-- As many subnets as there is room for end where the block ends, or before. -/
theorem succ_mul_size_le (h : bits ≤ b.hostBits) (hroom : count ≤ size (b.hostBits - bits))
    (hi : i < count) : (i + 1) * size bits ≤ size b.hostBits := by
  rw [← size_mul_size h]
  exact Nat.mul_le_mul_right _ (Nat.le_trans hi hroom)

/-- What subnets of a block are that leave a number of bits to the hosts. -/
structure Divides (b : Block) (count bits : Nat) (subnets : List Block) : Prop where
  /-- The block starts at its address with the host bits cleared. -/
  cleared : ∀ i, b.network.testBit i = (decide (b.hostBits ≤ i) && b.address.value.testBit i)
  /-- There are as many as are asked for. -/
  length : subnets.length = count
  /-- Each starts as many times its size after the start of the block as there are before it. -/
  nth : ∀ i < count, subnets[i]? =
    some ⟨⟨b.address.family, b.network + i * 2 ^ bits⟩, b.address.family.width - bits⟩
  /-- Each starts at an address of its family. -/
  inRange : ∀ s ∈ subnets, s.address.InRange
  /-- Each starts at a multiple of its size. -/
  aligned : ∀ s ∈ subnets, 2 ^ bits ∣ s.address.value
  /-- No two have an address in common. -/
  disjoint : subnets.Pairwise fun s t => ∀ a, s.Contains a → ¬ t.Contains a
  /-- Each starts where the one before it ends. -/
  consecutive : subnets.IsChain fun s t => t.address.value = s.address.value + 2 ^ bits
  /-- Each is a part of the block. -/
  contained : ∀ s ∈ subnets, ∀ a, s.Contains a → b.Contains a

/-- The subnets of a block in range divide it, as long as there is room for them. -/
theorem divides_subnets (hrange : b.address.InRange) (h : bits ≤ b.hostBits)
    (hroom : count ≤ size (b.hostBits - bits)) : b.Divides count bits (b.subnets count bits) := by
  have hmem {s : Block} (hs : s ∈ b.subnets count bits) : ∃ i < count, s = b.subnet bits i := by
    obtain ⟨i, hi, rfl⟩ := List.mem_map.1 hs
    exact ⟨i, List.mem_range.1 hi, rfl⟩
  have hsubnets : b.subnets count bits = (List.range count).map (b.subnet bits) := rfl
  constructor
  case cleared => exact b.testBit_network
  case length => simp [hsubnets]
  case nth =>
    intro i hi
    rw [hsubnets, List.getElem?_map, List.getElem?_range hi]
    rfl
  case inRange =>
    intro s hs
    obtain ⟨i, hi, rfl⟩ := hmem hs
    have hend := network_add_size_le hrange
    have hpart := succ_mul_size_le h hroom hi
    have hpos := size_pos bits
    rw [Nat.add_one_mul] at hpart
    change b.network + i * size bits < size b.address.family.width
    omega
  case aligned =>
    intro s hs
    obtain ⟨i, -, rfl⟩ := hmem hs
    exact size_dvd_subnet h
  case disjoint =>
    -- A subnet ends where the next one starts, so no address is in two of them.
    rw [hsubnets, List.pairwise_map]
    refine List.pairwise_lt_range.imp fun {i j} hij a hi hj => ?_
    have hbefore : (i + 1) * size bits ≤ j * size bits := Nat.mul_le_mul_right _ hij
    obtain ⟨-, -, hbelow⟩ := (contains_subnet_iff h).1 hi
    obtain ⟨-, habove, -⟩ := (contains_subnet_iff h).1 hj
    omega
  case consecutive =>
    rw [hsubnets, List.isChain_map, List.isChain_range]
    intro i _
    change b.network + (i + 1) * size bits = b.network + i * size bits + size bits
    rw [Nat.add_one_mul, Nat.add_assoc]
  case contained =>
    intro s hs a ha
    obtain ⟨i, hi, rfl⟩ := hmem hs
    have hpart := succ_mul_size_le h hroom hi
    obtain ⟨hfamily, habove, hbelow⟩ := (contains_subnet_iff h).1 ha
    exact contains_iff.2 ⟨hfamily, by omega, by omega⟩

end Block

/-! ## Words -/

/-- A word, which holds an address of either family. -/
abbrev Word := BitVec 128

namespace Word

def shiftLeft? (x : Word) (amount : Nat) : Option Word :=
  if amount < 128 then some (x <<< amount) else none

def add? (x y : Word) : Option Word :=
  if x.toNat + y.toNat < 2 ^ 128 then some (x + y) else none

def sub? (x y : Word) : Option Word :=
  if y.toNat ≤ x.toNat then some (x - y) else none

end Word

/-- The difference of two lengths, absent where it is negative. -/
def lengthDifference? (m n : Nat) : Option Nat := if n ≤ m then some (m - n) else none

namespace Block

/-- How many subnets there are room for, given the bits that tell them apart; all ones where that is
no word. -/
def roomInWords (bits : Nat) : Word := (Word.shiftLeft? 1 bits).getD (BitVec.allOnes 128)

/-- The word with as many ones as an address has bits. -/
def onesInWords (f : Family) : Option Word :=
  if f.width = 128 then some (BitVec.allOnes 128)
  else do Word.sub? (← Word.shiftLeft? 1 f.width) 1

/-- The word with a one for each bit of an address of a block that is fixed. -/
def maskInWords (b : Block) : Option Word := do
  let ones ← onesInWords b.address.family
  if b.prefixLength = 0 then return 0
  else
    let hostBits ← lengthDifference? b.address.family.width b.prefixLength
    let shifted ← Word.shiftLeft? ones hostBits
    return shifted &&& ones

/-- The address of a block with its host bits masked out. -/
def networkInWords (b : Block) : Option Word := do
  let mask ← b.maskInWords
  return BitVec.ofNat 128 b.address.value &&& mask

/-- The subnet of an index, cut to the width of the family. -/
def subnetInWords (f : Family) (network : Word) (bits length i : Nat) : Option Block := do
  let start ← network.add? (← Word.shiftLeft? (BitVec.ofNat 128 i) bits)
  return ⟨⟨f, (start.setWidth f.width).toNat⟩, length⟩

/-- Carves `count` subnets with `bits` host bits out of a block, in words; absent where some step of
the computation overflows. -/
def carveInWords (b : Block) (count bits : Int) : Option (Except CidrFault (List Block)) :=
  let width := b.address.family.width
  if width < b.prefixLength then some (.error .prefixTooLong)
  else if count < 1 ∨ 256 < count then some (.error .countOutOfRange)
  else if bits < 0 ∨ 0x100000000 ≤ bits then some (.error .bitsNotPositive)
  else do
    let bits := bits.toNat
    let hostBits ← lengthDifference? width b.prefixLength
    if bits = 0 ∨ width ≤ bits ∨ hostBits < bits then some (.error .bitsDoNotFit)
    else do
      let room := roomInWords (← lengthDifference? hostBits bits)
      let count := BitVec.ofInt 128 count
      if room < count then some (.error .blockTooSmall)
      else do
        let network ← b.networkInWords
        let length ← lengthDifference? width bits
        let subnets ← (List.range count.toNat).mapM
          (subnetInWords b.address.family network bits length)
        return .ok subnets

theorem size_width_le (f : Family) : size f.width ≤ 2 ^ 128 := by
  cases f <;> decide

theorem width_le (f : Family) : f.width ≤ 128 := by
  cases f <;> decide

/-- The room is computed exactly, unless all bits of a word tell subnets apart. -/
theorem toNat_roomInWords (h : bits < 128) : (roomInWords bits).toNat = size bits := by
  have hlt : 2 ^ bits < 2 ^ 128 := Nat.pow_lt_pow_right (by decide) h
  simp only [roomInWords, Word.shiftLeft?, if_pos h, Option.getD_some, BitVec.toNat_shiftLeft,
    Nat.shiftLeft_eq]
  exact (congrArg (· % 2 ^ 128) (Nat.one_mul _)).trans (Nat.mod_eq_of_lt hlt)

/-- For the family of 128 bits, too, the word is the largest address. -/
theorem onesInWords_eq (f : Family) :
    onesInWords f = some (BitVec.ofNat 128 (2 ^ f.width - 1)) := by
  cases f <;> rfl

/-- The bits of the mask are ones from the host bits on, as far as an address has bits. -/
theorem maskInWords_eq (hlength : b.prefixLength ≤ b.address.family.width) :
    ∃ mask, b.maskInWords = some mask ∧
      ∀ i, mask.getLsbD i = (decide (b.hostBits ≤ i) && decide (i < b.address.family.width)) := by
  have hwidth := width_le b.address.family
  simp only [maskInWords, onesInWords_eq, Option.bind_eq_bind, Option.bind_some, Option.pure_def]
  by_cases hzero : b.prefixLength = 0
  · -- No bit is fixed, and shifting by all bits of a word is not tried.
    refine ⟨0, if_pos hzero, fun i => ?_⟩
    have hhost : b.hostBits = b.address.family.width := by rw [hostBits, hzero, Nat.sub_zero]
    simp [hhost]
  · have hshift : b.address.family.width - b.prefixLength < 128 := by omega
    simp only [hzero, if_false, lengthDifference?, if_pos hlength, Word.shiftLeft?, if_pos hshift,
      Option.bind_some]
    refine ⟨_, rfl, fun i => ?_⟩
    simp only [BitVec.getLsbD_and, BitVec.getLsbD_shiftLeft, BitVec.getLsbD_ofNat,
      Nat.testBit_two_pow_sub_one, hostBits]
    grind

/-- Masking out the host bits gives the start of the block. -/
theorem networkInWords_eq (hrange : b.address.InRange)
    (hlength : b.prefixLength ≤ b.address.family.width) :
    b.networkInWords = some (BitVec.ofNat 128 b.network) := by
  obtain ⟨mask, hmask, hbits⟩ := maskInWords_eq hlength
  -- An address in range has no bit above those of its family.
  have hclear (i : Nat) (h : b.address.family.width ≤ i) : b.address.value.testBit i = false :=
    Nat.testBit_lt_two_pow (Nat.lt_of_lt_of_le hrange (Nat.pow_le_pow_right (by decide) h))
  have hnetwork : BitVec.ofNat 128 b.address.value &&& mask = BitVec.ofNat 128 b.network := by
    -- Bit by bit: both sides keep the bits of the address from the host bits on.
    refine BitVec.eq_of_getLsbD_eq fun i hi => ?_
    rw [BitVec.getLsbD_and, hbits, BitVec.getLsbD_ofNat, BitVec.getLsbD_ofNat, testBit_network]
    by_cases h : b.address.family.width ≤ i
    · simp [hclear i h]
    · simp [hi, Nat.lt_of_not_le h, Bool.and_comm]
  rw [networkInWords, hmask, ← hnetwork]
  rfl

/-- A shift to the left multiplies by a power of two. -/
theorem ofNat_shiftLeft (n bits : Nat) :
    (BitVec.ofNat 128 n : Word) <<< bits = BitVec.ofNat 128 (n * size bits) := by
  apply BitVec.eq_of_toNat_eq
  rw [BitVec.toNat_shiftLeft, BitVec.toNat_ofNat, BitVec.toNat_ofNat, Nat.shiftLeft_eq,
    Nat.mod_mul_mod]
  rfl

/-- The start of a subnet is computed exactly, if it is an address of the family. -/
theorem subnetInWords_eq {f : Family} {network length : Nat} (hbits : bits < 128)
    (h : network + i * size bits < size f.width) :
    subnetInWords f (BitVec.ofNat 128 network) bits length i =
      some ⟨⟨f, network + i * size bits⟩, length⟩ := by
  have hword := Nat.lt_of_lt_of_le h (size_width_le f)
  have hshift : Word.shiftLeft? (BitVec.ofNat 128 i) bits = some (BitVec.ofNat 128 (i * size bits)) :=
    (if_pos hbits).trans (congrArg some (ofNat_shiftLeft i bits))
  -- The sum stays below the end of the family, so it is a word.
  have hadd : Word.add? (BitVec.ofNat 128 network) (BitVec.ofNat 128 (i * size bits)) =
      some (BitVec.ofNat 128 (network + i * size bits)) := by
    rw [Word.add?, BitVec.ofNat_add, if_pos]
    rw [BitVec.toNat_ofNat, BitVec.toNat_ofNat, Nat.mod_eq_of_lt (by omega),
      Nat.mod_eq_of_lt (by omega)]
    exact hword
  -- Cutting to the width of the family takes nothing away.
  have hcut : ((BitVec.ofNat 128 (network + i * size bits)).setWidth f.width).toNat =
      network + i * size bits := by
    rw [BitVec.setWidth_ofNat_of_le (width_le f), BitVec.toNat_ofNat]
    exact Nat.mod_eq_of_lt h
  simp only [subnetInWords, hshift, hadd, hcut, Option.bind_eq_bind, Option.bind_some,
    Option.pure_def]

/-! ## Carving -/

theorem toNat_le_size_iff {count : Int} {hostBits : Nat} :
    count.toNat ≤ size hostBits ↔ count ≤ 2 ^ hostBits := by
  rw [Int.toNat_le]
  exact iff_of_eq (congrArg (count ≤ ·) (Int.natCast_pow 2 hostBits))

/-- A block is carved where the subnets are not too many and not too small, and where there is room
for them. -/
theorem carve_eq_ok_iff {count bits : Int} {subnets : List Block} :
    b.carve count bits = .ok subnets ↔
      (b.prefixLength ≤ b.address.family.width ∧ 1 ≤ count ∧ count ≤ 256 ∧ 1 ≤ bits ∧
        bits < b.address.family.width ∧ bits ≤ (b.address.family.width : Int) - b.prefixLength ∧
        count ≤ 2 ^ (b.address.family.width - b.prefixLength - bits.toNat)) ∧
      subnets = b.subnets count.toNat bits.toNat := by
  have hwidth := width_le b.address.family
  simp only [carve]
  split_ifs with hlong hcount hbits hfit hsmall
  -- The first four refusals each go against one of the bounds.
  case pos | pos | pos | pos => exact ⟨nofun, fun h => absurd h.1 (by omega)⟩
  case pos =>
    refine ⟨nofun, fun ⟨⟨_, _, _, _, _, _, hroom⟩, _⟩ => ?_⟩
    exact absurd (toNat_le_size_iff.2 hroom) (Nat.not_le_of_lt hsmall)
  case neg =>
    have hroom := toNat_le_size_iff.1 (Nat.le_of_not_lt hsmall)
    constructor
    · rintro ⟨⟩
      exact ⟨⟨by omega, by omega, by omega, by omega, by omega, by omega, hroom⟩, rfl⟩
    · rintro ⟨-, rfl⟩
      rfl

/-- The subnets are computed in words as long as they do not leave the block. -/
theorem subnetsInWords_eq (hrange : b.address.InRange) (h : bits ≤ b.hostBits) (hbits : bits < 128)
    (hroom : count ≤ size (b.hostBits - bits)) :
    (List.range count).mapM (subnetInWords b.address.family (BitVec.ofNat 128 b.network) bits
      (b.address.family.width - bits)) = some (b.subnets count bits) := by
  have hstart : ∀ i ∈ List.range count,
      subnetInWords b.address.family (BitVec.ofNat 128 b.network) bits
        (b.address.family.width - bits) i = some (b.subnet bits i) := by
    intro i hi
    have hin := (divides_subnets hrange h hroom).inRange (b.subnet bits i) (List.mem_map_of_mem hi)
    exact subnetInWords_eq hbits hin
  exact mapM_eq_some_iff.2 (List.forall₂_map_right_iff.2 (List.forall₂_same.2 hstart))

/-- A block is carved in words without overflow, and as it is carved in numbers. -/
theorem carveInWords_eq (hrange : b.address.InRange) (count bits : Int) :
    b.carveInWords count bits = some (b.carve count bits) := by
  have hwidth := width_le b.address.family
  simp only [carveInWords, carve]
  -- The guards are the same in words and in numbers, one after the other.
  by_cases hlong : b.address.family.width < b.prefixLength
  · simp only [if_pos hlong]
  by_cases hcount : count < 1 ∨ 256 < count
  · simp only [if_neg hlong, if_pos hcount]
  by_cases hbits : bits < 0 ∨ 0x100000000 ≤ bits
  · simp only [if_neg hlong, if_neg hcount, if_pos hbits]
  simp only [if_neg hlong, if_neg hcount, if_neg hbits, lengthDifference?,
    if_pos (Nat.le_of_not_lt hlong), Option.bind_eq_bind, Option.bind_some, Option.pure_def]
  have hfits : (bits.toNat = 0 ∨ b.address.family.width ≤ bits.toNat ∨
      b.address.family.width - b.prefixLength < bits.toNat) ↔
      (bits = 0 ∨ (b.address.family.width : Int) ≤ bits ∨
        ((b.address.family.width - b.prefixLength : Nat) : Int) < bits) := by omega
  by_cases hfit : bits.toNat = 0 ∨ b.address.family.width ≤ bits.toNat ∨
      b.address.family.width - b.prefixLength < bits.toNat
  · simp only [if_pos hfit, if_pos (hfits.1 hfit)]
  simp only [if_neg hfit, if_neg (mt hfits.2 hfit)]
  have hlength : bits.toNat ≤ b.address.family.width - b.prefixLength := by omega
  have hbelow : bits.toNat ≤ b.address.family.width := by omega
  have hcountWord : (BitVec.ofInt 128 count).toNat = count.toNat := by
    rw [BitVec.toNat_ofInt]
    omega
  -- The last guard compares words, which are the numbers that they stand for.
  have hroomWord : roomInWords (b.address.family.width - b.prefixLength - bits.toNat) <
      BitVec.ofInt 128 count ↔
      size (b.address.family.width - b.prefixLength - bits.toNat) < count.toNat := by
    rw [BitVec.lt_def, toNat_roomInWords (by omega), hcountWord]
  simp only [if_pos hlength, if_pos hbelow, Option.bind_some, hroomWord, hcountWord,
    networkInWords_eq hrange (Nat.le_of_not_lt hlong)]
  by_cases hsmall : size (b.address.family.width - b.prefixLength - bits.toNat) < count.toNat
  · simp only [if_pos hsmall]
  · simp only [if_neg hsmall]
    rw [subnetsInWords_eq hrange hlength (by omega) (Nat.le_of_not_lt hsmall), Option.bind_some]

end Block

/-- A written block is carved as the block that is read from it. -/
theorem subnets_eq_ok_iff {text : String} (h : Block.parse text = .ok b) {count bits : Int}
    {written : List String} : subnets text count bits = .ok written ↔
      ∃ carved, b.carve count bits = .ok carved ∧ written = carved.map Block.text := by
  have hsubnets : subnets text count bits =
      (b.carve count bits).bind fun carved => .ok (carved.map Block.text) := by
    unfold subnets
    rw [h]
    rfl
  rw [hsubnets]
  cases b.carve count bits with
  | error fault => exact ⟨nofun, nofun⟩
  | ok carved => exact ⟨fun h => ⟨carved, rfl, (Except.ok.inj h).symm⟩, by rintro ⟨_, ⟨⟩, rfl⟩; rfl⟩

/-- Carving a written block takes no step that overflows a word. It succeeds where the subnets are
not too many and not too small and the block has room for them, and what is written then are
subnets that divide the block. -/
theorem subnets_exact {text : String} (h : Block.parse text = .ok b) (count bits : Int) :
    b.carveInWords count bits = some (b.carve count bits) ∧
    ((∃ written, subnets text count bits = .ok written) ↔
      b.prefixLength ≤ b.address.family.width ∧ 1 ≤ count ∧ count ≤ 256 ∧ 1 ≤ bits ∧
        bits < b.address.family.width ∧ bits ≤ (b.address.family.width : Int) - b.prefixLength ∧
        count ≤ 2 ^ (b.address.family.width - b.prefixLength - bits.toNat)) ∧
    ∀ written, subnets text count bits = .ok written →
      ∃ carved, b.carve count bits = .ok carved ∧ written = carved.map Block.text ∧
        b.Divides count.toNat bits.toNat carved := by
  have hrange := (Block.inRange_of_parse h).1
  refine ⟨Block.carveInWords_eq hrange count bits, ⟨?_, fun hfits => ?_⟩, fun written hwritten => ?_⟩
  · -- It succeeds only where the block is carved.
    rintro ⟨written, hwritten⟩
    obtain ⟨carved, hcarved, -⟩ := (subnets_eq_ok_iff h).1 hwritten
    exact (Block.carve_eq_ok_iff.1 hcarved).1
  · have hcarved := Block.carve_eq_ok_iff.2 ⟨hfits, rfl⟩
    exact ⟨_, (subnets_eq_ok_iff h).2 ⟨_, hcarved, rfl⟩⟩
  · obtain ⟨carved, hcarved, rfl⟩ := (subnets_eq_ok_iff h).1 hwritten
    obtain ⟨⟨_, _, _, _, _, hhost, hroom⟩, rfl⟩ := Block.carve_eq_ok_iff.1 hcarved
    have hbits : bits.toNat ≤ b.address.family.width - b.prefixLength := by omega
    exact ⟨_, hcarved, rfl,
      Block.divides_subnets hrange hbits (Block.toNat_le_size_iff.2 hroom)⟩

/-- The host bits of an address that is not the start of its block are cleared. -/
theorem subnets_exact_of_hostBits :
    Block.parse "192.168.1.77/24" = .ok ⟨⟨.v4, 0xC0A8014D⟩, 24⟩ ∧
    ∃ carved, subnets "192.168.1.77/24" 2 6 = .ok (carved.map Block.text) ∧
      Block.Divides ⟨⟨.v4, 0xC0A8014D⟩, 24⟩ 2 6 carved := by
  have hparse : Block.parse "192.168.1.77/24" = .ok ⟨⟨.v4, 0xC0A8014D⟩, 24⟩ := by decide +kernel
  obtain ⟨-, hcarved, hdivides⟩ := subnets_exact hparse 2 6
  obtain ⟨written, hwritten⟩ := hcarved.2 (by decide)
  obtain ⟨carved, -, rfl, h⟩ := hdivides written hwritten
  exact ⟨hparse, carved, hwritten, h⟩

example : subnets "2001:db8::/56" 2 64 = .ok ["2001:db8::/64", "2001:db8:0:1::/64"] := by
  decide +kernel

end StackTemplate.Network
