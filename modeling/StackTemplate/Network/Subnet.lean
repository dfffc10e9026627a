import StackTemplate.Network.Address
import StackTemplate.Text.Cut

/-!
# Carving subnets

A block is an address with the length of its network part. Carving divides the start of a block
into consecutive subnets that leave a given number of bits to the hosts.
-/

namespace StackTemplate.Network

/-- A network: an address and the number of its leading bits that are fixed. -/
structure Block where
  address : Address
  prefixLength : Nat
deriving DecidableEq, Repr

/-- The reasons for which a block is not read or not carved. -/
inductive CidrFault where
  | missingPrefix
  | prefixNotNumber
  | malformedAddress
  | prefixTooLong
  | countOutOfRange
  | bitsNotPositive
  | bitsDoNotFit
  | blockTooSmall
deriving DecidableEq, Repr

def CidrFault.reason : CidrFault → String
  | .missingPrefix => "missing prefix length"
  | .prefixNotNumber => "prefix length is not a number"
  | .malformedAddress => "malformed address"
  | .prefixTooLong => "prefix length exceeds address width"
  | .countOutOfRange => "subnet count must be between 1 and 256"
  | .bitsNotPositive => "subnet bits must be positive"
  | .bitsDoNotFit => "subnet bits do not fit the block"
  | .blockTooSmall => "block is too small for the requested subnets"

namespace Block

def text (b : Block) : String := b.address.text ++ "/" ++ toString b.prefixLength

/-- The block that a text denotes: an address and a length of 32 bits, divided by a slash. -/
def parse (text : String) : Except CidrFault Block :=
  match Text.splitOnce? "/" text with
  | none => .error .missingPrefix
  | some (address, length) =>
    match Text.readUnsigned? (Text.trim length) with
    | none => .error .prefixNotNumber
    | some length =>
      if 0x100000000 ≤ length then .error .prefixNotNumber
      else
        match Address.parse? (Text.trim address) with
        | none => .error .malformedAddress
        | some address => .ok ⟨address, length⟩

/-- The number of addresses that differ in a number of host bits only. -/
def size (hostBits : Nat) : Nat := Nat.pow 2 hostBits

/-- The address of a block with its host bits cleared. -/
def network (b : Block) : Nat :=
  let hostBits := b.address.family.width - b.prefixLength
  b.address.value / size hostBits * size hostBits

/-- The first `count` subnets of a block that leave `bits` bits to the hosts. -/
def subnets (b : Block) (count bits : Nat) : List Block :=
  (List.range count).map fun i =>
    ⟨⟨b.address.family, b.network + i * size bits⟩, b.address.family.width - bits⟩

/-- Carves `count` subnets with `bits` host bits out of a block. -/
def carve (b : Block) (count bits : Int) : Except CidrFault (List Block) :=
  let width := b.address.family.width
  if width < b.prefixLength then .error .prefixTooLong
  else if count < 1 ∨ 256 < count then .error .countOutOfRange
  else if bits < 0 ∨ 0x100000000 ≤ bits then .error .bitsNotPositive
  else if bits = 0 ∨ (width : Int) ≤ bits ∨ ((width - b.prefixLength : Nat) : Int) < bits then
    .error .bitsDoNotFit
  else if size (width - b.prefixLength - bits.toNat) < count.toNat then .error .blockTooSmall
  else .ok (b.subnets count.toNat bits.toNat)

end Block

/-- The written subnets of a written block. -/
def subnets (block : String) (count bits : Int) : Except CidrFault (List String) := do
  let b ← Block.parse block
  let carved ← b.carve count bits
  return carved.map Block.text

end StackTemplate.Network
