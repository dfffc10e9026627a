import StackTemplate.Text.Cut
import StackTemplate.Text.Numeral

/-!
# Network addresses

An address is a number of 32 or 128 bits.

- Addresses of 32 bits are four decimal numbers up to 255 without leading zeros, joined by points.
- Addresses of 128 bits are eight hexadecimal groups joined by colons. One run of zero groups may
  be left out as `::`, and the last two groups may be written as a 32-bit address. The written form
  leaves out the first longest run of at least two zero groups, and an address that maps a 32-bit
  one shows it.
-/

namespace StackTemplate.Network

/-- The two kinds of addresses. -/
inductive Family where
  | v4
  | v6
deriving DecidableEq, Repr

def Family.width : Family → Nat
  | .v4 => 32
  | .v6 => 128

/-- An address of a family. -/
structure Address where
  family : Family
  value : Nat
deriving DecidableEq, Repr

/-- The number with the given digits in a base, most significant digit first. -/
def ofDigits (base : Nat) (digits : List Nat) : Nat :=
  digits.foldl (fun value d => value * base + d) 0

/-- The last `count` digits of a number in a base, most significant digit first. -/
def toDigits (base count value : Nat) : List Nat :=
  match count with
  | 0 => []
  | count + 1 => value / Nat.pow base count % base :: toDigits base count value

/-! ## Reading -/

/-- A decimal number up to 255 of one to three digits without a leading zero. -/
def readOctet? (cs : List Char) : Option Nat :=
  if cs.length ≤ 3 ∧ (cs.head? = some '0' → cs.length = 1) then
    match Text.readNat? cs with
    | some n => if n ≤ 255 then some n else none
    | none => none
  else none

def readV4? (cs : List Char) : Option Nat :=
  let octets := Text.splitAll ['.'] cs
  if octets.length = 4 then (octets.mapM readOctet?).map (ofDigits 256) else none

/-- A group of one to four hexadecimal digits. -/
def readGroup? (cs : List Char) : Option Nat :=
  if cs.length ≤ 4 then Text.readDigits? Text.hexDigitValue? 16 cs else none

/-- Hexadecimal groups, of which the last two may be written as a 32-bit address if `mixed`. -/
def readGroups? (mixed : Bool) : List (List Char) → Option (List Nat)
  | [] => some []
  | [part] =>
    match readGroup? part with
    | some g => some [g]
    | none => if mixed then (readV4? part).map (toDigits 0x10000 2) else none
  | part :: parts =>
    match readGroup? part, readGroups? mixed parts with
    | some g, some gs => some (g :: gs)
    | _, _ => none

/-- The groups of a text that may be empty. -/
def readRun? (mixed : Bool) (cs : List Char) : Option (List Nat) :=
  if cs = [] then some [] else readGroups? mixed (Text.splitAll [':'] cs)

/-- The value of a 128-bit address. -/
def readV6? (cs : List Char) : Option Nat :=
  match Text.cut? [':', ':'] cs with
  | none =>
    match readGroups? true (Text.splitAll [':'] cs) with
    | some groups => if groups.length = 8 then some (ofDigits 0x10000 groups) else none
    | none => none
  | some (front, back) =>
    match readRun? false front, readRun? true back with
    | some head, some tail =>
      if head.length + tail.length ≤ 7 then
        some (ofDigits 0x10000
          (head ++ List.replicate (8 - head.length - tail.length) 0 ++ tail))
      else none
    | _, _ => none

/-- The address that a text denotes. -/
def Address.parse? (text : String) : Option Address :=
  match readV4? text.toList with
  | some value => some ⟨.v4, value⟩
  | none => (readV6? text.toList).map fun value => ⟨.v6, value⟩

/-! ## Writing -/

def textV4 (value : Nat) : String :=
  String.intercalate "." ((toDigits 256 4 value).map toString)

/-- Hexadecimal groups joined by colons. -/
def textGroups (groups : List Nat) : String :=
  String.intercalate ":" (groups.map fun g => String.ofList (Nat.toDigits 16 g))

/-- The length of the run of zeros at the start of a list. -/
def leadingZeros (groups : List Nat) : Nat := (groups.takeWhile (· = 0)).length

/-- The start and length of the first longest run of zeros, from position `at` on. -/
def longestZeros (position : Nat) : List Nat → Nat × Nat
  | [] => (position, 0)
  | g :: gs =>
    let here := leadingZeros (g :: gs)
    let later := longestZeros (position + 1) gs
    if later.2 ≤ here then (position, here) else later

def textV6 (value : Nat) : String :=
  let groups := toDigits 0x10000 8 value
  if value / 0x100000000 = 0xFFFF then "::ffff:" ++ textV4 (value % 0x100000000)
  else
    let (start, length) := longestZeros 0 groups
    if 1 < length then
      textGroups (groups.take start) ++ "::" ++ textGroups (groups.drop (start + length))
    else textGroups groups

def Address.text (a : Address) : String :=
  match a.family with
  | .v4 => textV4 a.value
  | .v6 => textV6 a.value

end StackTemplate.Network
