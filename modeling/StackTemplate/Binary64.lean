/-!
# Double precision numbers

A number of the IEEE 754 format `binary64`, held as its 64 bits, so that equality of numbers is
equality of representations: it can be decided, and a not-a-number equals itself. The value of a
finite number is `± significand · 2 ^ (scale - 1075)`, and all arithmetic on it is exact
arithmetic of natural numbers.

`Binary64.ofRatio` rounds a quotient to the nearest number, a tie going to the even significand.
-/

namespace StackTemplate

/-- A number of the IEEE 754 format with one sign, eleven exponent and 52 fraction bits. -/
structure Binary64 where
  bits : UInt64
deriving DecidableEq, Repr, Inhabited

namespace Binary64

def isNegative (x : Binary64) : Bool := x.bits.toNat / 0x8000000000000000 = 1

def exponentField (x : Binary64) : Nat := x.bits.toNat / 0x10000000000000 % 0x800

def fractionField (x : Binary64) : Nat := x.bits.toNat % 0x10000000000000

def isNaN (x : Binary64) : Bool := x.exponentField = 2047 && x.fractionField ≠ 0

def isInfinite (x : Binary64) : Bool := x.exponentField = 2047 && x.fractionField = 0

def isFinite (x : Binary64) : Bool := x.exponentField ≠ 2047

/-- The integer significand of a finite number. -/
def significand (x : Binary64) : Nat :=
  if x.exponentField = 0 then x.fractionField else x.fractionField + 0x10000000000000

/-- The biased scale of a finite number, whose magnitude is `significand · 2 ^ (scale - 1075)`. -/
def scale (x : Binary64) : Nat := max x.exponentField 1

def isZero (x : Binary64) : Bool := x.isFinite && x.significand = 0

/-- The number with the given sign and magnitude bits. -/
def ofMagnitude (negative : Bool) (magnitude : Nat) : Binary64 :=
  ⟨UInt64.ofNat ((if negative then 0x8000000000000000 else 0) + magnitude)⟩

def infinity (negative : Bool) : Binary64 := ofMagnitude negative 0x7FF0000000000000

/-- A quiet not-a-number. -/
def nan : Binary64 := ofMagnitude false 0x7FF8000000000000

/-- The integer nearest to `num / den`, a tie going to the even one. -/
def roundHalfEven (num den : Nat) : Nat :=
  let quotient := num / den
  let remainder := num % den
  if 2 * remainder < den then quotient
  else if den < 2 * remainder then quotient + 1
  else quotient + quotient % 2

/-- The exponent of the largest power of two that is at most `num / den`. -/
def binaryExponent (num den : Nat) : Int :=
  let estimate : Int := (Nat.log2 num : Int) - (Nat.log2 den : Int)
  if den * Nat.pow 2 estimate.toNat ≤ num * Nat.pow 2 (-estimate).toNat then estimate
  else estimate - 1

/-- The number nearest to `± num / den`, a tie going to the even significand. -/
def ofRatio (negative : Bool) (num den : Nat) : Binary64 :=
  if num = 0 then ofMagnitude negative 0
  else
    let shift : Int := max (binaryExponent num den - 52) (-1074)
    let significand := roundHalfEven (num * Nat.pow 2 (-shift).toNat) (den * Nat.pow 2 shift.toNat)
    let scale := (shift + 1075).toNat
    ofMagnitude negative (min ((scale - 1) * 0x10000000000000 + significand) 0x7FF0000000000000)

/-- The number nearest to an integer. -/
def ofInt (i : Int) : Binary64 := ofRatio (i < 0) i.natAbs 1

/-- The integer that a finite number without fractional part denotes. -/
def toInt? (x : Binary64) : Option Int :=
  if x.isFinite then
    let num := x.significand * Nat.pow 2 (x.scale - 1075)
    let den := Nat.pow 2 (1075 - x.scale)
    if num % den = 0 then
      some (if x.isNegative then -Int.ofNat (num / den) else Int.ofNat (num / den))
    else none
  else none

/-- Numeric equality: zeros of both signs are equal and a not-a-number equals nothing. -/
def numericallyEquals (x y : Binary64) : Bool :=
  !x.isNaN && !y.isNaN && (x = y || (x.isZero && y.isZero))

end Binary64

end StackTemplate
