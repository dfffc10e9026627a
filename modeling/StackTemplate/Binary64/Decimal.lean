import StackTemplate.Binary64
import StackTemplate.Text.Numeral

/-!
# Decimal text of double precision numbers

Writing chooses the fewest digits that read back to the number and, among those, the digits
nearest to it, a tie going up; the digits are written positionally, without an exponent and
without a fraction part that would be zero. Reading accepts decimal fractions with an optional
exponent, and the names of the infinities and of not-a-number in any case.

The digits are found on decimal grids: the grid of step `10 ^ g` is tried for falling `g`, and the
first grid with a point that rounds to the number gives the fewest digits.
-/

namespace StackTemplate.Binary64

/-! ## Shortest digits -/

/-- An interval around a positive number: the reals that round to it, in units of
`2 ^ (scale - 1077)`. -/
structure Interval where
  low : Nat
  centre : Nat
  high : Nat
  closed : Bool
deriving Repr

/-- The reals that round to a positive finite number; the ends belong to it when its significand is
even, and below a power of two the spacing is halved. -/
def interval (x : Binary64) : Interval where
  low := 4 * x.significand - (if x.fractionField = 0 ∧ 1 < x.scale then 1 else 2)
  centre := 4 * x.significand
  high := 4 * x.significand + 2
  closed := x.significand % 2 = 0

/-- Whether a point at `position`, on the same axis as the scaled interval, lies in it. -/
def Interval.holds (i : Interval) (factor position : Nat) : Bool :=
  if i.closed then i.low * factor ≤ position && position ≤ i.high * factor
  else i.low * factor < position && position < i.high * factor

/-- A point of a decimal grid: the number `digits · 10 ^ exponent`. -/
structure Digits where
  digits : Nat
  exponent : Int
deriving Repr

/-- The point of the grid of step `10 ^ g` nearest to the number that rounds to it, a tie going
up. -/
def gridPoint? (x : Binary64) (g : Int) : Option Digits :=
  let unit : Int := (x.scale : Int) - 1077
  let step := Nat.pow 10 g.toNat * Nat.pow 2 (-unit).toNat
  let factor := Nat.pow 2 unit.toNat * Nat.pow 10 (-g).toNat
  let i := x.interval
  let below := i.centre * factor / step
  let takeBelow := 0 < below && i.holds factor (below * step)
  let takeAbove := i.holds factor ((below + 1) * step)
  let distanceBelow := i.centre * factor - below * step
  let distanceAbove := (below + 1) * step - i.centre * factor
  if takeAbove && (!takeBelow || distanceAbove ≤ distanceBelow) then some ⟨below + 1, g⟩
  else if takeBelow then some ⟨below, g⟩
  else none

/-- The coarsest grid point that rounds to the number, among `tries` grids from step `10 ^ g`
down. -/
def coarsestFrom (x : Binary64) (g : Int) : Nat → Digits
  | 0 => ⟨0, 0⟩
  | tries + 1 =>
    match gridPoint? x g with
    | some point => point
    | none => coarsestFrom x (g - 1) tries

/-- An exponent `g` such that `10 ^ g` is above the number. -/
def decimalBound (x : Binary64) : Int :=
  ((Nat.log2 x.significand : Int) + x.scale - 1074) * 30103 / 100000 + 2

/-- The fewest digits that read back to a positive finite number, nearest to it. -/
def shortest (x : Binary64) : Digits :=
  coarsestFrom x x.decimalBound 24

/-- Positional text of `digits · 10 ^ exponent`. -/
def Digits.text (d : Digits) : String :=
  let cs := (toString d.digits).toList
  if 0 ≤ d.exponent then String.ofList (cs ++ List.replicate d.exponent.toNat '0')
  else
    let places := (-d.exponent).toNat
    let padded := List.replicate (places + 1 - cs.length) '0' ++ cs
    String.ofList (padded.take (padded.length - places) ++ ['.'] ++
      padded.drop (padded.length - places))

/-- Positional text of a number with the fewest digits that read back. -/
def text (x : Binary64) : String :=
  if x.isNaN then "NaN"
  else
    let magnitude :=
      if x.isInfinite then "inf" else if x.isZero then "0" else x.shortest.text
    if x.isNegative then "-" ++ magnitude else magnitude

/-! ## Reading -/

/-- The number nearest to `± digits · 10 ^ exponent`. -/
def ofDecimal (negative : Bool) (digits : Nat) (exponent : Int) : Binary64 :=
  let order := ((toString digits).length : Int) + exponent
  if digits = 0 ∨ order < -400 then ofMagnitude negative 0
  else if 400 < order then infinity negative
  else ofRatio negative (digits * Nat.pow 10 exponent.toNat) (Nat.pow 10 (-exponent).toNat)

/-- The digits at the start of a text and what follows them. -/
def spanDigits (cs : List Char) : List Char × List Char :=
  cs.span fun c => (Text.digitValue? c).isSome

/-- The exponent part of a decimal number, zero where it is absent. -/
def readExponent? : List Char → Option Int
  | [] => some 0
  | c :: cs => if c = 'e' ∨ c = 'E' then Text.readSigned? (String.ofList cs) else none

/-- A decimal fraction without sign: digits with at most one point, and an optional exponent. -/
def readFraction? (negative : Bool) (cs : List Char) : Option Binary64 :=
  let (whole, rest) := spanDigits cs
  let (part, rest) :=
    match rest with
    | '.' :: rest => spanDigits rest
    | rest => ([], rest)
  match Text.readNat? (whole ++ part), readExponent? rest with
  | some digits, some exponent => some (ofDecimal negative digits (exponent - part.length))
  | _, _ => none

/-- A magnitude: a decimal fraction, or the name of infinity or of not-a-number in any case. -/
def readMagnitude? (negative : Bool) (cs : List Char) : Option Binary64 :=
  let name := String.ofList (cs.map Char.toLower)
  if name = "inf" ∨ name = "infinity" then some (infinity negative)
  else if name = "nan" then some nan
  else readFraction? negative cs

/-- The number nearest to a decimal text. -/
def ofText? (s : String) : Option Binary64 :=
  match s.toList with
  | '-' :: cs => readMagnitude? true cs
  | '+' :: cs => readMagnitude? false cs
  | cs => readMagnitude? false cs

end StackTemplate.Binary64
