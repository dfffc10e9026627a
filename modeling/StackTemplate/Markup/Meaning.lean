import StackTemplate.Binary64.Decimal
import StackTemplate.Markup.Tag
import StackTemplate.Node
import StackTemplate.Text.Cut

/-!
# The meaning of scalars

The spelling of a plain scalar decides what it denotes: null, a truth value, an integer, a
floating-point number, else a string. A quoted scalar is a string. A tag with a name of its own
leaves this as it is; one for a type demands it.
-/

namespace StackTemplate.Markup

/-! ## Numbers -/

/-- The digits of an integer that are written with a sign or a base mark in front. -/
def unsigned? (s : String) : Option Nat :=
  match s.toList with
  | '0' :: 'x' :: cs => Text.readDigits? Text.hexDigitValue? 16 cs
  | '0' :: 'o' :: cs =>
    Text.readDigits? (fun c => (Text.digitValue? c).filter (· < 8)) 8 cs
  | '0' :: 'b' :: cs =>
    Text.readDigits? (fun c => (Text.digitValue? c).filter (· < 2)) 2 cs
  | cs => Text.readNat? cs

/-- Whether a text is a run of digits with a leading zero, which is no number by itself. -/
def isPaddedNumeral (s : String) : Bool :=
  let digits := match s.toList with
    | '-' :: cs | '+' :: cs => cs
    | cs => cs
  match digits with
  | '0' :: c :: cs => (c :: cs).all Char.isDigit
  | _ => false

def integer? (s : String) : Option Int :=
  if isPaddedNumeral s then none
  else
    match s.toList with
    | '+' :: cs => (unsigned? (String.ofList cs)).map Int.ofNat
    | '-' :: cs => (unsigned? (String.ofList cs)).map fun n => -Int.ofNat n
    | _ => (unsigned? s).map Int.ofNat

/-- The floating-point number that a text denotes; only the marked spellings are not finite. -/
def float? (s : String) : Option Binary64 :=
  let positive := (Text.stripStart? "+" s).getD s
  if Text.beginsWith "++" s || Text.beginsWith "+-" s then none
  else if positive = ".inf" ∨ positive = ".Inf" ∨ positive = ".INF" then
    some (Binary64.infinity false)
  else if s = "-.inf" ∨ s = "-.Inf" ∨ s = "-.INF" then some (Binary64.infinity true)
  else if s = ".nan" ∨ s = ".NaN" ∨ s = ".NAN" then some Binary64.nan
  else (Binary64.ofText? positive).filter Binary64.isFinite

/-- Whether an integer fits into a number of bits, with a sign or without. -/
def fits (bits : Nat) (i : Int) : Bool :=
  let bound : Int := Int.ofNat (Nat.pow 2 bits)
  i < bound && -bound ≤ 2 * i

/-! ## Scalars -/

def isNull (s : String) : Bool := s = "~" || s = "null" || s = "Null" || s = "NULL"

def bool? (s : String) : Option Bool :=
  if s = "true" ∨ s = "True" ∨ s = "TRUE" then some true
  else if s = "false" ∨ s = "False" ∨ s = "FALSE" then some false
  else none

/-- The number that a plain scalar denotes, or the string that it is; absent where an integer
exceeds 64 bits. One that exceeds 128 bits is read as a floating-point number. -/
def number? (s : String) : Option Node :=
  match (integer? s).filter (fits 128) with
  | some i => if fits 64 i then some (.int i) else none
  | none =>
    if isPaddedNumeral s then some (.string s)
    else some (((float? s).map Node.float).getD (.string s))

/-- What a plain scalar denotes. -/
def plain? (s : String) : Option Node :=
  if s = "" || isNull s then some .null
  else
    match bool? s with
    | some b => some (.bool b)
    | none => number? s

/-- What a scalar is under a tag. -/
def scalarNode (kind : Option Kind) (quoted : Bool) (text : String) : Except SyntaxCause Node :=
  let untyped : Except SyntaxCause Node :=
    if quoted then .ok (.string text)
    else
      match plain? text with
      | some node => .ok node
      | none => .error .numberOutOfRange
  let typed : Option Node → Except SyntaxCause Node
    | some node => .ok node
    | none => .error .wrongType
  match kind with
  | none => untyped
  | some (.named name) => untyped.map (.tagged name)
  | some .bool => typed ((bool? text).map .bool)
  | some .int => typed (((integer? text).filter (fits 64)).map .int)
  | some .float => typed ((float? text).map .float)
  | some .null => typed (if isNull text then some .null else none)
  | some .other => .ok (.string text)

end StackTemplate.Markup
