import StackTemplate.Binary64.Decimal
import StackTemplate.Markup.Spot
import StackTemplate.Scalar
import StackTemplate.Text.Cut

/-!
# Words of configuration files

A value without quotes is a truth value, a number, or a date or time. Single underscores may stand
between two digits of a number. A date or time is a table of its own with its text, which no setting
admits in the place of a string or a number.
-/

namespace StackTemplate.Configuration.Table

/-! ## Numbers -/

/-- The digits of a run in which a single underscore may stand between two digits. -/
def digits? (isDigit : Char → Bool) : List Char → Option (List Char)
  | [] => none
  | [c] => if isDigit c then some [c] else none
  | c :: '_' :: cs => if isDigit c then (digits? isDigit cs).map (c :: ·) else none
  | c :: cs => if isDigit c then (digits? isDigit cs).map (c :: ·) else none

/-- The digits of a decimal number, of which only a zero alone starts with a zero. -/
def wholeDigits? (cs : List Char) : Option (List Char) :=
  match digits? Char.isDigit cs with
  | some ('0' :: _ :: _) => none
  | digits => digits

/-- The number that digits of a base denote. -/
def based? (digit? : Char → Option Nat) (base : Nat) (cs : List Char) : Option Int := do
  let digits ← digits? (fun c => (digit? c).isSome) cs
  (Text.readDigits? digit? base digits).map Int.ofNat

/-- A sign and what follows it. -/
def sign? : List Char → Option Char × List Char
  | '-' :: cs => (some '-', cs)
  | '+' :: cs => (some '+', cs)
  | cs => (none, cs)

/-- The integer that a word denotes; only a decimal one has a sign. -/
def integer? : List Char → Option Int
  | '0' :: 'x' :: cs => based? Text.hexDigitValue? 16 cs
  | '0' :: 'o' :: cs => based? (fun c => (Text.digitValue? c).filter (· < 8)) 8 cs
  | '0' :: 'b' :: cs => based? (fun c => (Text.digitValue? c).filter (· < 2)) 2 cs
  | cs => do
    let (sign, digits) := sign? cs
    let n ← Text.readNat? (← wholeDigits? digits)
    return if sign = some '-' then -Int.ofNat n else Int.ofNat n

/-- The digits of an exponent after its letter, with its sign. -/
def exponent? (cs : List Char) : Option (List Char) :=
  let (sign, digits) := sign? cs
  (digits? Char.isDigit digits).map (sign.toList ++ ·)

/-- The text of a number with a fraction or an exponent, or both, without underscores and sign. -/
def fraction? (cs : List Char) : Option (List Char) := do
  let (mantissa, rest) := cs.span fun c => c ≠ 'e' && c ≠ 'E'
  let (whole, part) := mantissa.span (· ≠ '.')
  if part.isEmpty && rest.isEmpty then none
  let whole ← wholeDigits? whole
  let part ← if part.isEmpty then some [] else (digits? Char.isDigit (part.drop 1)).map ('.' :: ·)
  let rest ← if rest.isEmpty then some [] else (exponent? (rest.drop 1)).map ('e' :: ·)
  return whole ++ part ++ rest

/-- The floating-point number that a word denotes. -/
def float? (cs : List Char) : Option Binary64 :=
  let (sign, magnitude) := sign? cs
  let negative := sign = some '-'
  if magnitude = "inf".toList then some (Binary64.infinity negative)
  else if magnitude = "nan".toList then some Binary64.nan
  else do
    let x ← Binary64.ofText? (String.ofList (sign.toList ++ (← fraction? magnitude)))
    if x.isFinite then return x else none

/-! ## Dates and times -/

/-- The text after two digits of a number between two bounds. -/
def pair? (least most : Nat) : List Char → Option (List Char)
  | a :: b :: cs => do
    let n ← Text.readNat? [a, b]
    if least ≤ n ∧ n ≤ most then return cs else none
  | _ => none

def after? (c : Char) : List Char → Option (List Char)
  | d :: cs => if d = c then some cs else none
  | [] => none

def dayCount (year month : Nat) : Nat :=
  if month = 2 then
    if year % 4 = 0 ∧ (year % 100 ≠ 0 ∨ year % 400 = 0) then 29 else 28
  else if month ∈ [4, 6, 9, 11] then 30
  else 31

def date? (cs : List Char) : Option (List Char) := do
  let year ← Text.readNat? (cs.take 4)
  let month ← Text.readNat? ((cs.drop 5).take 2)
  let cs ← pair? 1 12 (← after? '-' (cs.drop 4))
  pair? 1 (dayCount year month) (← after? '-' cs)

def time? (cs : List Char) : Option (List Char) := do
  let cs ← pair? 0 59 (← after? ':' (← pair? 0 23 cs))
  match cs with
  | ':' :: cs =>
    match ← pair? 0 60 cs with
    | '.' :: cs =>
      let rest := cs.dropWhile Char.isDigit
      if rest.length = cs.length then none else return rest
    | cs => return cs
  | cs => return cs

/-- The text after the distance from the time of the zero meridian, if it is given. -/
def offset? : List Char → Option (List Char)
  | '+' :: cs | '-' :: cs => do pair? 0 59 (← after? ':' (← pair? 0 23 cs))
  | 'Z' :: cs | 'z' :: cs => some cs
  | cs => some cs

/-- Whether a word is a date, a time, or both. -/
def isMoment (cs : List Char) : Bool :=
  let rest? := match date? cs with
    | some [] => some []
    | some (c :: cs) =>
      if c = 'T' || c = 't' || c = ' ' then (time? cs).bind offset? else none
    | none => time? cs
  rest? = some []

/-! ## Words -/

def endsWord (c : Char) : Bool :=
  Markup.isSpacing c || c = '\n' || c = '#' || c = ',' || c = ']' || c = '\x7d'

/-- A word and the remaining text. One space may stand between a date and a time. -/
def spanWord (cs : List Char) : List Char × List Char :=
  let (word, rest) := cs.span fun c => !endsWord c
  match rest with
  | ' ' :: c :: cs =>
    if date? word = some [] && c.isDigit then
      let (time, rest) := (c :: cs).span fun c => !endsWord c
      (word ++ ' ' :: time, rest)
    else (word, rest)
  | rest => (word, rest)

/-- What a word denotes. -/
def word? (word : List Char) : Option Node :=
  if word = "true".toList then some (.bool true)
  else if word = "false".toList then some (.bool false)
  else
    match integer? word with
    | some i => if Scalar.inIntegerRange i then some (.int i) else none
    | none =>
      match float? word with
      | some x => some (.float x)
      | none =>
        if isMoment word then some (.map [(.string "moment", .string (String.ofList word))])
        else none

end StackTemplate.Configuration.Table
