/-!
# Numerals and digits

A numeral is a non-empty run of ASCII digits, written with an optional sign. Reading refuses
everything else, blanks included.

In base64, three bytes are written as four digits of six bits each, with the alphabet
`A-Z a-z 0-9 + /`. One or two bytes at the end are filled up with zero bits, and the digits that
hold no bit of them are written as `=`.
-/

namespace StackTemplate.Text

/-! ## Numerals -/

def digitValue? (c : Char) : Option Nat :=
  if '0' ≤ c ∧ c ≤ '9' then some (c.toNat - '0'.toNat) else none

/-- The value of an ASCII hexadecimal digit of either case. -/
def hexDigitValue? (c : Char) : Option Nat :=
  if '0' ≤ c ∧ c ≤ '9' then some (c.toNat - '0'.toNat)
  else if 'a' ≤ c ∧ c ≤ 'f' then some (c.toNat - 'a'.toNat + 10)
  else if 'A' ≤ c ∧ c ≤ 'F' then some (c.toNat - 'A'.toNat + 10)
  else none

/-- Digits of a base continuing a number that has the value `value` so far. -/
def readDigitsFrom (digit? : Char → Option Nat) (base value : Nat) : List Char → Option Nat
  | [] => some value
  | c :: cs =>
    match digit? c with
    | some d => readDigitsFrom digit? base (value * base + d) cs
    | none => none

/-- A non-empty run of digits of a base. -/
def readDigits? (digit? : Char → Option Nat) (base : Nat) : List Char → Option Nat
  | [] => none
  | cs => readDigitsFrom digit? base 0 cs

/-- A non-empty run of decimal digits. -/
def readNat? (cs : List Char) : Option Nat :=
  readDigits? digitValue? 10 cs

/-- A numeral with an optional plus sign. -/
def readUnsigned? (s : String) : Option Nat :=
  match s.toList with
  | '+' :: cs => readNat? cs
  | cs => readNat? cs

/-- A numeral with an optional sign. -/
def readSigned? (s : String) : Option Int :=
  match s.toList with
  | '+' :: cs => (readNat? cs).map Int.ofNat
  | '-' :: cs => (readNat? cs).map fun n => -Int.ofNat n
  | cs => (readNat? cs).map Int.ofNat

/-! ## Base64 -/

/-- The digit for a six-bit value. -/
def base64Digit (n : Nat) : Char :=
  if n < 26 then Char.ofNat ('A'.toNat + n)
  else if n < 52 then Char.ofNat ('a'.toNat + (n - 26))
  else if n < 62 then Char.ofNat ('0'.toNat + (n - 52))
  else if n = 62 then '+'
  else '/'

def base64Digits : List UInt8 → List Char
  | [] => []
  | [a] =>
    let bits := a.toNat * 16
    [base64Digit (bits / 64), base64Digit (bits % 64), '=', '=']
  | [a, b] =>
    let bits := (a.toNat * 256 + b.toNat) * 4
    [base64Digit (bits / 4096), base64Digit (bits / 64 % 64),
      base64Digit (bits % 64), '=']
  | a :: b :: c :: rest =>
    let bits := (a.toNat * 256 + b.toNat) * 256 + c.toNat
    base64Digit (bits / 262144) :: base64Digit (bits / 4096 % 64) ::
      base64Digit (bits / 64 % 64) :: base64Digit (bits % 64) :: base64Digits rest

/-- The base64 text of the UTF-8 bytes of a text. -/
def base64 (s : String) : String :=
  String.ofList (base64Digits s.toUTF8.toList)

end StackTemplate.Text
