import StackTemplate.Markup.Spot
import StackTemplate.Text.Numeral

/-!
# Tags

A tag in front of a node says what the node is. It is written as a handle between exclamation marks
with a suffix, as a lone exclamation mark with a suffix, or in full between angle brackets. Its text
is a run of octets: a character of an address stands for itself, and a percent sign with two
hexadecimal digits for any octet.

- `Tag.scan` reads a tag, `Tag.resolve?` puts what its handle stands for in front of the suffix.
- `Kind.ofTag?` is what a resolved tag says about a node.
-/

namespace StackTemplate.Markup

/-- The text of a tag. -/
abbrev Octets := List UInt8

def Octets.ofChars (cs : List Char) : Octets := cs.map Char.toUInt8

/-- A tag as it is written; one in full has an empty handle. -/
structure Tag where
  handle : String
  suffix : Octets
deriving DecidableEq, Repr

namespace Tag

/-! ## Addresses -/

/-- Whether a character may stand in an address; brackets and commas only in a full one. -/
def isAddressChar (full : Bool) (c : Char) : Bool :=
  isNameChar c || ";/?:@&=+$.!~*'()".toList.contains c || (full && "[],".toList.contains c)

/-- The number of octets of the character that starts with an octet. -/
def octetCount? (octet : Nat) : Option Nat :=
  if octet < 0x80 then some 1
  else if octet / 0x20 = 0x06 then some 2
  else if octet / 0x10 = 0x0E then some 3
  else if octet / 0x08 = 0x1E then some 4
  else none

/-- The number of octets that are to come after an escaped one, where `missing` of its character
were to come with it; absent where it may not stand there. -/
def missingAfter? (missing octet : Nat) : Option Nat :=
  match missing with
  | 0 => (octetCount? octet).map (· - 1)
  | missing + 1 => if octet / 0x40 = 0x02 then some missing else none

/-- The octets of an address of which a part has been read, and the remaining text. Of a character
whose octets are escaped, `missing` are still to come. -/
def address (full : Bool) (missing : Nat) (octets : Octets) :
    List Spot → Except SyntaxError (Octets × List Spot)
  | [] => if missing = 0 then .ok (octets, []) else fail .badTag []
  | s :: rest =>
    if s.char = '%' then
      match rest with
      | high :: low :: next =>
        match Text.readDigits? Text.hexDigitValue? 16 [high.char, low.char] with
        | some octet =>
          match missingAfter? missing octet with
          | some missing => address full missing (octets ++ [octet.toUInt8]) next
          | none => fail .badTag (s :: rest)
        | none => fail .badTag (s :: rest)
      | _ => fail .badTag (s :: rest)
    else if missing ≠ 0 then fail .badTag (s :: rest)
    else if isAddressChar full s.char then address full 0 (octets ++ [s.char.toUInt8]) rest
    else .ok (octets, s :: rest)

/-- An address with at least one octet, of which those up to a null count. -/
def someAddress (full : Bool) (rest : List Spot) : Except SyntaxError (Octets × List Spot) := do
  let (octets, next) ← address full 0 [] rest
  if octets.isEmpty then fail .badTag rest else return (octets.takeWhile (· ≠ 0), next)

/-! ## Handles and tags -/

/-- The letters of a handle, and the remaining text from the mark that ends it, if there is one. -/
def word (rest : List Spot) : List Char × List Spot :=
  ((rest.takeWhile fun s => isNameChar s.char).map Spot.char,
    rest.dropWhile fun s => isNameChar s.char)

def handleOf (letters : List Char) : String := String.ofList ('!' :: letters ++ ['!'])

/-- A tag after its exclamation mark, and the remaining text. The mark alone is a full tag. -/
def body (rest : List Spot) : Except SyntaxError (Tag × List Spot) := do
  if startsWith '<' rest then
    let (suffix, next) ← someAddress true (rest.drop 1)
    if startsWith '>' next then return (⟨"", suffix⟩, next.drop 1) else fail .badTag next
  else
    let (letters, next) := word rest
    if startsWith '!' next then
      let (suffix, next) ← someAddress false (next.drop 1)
      return (⟨handleOf letters, suffix⟩, next)
    else
      let (octets, next) ← address false 0 (Octets.ofChars letters) next
      let suffix := octets.takeWhile (· ≠ 0)
      return (if suffix.isEmpty then ⟨"", Octets.ofChars ['!']⟩ else ⟨"!", suffix⟩, next)

/-- A tag after its exclamation mark, behind which there is a gap or, inside of brackets, a comma,
and the remaining text. -/
def scan (flow : Bool) (rest : List Spot) : Except SyntaxError (Tag × List Spot) := do
  let (tag, next) ← body rest
  if atGap next || (flow && startsWith ',' next) then return (tag, next) else stuck next

/-- The text of a tag, where its handle stands for something. -/
def resolve? (handles : List (String × Octets)) (tag : Tag) : Option Octets :=
  if tag.handle = "" then some tag.suffix
  else (handles.lookup tag.handle).map (· ++ tag.suffix)

/-- What handles stand for unless a directive says otherwise. -/
def commonHandles : List (String × Octets) :=
  [("!", Octets.ofChars ['!']), ("!!", Octets.ofChars "tag:yaml.org,2002:".toList)]

end Tag

/-! ## Kinds -/

/-- What a tag says about a node. -/
inductive Kind where
  /-- A name of its own, which the node keeps. -/
  | named (name : String)
  | bool
  | int
  | float
  | null
  /-- Any other type; its scalars are strings. -/
  | other
deriving DecidableEq, Repr

/-- What the text of a tag says. One that starts with an exclamation mark gives the name behind the
mark, or the mark where there is nothing else, and says nothing where that is no text. -/
def Kind.ofTag? (octets : Octets) : Option Kind :=
  match String.fromUTF8? ⟨octets.toArray⟩ with
  | some text =>
    match text.toList with
    | ['!'] => some (.named "!")
    | '!' :: name => some (.named (String.ofList name))
    | _ =>
      if text = "tag:yaml.org,2002:bool" then some .bool
      else if text = "tag:yaml.org,2002:int" then some .int
      else if text = "tag:yaml.org,2002:float" then some .float
      else if text = "tag:yaml.org,2002:null" then some .null
      else some .other
  | none => if octets.head? = some 0x21 then none else some .other

end StackTemplate.Markup
