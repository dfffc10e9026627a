import StackTemplate.Text.Alphanumeric
import StackTemplate.Text.Cut
import StackTemplate.Text.Numeral

/-!
# Locations of document paths

The label of a diagnostic carries a path in the document, not a position in its text. The path is
located by looking for each of its keys in turn behind the one before; the last one found is what
the label points at. The paths of syntax errors are positions themselves, `line L, column C`.

- `Span` : a range of bytes of a text in UTF-8.
- `locate?` : the span of a path.
-/

namespace StackTemplate

/-- A range of bytes of a text. -/
structure Span where
  offset : Nat
  length : Nat
deriving DecidableEq, Repr

namespace Location

/-- The number of bytes of characters in UTF-8. -/
def byteLength : List Char → Nat
  | [] => 0
  | c :: cs => c.utf8Size + byteLength cs

/-! ## Positions -/

/-- The number of bytes in front of the line that follows `lines` others, at most the whole text. -/
def lineStart : (lines : Nat) → List Char → Nat
  | 0, _ | _, [] => 0
  | lines + 1, c :: cs => c.utf8Size + lineStart (if c = '\n' then lines else lines + 1) cs

/-- A number that fits into 64 bits. -/
def position? (s : String) : Option Nat := (Text.readUnsigned? s).filter (· < 0x10000000000000000)

/-- The line and column of a path of the form `line L, column C`. -/
def lineColumn? (path : String) : Option (Nat × Nat) := do
  let (line, column) ← Text.splitOnce? ", column " (← Text.stripStart? "line " path)
  return (← position? line, ← position? column)

/-- The span of one byte at a line and column, both counted from one; it is empty at the end of the
text. The sum of the two distances is taken in 64 bits. -/
def spanAt (source : List Char) (line column : Nat) : Span :=
  let size := byteLength source
  let offset := min ((lineStart (line - 1) source + (column - 1)) % 0x10000000000000000) size
  ⟨offset, if offset < size then 1 else 0⟩

/-! ## Keys -/

/-- Whether a character in front of a text makes it part of a longer word. -/
def joinsWord : Option Char → Bool
  | none => false
  | some c => Text.isAlphanumeric c || c = '_' || c = ':'

def dropQuote : List Char → List Char
  | '"' :: cs | '\'' :: cs => cs
  | cs => cs

/-- Whether a text starts with a colon, after a closing quote and blanks at most. -/
def startsWithColon (cs : List Char) : Bool :=
  ((dropQuote cs).dropWhile fun c => c = ' ' || c = '\t').head? = some ':'

/-- The offset of the first occurrence of a key that is used as one, and the text after it.
Occurrences do not overlap: after one that is no key, the search goes on behind it, which is `skip`
characters away. -/
def findKey? (key : List Char) (offset : Nat) (before : Option Char) (skip : Nat) :
    List Char → Option (Nat × List Char)
  | [] => none
  | c :: cs =>
    match skip with
    | skip + 1 => findKey? key (offset + c.utf8Size) (some c) skip cs
    | 0 =>
      if key.isPrefixOf (c :: cs) then
        let after := (c :: cs).drop key.length
        if !joinsWord before && startsWithColon after then some (offset, after)
        else findKey? key (offset + c.utf8Size) (some c) (key.length - 1) cs
      else findKey? key (offset + c.utf8Size) (some c) 0 cs

/-- The keys of a path: the parts between points in front of the first `::`, without indices. -/
def pathKeys (path : String) : List (List Char) :=
  let document := ((Text.splitOnce? "::" path).map Prod.fst).getD path
  let segments := Text.splitAll ['.'] document.toList
  (segments.map fun segment => segment.takeWhile (· ≠ '[')).filter (· ≠ [])

/-- The span of the last of a list of keys, each found behind the one before. -/
def locateKeys? (offset : Nat) (source : List Char) (found : Option Span) :
    List (List Char) → Option Span
  | [] => found
  | key :: keys =>
    match findKey? key offset none 0 source with
    | none => none
    | some (start, after) =>
      locateKeys? (start + byteLength key) after (some ⟨start, byteLength key⟩) keys

end Location

/-- The span of a path in the text of a document. -/
def locate? (source path : String) : Option Span :=
  match Location.lineColumn? path with
  | some (line, column) => some (Location.spanAt source.toList line column)
  | none => Location.locateKeys? 0 source.toList none (Location.pathKeys path)

end StackTemplate
