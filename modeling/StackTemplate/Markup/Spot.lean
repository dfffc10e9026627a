/-!
# Characters with positions

The text of a document is read as a list of spots: each character with its line and column, both
counted from zero, and the number of bytes in front of it. The indentation of a block is the column
of its first spot. Every line break is one newline, but the line and paragraph separators, which
also end a line, stay what they are.
-/

namespace StackTemplate.Markup

/-- A character of a text with its line, its column and its offset in bytes. -/
structure Spot where
  char : Char
  line : Nat
  column : Nat
  offset : Nat
deriving DecidableEq, Repr

/-! ## Characters -/

def isSpacing (c : Char) : Bool := c = ' ' || c = '\t'

def isBreak (c : Char) : Bool := c = '\n' || c = '\u2028' || c = '\u2029'

/-- Whether a character is spacing or ends a line. -/
def isGap (c : Char) : Bool := isSpacing c || isBreak c

/-- Whether a character is a bracket, a brace or the comma between items. -/
def isFlowMark (c : Char) : Bool :=
  c = ',' || c = '[' || c = ']' || c = '\x7b' || c = '\x7d'

/-- Whether a character may stand in the name of an anchor, a tag handle or a directive. -/
def isNameChar (c : Char) : Bool := c.isAlphanum || c = '-' || c = '_'

/-- Whether a character may stand in a text: no control character but the tab and the line breaks,
and no noncharacter at the end of the first plane. -/
def isPrintable (c : Char) : Bool :=
  let n := c.toNat
  c = '\t' || c = '\n' || (0x20 ≤ n && n ≤ 0x7E) || (0xA0 ≤ n && n ≤ 0xFFFD) || 0x10000 ≤ n

/-! ## Spots -/

/-- The spots of the characters that start at a position. -/
def locateFrom (line column offset : Nat) : List Char → List Spot
  | [] => []
  | '\r' :: '\n' :: cs => ⟨'\n', line, column, offset⟩ :: locateFrom (line + 1) 0 (offset + 2) cs
  | c :: cs =>
    let next := offset + c.utf8Size
    if c = '\n' || c = '\r' || c = '\u0085' then
      ⟨'\n', line, column, offset⟩ :: locateFrom (line + 1) 0 next cs
    else if isBreak c then ⟨c, line, column, offset⟩ :: locateFrom (line + 1) 0 next cs
    else ⟨c, line, column, offset⟩ :: locateFrom line (column + 1) next cs

def spots (text : String) : List Spot := locateFrom 0 0 0 text.toList

def startsWith (c : Char) : List Spot → Bool
  | [] => false
  | s :: _ => s.char = c

/-- Whether the remaining text starts with spacing or a line break, or is at its end. -/
def atGap : List Spot → Bool
  | [] => true
  | s :: _ => isGap s.char

/-- Whether a line starts here with three times the same character, alone or in front of a gap. -/
def atMarker (c : Char) : List Spot → Bool
  | s :: t :: u :: rest =>
    s.column = 0 && s.char = c && t.char = c && u.char = c && atGap rest
  | _ => false

/-- Whether a line starts here with the mark of the start or the end of a document. -/
def atDocumentMark (rest : List Spot) : Bool := atMarker '-' rest || atMarker '.' rest

/-- The remaining text after spacing on the line. -/
def skipSpacing (rest : List Spot) : List Spot := rest.dropWhile fun s => isSpacing s.char

/-- The remaining text after a comment, where one starts here. -/
def skipComment (rest : List Spot) : List Spot :=
  if startsWith '#' rest then rest.dropWhile fun s => !isBreak s.char else rest

/-! ## Syntax errors -/

/-- The ways in which a text is no document. -/
inductive SyntaxCause where
  | unexpected
  | unterminated
  | badEscape
  | badTag
  | badDirective
  | tabIndent
  | keyWithoutColon
  | misplacedEntry
  | unknownAnchor
  | tooManyReferences
  | duplicateKey
  | numberOutOfRange
  | wrongType
  | unprintable
  | severalDocuments
  | tooDeep
deriving DecidableEq, Repr

def SyntaxCause.message : SyntaxCause → String
  | .unexpected => "unexpected character"
  | .unterminated => "unexpected end of the text"
  | .badEscape => "invalid escape sequence"
  | .badTag => "invalid tag"
  | .badDirective => "invalid directive"
  | .tabIndent => "tab in the indentation"
  | .keyWithoutColon => "key without a colon on its line"
  | .misplacedEntry => "entry that may not start here"
  | .unknownAnchor => "reference to an unknown anchor"
  | .tooManyReferences => "too many references to anchors"
  | .duplicateKey => "duplicate key"
  | .numberOutOfRange => "number out of range"
  | .wrongType => "scalar that is not of the type of its tag"
  | .unprintable => "character that is not printable"
  | .severalDocuments => "more than one document"
  | .tooDeep => "too many collections inside of one another"

/-- A syntax error with the line and column where it was noticed; none at the end of the text. -/
structure SyntaxError where
  cause : SyntaxCause
  position : Option (Nat × Nat)
deriving DecidableEq, Repr

/-- A syntax error at the first of the remaining spots. -/
def fail {α : Type} (cause : SyntaxCause) (rest : List Spot) : Except SyntaxError α :=
  .error ⟨cause, rest.head?.map fun s => (s.line, s.column)⟩

/-- A character that is out of place, or the missing rest of the text. -/
def stuck {α : Type} : List Spot → Except SyntaxError α
  | [] => fail .unterminated []
  | s :: rest => fail .unexpected (s :: rest)

/-- The remaining text after the end of a line, on which only spacing and a comment may remain. -/
def endLine (rest : List Spot) : Except SyntaxError (List Spot) :=
  match skipComment (skipSpacing rest) with
  | [] => .ok []
  | s :: next => if isBreak s.char then .ok next else stuck (s :: next)

end StackTemplate.Markup
