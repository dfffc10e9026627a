import StackTemplate.Markup.Tag

/-!
# Tokens of a document

The tokens of a document are its scalars, its marks, and the starts and ends of blocks, which no
character stands for: a block is opened by its first dash or key and closed by a line that is
indented less.
-/

namespace StackTemplate.Markup

/-- What a token is. -/
inductive Lexeme where
  /-- The directive that states the version of the format. -/
  | version (major minor : Nat)
  /-- The directive that states what a handle of tags stands for. -/
  | handle (name : String) (lead : Octets)
  | documentStart
  | documentEnd
  | sequenceStart
  | mappingStart
  | blockEnd
  | openBracket
  | closeBracket
  | openBrace
  | closeBrace
  | dash
  | comma
  | key
  | value
  | reference (name : String)
  | anchor (name : String)
  | tag (tag : Tag)
  | scalar (quoted : Bool) (text : String)
deriving DecidableEq, Repr

/-- A token with the line and column where it starts; none at the end of the text. -/
structure Token where
  lexeme : Lexeme
  position : Option (Nat × Nat)
deriving DecidableEq, Repr

/-- A token that starts at the first of the remaining spots. -/
def Lexeme.located (lexeme : Lexeme) (rest : List Spot) : Token :=
  ⟨lexeme, rest.head?.map fun s => (s.line, s.column)⟩

/-! ## Directives -/

/-- The number of a version part, of nine digits at most, and the remaining text. -/
def versionPart (rest : List Spot) : Except SyntaxError (Nat × List Spot) :=
  let digits := (rest.takeWhile fun s => s.char.isDigit).map Spot.char
  match Text.readNat? digits with
  | some n =>
    if digits.length ≤ 9 then .ok (n, rest.drop digits.length) else fail .badDirective rest
  | none => fail .badDirective rest

/-- The handle and the lead of a directive for tags, and the remaining text. -/
def handleDirective (rest : List Spot) : Except SyntaxError (Lexeme × List Spot) := do
  if !startsWith '!' rest then fail .badDirective rest
  let (letters, next) := Tag.word (rest.drop 1)
  let (name, next) ←
    if startsWith '!' next then pure (Tag.handleOf letters, next.drop 1)
    else if letters.isEmpty then pure ("!", next)
    else fail .badDirective next
  if !next.head?.any fun s => isSpacing s.char then fail .badDirective next
  let (lead, next) ← Tag.someAddress true (skipSpacing next)
  if !atGap next then fail .badDirective next
  return (.handle name lead, next)

/-- A directive after its percent sign, and the text from the next line. -/
def directive (rest : List Spot) : Except SyntaxError (Lexeme × List Spot) := do
  let (name, next) := Tag.word rest
  if !atGap next then fail .badDirective next
  let (lexeme, next) ←
    if name = "YAML".toList then
      let (major, next) ← versionPart (skipSpacing next)
      if !startsWith '.' next then fail .badDirective next
      let (minor, next) ← versionPart (next.drop 1)
      pure (.version major minor, next)
    else if name = "TAG".toList then handleDirective (skipSpacing next)
    else fail .badDirective rest
  return (lexeme, ← endLine next)

/-! ## Anchors -/

/-- The name of an anchor or of a reference to one after its mark, and the remaining text. -/
def anchorName (rest : List Spot) : Except SyntaxError (String × List Spot) :=
  let (name, next) := Tag.word rest
  let ends := atGap next || next.head?.any fun s => "?:,]\x7d%@`".toList.contains s.char
  if name.isEmpty || !ends then stuck next else .ok (String.ofList name, next)

end StackTemplate.Markup
