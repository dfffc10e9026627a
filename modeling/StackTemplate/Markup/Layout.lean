import StackTemplate.Markup.Indented
import StackTemplate.Markup.Scalar
import StackTemplate.Markup.Token

/-!
# The layout of a document

The layout turns text into tokens. It keeps the columns of the open blocks, and where a key may have
started: a node of one line turns out to be a key only when its colon follows, and then the key, and
the mapping that it opens, are put in front of the tokens of the node.
-/

namespace StackTemplate.Markup

/-- The start of a node that may be a key: the number of tokens in front of it and its place. It has
to be a key where the entries of a block are expected. -/
structure KeyStart where
  index : Nat
  line : Nat
  column : Nat
  offset : Nat
  required : Bool
deriving DecidableEq, Repr

/-- The state of the layout at some place of a text. -/
structure Layout where
  /-- The tokens so far, the latest first. -/
  tokens : List Token
  /-- The number of these tokens. -/
  count : Nat
  /-- The columns of the open blocks, the innermost first. -/
  blocks : List Nat
  /-- The possible key of the innermost bracket, or outside of brackets. -/
  key : Option KeyStart
  /-- The possible keys around each open bracket, the innermost first. -/
  outerKeys : List (Option KeyStart)
  /-- Whether a key may start here. -/
  keyAllowed : Bool

namespace Layout

def start : Layout := ⟨[], 0, [], none, [], true⟩

def flow (l : Layout) : Bool := !l.outerKeys.isEmpty

/-- The least column of what belongs to an entry of the innermost block. -/
def least (l : Layout) : Nat :=
  match l.blocks with
  | [] => 0
  | column :: _ => column + 1

/-- The layout after one more token, behind which keys may start or not. -/
def push (token : Token) (keyAllowed : Bool) (l : Layout) : Layout :=
  { l with tokens := token :: l.tokens, count := l.count + 1, keyAllowed := keyAllowed }

/-- The layout with a token put behind the first `index` tokens. -/
def insert (index : Nat) (token : Token) (l : Layout) : Layout :=
  let later := l.count - index
  { l with
    tokens := l.tokens.take later ++ token :: l.tokens.drop later
    count := l.count + 1 }

/-! ## Blocks -/

/-- The layout with a block opened at a column, behind the first `index` tokens, unless brackets or
a block as far to the right are open. -/
def openBlock (index column : Nat) (token : Token) (l : Layout) : Layout :=
  if !l.flow && l.blocks.head?.all (· < column) then
    { l.insert index token with blocks := column :: l.blocks }
  else l

/-- The layout with the blocks closed whose column satisfies a condition, unless brackets are
open. -/
def closeBlocks (closes : Nat → Bool) (rest : List Spot) (l : Layout) : Layout :=
  if l.flow then l
  else
    let ends := (l.blocks.takeWhile closes).map fun _ => Lexeme.blockEnd.located rest
    { l with
      tokens := ends ++ l.tokens
      count := l.count + ends.length
      blocks := l.blocks.dropWhile closes }

/-! ## Keys -/

/-- The layout without the possible key. -/
def dropKey (rest : List Spot) (l : Layout) : Except SyntaxError Layout :=
  if l.key.any KeyStart.required then fail .keyWithoutColon rest else .ok { l with key := none }

/-- The layout where a node may be a key that starts here. -/
def saveKey (s : Spot) (rest : List Spot) (l : Layout) : Except SyntaxError Layout := do
  if !l.keyAllowed then return l
  let l ← l.dropKey (s :: rest)
  let required := !l.flow && l.blocks.head? = some s.column
  return { l with key := some ⟨l.count, s.line, s.column, s.offset, required⟩ }

/-- The layout without the possible keys that started on an earlier line or over 1024 bytes away. -/
def dropStaleKeys (s : Spot) (rest : List Spot) (l : Layout) : Except SyntaxError Layout :=
  let isStale (key : KeyStart) := key.line < s.line || key.offset + 1024 < s.offset
  if (l.key :: l.outerKeys).any fun key => key.any fun key => isStale key && key.required then
    fail .keyWithoutColon (s :: rest)
  else
    let keep (key : Option KeyStart) := key.filter fun key => !isStale key
    .ok { l with key := keep l.key, outerKeys := l.outerKeys.map keep }

/-! ## Tokens -/

def openFlow (token : Token) (l : Layout) : Layout :=
  { l.push token true with key := none, outerKeys := l.key :: l.outerKeys }

def closeFlow (token : Token) (l : Layout) : Layout :=
  let l := l.push token false
  match l.outerKeys with
  | [] => l
  | key :: outer => { l with key := key, outerKeys := outer }

/-- The layout after a mark that opens a block of its kind outside of brackets. -/
def openEntry (block : Lexeme) (s : Spot) (rest : List Spot) (l : Layout) :
    Except SyntaxError Layout :=
  if l.flow then .ok l
  else if l.keyAllowed then .ok (l.openBlock l.count s.column (block.located (s :: rest)))
  else fail .misplacedEntry (s :: rest)

/-- The layout after a colon, which turns the possible key into one. -/
def addValue (s : Spot) (rest : List Spot) (l : Layout) : Except SyntaxError Layout :=
  let token := Lexeme.value.located (s :: rest)
  match l.key with
  | some key =>
    let position := some (key.line, key.column)
    let l := (l.insert key.index ⟨.key, position⟩).openBlock key.index key.column
      ⟨.mappingStart, position⟩
    .ok ({ l with key := none }.push token false)
  | none => do return (← l.openEntry .mappingStart s rest).push token (!l.flow)

/-- The layout after the mark of the start or the end of a document, or after a directive. -/
def addMark (token : Token) (rest : List Spot) (l : Layout) : Except SyntaxError Layout := do
  return (← (l.closeBlocks (fun _ => true) rest).dropKey rest).push token false

/-- The layout after a node in front of which a key may start, as far as it is one token. -/
def addNode (s : Spot) (rest : List Spot) (token : Token) (keyAllowed : Bool) (l : Layout) :
    Except SyntaxError Layout := do
  return (← l.saveKey s rest).push token keyAllowed

/-- The layout after the token that starts at a character, and the remaining text. -/
def next (s : Spot) (rest : List Spot) (l : Layout) : Except SyntaxError (Layout × List Spot) := do
  let here := s :: rest
  let l := (← l.dropStaleKeys s rest).closeBlocks (s.column < ·) here
  let mark (lexeme : Lexeme) : Token := lexeme.located here
  match s.char with
  | '[' => return ((← l.saveKey s rest).openFlow (mark .openBracket), rest)
  | '\x7b' => return ((← l.saveKey s rest).openFlow (mark .openBrace), rest)
  | ']' => return ((← l.dropKey here).closeFlow (mark .closeBracket), rest)
  | '\x7d' => return ((← l.dropKey here).closeFlow (mark .closeBrace), rest)
  | ',' => return ((← l.dropKey here).push (mark .comma) true, rest)
  | '*' =>
    let (name, next) ← anchorName rest
    return (← l.addNode s rest (mark (.reference name)) false, next)
  | '&' =>
    let (name, next) ← anchorName rest
    return (← l.addNode s rest (mark (.anchor name)) false, next)
  | '!' =>
    let (tag, next) ← Tag.scan l.flow rest
    return (← l.addNode s rest (mark (.tag tag)) false, next)
  | '\'' =>
    let (text, next) ← Quoted.single "" .none rest
    return (← l.addNode s rest (mark (.scalar true text)) false, next)
  | '"' =>
    let (text, next) ← Quoted.double "" .none rest
    return (← l.addNode s rest (mark (.scalar true text)) false, next)
  | c =>
    if c = '%' && s.column = 0 then
      let (lexeme, next) ← directive rest
      return (← l.addMark (mark lexeme) here, next)
    else if atMarker '-' here then return (← l.addMark (mark .documentStart) here, rest.drop 2)
    else if atMarker '.' here then return (← l.addMark (mark .documentEnd) here, rest.drop 2)
    else if c = '-' && atGap rest then
      return ((← (← l.openEntry .sequenceStart s rest).dropKey here).push (mark .dash) true, rest)
    else if c = '?' && (l.flow || atGap rest) then
      let l ← (← l.openEntry .mappingStart s rest).dropKey here
      return (l.push (mark .key) (!l.flow), rest)
    else if c = ':' && (l.flow || atGap rest) then return (← l.addValue s rest, rest)
    else if (c = '|' || c = '>') && !l.flow then
      let (text, next) ← Indented.scan (c = '|') l.least rest
      return ((← l.dropKey here).push (mark (.scalar true text)) true, next)
    else if Plain.startsHere l.flow here then
      let (text, gap, next) ← Plain.scan l.flow l.least "" .none here
      return (← l.addNode s rest (mark (.scalar false text)) gap.spansLines, next)
    else stuck here

/-! ## Texts -/

/-- Whether keys may start at the next content, and the text from there. A tab is spacing where no
key may start, and a byte order mark at the start of a line; a line break allows keys outside of
brackets. -/
def skipGap (flow inComment keyAllowed : Bool) : List Spot → Bool × List Spot
  | [] => (keyAllowed, [])
  | s :: rest =>
    if isBreak s.char then skipGap flow false (keyAllowed || !flow) rest
    else if inComment || s.char = ' ' || (s.char = '\t' && (flow || !keyAllowed)) ||
        (s.char = '\ufeff' && s.column = 0) then
      skipGap flow inComment keyAllowed rest
    else if s.char = '#' then skipGap flow true keyAllowed rest
    else (keyAllowed, s :: rest)

/-- The tokens of the remaining text behind those of a layout. Every token takes a character, so
that the length of the text is enough fuel. -/
def run (fuel : Nat) (l : Layout) (rest : List Spot) : Except SyntaxError (List Token) := do
  let (keyAllowed, rest) := skipGap l.flow false l.keyAllowed rest
  let l := { l with keyAllowed := keyAllowed }
  match fuel, rest with
  | _, [] => return (← (l.closeBlocks (fun _ => true) []).dropKey []).tokens.reverse
  | 0, rest => stuck rest
  | fuel + 1, s :: rest =>
    let (l, rest) ← l.next s rest
    run fuel l rest

end Layout

def tokens (text : String) : Except SyntaxError (List Token) :=
  let all := spots text
  match all.dropWhile fun s => isPrintable s.char with
  | [] => Layout.start.run all.length all
  | s :: rest => fail .unprintable (s :: rest)

end StackTemplate.Markup
