import StackTemplate.Markup.Spot
import StackTemplate.Text.Numeral

/-!
# Scalars on one or more lines

A gap is the spacing between two words of a scalar. On one line it is kept as it is. Across lines
the spacing around the breaks is dropped, a single newline is a space, and of several line breaks
the first newline is dropped.

A plain scalar is a text without quotes. It ends in front of a colon before a gap, in front of a
comment after a gap, where a line is indented too little, and inside of brackets in front of a
bracket or comma.

A scalar between single quotes takes every character as it is, a quote written twice; between double
quotes a backslash starts an escape. Gaps across lines are folded, and an escaped line break with
the spacing behind it is nothing.
-/

namespace StackTemplate.Markup

/-! ## Gaps -/

/-- The gap after a word. -/
inductive Gap where
  /-- Spaces and tabs on the line of the word. -/
  | spacing (chars : List Char)
  /-- Line breaks; the first is absent where it was escaped. -/
  | breaks (first : Option Char) (more : List Char)
deriving DecidableEq, Repr

namespace Gap

def none : Gap := .spacing []

def isNone : Gap → Bool
  | .spacing [] => true
  | _ => false

def spansLines : Gap → Bool
  | .spacing _ => false
  | .breaks _ _ => true

/-- A gap with one more character. -/
def add (c : Char) : Gap → Gap
  | .spacing chars => if isBreak c then .breaks (some c) [] else .spacing (chars ++ [c])
  | .breaks first more => if isBreak c then .breaks first (more ++ [c]) else .breaks first more

/-- The characters that stand for a gap. -/
def chars : Gap → List Char
  | .spacing chars => chars
  | .breaks (some '\n') [] => [' ']
  | .breaks (some '\n') more => more
  | .breaks first more => first.toList ++ more

def append (text : String) (gap : Gap) : String := gap.chars.foldl String.push text

end Gap

/-! ## Plain scalars -/

namespace Plain

/-- Whether a plain scalar can start here. -/
def startsHere (flow : Bool) : List Spot → Bool
  | [] => false
  | s :: rest =>
    if s.char = '-' then !(rest.head?.any fun t => isSpacing t.char)
    else if s.char = '?' || s.char = ':' then !flow && !atGap rest
    else !(isGap s.char || isFlowMark s.char || "#&*!|>'\"%@`".toList.contains s.char)

/-- Whether a plain scalar with a gap behind it goes no further than that gap. In a block its lines
are indented to the column `least`. -/
def endsAfterGap (flow : Bool) (least : Nat) (s : Spot) (rest : List Spot) : Bool :=
  (!flow && s.column < least) || atDocumentMark (s :: rest) || s.char = '#'

/-- Whether a plain scalar ends in front of a character, wherever that stands. -/
def endsHere (flow : Bool) (s : Spot) (rest : List Spot) : Bool :=
  (s.char = ':' && atGap rest) || (flow && isFlowMark s.char)

/-- Whether a colon leaves open what it belongs to: inside of brackets in front of a bracket, a
comma or a question mark. -/
def isLooseColon (flow : Bool) (s : Spot) (rest : List Spot) : Bool :=
  flow && s.char = ':' && rest.head?.any fun t => isFlowMark t.char || t.char = '?'

/-- The text of a plain scalar of which a part has been read, the gap that follows it, and the
remaining text. -/
def scan (flow : Bool) (least : Nat) (text : String) (gap : Gap) :
    List Spot → Except SyntaxError (String × Gap × List Spot)
  | [] => .ok (text, gap, [])
  | s :: rest =>
    if isGap s.char then
      if gap.spansLines && s.char = '\t' && s.column < least then fail .tabIndent (s :: rest)
      else scan flow least text (gap.add s.char) rest
    else if !gap.isNone && endsAfterGap flow least s rest then .ok (text, gap, s :: rest)
    else if isLooseColon flow s rest then stuck (s :: rest)
    else if endsHere flow s rest then .ok (text, gap, s :: rest)
    else scan flow least ((gap.append text).push s.char) .none rest

end Plain

/-! ## Quoted scalars -/

namespace Quoted

/-- The text of a single-quoted scalar of which a part has been read, and the remaining text. -/
def single (text : String) (gap : Gap) : List Spot → Except SyntaxError (String × List Spot)
  | [] => fail .unterminated []
  | s :: rest =>
    if isGap s.char then single text (gap.add s.char) rest
    else if atDocumentMark (s :: rest) then stuck (s :: rest)
    else if s.char = '\'' then
      match rest with
      | t :: rest' =>
        if t.char = '\'' then single ((gap.append text).push '\'') .none rest'
        else .ok (gap.append text, rest)
      | [] => .ok (gap.append text, [])
    else single ((gap.append text).push s.char) .none rest

/-- The character of an escape of one letter. -/
def escape? : Char → Option Char
  | '0' => some '\x00'
  | 'a' => some '\x07'
  | 'b' => some '\x08'
  | 't' | '\t' => some '\t'
  | 'n' => some '\n'
  | 'v' => some '\x0b'
  | 'f' => some '\x0c'
  | 'r' => some '\r'
  | 'e' => some '\x1b'
  | ' ' => some ' '
  | '"' => some '"'
  | '/' => some '/'
  | '\\' => some '\\'
  | 'N' => some '\u0085'
  | '_' => some '\u00a0'
  | 'L' => some '\u2028'
  | 'P' => some '\u2029'
  | _ => none

/-- The number of hexadecimal digits after the letter of an escape. -/
def digitCount? : Char → Option Nat
  | 'x' => some 2
  | 'u' => some 4
  | 'U' => some 8
  | _ => none

/-- The character whose number is written in hexadecimal digits. -/
def numbered? (count : Nat) (rest : List Spot) : Option Char :=
  if rest.length < count then none
  else
    match Text.readDigits? Text.hexDigitValue? 16 ((rest.take count).map Spot.char) with
    | some n => if n.isValidChar then some (Char.ofNat n) else none
    | none => none

/-- The text of a double-quoted scalar of which a part has been read, and the remaining text. -/
def double (text : String) (gap : Gap) (rest : List Spot) :
    Except SyntaxError (String × List Spot) :=
  match rest with
  | [] => fail .unterminated []
  | s :: rest =>
    if isGap s.char then double text (gap.add s.char) rest
    else if atDocumentMark (s :: rest) then stuck (s :: rest)
    else if s.char = '"' then .ok (gap.append text, rest)
    else if s.char = '\\' then
      match rest with
      | [] => fail .unterminated []
      | t :: rest =>
        if isBreak t.char then double (gap.append text) (.breaks none []) rest
        else
          match escape? t.char, digitCount? t.char with
          | some c, _ => double ((gap.append text).push c) .none rest
          | none, some count =>
            match numbered? count rest with
            | some c => double ((gap.append text).push c) .none (rest.drop count)
            | none => fail .badEscape (t :: rest)
          | none, none => fail .badEscape (t :: rest)
    else double ((gap.append text).push s.char) .none rest
termination_by rest.length
decreasing_by
  all_goals simp only [List.length_cons, List.length_drop]
  all_goals omega

end Quoted

end StackTemplate.Markup
