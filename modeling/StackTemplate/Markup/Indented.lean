import StackTemplate.Markup.Spot
import StackTemplate.Text.Numeral

/-!
# Indented scalars

An indented scalar is the lines below a mark that are indented to a common column. A literal one
keeps its line breaks; a folded one joins lines that do not start with spacing. The mark says with a
sign whether the line breaks at the end are kept or dropped, and with a digit how far the lines are
indented beyond the block around them; without the digit the first line decides.
-/

namespace StackTemplate.Markup.Indented

/-- What becomes of the line breaks at the end: all are dropped, one is kept, or all are. -/
inductive Ending where
  | drop
  | keepOne
  | keepAll
deriving DecidableEq, Repr

/-- The sign that decides the ending. -/
def ending? : List Spot → Option (Ending × List Spot)
  | s :: rest =>
    if s.char = '+' then some (.keepAll, rest)
    else if s.char = '-' then some (.drop, rest)
    else none
  | [] => none

/-- The digit that decides the indentation; a zero is none. -/
def indentation? : List Spot → Option (Nat × List Spot)
  | s :: rest => (Text.digitValue? s.char).map fun n => (n, rest)
  | [] => none

/-- The sign and the digit after the mark, in either order, and the text from the next line. -/
def header (rest : List Spot) : Except SyntaxError (Ending × Option Nat × List Spot) :=
  let (ending, indentation, after) :=
    match ending? rest, indentation? rest with
    | some (ending, next), _ =>
      match indentation? next with
      | some (n, next) => (ending, some n, next)
      | none => (ending, none, next)
    | none, some (n, next) =>
      match ending? next with
      | some (ending, next) => (ending, some n, next)
      | none => (.keepOne, some n, next)
    | none, none => (.keepOne, none, rest)
  if indentation = some 0 then stuck rest
  else do return (ending, indentation, ← endLine after)

/-- The line breaks of the blank lines in front of the next line, the greatest column that their
spaces or those in front of that line reach, and the remaining text. Spaces from the column `indent`
belong to the line. -/
def blankLines (indent : Option Nat) (reached : Nat) (breaks : List Char) :
    List Spot → Except SyntaxError (List Char × Nat × List Spot)
  | [] => .ok (breaks, reached, [])
  | s :: rest =>
    if isBreak s.char then blankLines indent reached (breaks ++ [s.char]) rest
    else if indent.all fun n => s.column < n then
      if s.char = ' ' then blankLines indent (max reached (s.column + 1)) breaks rest
      else if s.char = '\t' then fail .tabIndent (s :: rest)
      else .ok (breaks, reached, s :: rest)
    else .ok (breaks, reached, s :: rest)

/-- The characters between two lines, where `first` is the break at the end of the upper one, `more`
are those of the blank lines in between, and `flush` says that neither starts with spacing. -/
def joint (literal flush : Bool) (first : Option Char) (more : List Char) : List Char :=
  if !literal && flush && first = some '\n' then if more.isEmpty then [' '] else more
  else first.toList ++ more

/-- The text of the lines that are indented to a column, the break at the end of the last one, the
breaks of the blank lines after it, and the remaining text. -/
def lines (fuel : Nat) (literal : Bool) (indent : Nat) (text : String) (flush : Bool)
    (first : Option Char) (more : List Char) (rest : List Spot) :
    Except SyntaxError (String × Option Char × List Char × List Spot) :=
  match fuel, rest with
  | 0, _ | _, [] => .ok (text, first, more, rest)
  | fuel + 1, s :: next =>
    if s.column ≠ indent then .ok (text, first, more, rest)
    else
      let startsFlush := !isSpacing s.char
      let content := ((s :: next).takeWhile fun s => !isBreak s.char).map Spot.char
      let between := joint literal (flush && startsFlush) first more
      let text := (between ++ content).foldl String.push text
      match (s :: next).dropWhile fun s => !isBreak s.char with
      | [] => .ok (text, none, [], [])
      | b :: next => do
        let (more, _, next) ← blankLines (some indent) 0 [] next
        lines fuel literal indent text startsFlush (some b.char) more next

/-- The text of an indented scalar after its mark, and the remaining text. The lines of the block
around it are indented to a column below `least`. -/
def scan (literal : Bool) (least : Nat) (rest : List Spot) :
    Except SyntaxError (String × List Spot) := do
  let (ending, indentation, next) ← header rest
  let stated := indentation.map fun n => (least - 1) + n
  let (more, reached, next) ← blankLines stated 0 [] next
  let indent := stated.getD (max reached (max least 1))
  let (text, first, more, next) ← lines next.length literal indent "" true none more next
  let kept := match ending with
    | .drop => []
    | .keepOne => first.toList
    | .keepAll => first.toList ++ more
  return (kept.foldl String.push text, next)

end StackTemplate.Markup.Indented
