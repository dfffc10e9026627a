import StackTemplate.Configuration.Table.Quoted
import StackTemplate.Configuration.Table.Rows
import StackTemplate.Configuration.Table.Word

/-!
# Configuration files as text

A configuration file holds settings `key = value`, one a line, and headers `[key]`, each of which
opens the table that the settings after it belong to; a header `[[key]]` opens one more table of a
list. Points divide the parts of a path of keys. A value is a string, a word, a list in brackets or
a table in braces.

- `Table.read` reads the text of a file.
-/

namespace StackTemplate.Configuration.Table

/-! ## Values -/

mutual

/-- A value and the remaining text. -/
def value? (fuel : Nat) (cs : List Char) : Option (Node × List Char) :=
  match fuel, cs with
  | 0, _ => none
  | fuel + 1, '[' :: cs => do
    let (items, rest) ← items? fuel (← skipLines false cs)
    return (.seq items, rest)
  | fuel + 1, '\x7b' :: cs => do
    let (rows, rest) ← rows? fuel [] (← skipLines false cs)
    return (.map (nodes rows), rest)
  | _, '"' :: cs => (string? ('"' :: cs)).map fun (text, rest) => (.string text, rest)
  | _, '\'' :: cs => (string? ('\'' :: cs)).map fun (text, rest) => (.string text, rest)
  | _, cs =>
    let (word, rest) := spanWord cs
    (word? word).map fun node => (node, rest)

/-- The items of a list, and the text behind its closing bracket. -/
def items? (fuel : Nat) (cs : List Char) : Option (List Node × List Char) :=
  match fuel, cs with
  | 0, _ => none
  | _, ']' :: cs => some ([], cs)
  | fuel + 1, cs => do
    let (item, rest) ← value? fuel cs
    match ← skipLines false rest with
    | ',' :: rest =>
      let (items, rest) ← items? fuel (← skipLines false rest)
      return (item :: items, rest)
    | ']' :: rest => return ([item], rest)
    | _ => none

/-- The rows of a table in braces after `rows`, and the text behind its closing brace. -/
def rows? (fuel : Nat) (rows : Rows) (cs : List Char) : Option (Rows × List Char) :=
  match fuel, cs with
  | 0, _ => none
  | _, '\x7d' :: cs => some (rows, cs)
  | fuel + 1, cs => do
    let (path, rest) ← setting? cs
    let (value, rest) ← value? fuel rest
    let rows ← rows.set path value
    match ← skipLines false rest with
    | ',' :: rest => rows? fuel rows (← skipLines false rest)
    | '\x7d' :: rest => return (rows, rest)
    | _ => none

end

/-! ## Files -/

/-- The path of a header after its opening bracket, whether there are two of them, and the remaining
text. -/
def header? (cs : List Char) : Option (List String × Bool × List Char) := do
  match cs with
  | '[' :: cs =>
    match ← path? cs.length cs with
    | (path, ']' :: ']' :: rest) => return (path, true, rest)
    | _ => none
  | cs =>
    match ← path? cs.length cs with
    | (path, ']' :: rest) => return (path, false, rest)
    | _ => none

/-- The rows of a file after `rows`, where the settings belong to the table under the path
`table`. -/
def lines? (fuel : Nat) (table : List String) (rows : Rows) (cs : List Char) : Option Rows := do
  match fuel, ← skipLines false cs with
  | _, [] => return rows
  | 0, _ => none
  | fuel + 1, '[' :: cs =>
    let (path, isItem, rest) ← header? cs
    let rows ← rows.changeAt .path (if isItem then Rows.openItem else Rows.openTable) path
    lines? fuel path rows (← endLine? rest)
  | fuel + 1, cs =>
    let (path, rest) ← setting? cs
    let (value, rest) ← value? cs.length rest
    let rows ← rows.change .path (Rows.set path value) table
    lines? fuel table rows (← endLine? rest)

/-- The document that the text of a file denotes; a byte order mark in front of it is no part of
it. -/
def read (text : String) : Option Node :=
  let cs := joinLineEnds text.toList
  let cs := if cs.head? = some '\ufeff' then cs.drop 1 else cs
  (lines? (cs.length + 1) [] [] cs).map fun rows => .map (nodes rows)

end StackTemplate.Configuration.Table
