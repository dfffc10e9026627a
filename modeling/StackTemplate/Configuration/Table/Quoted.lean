import StackTemplate.Markup.Spot
import StackTemplate.Text.Numeral

/-!
# Gaps, strings and keys of configuration files

Lines end in a newline. Comments and strings hold no control character but the tab; strings between
three quotes may span lines.
-/

namespace StackTemplate.Configuration.Table

/-! ## Gaps -/

def isTextChar (c : Char) : Bool := c = '\t' || (0x20 ≤ c.toNat && c.toNat ≠ 0x7F)

/-- The text with each carriage return in front of a newline left out. -/
def joinLineEnds : List Char → List Char
  | '\r' :: '\n' :: cs => '\n' :: joinLineEnds cs
  | c :: cs => c :: joinLineEnds cs
  | [] => []

/-- The text from the next character that is no spacing. -/
def skipSpacing (cs : List Char) : List Char := cs.dropWhile Markup.isSpacing

/-- The text from the next content on this line or a later one. -/
def skipLines (inComment : Bool) : List Char → Option (List Char)
  | [] => some []
  | c :: cs =>
    if c = '\n' then skipLines false cs
    else if inComment then if isTextChar c then skipLines true cs else none
    else if Markup.isSpacing c then skipLines false cs
    else if c = '#' then skipLines true cs
    else some (c :: cs)

/-- The text from the end of the line, where nothing but spacing and a comment is in front of it. -/
def endLine? (cs : List Char) : Option (List Char) :=
  let rest := match skipSpacing cs with
    | '#' :: cs => cs.dropWhile isTextChar
    | cs => cs
  match rest with
  | [] => some []
  | c :: cs => if c = '\n' then some (c :: cs) else none

/-! ## Strings -/

/-- The character of an escape of one letter. -/
def escape? : Char → Option Char
  | 'b' => some '\x08'
  | 't' => some '\t'
  | 'n' => some '\n'
  | 'f' => some '\x0c'
  | 'r' => some '\r'
  | 'e' => some '\x1b'
  | '"' => some '"'
  | '\\' => some '\\'
  | _ => none

/-- The number of hexadecimal digits after the letter of an escape. -/
def digitCount? : Char → Option Nat
  | 'x' => some 2
  | 'u' => some 4
  | 'U' => some 8
  | _ => none

/-- The character of an escape after its letter, and the number of characters that are taken. -/
def escaped? (c : Char) (cs : List Char) : Option (Char × Nat) :=
  match escape? c, digitCount? c with
  | some e, _ => some (e, 0)
  | none, none => none
  | none, some count =>
    if cs.length < count then none
    else
      match Text.readDigits? Text.hexDigitValue? 16 (cs.take count) with
      | some n => if n.isValidChar then some (Char.ofNat n, count) else none
      | none => none

/-- The quotes in front of the three that end a string of several lines, two at most, and the text
behind it; absent where no three quotes stand here. -/
def closing? (quote : Char) (cs : List Char) : Option (List Char × List Char) :=
  let quotes := cs.takeWhile (· = quote)
  if quotes.length < 3 || 5 < quotes.length then none
  else some (quotes.drop 3, cs.drop quotes.length)

/-- Whether three quotes stand here. -/
def atClosing (quote : Char) (cs : List Char) : Bool := [quote, quote, quote].isPrefixOf cs

/-- Whether a text starts with the end of a line, after spacing at most. -/
def startsLine (cs : List Char) : Bool := (skipSpacing cs).head? = some '\n'

/-- The text from the next character that is neither spacing nor the end of a line. -/
def skipBlanks (cs : List Char) : List Char := cs.dropWhile fun c => Markup.isSpacing c || c = '\n'

theorem length_skipBlanks_le (cs : List Char) : (skipBlanks cs).length ≤ cs.length :=
  (List.dropWhile_sublist _).length_le

/-- A string between double quotes of which the text `before` has been read, and the remaining text.
Where it may span lines, three quotes end it, and a backslash at the end of a line takes away the
blanks up to the next character. -/
def basicString? (long : Bool) (before : List Char) (cs : List Char) :
    Option (String × List Char) :=
  match cs with
  | [] => none
  | c :: cs =>
    if c = '"' then
      if !long then some (String.ofList before, cs)
      else if atClosing '"' (c :: cs) then
        (closing? '"' (c :: cs)).map fun (quotes, rest) => (String.ofList (before ++ quotes), rest)
      else basicString? long (before ++ [c]) cs
    else if c = '\\' then
      match cs with
      | [] => none
      | e :: cs =>
        match escaped? e cs with
        | some (c, count) => basicString? long (before ++ [c]) (cs.drop count)
        | none =>
          if long && startsLine (e :: cs) then basicString? long before (skipBlanks cs) else none
    else if isTextChar c || (long && c = '\n') then basicString? long (before ++ [c]) cs
    else none
termination_by cs.length
decreasing_by
  all_goals simp only [List.length_cons, List.length_drop]
  all_goals have := length_skipBlanks_le cs
  all_goals omega

/-- A string between single quotes of which the text `before` has been read, and the remaining
text; where it may span lines, three quotes end it. -/
def literalString? (long : Bool) (before : List Char) : List Char → Option (String × List Char)
  | [] => none
  | c :: cs =>
    if c = '\'' then
      if !long then some (String.ofList before, cs)
      else if atClosing c (c :: cs) then
        (closing? c (c :: cs)).map fun (quotes, rest) => (String.ofList (before ++ quotes), rest)
      else literalString? long (before ++ [c]) cs
    else if isTextChar c || (long && c = '\n') then literalString? long (before ++ [c]) cs
    else none

/-- The text of a string of several lines, of which a first line break is no part. -/
def dropLineEnd : List Char → List Char
  | c :: cs => if c = '\n' then cs else c :: cs
  | [] => []

def string? (cs : List Char) : Option (String × List Char) :=
  if atClosing '"' cs then basicString? true [] (dropLineEnd (cs.drop 3))
  else if atClosing '\'' cs then literalString? true [] (dropLineEnd (cs.drop 3))
  else
    match cs with
    | '"' :: cs => basicString? false [] cs
    | '\'' :: cs => literalString? false [] cs
    | _ => none

/-! ## Keys -/

def key? : List Char → Option (String × List Char)
  | '"' :: cs => basicString? false [] cs
  | '\'' :: cs => literalString? false [] cs
  | cs =>
    match cs.span Markup.isNameChar with
    | ([], _) => none
    | (name, rest) => some (String.ofList name, rest)

/-- A path of keys that points divide, and the remaining text; `fuel` bounds its length. -/
def path? (fuel : Nat) (cs : List Char) : Option (List String × List Char) :=
  match fuel with
  | 0 => none
  | fuel + 1 => do
    let (key, rest) ← key? (skipSpacing cs)
    match skipSpacing rest with
    | '.' :: rest =>
      let (path, rest) ← path? fuel rest
      return (key :: path, rest)
    | rest => return ([key], rest)

/-- A path of keys, the equals sign behind it, and the remaining text from the value. -/
def setting? (cs : List Char) : Option (List String × List Char) := do
  match ← path? cs.length cs with
  | (path, '=' :: rest) => return (path, skipSpacing rest)
  | _ => none

end StackTemplate.Configuration.Table
