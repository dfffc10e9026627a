import StackTemplate.Text.Cut

/-!
# Substitution strings

The template string of a substitution alternates literal text and placeholders.

- `${Name}` stands for a parameter, resource or pseudo-parameter, `${Resource.Attribute}` for an
  attribute of a resource; blanks around the body do not count.
- `${!Text}` is an escape for the literal `${Text}`.
- A `${` without a later closing brace is literal text.

Literal texts are never empty and never adjacent.
-/

namespace StackTemplate

/-- A piece of a substitution string. -/
inductive Segment where
  | literal (text : String)
  | ref (name : String)
  | getAtt (resource attributeName : String)
deriving DecidableEq, Repr

namespace Segment

def opening : List Char := ['$', '\x7b']

def closing : List Char := ['\x7d']

/-- The placeholder of a trimmed body: a point divides resource and attribute, unless the part in
front of it is in a namespace. -/
def placeholder (body : List Char) : Segment :=
  match Text.cut? ['.'] body with
  | some (resource, attributeName) =>
    if (Text.cut? [':', ':'] resource).isSome then .ref (String.ofList body)
    else .getAtt (String.ofList resource) (String.ofList attributeName)
  | none => .ref (String.ofList body)

/-- The segment of a literal text, absent when it is empty. -/
def ofLiteral : List Char → List Segment
  | [] => []
  | cs => [.literal (String.ofList cs)]

/-- The segments of a text that follows the literal characters `before`. -/
def parseFrom (before s : List Char) : List Segment :=
  match _ : Text.cut? opening s with
  | none => ofLiteral (before ++ s)
  | some (text, rest) =>
    match _ : Text.cut? closing rest with
    | none => ofLiteral (before ++ s)
    | some ('!' :: escaped, rest) =>
      parseFrom (before ++ text ++ opening ++ escaped ++ closing) rest
    | some (body, rest) =>
      ofLiteral (before ++ text) ++ placeholder (Text.trimChars body) :: parseFrom [] rest
termination_by s.length
decreasing_by
  all_goals
    have hopen := Text.length_lt_of_cut? (show opening ≠ [] by simp [opening]) ‹_›
    have hclose := Text.length_lt_of_cut? (show closing ≠ [] by simp [closing]) ‹_›
    omega

/-- The segments of a substitution string. -/
def parse (template : String) : List Segment := parseFrom [] template.toList

/-- The name that a placeholder looks up among the variables of its substitution. -/
def variableName? : Segment → Option String
  | .literal _ => none
  | .ref name => some name
  | .getAtt resource attributeName => some (resource ++ "." ++ attributeName)

end Segment

end StackTemplate
