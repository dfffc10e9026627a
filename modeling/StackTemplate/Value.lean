import StackTemplate.Dict
import StackTemplate.Scalar

/-!
# Values

A value is what an expression evaluates to: a scalar, a list, or a map from names to values.

- `Value.ofNode?` reads a value from a document without tags.
- `Value.looselyEquals` compares scalars by their text and maps without regard to order.
- `Value.display` writes a value on one line.
-/

namespace StackTemplate

/-- The result of evaluating an expression. -/
inductive Value where
  | scalar (s : Scalar)
  | list (items : List Value)
  | map (entries : List (String × Value))
deriving Repr, Inhabited

/-- The kind of a value, as error messages name it. -/
inductive ValueKind where
  | null
  | boolean
  | number
  | string
  | list
  | map
deriving DecidableEq, Repr

def ValueKind.name : ValueKind → String
  | .null => "null"
  | .boolean => "boolean"
  | .number => "number"
  | .string => "string"
  | .list => "list"
  | .map => "map"

namespace Value

def string (text : String) : Value := .scalar (.string text)

def bool (b : Bool) : Value := .scalar (.bool b)

def null : Value := .scalar .null

/-! ## Documents -/

mutual

/-- The value that a document denotes, where no node is tagged and every key is a scalar. -/
def ofNode? : Node → Option Value
  | .seq items => (ofItems? items).map .list
  | .map entries => (ofEntries? entries).map fun es => .map (Entries.ofList es)
  | .tagged .. => none
  | .null => some null
  | .bool b => some (bool b)
  | .int i => (Scalar.ofNode? (.int i)).map .scalar
  | .float x => some (.scalar (.float x))
  | .string s => some (string s)

def ofItems? : List Node → Option (List Value)
  | [] => some []
  | item :: items =>
    match ofNode? item with
    | none => none
    | some v => (ofItems? items).map (v :: ·)

def ofEntries? : List (Node × Node) → Option (List (String × Value))
  | [] => some []
  | (key, value) :: entries =>
    match Scalar.ofNode? key, ofNode? value with
    | some k, some v => (ofEntries? entries).map ((k.text, v) :: ·)
    | _, _ => none

end

mutual

/-- The document that writes a value. -/
def toNode : Value → Node
  | .scalar s => s.toNode
  | .list items => .seq (itemsToNodes items)
  | .map entries => .map (entriesToNodes entries)

def itemsToNodes : List Value → List Node
  | [] => []
  | v :: vs => v.toNode :: itemsToNodes vs

def entriesToNodes : List (String × Value) → List (Node × Node)
  | [] => []
  | (k, v) :: es => (.string k, v.toNode) :: entriesToNodes es

end

/-! ## Views -/

def scalar? : Value → Option Scalar
  | .scalar s => some s
  | _ => none

def items? : Value → Option (List Value)
  | .list items => some items
  | _ => none

def text? (v : Value) : Option String := v.scalar?.map Scalar.text

/-- The truth value of a boolean, or of the words for one in any case. -/
def bool? : Value → Option Bool
  | .scalar (.bool b) => some b
  | .scalar (.string s) =>
    let word := s.toList.map Char.toLower
    if word = "true".toList then some true
    else if word = "false".toList then some false
    else none
  | _ => none

def kind : Value → ValueKind
  | .scalar .null => .null
  | .scalar (.bool _) => .boolean
  | .scalar (.int _) | .scalar (.float _) => .number
  | .scalar (.string _) => .string
  | .list _ => .list
  | .map _ => .map

/-! ## Loose equality -/

mutual

/-- Equality up to the texts of scalars and the order of map entries. -/
def looselyEquals : Value → Value → Bool
  | .scalar a, .scalar b => a.text = b.text
  | .list as, .list bs => itemsLooselyEqual as bs
  | .map as, .map bs => as.length = bs.length && entriesLooselyWithin as bs
  | _, _ => false

def itemsLooselyEqual : List Value → List Value → Bool
  | [], [] => true
  | a :: as, b :: bs => a.looselyEquals b && itemsLooselyEqual as bs
  | _, _ => false

/-- Whether each entry has a loosely equal one under its key in another map. -/
def entriesLooselyWithin : List (String × Value) → List (String × Value) → Bool
  | [], _ => true
  | (k, a) :: as, bs =>
    (match Entries.find? bs k with
      | some b => a.looselyEquals b
      | none => false) && entriesLooselyWithin as bs

end

/-! ## Display -/

mutual

/-- The text of a value on one line: lists in brackets, maps in braces. -/
def display : Value → String
  | .scalar s => s.text
  | .list items => "[" ++ String.intercalate ", " (displayItems items) ++ "]"
  | .map entries => "\x7b" ++ String.intercalate ", " (displayEntries entries) ++ "\x7d"

def displayItems : List Value → List String
  | [] => []
  | v :: vs => v.display :: displayItems vs

def displayEntries : List (String × Value) → List String
  | [] => []
  | (k, v) :: es => (k ++ ": " ++ v.display) :: displayEntries es

end

end Value

end StackTemplate
