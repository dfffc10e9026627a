import StackTemplate.Binary64.Decimal
import StackTemplate.Node

/-!
# Scalars

A scalar is a leaf literal of a template. Integers span 64 bits with sign; an integer node beyond
that range is read as the nearest floating-point number.
-/

namespace StackTemplate

/-- A leaf literal. -/
inductive Scalar where
  | null
  | bool (value : Bool)
  | int (value : Int)
  | float (value : Binary64)
  | string (text : String)
deriving DecidableEq, Repr, Inhabited

namespace Scalar

/-- Whether an integer fits into 64 bits with sign. -/
def inIntegerRange (i : Int) : Bool := -0x8000000000000000 ≤ i && i < 0x8000000000000000

/-- The scalar that a leaf of a document denotes. -/
def ofNode? : Node → Option Scalar
  | .null => some .null
  | .bool b => some (.bool b)
  | .int i => some (if inIntegerRange i then .int i else .float (Binary64.ofInt i))
  | .float x => some (.float x)
  | .string s => some (.string s)
  | .seq _ | .map _ | .tagged .. => none

def toNode : Scalar → Node
  | .null => .null
  | .bool b => .bool b
  | .int i => .int i
  | .float x => .float x
  | .string s => .string s

/-- The text of a scalar; null has the empty text. -/
def text : Scalar → String
  | .null => ""
  | .bool true => "true"
  | .bool false => "false"
  | .int i => toString i
  | .float x => x.text
  | .string s => s

def string? : Scalar → Option String
  | .string s => some s
  | _ => none

/-- Equality of scalars that compares floating-point numbers by value. -/
def agrees : Scalar → Scalar → Bool
  | .float x, .float y => x.numericallyEquals y
  | a, b => a = b

/-- A mapping key as text: every scalar but null has one. -/
def keyText? (key : Node) : Option String :=
  match ofNode? key with
  | none | some .null => none
  | some s => some s.text

/-- A scalar that is written is read again, provided that an integer is in the range of integers. -/
theorem ofNode?_toNode {s : Scalar} (h : ∀ i, s = .int i → inIntegerRange i = true) :
    ofNode? s.toNode = some s := by
  cases s with
  | int i => simp [toNode, ofNode?, h i rfl]
  | _ => rfl

end Scalar

end StackTemplate
