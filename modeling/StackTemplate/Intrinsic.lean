import StackTemplate.Text.Cut

/-!
# Intrinsic functions

The functions of the expression language form a closed catalogue. Each has a short name, used for
local tags, and a long name, used as a mapping key; `Ref` and `Condition` have the same name twice.
-/

namespace StackTemplate

/-- The intrinsic functions. -/
inductive Intrinsic where
  | and
  | or
  | not
  | equals
  | ref
  | condition
  | getAtt
  | importValue
  | findInMap
  | getAZs
  | cidr
  | select
  | split
  | join
  | sub
  | base64
  | ifElse
deriving DecidableEq, Repr

/-- The broad categories of intrinsic functions. -/
inductive IntrinsicKind where
  /-- Produces a truth value. -/
  | boolean
  /-- Names another entity. -/
  | reference
  /-- Computes a value from its operands. -/
  | derived
deriving DecidableEq, Repr

namespace Intrinsic

def all : List Intrinsic :=
  [.and, .or, .not, .equals, .ref, .condition, .getAtt, .importValue, .findInMap, .getAZs, .cidr,
    .select, .split, .join, .sub, .base64, .ifElse]

theorem mem_all (f : Intrinsic) : f ∈ all := by
  cases f <;> decide

/-- The name used for a local tag. -/
def shortName : Intrinsic → String
  | .and => "And"
  | .or => "Or"
  | .not => "Not"
  | .equals => "Equals"
  | .ref => "Ref"
  | .condition => "Condition"
  | .getAtt => "GetAtt"
  | .importValue => "ImportValue"
  | .findInMap => "FindInMap"
  | .getAZs => "GetAZs"
  | .cidr => "Cidr"
  | .select => "Select"
  | .split => "Split"
  | .join => "Join"
  | .sub => "Sub"
  | .base64 => "Base64"
  | .ifElse => "If"

/-- The name used for a mapping key. -/
def longName : Intrinsic → String
  | .ref => "Ref"
  | .condition => "Condition"
  | f => "Fn::" ++ f.shortName

def kind : Intrinsic → IntrinsicKind
  | .and | .or | .not | .equals => .boolean
  | .ref | .condition | .getAtt | .importValue => .reference
  | _ => .derived

/-- The function that a spelling names: an optional exclamation mark, an optional `Fn::`, and the
short name. -/
def ofName? (name : String) : Option Intrinsic :=
  let name := (Text.stripStart? "!" name).getD name
  let name := (Text.stripStart? "Fn::" name).getD name
  all.find? fun f => f.shortName = name

/-- Whether a mapping key denotes a call. -/
def isCallKey (key : String) : Bool :=
  Text.beginsWith "Fn::" key || key = "Ref" || key = "Condition"

/-- The function whose name differs from a spelling in letter case or the leading `Fn::` only. -/
def suggestion? (spelling : String) : Option Intrinsic :=
  let bare := ((Text.stripStart? "Fn::" spelling).getD spelling).toList.map Char.toLower
  all.find? fun f => f.shortName.toList.map Char.toLower = bare

end Intrinsic

end StackTemplate
