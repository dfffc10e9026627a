import StackTemplate.Intrinsic
import StackTemplate.Network.Subnet
import StackTemplate.Value

/-!
# Evaluation errors

The causes for which an expression has no value, with the wording of each.
-/

namespace StackTemplate

/-- What a function asks of an operand. -/
inductive Expectation where
  | boolean
  | string
  | integer
  | list
deriving DecidableEq, Repr

def Expectation.name : Expectation → String
  | .boolean => "boolean"
  | .string => "string"
  | .integer => "integer"
  | .list => "list"

/-- The causes for which an expression has no value. -/
inductive EvalError where
  | missingParameterValue (name : String)
  | unknownReference (name : String)
  | unknownResource (name : String)
  | unknownCondition (name : String)
  | missingMapping (map : String)
  | missingMapKey (map key : String)
  | indexOutOfRange (index : Int) (length : Nat)
  | nonScalarJoin (found : ValueKind)
  | typeMismatch (function : Intrinsic) (expected : Expectation) (found : ValueKind)
  | invalidCidr (block : String) (fault : Network.CidrFault)
  | circularCondition (name : String)
  | nonBooleanCondition (name : String)
  | unresolvedPlaceholder (id : Nat)
deriving DecidableEq, Repr

def EvalError.message : EvalError → String
  | .missingParameterValue name =>
    "parameter `" ++ name ++ "` has no runtime value and no default"
  | .unknownReference name =>
    "`" ++ name ++ "` is not a declared parameter, resource or pseudo-parameter"
  | .unknownResource name => "`" ++ name ++ "` is not a declared resource"
  | .unknownCondition name => "`" ++ name ++ "` is not a declared condition"
  | .missingMapping map => "mapping `" ++ map ++ "` is not declared"
  | .missingMapKey map key => "mapping `" ++ map ++ "` has no key `" ++ key ++ "`"
  | .indexOutOfRange index length =>
    "index " ++ toString index ++ " is out of range for a list of " ++ toString length ++ " items"
  | .nonScalarJoin found => "Fn::Join members must be scalars, found a " ++ found.name
  | .typeMismatch function expected found =>
    function.longName ++ " expected a " ++ expected.name ++ ", found a " ++ found.name
  | .invalidCidr block fault => "invalid CIDR block `" ++ block ++ "`: " ++ fault.reason
  | .circularCondition name => "condition `" ++ name ++ "` depends on itself"
  | .nonBooleanCondition name => "condition `" ++ name ++ "` did not evaluate to a boolean"
  | .unresolvedPlaceholder id => "unresolved placeholder #" ++ toString id

end StackTemplate
