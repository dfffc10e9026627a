import StackTemplate.Diagnostic
import StackTemplate.Section

/-!
# Faults of template documents

The ways in which a well-formed document fails to describe a template, each with the diagnostic
that reports it.
-/

namespace StackTemplate

/-- The ways in which the arguments of a call have the wrong form. -/
inductive CallFault where
  /-- Not a list of `least` to `most` operands, but of another length or no list at all. -/
  | arity (least most : Nat) (found : Option Nat)
  | attributePath
  | emptyAttributePath
  | logicalName
  | substitutionText
  | substitutionVariables
deriving DecidableEq, Repr

def CallFault.expected (least most : Nat) : String :=
  if least = most then
    "a list of " ++ toString least ++ " operand" ++ (if least = 1 then "" else "s")
  else "a list of " ++ toString least ++ " to " ++ toString most ++ " operands"

def CallFault.detail : CallFault → String
  | .arity least most (some found) =>
    "expected " ++ expected least most ++ ", found " ++ toString found
  | .arity least most none => "expected " ++ expected least most
  | .attributePath => "expected `Resource.Attribute` or a two-element list"
  | .emptyAttributePath => "resource and attribute must not be empty"
  | .logicalName => "expected a literal logical name"
  | .substitutionText => "the template string must be a literal"
  | .substitutionVariables => "variables must be a mapping"

/-- The ways in which an entry of a section has the wrong form. -/
inductive EntryFault where
  | notString
  | notScalar
  | notMapping
  | keyNotScalar
  | notValueList
  | notBoolean
  | notLiteral
  | notName
  | notNames
deriving DecidableEq, Repr

def EntryFault.detail : EntryFault → String
  | .notString => "expected a string"
  | .notScalar => "expected a literal scalar"
  | .notMapping => "expected a mapping"
  | .keyNotScalar => "mapping keys must be scalars"
  | .notValueList => "expected a list of values"
  | .notBoolean => "expected `true` or `false`"
  | .notLiteral => "expected a literal value"
  | .notName => "expected a logical name"
  | .notNames => "expected a logical name or a list of them"

/-- What a placeholder was recorded for: a slot of a call of a function. -/
structure Target where
  owner : Intrinsic
  slot : Slot
deriving DecidableEq, Repr

/-- The ways in which a document fails to describe a template. -/
inductive Fault where
  | rootNotMapping
  | sectionKeyNotString
  | transformSection (key : String)
  | unknownSection (key : String)
  | noResources
  | sectionNotMapping (area : Section)
  | nameNotString (area : Section)
  | invalidName (area : Section) (name : String)
  | missingField (path field : String)
  | malformedEntry (path : String) (fault : EntryFault)
  | unknownParameterAttribute (path name : String)
  | unknownResourceAttribute (path name : String)
  | unknownOutputAttribute (path name : String)
  | unknownFunction (path name : String)
  | misplacedFunction (path : String) (area : Section) (function : Intrinsic)
      (restriction : Option Restriction)
  | macroCall (path : String)
  | malformedCall (path : String) (function : Intrinsic) (fault : CallFault)
  | keyNotScalar (path : String)
  | unknownPlaceholder (path : String) (id : Nat)
  | placeholderRepeated (path recorded : String) (id : Nat)
  | placeholderMismatch (path recorded : String) (id : Nat) (target : Target)
      (owner : Option Intrinsic) (slot : Slot)
  | neverResolved (path : String) (owner : Intrinsic)
deriving DecidableEq, Repr

namespace Fault

/-- A diagnostic with one primary label. -/
def diagnose (code : DiagnosticCode) (message path remark : String) : Diagnostic :=
  ⟨some code, message, none, [⟨path, remark, true⟩]⟩

/-- A diagnostic with a hint. -/
def hinted (d : Diagnostic) (help : Option String) : Diagnostic := { d with help := help }

def diagnoseTwice (code : DiagnosticCode) (message path remark otherPath otherRemark : String) :
    Diagnostic :=
  ⟨some code, message, none, [⟨path, remark, true⟩, ⟨otherPath, otherRemark, false⟩]⟩

def quoted (s : String) : String := "`" ++ s ++ "`"

/-- The spelling of an unknown function without exclamation marks in front. -/
def bareName (name : String) : String :=
  String.ofList (name.toList.dropWhile (· = '!'))

/-- The diagnostic that reports a fault. -/
def diagnostic : Fault → Diagnostic
  | .rootNotMapping =>
    diagnose .rootNotMapping "template document must be a mapping" "" "document root"
  | .sectionKeyNotString =>
    diagnose .unknownSection "top-level keys must be strings" "" "document root"
  | .transformSection key =>
    hinted (diagnose .unsupportedMacro "template macros are not supported" key
      "Transform section declared here") (some "expand the transform before analysing the template")
  | .unknownSection key =>
    diagnose .unknownSection ("unknown top-level section " ++ quoted key) key "unknown section"
  | .noResources =>
    hinted (diagnose .missingField "template has no Resources section" "" "document root")
      (some "every template declares at least one resource")
  | .sectionNotMapping area =>
    diagnose .malformedSection ("the " ++ area.key ++ " section must be a mapping") area.key
      "declared here"
  | .nameNotString area =>
    diagnose .invalidName ("logical names in the " ++ area.key ++ " section must be strings")
      area.key "in this section"
  | .invalidName area name =>
    hinted (diagnose .invalidName ("invalid logical name " ++ quoted name)
      (area.key ++ "." ++ name) "declared here")
      (some "logical names may only contain ASCII letters and digits")
  | .missingField path field =>
    diagnose .missingField ("missing required field " ++ quoted field) path "declared here"
  | .malformedEntry path fault =>
    diagnose .malformedSection ("malformed template entry: " ++ fault.detail) path "found here"
  | .unknownParameterAttribute path name =>
    diagnose .malformedSection ("unknown parameter attribute " ++ quoted name) path "declared here"
  | .unknownResourceAttribute path name =>
    hinted (diagnose .unknownResourceAttribute ("unknown resource attribute " ++ quoted name) path
      "declared here")
      (some ("resource attributes are Type, Properties, Condition, DependsOn, DeletionPolicy, " ++
        "UpdateReplacePolicy, Metadata, CreationPolicy and UpdatePolicy; " ++
        "template macros are not expanded"))
  | .unknownOutputAttribute path name =>
    diagnose .malformedSection ("unknown output attribute " ++ quoted name) path "declared here"
  | .unknownFunction path name =>
    hinted (diagnose .unknownFunction ("unknown intrinsic function " ++ quoted (bareName name)) path
      "used here") ((Intrinsic.suggestion? (bareName name)).map fun f =>
        "did you mean " ++ quoted f.longName ++ "?")
  | .misplacedFunction path area function restriction =>
    hinted (diagnose .misplacedFunction
      (quoted function.longName ++ " is not allowed in the " ++ area.key ++ " section") path
      "used here")
      (some ((restriction.map Restriction.reason).getD "intrinsic functions are not allowed here"))
  | .macroCall path =>
    hinted (diagnose .unsupportedMacro "template macros are not supported" path
      "`Fn::Transform` used here")
      (some "expand the macro before analysing the template")
  | .malformedCall path function fault =>
    diagnose .malformedOperands
      ("malformed " ++ quoted function.longName ++ " call: " ++ fault.detail) path "called here"
  | .keyNotScalar path =>
    diagnose .malformedSection "mapping keys must be scalars" path "in this mapping"
  | .unknownPlaceholder path id =>
    diagnose .placeholderMismatch ("unknown placeholder #" ++ toString id) path "found here"
  | .placeholderRepeated path recorded id =>
    diagnoseTwice .placeholderMismatch
      ("placeholder #" ++ toString id ++ " was resolved more than once") path "found again here"
      recorded "recorded here"
  | .placeholderMismatch path recorded id target owner slot =>
    let found := (owner.map fun f => quoted f.longName).getD "a plain collection"
    diagnoseTwice .placeholderMismatch
      ("placeholder #" ++ toString id ++ " was recorded for " ++ quoted target.owner.longName ++
        " slot " ++ quoted target.slot.segment ++ " but found in " ++ found ++ " slot " ++
        quoted slot.segment) path "found here" recorded "recorded here"
  | .neverResolved path owner =>
    diagnose .unresolvedPlaceholder ("operand of " ++ quoted owner.longName ++
      " was never resolved") path "deferred here"

end Fault

end StackTemplate
