/-!
# Diagnostics

A diagnostic is an error message about a template document with the paths that it concerns. Its
code groups it into a category.
-/

namespace StackTemplate

/-- The categories of diagnostics. -/
inductive DiagnosticKind where
  | documentSyntax
  | tagResolution
  | structural
deriving DecidableEq, Repr

def DiagnosticKind.name : DiagnosticKind → String
  | .documentSyntax => "document syntax error"
  | .tagResolution => "tag resolution error"
  | .structural => "structural error"

/-- The codes of diagnostics. -/
inductive DiagnosticCode where
  | malformedDocument
  | rootNotMapping
  | unknownFunction
  | misplacedFunction
  | malformedOperands
  | unresolvedPlaceholder
  | missingField
  | unknownResourceAttribute
  | unsupportedMacro
  | invalidName
  | placeholderMismatch
  | unknownSection
  | malformedSection
deriving DecidableEq, Repr

namespace DiagnosticCode

def all : List DiagnosticCode :=
  [.malformedDocument, .rootNotMapping, .unknownFunction, .misplacedFunction, .malformedOperands,
    .unresolvedPlaceholder, .missingField, .unknownResourceAttribute, .unsupportedMacro,
    .invalidName, .placeholderMismatch, .unknownSection, .malformedSection]

/-- The number of a code, as it is written. -/
def text : DiagnosticCode → String
  | .malformedDocument => "E001"
  | .rootNotMapping => "E002"
  | .unknownFunction => "E100"
  | .misplacedFunction => "E101"
  | .malformedOperands => "E200"
  | .unresolvedPlaceholder => "E201"
  | .missingField => "E202"
  | .unknownResourceAttribute => "E203"
  | .unsupportedMacro => "E204"
  | .invalidName => "E205"
  | .placeholderMismatch => "E206"
  | .unknownSection => "E207"
  | .malformedSection => "E208"

def description : DiagnosticCode → String
  | .malformedDocument => "malformed document"
  | .rootNotMapping => "document root is not a mapping"
  | .unknownFunction => "unknown intrinsic tag"
  | .misplacedFunction => "intrinsic not allowed here"
  | .malformedOperands => "malformed intrinsic operands"
  | .unresolvedPlaceholder => "unresolved placeholder"
  | .missingField => "missing required field"
  | .unknownResourceAttribute => "unknown resource attribute"
  | .unsupportedMacro => "template macros are not supported"
  | .invalidName => "invalid logical name"
  | .placeholderMismatch => "placeholder target mismatch"
  | .unknownSection => "unknown top-level section"
  | .malformedSection => "malformed section"

def kind : DiagnosticCode → DiagnosticKind
  | .malformedDocument | .rootNotMapping => .documentSyntax
  | .unknownFunction | .misplacedFunction => .tagResolution
  | _ => .structural

def ofText? (text : String) : Option DiagnosticCode := all.find? fun c => c.text = text

end DiagnosticCode

/-- A path in a document with a remark. -/
structure Label where
  path : String
  message : String
  isPrimary : Bool
deriving DecidableEq, Repr

/-- An error message about a document. -/
structure Diagnostic where
  code : Option DiagnosticCode
  message : String
  help : Option String
  labels : List Label
deriving DecidableEq, Repr

namespace Diagnostic

/-- The path of the first primary label. -/
def primaryPath? (d : Diagnostic) : Option String :=
  (d.labels.find? Label.isPrimary).map Label.path

/-- The diagnostic on one line. -/
def text (d : Diagnostic) : String :=
  match d.code with
  | some code => "error[" ++ code.text ++ "]: " ++ d.message
  | none => "error: " ++ d.message

/-- The first diagnostic on one line, with the number of those that follow it. -/
def summary : List Diagnostic → String
  | [] => ""
  | [d] => d.text
  | d :: ds => d.text ++ " (+" ++ toString ds.length ++ " more)"

/-- The category of the first diagnostic that has a code. -/
def kind? (ds : List Diagnostic) : Option DiagnosticKind :=
  (ds.findSome? Diagnostic.code).map DiagnosticCode.kind

end Diagnostic

end StackTemplate
