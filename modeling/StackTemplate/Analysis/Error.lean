import StackTemplate.Diagnostic
import StackTemplate.Dot
import StackTemplate.Evaluation.Error

/-!
# Errors of an analysis

Everything that can end an analysis, from the configuration to the export of its result.
-/

namespace StackTemplate

/-- The causes for which there is no configuration. -/
inductive ConfigurationError where
  | unknownPseudoParameter (name : String)
  | malformedFile
  | missingFile (path : String)
deriving DecidableEq, Repr

def ConfigurationError.message : ConfigurationError → String
  | .unknownPseudoParameter name => "`" ++ name ++ "` is not a pseudo-parameter"
  | .malformedFile => "Failed to parse TOML configuration"
  | .missingFile path => "Missing configuration file: " ++ path

/-- The causes for which an analysis ends without a result. -/
inductive AnalysisError where
  | io (cause : String)
  /-- The document does not describe a template; its text is kept for the report. -/
  | parse (diagnostics : List Diagnostic) (source : String)
  | graph (error : GraphError)
  | evaluation (error : EvalError)
  | configuration (error : ConfigurationError)
  | export (error : Dot.ExportError)
deriving Repr

namespace AnalysisError

def cause? : AnalysisError → Option String
  | .io cause => some cause
  | .graph e => some e.message
  | .evaluation e => some e.message
  | .parse .. | .configuration _ | .export _ => none

def message : AnalysisError → String
  | .io cause => "I/O error: " ++ cause
  | .parse diagnostics _ => Diagnostic.summary diagnostics
  | .graph e => "Graph error: " ++ e.message
  | .evaluation e => "Evaluation error: " ++ e.message
  | .configuration e => "Configuration error: " ++ e.message
  | .export e => "Export error: " ++ e.message

/-- The code of an analysis error; those of documents have a code in each diagnostic. -/
def code? : AnalysisError → Option String
  | .io _ => some "strata::io"
  | .parse .. => none
  | .graph e => some e.code
  | .evaluation _ => some "strata::evaluation"
  | .configuration _ => some "strata::config"
  | .export _ => some "strata::export"

end AnalysisError

end StackTemplate
