import StackTemplate.Analysis.Error
import StackTemplate.Diagnostic.Location

/-!
# Reports of failures

What is shown for an error: each diagnostic of a malformed document is one report with its labels
located in the text, any other error is one report. A diagnostic of which no label can be located
names its primary path in the message.
-/

namespace StackTemplate

/-- A remark on a span of the text. -/
structure LocatedLabel where
  span : Span
  message : String
  isPrimary : Bool
deriving DecidableEq, Repr

/-- One error as it is shown. -/
structure FailureReport where
  message : String
  code : Option String
  help : Option String
  labels : List LocatedLabel
  hasSource : Bool
  cause : Option String
deriving DecidableEq, Repr

namespace Diagnostic

/-- The labels that can be located in a text. -/
def locatedLabels (d : Diagnostic) (source : String) : List LocatedLabel :=
  d.labels.filterMap fun label =>
    (locate? source label.path).map fun span => ⟨span, label.message, label.isPrimary⟩

/-- The message of a diagnostic, with the primary path where no label is located. -/
def messageIn (d : Diagnostic) (source : String) : String :=
  match d.locatedLabels source, d.primaryPath? with
  | [], some path => d.message ++ " (at `" ++ path ++ "`)"
  | _, _ => d.message

def report (d : Diagnostic) (source : String) : FailureReport where
  message := d.messageIn source
  code := d.code.map DiagnosticCode.text
  help := d.help
  labels := d.locatedLabels source
  hasSource := true
  cause := none

end Diagnostic

/-- The lines that show a report: the message, the labels with their byte offsets, the hint. -/
def FailureReport.lines (r : FailureReport) : List String :=
  ["error" ++ (r.code.map fun code => "[" ++ code ++ "]").getD "" ++ ": " ++ r.message] ++
    r.labels.map (fun label =>
      "  at byte " ++ toString label.span.offset ++ ": " ++ label.message) ++
    r.help.toList.map ("  help: " ++ ·)

def AnalysisError.reports : AnalysisError → List FailureReport
  | .parse diagnostics source => diagnostics.map fun d => d.report source
  | e => [⟨e.message, e.code?, none, [], false, e.cause?⟩]

end StackTemplate
