import StackTemplate.CommandLine
import StackTemplate.Configuration.Table
import StackTemplate.Elaboration.Document
import StackTemplate.Report

/-!
# Sessions

A session loads the configuration, overrides it by the command line, reads the template and writes
the report or the dependency graph. The first error ends it.
-/

namespace StackTemplate

/-- A configuration file as it is found. -/
inductive ConfigurationFile where
  | absent
  | unreadable (cause : String)
  | malformed
  | document (node : Node)

namespace ConfigurationFile

def ofText (text : String) : ConfigurationFile :=
  match Configuration.Table.read text with
  | some node => .document node
  | none => .malformed

/-- The configuration in a file; absent where there is no file. The settings of a file have no
order, so those of a table count in the order of their names. -/
def load : ConfigurationFile → Except AnalysisError (Option Configuration)
  | .absent => .ok none
  | .unreadable cause => .error (.io cause)
  | .malformed => .error (.configuration .malformedFile)
  | .document node =>
    match Configuration.ofNode? node with
    | some c => .ok (some c.sorted)
    | none => .error (.configuration .malformedFile)

end ConfigurationFile

/-- The places where a configuration is looked for. -/
structure ConfigurationFiles where
  /-- The file that the command line names, with its path. -/
  named : Option (String × ConfigurationFile)
  near : ConfigurationFile
  system : ConfigurationFile

/-- The configuration: of the named file, which has to exist, else of the file nearby, else of the
system, else the default. -/
def ConfigurationFiles.load (files : ConfigurationFiles) :
    Except AnalysisError Configuration := do
  match files.named with
  | some (path, file) =>
    match ← file.load with
    | some c => return c
    | none => throw (.configuration (.missingFile path))
  | none =>
    match ← files.near.load with
    | some c => return c
    | none => return (← files.system.load).getD default

namespace Session

/-- A configuration overridden by the command line. -/
def override (c : Configuration) (line : CommandLine) : Configuration :=
  let c := if line.excludesConditional then c.excludingConditional else c
  line.parameters.foldl (fun c (name, text) => c.withParameter name (.string text)) c

def configuration (line : CommandLine) (files : ConfigurationFiles) :
    Except AnalysisError Configuration :=
  files.load.map fun c => override c line

/-- What a session writes about a template. -/
def output (format : OutputFormat) (c : Configuration) (t : Template) :
    Except AnalysisError String := do
  let a ← t.analyse c
  match format with
  | .report => Report.render a c
  | .dot => return Dot.render a.graph

/-- What a session writes, where the text of the template can be read or else the cause is given. -/
def run (line : CommandLine) (files : ConfigurationFiles) (source : Except String String) :
    Except AnalysisError String := do
  let c ← configuration line files
  let text ← source.mapError .io
  let t ← (Template.parse text).mapError fun diagnostics => .parse diagnostics text
  output line.format c t

end Session

end StackTemplate
