import StackTemplate.Failure
import StackTemplate.Session

/-!
# Program

Reads the files that a command line names, runs a session and writes its result or the reports of
its failure. Everything that is decided is decided by `Session`; there are no log messages.
-/

namespace StackTemplate.Program

/-- The text of a file or the reason why it cannot be read; absent where there is no file. -/
def readFile (path : String) : IO (Option (Except String String)) := do
  match ← (IO.FS.readFile path).toBaseIO with
  | .ok text => return some (.ok text)
  | .error (.noFileOrDirectory ..) => return none
  | .error e => return some (.error (toString e))

/-- The text of a file that has to exist, or the reason why it cannot be read. -/
def readInput (path : String) : IO (Except String String) := do
  return (← readFile path).getD (.error "No such file or directory (os error 2)")

def readConfiguration (path : String) : IO ConfigurationFile := do
  match ← readFile path with
  | none => return .absent
  | some (.error cause) => return .unreadable cause
  | some (.ok text) => return .ofText text

/-- The path of the configuration file of the system. -/
def systemPath? : IO (Option String) := do
  match ← IO.getEnv "XDG_CONFIG_HOME" with
  | some directory => return some (directory ++ "/strata/config.toml")
  | none => return (← IO.getEnv "HOME").map (· ++ "/.config/strata/config.toml")

/-- The configuration files that a command line admits; no other file is read where one is named. -/
def configurationFiles (line : CommandLine) : IO ConfigurationFiles := do
  match line.configuration with
  | some path => return ⟨some (path, ← readConfiguration path), .absent, .absent⟩
  | none =>
    let near ← readConfiguration "strata/config.toml"
    let system ← match ← systemPath? with
      | some path => readConfiguration path
      | none => pure .absent
    return ⟨none, near, system⟩

/-- Writes the result to the output file or to standard output. -/
def write (output : Option String) (text : String) : IO (Except AnalysisError Unit) := do
  match output with
  | some path =>
    match ← (IO.FS.writeFile path text).toBaseIO with
    | .ok () => return .ok ()
    | .error e => return .error (.io (toString e))
  | none =>
    IO.print text
    return .ok ()

/-- Runs a session and writes its result; the exit code is one where it fails. -/
def run (line : CommandLine) : IO UInt32 := do
  let files ← configurationFiles line
  let source ← readInput line.input
  let outcome ← match Session.run line files source with
    | .ok text => write line.output text
    | .error e => pure (.error e)
  match outcome with
  | .ok () => return 0
  | .error e =>
    for report in e.reports do
      for text in report.lines do
        IO.eprintln text
    return 1

end StackTemplate.Program

open StackTemplate in
/-- The program: it prints its usage or version where that is asked for. -/
def main (arguments : List String) : IO UInt32 := do
  match CommandLine.parse arguments with
  | .ok line => Program.run line
  | .error .helpRequested =>
    IO.println CommandLine.usage
    return 0
  | .error .versionRequested =>
    IO.println CommandLine.version
    return 0
  | .error e =>
    IO.eprintln ("error: " ++ e.message)
    IO.eprintln CommandLine.usage
    return 2
