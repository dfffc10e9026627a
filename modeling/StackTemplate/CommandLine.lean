import StackTemplate.Dict
import StackTemplate.Text.Cut

/-!
# Command lines

The command line names the input, and optionally the output, its format, a configuration file,
parameter values, pruning and the level of messages. Options have a long and mostly a short
spelling; the value of an option follows it or is attached to it, and `--` ends the options.

- `CommandLine.parse` reads the arguments.
-/

namespace StackTemplate

/-- What is written about a template. -/
inductive OutputFormat where
  | report
  | dot
deriving DecidableEq, Repr

/-- The arguments of a run. -/
structure CommandLine where
  input : String
  output : Option String
  format : OutputFormat
  configuration : Option String
  excludesConditional : Bool
  parameters : List (String × String)
  logLevel : String
deriving DecidableEq, Repr

/-- The ways in which reading the arguments ends without a run. -/
inductive ArgumentError where
  | missingRequired
  | invalidValue
  | refusedValue
  | unknownArgument
  | needlessValue
  | repeated
  | helpRequested
  | versionRequested
deriving DecidableEq, Repr

def ArgumentError.message : ArgumentError → String
  | .missingRequired => "the path to the input file is missing"
  | .invalidValue => "the value of an option is missing or is not one of the possible ones"
  | .refusedValue => "a parameter value is not of the form NAME=VALUE"
  | .unknownArgument => "unexpected argument"
  | .needlessValue => "an option that has no value is given one"
  | .repeated => "an option is given more than once"
  | .helpRequested => ""
  | .versionRequested => ""

namespace CommandLine

def version : String := "strata 0.1.0"

def usage : String :=
  String.intercalate "\n"
    ["Usage: strata [OPTIONS] <INPUT>",
      "",
      "  <INPUT>                          Path to the input file",
      "  -o, --output <OUTPUT>            Path to the output file; standard output when omitted",
      "  -f, --format <FORMAT>            Output format, `report` or `dot`",
      "  -c, --config <CONFIG>            Path to configuration file",
      "      --exclude-conditional-resources",
      "                                   Remove entities whose condition evaluates to false",
      "  -p, --parameter <NAME=VALUE>     Runtime parameter value (repeatable)",
      "      --log-level <LOG_LEVEL>      Log level",
      "  -h, --help                       Print help",
      "  -V, --version                    Print version"]

/-- The options that have a value. -/
inductive ValueOption where
  | output
  | format
  | configuration
  | parameter
  | logLevel
deriving DecidableEq, Repr

/-- The options that have none. -/
inductive Flag where
  | excludeConditional
  | help
  | version
deriving DecidableEq, Repr

def ofLong? : String → Option (ValueOption ⊕ Flag)
  | "output" => some (.inl .output)
  | "format" => some (.inl .format)
  | "config" => some (.inl .configuration)
  | "parameter" => some (.inl .parameter)
  | "log-level" => some (.inl .logLevel)
  | "exclude-conditional-resources" => some (.inr .excludeConditional)
  | "help" => some (.inr .help)
  | "version" => some (.inr .version)
  | _ => none

def ofShort? : Char → Option (ValueOption ⊕ Flag)
  | 'o' => some (.inl .output)
  | 'f' => some (.inl .format)
  | 'c' => some (.inl .configuration)
  | 'p' => some (.inl .parameter)
  | 'h' => some (.inr .help)
  | 'V' => some (.inr .version)
  | _ => none

def format? : String → Option OutputFormat
  | "report" => some .report
  | "dot" => some .dot
  | _ => none

/-- A parameter value: a name that is not empty, an equals sign and the value. -/
def assignment? (s : String) : Option (String × String) :=
  match Text.splitOnce? "=" s with
  | some (name, value) => if name = "" then none else some (name, value)
  | none => none

/-! ## Reading -/

/-- What the arguments read so far have set. -/
structure Given where
  input : Option String
  output : Option String
  format : Option OutputFormat
  configuration : Option String
  excludesConditional : Bool
  parameters : List (String × String)
  logLevel : Option String

/-- The state of reading: what has been set, an option that has not been taken over, with its value
once it has been read, and whether the options have ended. -/
structure Reading where
  given : Given
  pending : Option (ValueOption × Option String)
  optionsEnded : Bool

/-- The value of an option that may be given once. -/
def once {α : Type} (current : Option α) (value : Except ArgumentError α) :
    Except ArgumentError (Option α) :=
  match current with
  | some _ => .error .repeated
  | none => value.map some

namespace Given

/-- Nothing has been set. -/
def nothing : Given := ⟨none, none, none, none, false, [], none⟩

/-- Takes over the value of an option. -/
def set (g : Given) (option : ValueOption) (value : String) : Except ArgumentError Given :=
  match option with
  | .output => return { g with output := ← once g.output (.ok value) }
  | .format =>
    return { g with format := ← once g.format ((format? value).elim (.error .invalidValue) .ok) }
  | .configuration => return { g with configuration := ← once g.configuration (.ok value) }
  | .logLevel => return { g with logLevel := ← once g.logLevel (.ok value) }
  | .parameter =>
    match assignment? value with
    | some entry => return { g with parameters := g.parameters ++ [entry] }
    | none => throw .refusedValue

/-- Takes over an option without a value. -/
def raise (g : Given) : Flag → Except ArgumentError Given
  | .excludeConditional =>
    if g.excludesConditional then .error .repeated else .ok { g with excludesConditional := true }
  | .help => .error .helpRequested
  | .version => .error .versionRequested

end Given

namespace Reading

/-- Takes over the option that is pending; one without a value is refused. -/
def settle (r : Reading) : Except ArgumentError Reading :=
  match r.pending with
  | none => .ok r
  | some (_, none) => .error .invalidValue
  | some (option, some value) =>
    return { r with given := ← r.given.set option value, pending := none }

/-- An option with a value attached to it, or one whose value is still to come. -/
def takeOption (r : Reading) (option : ValueOption) (attached : Option String) :
    Except ArgumentError Reading := do
  let r ← r.settle
  match attached with
  | some value => return { r with given := ← r.given.set option value }
  | none => return { r with pending := some (option, none) }

def takeFlag (r : Reading) (flag : Flag) : Except ArgumentError Reading := do
  let r ← r.settle
  return { r with given := ← r.given.raise flag }

/-- An argument that is no option: there is one input. -/
def takeInput (r : Reading) (argument : String) : Except ArgumentError Reading :=
  match r.given.input with
  | some _ => .error .unknownArgument
  | none => do
    let r ← r.settle
    return { r with given := { r.given with input := some argument } }

/-- A long option, with the value behind an equals sign. -/
def takeLong (r : Reading) (name : String) (attached : Option String) :
    Except ArgumentError Reading :=
  match ofLong? name, attached with
  | none, _ => .error .unknownArgument
  | some (.inl option), attached => r.takeOption option attached
  | some (.inr _), some _ => .error .needlessValue
  | some (.inr flag), none => r.takeFlag flag

/-- A run of short options; the rest of the run behind an option with a value is the value. -/
def takeShort (r : Reading) : List Char → Except ArgumentError Reading
  | [] => .ok r
  | c :: cs =>
    match ofShort? c with
    | none => .error .unknownArgument
    | some (.inr flag) => do
      let r ← r.takeFlag flag
      r.takeShort cs
    | some (.inl option) =>
      match cs with
      | [] => r.takeOption option none
      | '=' :: value => r.takeOption option (some (String.ofList value))
      | value => r.takeOption option (some (String.ofList value))

/-- An argument that is no option while options are read: the value of the option in front of it,
where that one waits for its value. -/
def takeValue (r : Reading) (argument : String) : Except ArgumentError Reading :=
  match r.pending with
  | some (option, none) => .ok { r with pending := some (option, some argument) }
  | _ => r.takeInput argument

def step (r : Reading) (argument : String) : Except ArgumentError Reading :=
  if r.optionsEnded then r.takeInput argument
  else
    match argument.toList with
    | ['-', '-'] => .ok { r with optionsEnded := true }
    | '-' :: '-' :: cs =>
      match Text.cut? ['='] cs with
      | some (name, value) => r.takeLong (String.ofList name) (some (String.ofList value))
      | none => r.takeLong (String.ofList cs) none
    | '-' :: c :: cs => r.takeShort (c :: cs)
    | _ => r.takeValue argument

end Reading

/-- The arguments of a run. -/
def parse (arguments : List String) : Except ArgumentError CommandLine := do
  let r ← arguments.foldlM Reading.step ⟨.nothing, none, false⟩
  let g := (← r.settle).given
  match g.input with
  | none => throw .missingRequired
  | some input =>
    return {
      input
      output := g.output
      format := g.format.getD .report
      configuration := g.configuration
      excludesConditional := g.excludesConditional
      parameters := g.parameters
      logLevel := g.logLevel.getD "info" }

end CommandLine

end StackTemplate
