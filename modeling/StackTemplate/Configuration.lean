import StackTemplate.Analysis.Error
import StackTemplate.Evaluation.Scope

/-!
# Configurations

A configuration sets the runtime values for an analysis and says whether conditional entities are
pruned. It is read from a document with the optional section `analysis`; each setting has a second
spelling, and unknown keys are ignored.
-/

namespace StackTemplate

/-- The settings of an analysis. -/
structure Configuration where
  excludesConditional : Bool
  parameters : Dict Scalar
  pseudoParameters : Dict String
  imports : Dict String

instance : Inhabited Configuration := ⟨⟨false, ∅, ∅, ∅⟩⟩

namespace Configuration

/-! ## Documents -/

/-- The entries of a mapping under any tags; null is the empty mapping. -/
def entries? (node : Node) : Option (List (Node × Node)) :=
  match node.untagged with
  | .map entries => some entries
  | .null => some []
  | _ => none

/-- A mapping from strings, each value read by a function. -/
def dictionary? {α : Type} (read : Node → Option α) (node : Node) : Option (Dict α) := do
  let entries ← entries? node
  let entries ← entries.mapM fun (key, value) => return (← key.string?, ← read value)
  return Dict.ofList entries

def flag? (node : Node) : Option Bool :=
  match node.untagged with
  | .bool b => some b
  | _ => none

/-- The value of a setting among named entries: the default where it is absent; a setting that is
given twice, under one spelling or under two, is refused. -/
def setting? {α : Type} (spellings : List String) (default : α) (read : Node → Option α)
    (entries : List (String × Node)) : Option α :=
  match entries.filter fun e => e.1 ∈ spellings with
  | [] => some default
  | [e] => read e.2
  | _ => none

def named? (node : Node) : Option (List (String × Node)) := do
  (← entries? node).mapM fun (key, value) => return (← key.string?, value)

/-- The configuration of the section `analysis`. -/
def ofSection? (node : Node) : Option Configuration := do
  let entries ← named? node
  let excludesConditional ←
    setting? ["exclude_conditional_resources", "excludeConditionalResources"] false flag? entries
  let parameters ←
    setting? ["parameter_values", "parameterValues"] ∅ (dictionary? Scalar.ofNode?) entries
  let pseudoParameters ←
    setting? ["pseudo_parameters", "pseudoParameters"] ∅ (dictionary? Node.string?) entries
  let imports ← setting? ["imports"] ∅ (dictionary? Node.string?) entries
  return { excludesConditional, parameters, pseudoParameters, imports }

/-- The configuration that a document describes. -/
def ofNode? (node : Node) : Option Configuration := do
  setting? ["analysis"] default ofSection? (← named? node)

/-- The configuration with the overrides of pseudo-parameters in the order of their names. -/
def sorted (c : Configuration) : Configuration :=
  { c with
    pseudoParameters := Dict.ofList (c.pseudoParameters.entries.mergeSort fun a b => a.1 ≤ b.1) }

/-! ## Use -/

/-- The configuration in which conditional entities are pruned. -/
def excludingConditional (c : Configuration) : Configuration :=
  { c with excludesConditional := true }

def withParameter (c : Configuration) (name : String) (value : Scalar) : Configuration :=
  { c with parameters := c.parameters.insert name value }

/-- The values of the pseudo-parameters, or the first override of an unknown name. -/
def pseudoValues (c : Configuration) : Except ConfigurationError PseudoValues :=
  c.pseudoParameters.entries.foldlM (fun values (name, text) =>
    match PseudoParameter.ofName? name with
    | some p => .ok (values.override p (.string text))
    | none => .error (.unknownPseudoParameter name)) default

/-- The stand-ins for imported values. -/
def importValues (c : Configuration) : Dict Value :=
  Dict.ofList (c.imports.entries.map fun (name, text) => (name, Value.string text))

def settings (c : Configuration) : Except ConfigurationError Settings := do
  let pseudo ← c.pseudoValues
  return { parameters := c.parameters, pseudo, imports := c.importValues, attributes := [] }

end Configuration

end StackTemplate
