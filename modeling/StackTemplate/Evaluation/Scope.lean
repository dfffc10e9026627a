import StackTemplate.Evaluation.Error
import StackTemplate.Template

/-!
# Scopes

A scope is what the names in an expression mean: a template together with the settings of one
evaluation, which are runtime parameter values, pseudo-parameter values, stand-ins for imports and
overrides of resource attributes. All look-ups but those of conditions depend on the scope alone.
-/

namespace StackTemplate

/-- The settings of an evaluation. -/
structure Settings where
  parameters : Dict Scalar
  pseudo : PseudoValues
  imports : Dict Value
  /-- Overrides by resource and attribute; the last one for a pair counts. -/
  attributes : List ((String × String) × Value)

instance : Inhabited Settings := ⟨⟨∅, default, ∅, []⟩⟩

/-- A template with the settings of an evaluation. -/
structure Scope where
  template : Template
  settings : Settings

namespace Scope

/-- The value of a declared parameter: the runtime value, else the default. -/
def parameter (s : Scope) (name : String) : Except EvalError Value :=
  match s.template.parameters.find? name with
  | none => .error (.unknownReference name)
  | some p =>
    match s.settings.parameters.find? name, p.default with
    | some raw, _ | none, some raw => .ok (Parameter.shape p.type raw)
    | none, none => .error (.missingParameterValue name)

/-- The value of a `Ref`; a resource stands for itself by its logical name. -/
def ref (s : Scope) (name : String) : Except EvalError Value :=
  match s.template.resolveName name with
  | some .parameter => s.parameter name
  | some .resource => .ok (.string name)
  | some .pseudoParameter =>
    match PseudoParameter.ofName? name with
    | some p => .ok (s.settings.pseudo.value p)
    | none => .error (.unknownReference name)
  | _ => .error (.unknownReference name)

/-- The value of an attribute of a declared resource: the override, else a text that names it. -/
def attributeValue (s : Scope) (resource name : String) : Except EvalError Value :=
  if s.template.resources.contains resource then
    match s.settings.attributes.reverse.find? fun e => e.1 = (resource, name) with
    | some e => .ok e.2
    | none => .ok (.string (resource ++ "." ++ name))
  else .error (.unknownResource resource)

/-- The value imported under a name: the stand-in, else a text that names it. -/
def importValue (s : Scope) (name : String) : Value :=
  (s.settings.imports.find? name).getD (.string ("imported:" ++ name))

/-- The entry of a declared mapping under two keys. -/
def findInMap (s : Scope) (map topKey secondKey : String) : Except EvalError Value :=
  match s.template.mappings.find? map with
  | none => .error (.missingMapping map)
  | some m =>
    match Dict.find? m topKey with
    | none => .error (.missingMapKey map topKey)
    | some level =>
      match level.find? secondKey with
      | none => .error (.missingMapKey map secondKey)
      | some v => .ok v

/-- Three zones of a region, of the current one if its name is empty. -/
def availabilityZones (s : Scope) (region : String) : Value :=
  let region := if region = "" then s.settings.pseudo.region else region
  .list (["a", "b", "c"].map fun zone => .string (region ++ zone))

end Scope

end StackTemplate
