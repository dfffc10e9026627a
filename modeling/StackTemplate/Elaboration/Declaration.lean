import StackTemplate.Elaboration.Entry
import StackTemplate.Resolution.Resolve
import StackTemplate.Template

/-!
# Declarations in documents

Each entity of a template is read from the body that the document has under its name. Parameters
and mappings are literal; the expressions of conditions, resources and outputs are resolved, their
operands staged as the caller says.
-/

namespace StackTemplate

variable {σ : Type}

/-- A check that does not use the state. -/
def Resolution.ofExcept {α : Type} : Except Fault α → Resolution σ α
  | .ok a => pure a
  | .error e => throw e

namespace Parameter

/-- The attributes that constrain the values of a parameter and have no part in the analysis. -/
def constraints : List String :=
  ["AllowedPattern", "ConstraintDescription", "MaxLength", "MaxValue", "MinLength", "MinValue"]

def withAttribute (path : String) (p : Parameter) (name : String) (node : Node) :
    Except Fault Parameter := do
  let path := path ++ "." ++ name
  if name = "Type" then return p
  else if name = "Default" then return { p with default := some (← Entry.scalar path node) }
  else if name = "Description" then return { p with description := some (← Entry.text path node) }
  else if name = "AllowedValues" then return { p with allowedValues := ← Entry.scalars path node }
  else if name = "NoEcho" then return { p with noEcho := ← Entry.flag path node }
  else if name ∈ constraints then return p
  else throw (.unknownParameterAttribute path name)

def ofNode (name : String) (body : Node) : Except Fault Parameter := do
  let path := Section.parameters.key ++ "." ++ name
  body.checkLiteral (.root .parameters path)
  let attributes ← Entry.attributes path body
  let type ← Entry.text (path ++ ".Type") (← Entry.required path "Type" attributes)
  attributes.foldlM (fun p (name, node) => p.withAttribute path name node) (ofType type)

end Parameter

namespace Mapping

/-- The mapping with the entries of one top-level key. -/
def withLevel (path : String) (m : Mapping) (topKey : String) (node : Node) :
    Except Fault Mapping := do
  let path := path ++ "." ++ topKey
  let entries ← Entry.attributes path node
  entries.foldlM (fun (m : Mapping) (secondKey, node) =>
    match Value.ofNode? node with
    | some v => .ok (Dict.insert m topKey (((Dict.find? m topKey).getD ∅).insert secondKey v))
    | none => Entry.malformed (path ++ "." ++ secondKey) .notLiteral) m

def ofNode (name : String) (body : Node) : Except Fault Mapping := do
  let path := Section.mappings.key ++ "." ++ name
  body.checkLiteral (.root .mappings path)
  let levels ← Entry.attributes path body
  levels.foldlM (fun m (topKey, node) => withLevel path m topKey node) ∅

end Mapping

def conditionOfNode (staging : Staging σ) (name : String) (body : Node) : Resolution σ Operand :=
  body.resolve staging (.root .conditions (Section.conditions.key ++ "." ++ name))

namespace Resource

/-- The properties of a resource, resolved one by one. -/
def propertiesOfEntries (staging : Staging σ) (ctx : Context) :
    List (String × Node) → Resolution σ (List (String × Operand))
  | [] => pure []
  | (name, node) :: es => do
    let o ← node.resolve staging (ctx.plain (Slot.key name).segment)
    let os ← propertiesOfEntries staging ctx es
    return (name, o) :: os

def withAttribute (staging : Staging σ) (path : String) (r : Resource) (name : String)
    (node : Node) : Resolution σ Resource := do
  let path := path ++ "." ++ name
  let ctx := Context.root .resources path
  if name = "Type" then return r
  else if name = "Properties" then
    if node.isNull then return r
    else
      let entries ← Resolution.ofExcept (Entry.attributes path node)
      let properties ← propertiesOfEntries staging ctx entries
      return { r with properties := Dict.ofList properties }
  else if name = "Condition" then
    return { r with condition := some (← Resolution.ofExcept (Entry.text path node)) }
  else if name = "DependsOn" then
    return { r with dependsOn := ← Resolution.ofExcept (Entry.names path node) }
  else if name = "DeletionPolicy" then
    return { r with deletionPolicy := some (← Resolution.ofExcept (Entry.text path node)) }
  else if name = "UpdateReplacePolicy" then
    return { r with updateReplacePolicy := some (← Resolution.ofExcept (Entry.text path node)) }
  else if name = "Metadata" then
    return { r with metadata := some (← node.resolve staging ctx) }
  else if name = "CreationPolicy" then
    return { r with creationPolicy := some (← node.resolve staging ctx) }
  else if name = "UpdatePolicy" then
    return { r with updatePolicy := some (← node.resolve staging ctx) }
  else throw (.unknownResourceAttribute path name)

def ofNode (staging : Staging σ) (name : String) (body : Node) : Resolution σ Resource := do
  let path := Section.resources.key ++ "." ++ name
  let attributes ← Resolution.ofExcept (Entry.attributes path body)
  let type ← Resolution.ofExcept do
    Entry.text (path ++ ".Type") (← Entry.required path "Type" attributes)
  attributes.foldlM (fun r (name, node) => r.withAttribute staging path name node) (ofType type)

end Resource

namespace Output

def withAttribute (staging : Staging σ) (path : String) (o : Output) (name : String)
    (node : Node) : Resolution σ Output := do
  let path := path ++ "." ++ name
  if name = "Value" then return o
  else if name = "Description" then
    return { o with description := some (← Resolution.ofExcept (Entry.text path node)) }
  else if name = "Condition" then
    return { o with condition := some (← Resolution.ofExcept (Entry.text path node)) }
  else if name = "Export" then
    let exportNode ← Resolution.ofExcept do
      Entry.required path "Name" (← Entry.attributes path node)
    let exportName ← exportNode.resolve staging (.root .outputs (path ++ ".Name"))
    return { o with exportName := some exportName }
  else throw (.unknownOutputAttribute path name)

def ofNode (staging : Staging σ) (name : String) (body : Node) : Resolution σ Output := do
  let path := Section.outputs.key ++ "." ++ name
  let attributes ← Resolution.ofExcept (Entry.attributes path body)
  let valueNode ← Resolution.ofExcept (Entry.required path "Value" attributes)
  let value ← valueNode.resolve staging (.root .outputs (path ++ ".Value"))
  attributes.foldlM (fun o (name, node) => o.withAttribute staging path name node) (ofValue value)

end Output

end StackTemplate
