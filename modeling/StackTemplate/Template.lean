import StackTemplate.Operand
import StackTemplate.PseudoParameter
import StackTemplate.Text.Cut

/-!
# Templates

A template declares parameters, mappings, conditions, resources and outputs under logical names,
in the order of the document.

- `Template.resolveName` : what a `Ref` to a name reaches.
- `Template.operands` : every expression of the template with its path in the document.
- `Template.exclude` : the template without some of its resources and outputs.
- `Template.toNode` : the document that writes the template.
-/

namespace StackTemplate

/-! ## Declarations -/

/-- A declared parameter. -/
structure Parameter where
  type : String
  default : Option Scalar
  description : Option String
  allowedValues : List Scalar
  noEcho : Bool
deriving Repr

/-- A declared resource. -/
structure Resource where
  type : String
  properties : Dict Operand
  condition : Option String
  dependsOn : List String
  deletionPolicy : Option String
  updateReplacePolicy : Option String
  metadata : Option Operand
  creationPolicy : Option Operand
  updatePolicy : Option Operand

/-- A declared output. -/
structure Output where
  value : Operand
  description : Option String
  exportName : Option Operand
  condition : Option String

/-- A lookup table of two levels. -/
abbrev Mapping := Dict (Dict Value)

/-- A template. -/
structure Template where
  formatVersion : Option String
  description : Option String
  parameters : Dict Parameter
  mappings : Dict Mapping
  conditions : Dict Operand
  resources : Dict Resource
  outputs : Dict Output

/-- The kinds of entities that a logical name can stand for. -/
inductive EntityKind where
  | parameter
  | pseudoParameter
  | condition
  | resource
  | output
deriving DecidableEq, Repr

namespace Parameter

def ofType (type : String) : Parameter := ⟨type, none, none, [], false⟩

/-- Whether the values of a type are comma-delimited lists. -/
def isListType (type : String) : Bool :=
  type = "CommaDelimitedList" || Text.beginsWith "List<" type

/-- The value of a parameter of a type for a raw scalar: list types divide the text at its commas
and trim the items. -/
def shape (type : String) (raw : Scalar) : Value :=
  if isListType type then
    if raw.text = "" then .list []
    else .list ((Text.split "," raw.text).map fun item => .string (Text.trim item))
  else .scalar raw

end Parameter

/-- A function that threads a state applied to a value that may be absent. -/
def mapStateOption {α β σ : Type} (f : α → StateM σ β) : Option α → StateM σ (Option β)
  | none => return none
  | some x => return some (← f x)

namespace Resource

def ofType (type : String) : Resource := ⟨type, ∅, none, [], none, none, none, none, none⟩

/-- The operands of a resource with their attribute paths. -/
def operands (r : Resource) : List (String × Operand) :=
  (r.properties.entries.map fun (name, o) => ("Properties." ++ name, o)) ++
    (r.metadata.toList.map fun o => ("Metadata", o)) ++
    (r.creationPolicy.toList.map fun o => ("CreationPolicy", o)) ++
    (r.updatePolicy.toList.map fun o => ("UpdatePolicy", o))

/-- The resource with a function that threads a state applied to each operand. -/
def mapOperands {σ : Type} (f : String → Operand → StateM σ Operand) (r : Resource) :
    StateM σ Resource := do
  let properties ← r.properties.mapState fun name o => f ("Properties." ++ name) o
  let metadata ← mapStateOption (f "Metadata") r.metadata
  let creationPolicy ← mapStateOption (f "CreationPolicy") r.creationPolicy
  let updatePolicy ← mapStateOption (f "UpdatePolicy") r.updatePolicy
  return { r with properties, metadata, creationPolicy, updatePolicy }

end Resource

namespace Output

def ofValue (value : Operand) : Output := ⟨value, none, none, none⟩

/-- The operands of an output with their attribute paths. -/
def operands (o : Output) : List (String × Operand) :=
  ("Value", o.value) :: o.exportName.toList.map fun name => ("Export.Name", name)

/-- The output with a function that threads a state applied to each operand. -/
def mapOperands {σ : Type} (f : String → Operand → StateM σ Operand) (o : Output) :
    StateM σ Output := do
  let value ← f "Value" o.value
  let exportName ← mapStateOption (f "Export.Name") o.exportName
  return { o with value, exportName }

end Output

namespace Template

def empty : Template := ⟨none, none, ∅, ∅, ∅, ∅, ∅⟩

instance : Inhabited Template := ⟨empty⟩

/-! ## Names -/

/-- The kind of entity that a `Ref` to a name reaches: parameters hide resources, and both hide
pseudo-parameters. -/
def resolveName (t : Template) (name : String) : Option EntityKind :=
  if t.parameters.contains name then some .parameter
  else if t.resources.contains name then some .resource
  else if (PseudoParameter.ofName? name).isSome then some .pseudoParameter
  else none

/-- Every operand of a template with its path: conditions, resources, outputs. -/
def operands (t : Template) : List (String × Operand) :=
  (t.conditions.entries.map fun (name, o) => ("Conditions." ++ name, o)) ++
    (t.resources.entries.flatMap fun (name, r) =>
      r.operands.map fun (path, o) => ("Resources." ++ name ++ "." ++ path, o)) ++
    (t.outputs.entries.flatMap fun (name, out) =>
      out.operands.map fun (path, o) => ("Outputs." ++ name ++ "." ++ path, o))

/-- The template with a function that threads a state applied to each operand, in the order of
`operands` and with the same paths. -/
def mapOperands {σ : Type} (f : String → Operand → StateM σ Operand) (t : Template) :
    StateM σ Template := do
  let conditions ← t.conditions.mapState fun name o => f ("Conditions." ++ name) o
  let resources ← t.resources.mapState fun name r =>
    r.mapOperands fun path o => f ("Resources." ++ name ++ "." ++ path) o
  let outputs ← t.outputs.mapState fun name out =>
    out.mapOperands fun path o => f ("Outputs." ++ name ++ "." ++ path) o
  return { t with conditions, resources, outputs }

/-- The template without the named resources and outputs. -/
def exclude (t : Template) (resources outputs : List String) : Template :=
  { t with
    resources := resources.foldl Dict.erase t.resources
    outputs := outputs.foldl Dict.erase t.outputs }

end Template

/-! ## Documents -/

/-- A mapping of attributes, of which the absent ones are left out. -/
def attributesNode (attributes : List (String × Option Node)) : Node :=
  .map (attributes.filterMap fun (key, node) => node.map fun n => (.string key, n))

/-- A mapping from names to documents. -/
def namedNode {α : Type} (write : α → Node) (entries : List (String × α)) : Node :=
  .map (entries.map fun (name, x) => (.string name, write x))

/-- The document of a list, absent where the list is empty. -/
def listNode? {α : Type} (write : α → Node) (xs : List α) : Option Node :=
  if xs.isEmpty then none else some (.seq (xs.map write))

/-- The document of named entries, absent where there are none. -/
def namedNode? {α : Type} (write : α → Node) (d : Dict α) : Option Node :=
  if d.isEmpty then none else some (namedNode write d.entries)

def Parameter.toNode (p : Parameter) : Node :=
  attributesNode
    [("Type", some (.string p.type)),
      ("Default", p.default.map Scalar.toNode),
      ("Description", p.description.map .string),
      ("AllowedValues", listNode? Scalar.toNode p.allowedValues),
      ("NoEcho", if p.noEcho then some (.bool true) else none)]

def Mapping.toNode (m : Mapping) : Node :=
  namedNode (fun (level : Dict Value) => namedNode Value.toNode level.entries) m.entries

def Resource.toNode (r : Resource) : Node :=
  attributesNode
    [("Type", some (.string r.type)),
      ("Condition", r.condition.map .string),
      ("DependsOn", listNode? .string r.dependsOn),
      ("Properties", namedNode? Operand.toNode r.properties),
      ("DeletionPolicy", r.deletionPolicy.map .string),
      ("UpdateReplacePolicy", r.updateReplacePolicy.map .string),
      ("Metadata", r.metadata.map Operand.toNode),
      ("CreationPolicy", r.creationPolicy.map Operand.toNode),
      ("UpdatePolicy", r.updatePolicy.map Operand.toNode)]

def Output.toNode (o : Output) : Node :=
  attributesNode
    [("Description", o.description.map .string),
      ("Condition", o.condition.map .string),
      ("Value", some o.value.toNode),
      ("Export", o.exportName.map fun name => attributesNode [("Name", some name.toNode)])]

/-- The document of a template; sections without entries are left out. -/
def Template.toNode (t : Template) : Node :=
  attributesNode
    [("AWSTemplateFormatVersion", t.formatVersion.map .string),
      ("Description", t.description.map .string),
      ("Parameters", namedNode? Parameter.toNode t.parameters),
      ("Mappings", namedNode? Mapping.toNode t.mappings),
      ("Conditions", namedNode? Operand.toNode t.conditions),
      ("Resources", namedNode? Resource.toNode t.resources),
      ("Outputs", namedNode? Output.toNode t.outputs)]

end StackTemplate
