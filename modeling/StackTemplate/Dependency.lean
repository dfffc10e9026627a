import StackTemplate.Digraph.Order
import StackTemplate.Template

/-!
# Dependencies between entities

The dependency graph of a template has a vertex for each declared parameter, resource, output and
condition, and for each pseudo-parameter that some entity refers to. An edge leads from the entity
that holds a reference to the entity that it names, and says why the one depends on the other.

- `Template.dependencies` : every dependency of a template, in order.
- `Template.dependencyGraph` : the graph, or the first dependency that is not admitted.
- `DependencyGraph.resourceOrder`, `DependencyGraph.conditionOrder` : orders in which everything
  comes after what it depends on.
-/

namespace StackTemplate

/-! ## Vertices and edges -/

namespace EntityKind

def all : List EntityKind := [.parameter, .pseudoParameter, .condition, .resource, .output]

def name : EntityKind → String
  | .parameter => "parameter"
  | .pseudoParameter => "pseudo-parameter"
  | .condition => "condition"
  | .resource => "resource"
  | .output => "output"

/-- The group of entities that a kind belongs to. -/
def group : EntityKind → String
  | .parameter => "Parameters"
  | .pseudoParameter => "PseudoParameters"
  | .condition => "Conditions"
  | .resource => "Resources"
  | .output => "Outputs"

end EntityKind

/-- An entity, identified by its kind and logical name. -/
structure Vertex where
  kind : EntityKind
  name : String
deriving DecidableEq, Repr

def Vertex.text (v : Vertex) : String := v.kind.name ++ " `" ++ v.name ++ "`"

/-- Why one entity depends on another. -/
inductive EdgeDetail where
  /-- A `Ref` to a resource. -/
  | directReference
  /-- A `Ref` to a parameter or pseudo-parameter. -/
  | parameterReference
  | attributeReference (attributeName : String)
  /-- An explicit entry of the resource. -/
  | dependsOn
  /-- A mention of a condition, or the condition that governs the entity. -/
  | conditionReference
deriving DecidableEq, Repr

def EdgeDetail.label : EdgeDetail → String
  | .directReference | .parameterReference => "Ref"
  | .attributeReference attributeName => "GetAtt " ++ attributeName
  | .dependsOn => "DependsOn"
  | .conditionReference => "Condition"

/-- The dependency graph of a template. -/
abbrev DependencyGraph := Digraph Vertex EdgeDetail

/-! ## Errors -/

/-- The causes for which a template has no dependency graph, or a graph no order. -/
inductive GraphError where
  | unresolvedReference (referrer : Vertex) (target : String)
  | selfReference (vertex : Vertex)
  | illegalConditionReference (condition resource : String)
  | circularCondition (cycle : List String)
  | circularDependency (cycle : List String)
  | duplicateVertex (name : String) (first second : EntityKind)
deriving DecidableEq, Repr

namespace GraphError

/-- A cycle as text, closed with its first member. -/
def cycleText (cycle : List String) : String :=
  String.intercalate " -> " (cycle ++ cycle.head?.toList)

def message : GraphError → String
  | .unresolvedReference referrer target =>
    referrer.text ++ " references `" ++ target ++ "`, which is not declared"
  | .selfReference vertex => vertex.text ++ " references itself"
  | .illegalConditionReference condition resource =>
    "condition `" ++ condition ++ "` references resource `" ++ resource ++ "`"
  | .circularCondition cycle => "conditions form a cycle: " ++ cycleText cycle
  | .circularDependency cycle => "resources form a dependency cycle: " ++ cycleText cycle
  | .duplicateVertex name first second =>
    "`" ++ name ++ "` is declared as both a " ++ first.name ++ " and a " ++ second.name

def code : GraphError → String
  | .unresolvedReference .. => "E300"
  | .selfReference _ => "E301"
  | .illegalConditionReference .. => "E302"
  | .circularCondition _ => "E303"
  | .circularDependency _ => "E304"
  | .duplicateVertex .. => "E305"

end GraphError

/-! ## Dependencies -/

/-- What makes one entity depend on another: a reference in an expression, an explicit entry, or a
governing condition. -/
inductive Dependency where
  | reference (r : Reference)
  | dependsOn (resource : String)
  | governing (condition : String)
deriving DecidableEq, Repr

namespace Dependency

def name : Dependency → String
  | .reference r => r.name
  | .dependsOn n | .governing n => n

/-- The vertex of a resource, where it is declared. -/
def resource? (t : Template) (name : String) : Option Vertex :=
  if t.resources.contains name then some ⟨.resource, name⟩ else none

/-- The vertex of a condition, where it is declared. -/
def condition? (t : Template) (name : String) : Option Vertex :=
  if t.conditions.contains name then some ⟨.condition, name⟩ else none

/-- The vertex that a dependency leads to and the detail of the edge, where the name is
declared. -/
def resolve (t : Template) : Dependency → Option (Vertex × EdgeDetail)
  | .reference (.ref name) =>
    match t.resolveName name with
    | some .parameter => some (⟨.parameter, name⟩, .parameterReference)
    | some .pseudoParameter => some (⟨.pseudoParameter, name⟩, .parameterReference)
    | some .resource => some (⟨.resource, name⟩, .directReference)
    | _ => none
  | .reference (.getAtt name attributeName) =>
    (resource? t name).map fun v => (v, .attributeReference attributeName)
  | .reference (.condition name) | .governing name =>
    (condition? t name).map fun v => (v, .conditionReference)
  | .dependsOn name => (resource? t name).map fun v => (v, .dependsOn)

end Dependency

/-- The dependencies of a resource: references, explicit entries, the governing condition. -/
def Resource.dependencies (r : Resource) : List Dependency :=
  (firstOccurrences (r.operands.flatMap fun e => e.2.references)).map .reference ++
    r.dependsOn.map .dependsOn ++ r.condition.toList.map .governing

/-- The dependencies of an output: references, the governing condition. -/
def Output.dependencies (o : Output) : List Dependency :=
  (firstOccurrences (o.operands.flatMap fun e => e.2.references)).map .reference ++
    o.condition.toList.map .governing

namespace Template

/-- Every dependency with the entity that has it: conditions, resources, outputs. -/
def dependencies (t : Template) : List (Vertex × Dependency) :=
  (t.conditions.entries.flatMap fun (name, o) =>
      o.references.map fun r => (⟨.condition, name⟩, .reference r)) ++
    (t.resources.entries.flatMap fun (name, r) =>
      r.dependencies.map fun d => (⟨.resource, name⟩, d)) ++
    (t.outputs.entries.flatMap fun (name, o) =>
      o.dependencies.map fun d => (⟨.output, name⟩, d))

/-- The vertices of the declared entities. -/
def declaredVertices (t : Template) : List Vertex :=
  t.parameters.keys.map (⟨.parameter, ·⟩) ++ t.resources.keys.map (⟨.resource, ·⟩) ++
    t.outputs.keys.map (⟨.output, ·⟩) ++ t.conditions.keys.map (⟨.condition, ·⟩)

/-- The graph with one more dependency. Only pseudo-parameters become vertices in this way; an edge
that is present is not repeated. -/
def addDependency (t : Template) (g : DependencyGraph) (source : Vertex) (d : Dependency) :
    Except GraphError DependencyGraph :=
  match d.resolve t with
  | none => .error (.unresolvedReference source d.name)
  | some (target, detail) =>
    if source = target then .error (.selfReference source)
    else if source.kind = .condition ∧ target.kind = .resource then
      .error (.illegalConditionReference source.name target.name)
    else
      let g := if target.kind = .pseudoParameter then g.addVertex target else g
      .ok (g.addEdge ⟨source, target, detail⟩)

/-- The dependency graph of a template, or the first cause for which there is none. -/
def dependencyGraph (t : Template) : Except GraphError DependencyGraph :=
  match t.resources.keys.find? t.parameters.contains with
  | some name => .error (.duplicateVertex name .parameter .resource)
  | none =>
    t.dependencies.foldlM (fun g (source, d) => t.addDependency g source d)
      (Digraph.ofVertices t.declaredVertices)

end Template

/-! ## Queries -/

namespace DependencyGraph

/-- The names of the parameters that no entity refers to. -/
def unusedParameters (g : DependencyGraph) : List String :=
  (g.roots.filter fun v => v.kind = .parameter).map Vertex.name

/-- The names of the entities of a kind in dependency order, or those on a cycle. -/
def orderOf (g : DependencyGraph) (kind : EntityKind) : Except (List String) (List String) :=
  match g.order fun v => v.kind = kind with
  | .ok vs => .ok (vs.map Vertex.name)
  | .error vs => .error (vs.map Vertex.name)

/-- The resources, each after those that it depends on. -/
def resourceOrder (g : DependencyGraph) : Except GraphError (List String) :=
  (g.orderOf .resource).mapError .circularDependency

/-- The conditions, each after those that it mentions. -/
def conditionOrder (g : DependencyGraph) : Except GraphError (List String) :=
  (g.orderOf .condition).mapError .circularCondition

/-- The graph without some vertices and the edges that touch them. -/
def removeVertices (g : DependencyGraph) (vs : List Vertex) : DependencyGraph :=
  g.retain fun v => v ∉ vs

end DependencyGraph

end StackTemplate
