import StackTemplate.Analysis.Error
import StackTemplate.Evaluation.Condition

/-!
# Conditions and pruning

The conditions of a template are decided in dependency order. Pruning removes the resources and
outputs whose governing condition is false from the template and from its dependency graph.

- `evaluateConditions` : the truth values of all conditions, or the first error.
- `Pruning.prune` : the pruned template and graph, with the names that were removed.
-/

namespace StackTemplate

/-- The truth values of conditions, in the order in which they were decided. -/
abbrev ConditionTable := List (String × Bool)

/-- Decides conditions one by one. -/
def Scope.decideAll (s : Scope) : List String → Eval Memo ConditionTable
  | [] => pure []
  | name :: names => do
    let b ← s.condition name
    let table ← s.decideAll names
    return (name, b) :: table

/-- Decides every condition of a graph in dependency order; nothing is decided where the conditions
form a cycle. -/
def evaluateConditions (g : DependencyGraph) (s : Scope) :
    StateM Memo (Except AnalysisError ConditionTable) := do
  match g.conditionOrder with
  | .error e => return .error (.graph e)
  | .ok names =>
    match ← s.decideAll names with
    | .error e => return .error (.evaluation e)
    | .ok table => return .ok table

/-- A template with its graph after pruning, and the names of what was removed. -/
structure Pruning where
  template : Template
  graph : DependencyGraph
  resources : List String
  outputs : List String

namespace Pruning

/-- The names of the entities whose governing condition is false. -/
def removed (table : ConditionTable) :
    List (String × Option String) → Except EvalError (List String)
  | [] => .ok []
  | (_, none) :: es => removed table es
  | (name, some condition) :: es =>
    match Entries.find? table condition with
    | none => .error (.unknownCondition condition)
    | some true => removed table es
    | some false => (removed table es).map (name :: ·)

def keepAll (t : Template) (g : DependencyGraph) : Pruning := ⟨t, g, [], []⟩

def isEmpty (p : Pruning) : Bool := p.resources.isEmpty && p.outputs.isEmpty

/-- Removes the resources and outputs whose governing condition is false. -/
def prune (t : Template) (g : DependencyGraph) (table : ConditionTable) :
    Except EvalError Pruning := do
  let resources ← removed table (t.resources.entries.map fun (name, r) => (name, r.condition))
  let outputs ← removed table (t.outputs.entries.map fun (name, o) => (name, o.condition))
  let vertices : List Vertex := resources.map (⟨.resource, ·⟩) ++ outputs.map (⟨.output, ·⟩)
  return ⟨t.exclude resources outputs, g.removeVertices vertices, resources, outputs⟩

end Pruning

end StackTemplate
