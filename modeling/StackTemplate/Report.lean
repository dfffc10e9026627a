import StackTemplate.Analysis

/-!
# Reports

The plain-text summary of an analysis. An output whose value cannot be computed is reported with
its error and does not fail the report.
-/

namespace StackTemplate

namespace Report

def descriptionLines (t : Template) : List String :=
  match t.description with
  | some text => [text, ""]
  | none => []

/-- The lines of the resources in build order, the first at a position. -/
def resourceLines (t : Template) (position : Nat) : List String → List String
  | [] => []
  | name :: names =>
    let type := ((t.resources.find? name).map Resource.type).getD ""
    ("  " ++ toString position ++ ". " ++ name ++ " (" ++ type ++ ")") ::
      resourceLines t (position + 1) names

/-- A group of lines under a heading, absent where it has no line. -/
def group (heading : String) (lines : List String) : List String :=
  if lines.isEmpty then [] else heading :: lines

def conditionLine (name : String) (b : Bool) : String :=
  "  " ++ name ++ " = " ++ (if b then "true" else "false")

/-- The lines of outputs, evaluated one after the other. -/
def outputLines (s : Scope) : List (String × Output) → StateM Memo (List String)
  | [] => return []
  | (name, out) :: es => do
    let answer ← (s.evaluate out.value).run
    let rest ← outputLines s es
    match answer with
    | .ok v => return ("  " ++ name ++ " = " ++ v.display) :: rest
    | .error e => return ("  " ++ name ++ " = <error: " ++ e.message ++ ">") :: rest

/-- The lines of a report. -/
def lines (a : Analysis) (c : Configuration) : Except AnalysisError (List String) := do
  let t := a.template
  let order ← a.graph.resourceOrder.mapError .graph
  let scope ← t.scope c
  return descriptionLines t ++
    ["Dependency graph: " ++ toString a.graph.vertices.length ++ " vertices, " ++
        toString a.graph.edges.length ++ " edges",
      "Resources (build order):"] ++
    resourceLines t 1 order ++
    group "Conditions:" (a.conditions.map fun (name, b) => conditionLine name b) ++
    group "Unused parameters:" (a.graph.unusedParameters.map ("  " ++ ·)) ++
    group "Pruned:" (a.pruning.resources.map ("  resource " ++ ·) ++
      a.pruning.outputs.map ("  output " ++ ·)) ++
    group "Outputs:" (outputLines scope t.outputs.entries []).1

/-- The text of a report, every line ended by a newline. -/
def render (a : Analysis) (c : Configuration) : Except AnalysisError String :=
  (lines a c).map fun ls => String.join (ls.map (· ++ "\n"))

end Report

end StackTemplate
