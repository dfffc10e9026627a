import StackTemplate.Configuration
import StackTemplate.Pruning

/-!
# Analyses

An analysis builds the dependency graph of a template, decides its conditions in dependency order
and, where the configuration asks for it, prunes the conditional entities. Every condition is
decided also where nothing is pruned.
-/

namespace StackTemplate

/-- The result of analysing a template. -/
structure Analysis where
  conditions : ConditionTable
  pruning : Pruning

namespace Analysis

/-- The template, without pruned entities. -/
def template (a : Analysis) : Template := a.pruning.template

/-- The dependency graph, without pruned entities. -/
def graph (a : Analysis) : DependencyGraph := a.pruning.graph

end Analysis

namespace Template

def scope (t : Template) (c : Configuration) : Except AnalysisError Scope :=
  match c.settings with
  | .ok settings => .ok ⟨t, settings⟩
  | .error e => .error (.configuration e)

/-- The analysis of a template under a configuration. -/
def analyse (t : Template) (c : Configuration) : Except AnalysisError Analysis := do
  let graph ← t.dependencyGraph.mapError .graph
  let scope ← t.scope c
  let conditions ← (evaluateConditions graph scope []).1
  let pruning ←
    if c.excludesConditional then (Pruning.prune t graph conditions).mapError .evaluation
    else .ok (.keepAll t graph)
  return { conditions, pruning }

end Template

end StackTemplate
