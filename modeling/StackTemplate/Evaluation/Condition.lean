import StackTemplate.Evaluation.Call

/-!
# Evaluation of conditions

An evaluator decides each condition of a template at most once: it remembers the truth values of
the conditions that it decided, in the order in which it decided them. A condition that is reached
while it is being decided fails.

- `decideCondition` decides a condition that is reached from the conditions in progress. It ends
  because each condition in progress is declared and none is entered twice.
- `evaluate` is the value of an operand.
-/

namespace StackTemplate

/-- The truth values of the conditions decided so far, in the order in which they were decided. -/
abbrev Memo := List (String × Bool)

namespace Scope

/-- The declared conditions that are not in progress. -/
def waiting (s : Scope) (inProgress : List String) : List String :=
  s.template.conditions.keys.filter fun name => name ∉ inProgress

/-- Entering a declared condition that is not in progress leaves fewer conditions to enter. -/
theorem length_waiting_lt {s : Scope} {inProgress : List String} {name : String} {o : Operand}
    (hdeclared : s.template.conditions.find? name = some o) (hnew : name ∉ inProgress) :
    (s.waiting (name :: inProgress)).length < (s.waiting inProgress).length := by
  have hmem : name ∈ s.template.conditions.keys :=
    Dict.contains_iff.1 (by simp [Dict.contains, hdeclared])
  have heq : s.waiting (name :: inProgress) = (s.waiting inProgress).filter (· ≠ name) := by
    simp only [waiting, List.filter_filter, List.mem_cons, not_or]
    congr 1
    funext x
    by_cases hx : x = name <;> simp [hx]
  rw [heq]
  -- Were the lengths the same, the filter would have kept the condition itself.
  refine Nat.lt_of_le_of_ne (List.length_filter_le _ _) fun hlen => ?_
  have hall := List.length_filter_eq_length_iff.1 hlen name
    (List.mem_filter.2 ⟨hmem, by simpa using hnew⟩)
  simp at hall

/-- Decides a condition that is reached from the conditions in progress, and remembers it. -/
def decideCondition (s : Scope) (inProgress : List String) (name : String) : Eval Memo Bool := do
  match Entries.find? (← get) name with
  | some b => return b
  | none =>
    if _ : name ∈ inProgress then throw (.circularCondition name)
    else
      match _ : s.template.conditions.find? name with
      | none => throw (.unknownCondition name)
      | some expression =>
        let v ← expression.evaluate s fun other => decideCondition s (name :: inProgress) other
        match v.bool? with
        | none => throw (.nonBooleanCondition name)
        | some b =>
          modify fun memo => Entries.insert memo name b
          return b
termination_by (s.waiting inProgress).length
decreasing_by exact length_waiting_lt ‹_› ‹_›

def condition (s : Scope) (name : String) : Eval Memo Bool := s.decideCondition [] name

def evaluate (s : Scope) (o : Operand) : Eval Memo Value := o.evaluate s s.condition

end Scope

/-- The answer of a computation on a memo, and the memo afterwards. -/
def Eval.answer {σ α : Type} (x : Eval σ α) (state : σ) : Except EvalError α × σ := x.run state

end StackTemplate
