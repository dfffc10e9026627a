import StackTemplate.Proofs.Evaluation.Evaluator

/-!
# Scopes that evaluate alike

Two scopes may differ in much that an operand never looks at. Where they give the same for the names
that it mentions, and the conditions that it mentions are decided alike, its value is the same. If
this goes for every expression that is reached from a condition, the condition is decided alike,
whatever is in progress.

* `Scope.Alike` : two scopes give one operand the same value.
* `Scope.decideAfresh_congr` : conditions whose expressions are evaluated alike are decided alike.
* `Evaluator.ask_congr` : evaluators with a history answer alike if fresh decisions do.
-/

namespace StackTemplate

/-- Computations that are the same. -/
def Eval.Congruence.same (σ : Type) : Eval.Congruence σ σ where
  rel x y := x = y
  ret _ := rfl
  fail _ _ := rfl
  seq {_ _ x y f g} hx hf := by
    have hfg : f = g := funext hf
    rw [hx, hfg]

namespace Scope

/-- Two scopes give an operand the same value as soon as the conditions that it mentions are decided
alike. -/
def Alike (s s' : Scope) (o : Operand) : Prop :=
  ∀ decide decide' : String → Eval Unit Bool,
    (∀ name, .condition name ∈ o.mentions → decide name = decide' name) →
      o.evaluate s decide = o.evaluate s' decide'

variable {s s' : Scope} {o : Operand}

theorem Alike.trans {s'' : Scope} (h : s.Alike s' o) (h' : s'.Alike s'' o) : s.Alike s'' o := by
  intro decide decide' hdecide
  rw [h decide decide' hdecide]
  -- The decisions are the same from here on.
  exact h' decide' decide' fun _ _ => rfl

/-- Scopes with the same look-ups for what an operand mentions evaluate it alike. -/
theorem alike_of_lookups (href : ∀ name, .ref name ∈ o.mentions → s.ref name = s'.ref name)
    (hattribute : ∀ resource label name, .getAtt resource label ∈ o.mentions →
      s.attributeValue resource name = s'.attributeValue resource name)
    (himports : s.importValue = s'.importValue) (hmaps : s.findInMap = s'.findInMap)
    (hzones : s.availabilityZones = s'.availabilityZones) : s.Alike s' o := by
  have hlookups : LookupsRelated (Eval.Congruence.same Unit) s s' o.mentions :=
    { ref := fun name hname => congrArg Eval.ofExcept (href name hname)
      attributeValue := fun resource label name hname =>
        congrArg Eval.ofExcept (hattribute resource label name hname)
      imports := himports
      maps := hmaps
      zones := hzones }
  intro decide decide' hdecide
  exact o.evaluate_congr (Eval.Congruence.same Unit) hlookups hdecide

/-- Conditions are decided alike where their expressions are evaluated alike and mention only
conditions of which the same is true. -/
theorem decideAfresh_congr {reached : String → Prop}
    (hconditions : s.template.conditions = s'.template.conditions)
    (halike : ∀ name o, reached name → s.template.conditions.find? name = some o → s.Alike s' o)
    (hclosed : ∀ name o, reached name → s.template.conditions.find? name = some o →
      ∀ other, .condition other ∈ o.mentions → reached other)
    (inProgress : List String) {name : String} (hname : reached name) :
    s.decideAfresh inProgress name = s'.decideAfresh inProgress name := by
  induction inProgress using s.inProgress_induction generalizing name with
  | enter inProgress ih =>
    by_cases hin : name ∈ inProgress
    · rw [decideAfresh_circular hin, decideAfresh_circular hin]
    · cases hfind : s.template.conditions.find? name with
      | none =>
        have hfind' : s'.template.conditions.find? name = none := hconditions ▸ hfind
        rw [decideAfresh_undeclared hin hfind, decideAfresh_undeclared hin hfind']
      | some o =>
        -- Both scopes have the same conditions.
        have hfind' : s'.template.conditions.find? name = some o := hconditions ▸ hfind
        have hvalue : o.evaluate s (s.decideAfresh (name :: inProgress)) =
            o.evaluate s' (s'.decideAfresh (name :: inProgress)) := by
          apply halike name o hname hfind
          intro other hother
          exact ih name o hfind hin (hclosed name o hname hfind other hother)
        rw [decideAfresh_declared hin hfind, decideAfresh_declared hin hfind', hvalue]

end Scope

/-- Evaluators answer a call alike, whatever each has been asked before, if the answers afresh are
the same. -/
theorem Evaluator.ask_congr {s s' : Scope} {q : Query} (h : answerAfresh s q = answerAfresh s' q)
    (history history' : List Query) :
    ((after s history).ask s q).1 = ((after s' history').ask s' q).1 := by
  rw [(ask_of_idle (idle_after s history) q).1, (ask_of_idle (idle_after s' history') q).1, h]

end StackTemplate
