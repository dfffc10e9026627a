import StackTemplate.Proofs.Evaluation.Memo

/-!
# Evaluators

An evaluator serves any number of calls on one template. Its state is the memo and the stack of the
conditions in progress: a condition is pushed before its expression is evaluated and popped
afterwards, whether or not that failed.

* `Evaluator.decideWith` : one round of a decision on that state.
* `Evaluator.decideWith_eq_iff` : the recursion of rounds has one solution, `Evaluator.condition`.
* `Evaluator.answer_after_history` : earlier calls leave no trace in later answers.
-/

namespace StackTemplate

/-- The state of an evaluator: the conditions decided so far, and those in progress, the innermost
first. -/
structure Evaluator where
  memo : Memo
  inProgress : List String
deriving DecidableEq, Repr

/-- The outcome of a computation, which is kept when the computation fails. -/
def Eval.attempt {σ α : Type} (x : Eval σ α) : Eval σ (Except EvalError α) :=
  ExceptT.mk fun st => (.ok (x.answer st).1, (x.answer st).2)

@[simp] theorem Eval.answer_attempt {σ α : Type} (x : Eval σ α) (st : σ) :
    (Eval.attempt x).answer st = (.ok (x.answer st).1, (x.answer st).2) := rfl

@[simp] theorem Eval.answer_modify {σ : Type} (f : σ → σ) (st : σ) :
    (modify f : Eval σ Unit).answer st = (.ok (), f st) := rfl

namespace Evaluator

def fresh : Evaluator := ⟨[], []⟩

instance : Inhabited Evaluator := ⟨fresh⟩

def push (name : String) (e : Evaluator) : Evaluator :=
  { e with inProgress := name :: e.inProgress }

def pop (e : Evaluator) : Evaluator := { e with inProgress := e.inProgress.tail }

def remember (name : String) (b : Bool) (e : Evaluator) : Evaluator :=
  { e with memo := Entries.insert e.memo name b }

/-- One round of a decision, given how the conditions inside an expression are decided. -/
def decideWith (s : Scope) (decide : String → Eval Evaluator Bool) (name : String) :
    Eval Evaluator Bool := do
  let e ← get
  match Entries.find? e.memo name with
  | some b => return b
  | none =>
    if name ∈ e.inProgress then throw (.circularCondition name)
    else
      match s.template.conditions.find? name with
      | none => throw (.unknownCondition name)
      | some expression =>
        modify (push name)
        let outcome ← Eval.attempt (expression.evaluate s decide)
        modify pop
        let v ← Eval.ofExcept outcome
        match v.bool? with
        | none => throw (.nonBooleanCondition name)
        | some b =>
          modify (remember name b)
          return b

/-- Decides a condition from the memo and the conditions in progress. -/
def condition (s : Scope) (name : String) : Eval Evaluator Bool :=
  ExceptT.mk fun e =>
    (((s.decideCondition e.inProgress name).answer e.memo).1,
      { e with memo := ((s.decideCondition e.inProgress name).answer e.memo).2 })

/-! ## The stack -/

end Evaluator

/-- A computation on an evaluator and one on its memo that go alike, while the conditions in
progress stay the same. -/
def Eval.Congruence.lockstep (inProgress : List String) :
    Eval.Congruence Evaluator Memo where
  rel x y := ∀ memo, x.answer ⟨memo, inProgress⟩ =
    ((y.answer memo).1, ⟨(y.answer memo).2, inProgress⟩)
  ret _ _ := rfl
  fail _ _ _ := rfl
  seq {_ _ x y f g} hx hf := by
    intro memo
    rw [Eval.answer_bind, Eval.answer_bind, hx memo]
    rcases y.answer memo with ⟨e | a, memo'⟩
    · rfl
    · exact hf a memo'

namespace Evaluator

variable {s : Scope}

/-- A round pushes, evaluates and pops exactly where a decision with the stack as an argument
enters the condition. -/
theorem decideWith_lockstep {decide : String → Eval Evaluator Bool} {inProgress : List String}
    {name : String}
    (h : ∀ o, s.template.conditions.find? name = some o → name ∉ inProgress → ∀ other,
      (Eval.Congruence.lockstep (name :: inProgress)).rel (decide other)
        (s.decideCondition (name :: inProgress) other)) :
    (Eval.Congruence.lockstep inProgress).rel (decideWith s decide name)
      (s.decideCondition inProgress name) := by
  intro memo
  rw [decideWith, Eval.answer_bind, Eval.answer_get]
  -- The cases are those of a decision: remembered, circular, undeclared, and entered.
  cases hfind : Entries.find? memo name with
  | some b =>
    rw [Scope.decideCondition_remembered hfind]
    simp [hfind]
  | none =>
    by_cases hin : name ∈ inProgress
    · rw [Scope.decideCondition_circular hfind hin]
      simp [hfind, hin]
    · cases hdeclared : s.template.conditions.find? name with
      | none =>
        rw [Scope.decideCondition_undeclared hfind hin hdeclared]
        simp [hfind, hin]
      | some o =>
        -- Look-ups do not touch the state, and the decisions inside are made with the condition
        -- pushed.
        have hsame : (Eval.Congruence.lockstep (name :: inProgress)).rel (o.evaluate s decide)
            (o.evaluate s (s.decideCondition (name :: inProgress))) := by
          refine o.evaluate_congr _ (.refl (fun r memo => ?_) s _) fun other _ =>
            h o hdeclared hin other
          rw [Eval.answer_ofExcept, Eval.answer_ofExcept]
        have hx := hsame memo
        rw [Scope.decideCondition_declared hfind hin hdeclared]
        simp only [hfind, hin, if_false]
        simp only [Eval.answer_bind, Eval.answer_modify, Eval.answer_attempt, push, hx]
        rcases (o.evaluate s (s.decideCondition (name :: inProgress))).answer memo with ⟨e | v, memo'⟩
        · -- The expression failed; the condition is popped, and nothing is remembered.
          rfl
        · cases hbool : v.bool? with
          | none => simp [hbool, pop]
          | some b =>
            simp only [Eval.answer_ofExcept, pop, List.tail_cons, hbool]
            rfl

/-- Deciding a condition is the same with the stack in the state and with the stack as an argument.
-/
theorem condition_lockstep (inProgress : List String) (name : String) :
    (Eval.Congruence.lockstep inProgress).rel (condition s name)
      (s.decideCondition inProgress name) :=
  fun _ => rfl

/-- So is the evaluation of an operand. -/
theorem evaluate_lockstep (inProgress : List String) (o : Operand) :
    (Eval.Congruence.lockstep inProgress).rel (o.evaluate s (condition s))
      (o.evaluate s (s.decideCondition inProgress)) := by
  apply o.evaluate_congr
  · refine .refl ?_ s _
    intro r memo
    rw [Eval.answer_ofExcept, Eval.answer_ofExcept]
  · intro name _
    exact condition_lockstep inProgress name

/-- Deciding conditions by rounds of pushing, evaluating and popping is one computation, which
leaves the conditions in progress as they were. -/
theorem decideWith_eq_iff (decide : String → Eval Evaluator Bool) :
    decide = decideWith s decide ↔ decide = condition s := by
  constructor
  · intro h
    have hall : ∀ inProgress name, (Eval.Congruence.lockstep inProgress).rel (decide name)
        (s.decideCondition inProgress name) := by
      -- By induction on the conditions in progress, of which a round adds one that is new.
      intro inProgress
      induction inProgress using s.inProgress_induction with
      | enter inProgress ih =>
        intro name
        rw [h]
        exact decideWith_lockstep fun o hdeclared hin => ih name o hdeclared hin
    funext name e
    exact hall e.inProgress name e.memo
  · rintro rfl
    funext name e
    have hround : (Eval.Congruence.lockstep e.inProgress).rel (decideWith s (condition s) name)
        (s.decideCondition e.inProgress name) :=
      decideWith_lockstep fun _ _ _ other => condition_lockstep (name :: e.inProgress) other
    exact (hround e.memo).symm

end Evaluator

/-! ## Calls -/

/-- A call on an evaluator: the value of an operand, or the truth value of a condition. -/
inductive Query where
  | operand (o : Operand)
  | condition (name : String)

/-- The answer to a call, which may be an error. -/
inductive Answer where
  | value (r : Except EvalError Value)
  | decision (r : Except EvalError Bool)

namespace Evaluator

/-- The answer to a call, and the evaluator afterwards. -/
def ask (s : Scope) (e : Evaluator) : Query → Answer × Evaluator
  | .operand o =>
    (.value ((o.evaluate s (condition s)).answer e).1, ((o.evaluate s (condition s)).answer e).2)
  | .condition name =>
    (.decision ((condition s name).answer e).1, ((condition s name).answer e).2)

/-- The evaluator after a sequence of calls. -/
def after (s : Scope) (history : List Query) : Evaluator :=
  history.foldl (fun e q => (ask s e q).2) fresh

/-- The answer to a call that no memo and no earlier call takes part in. -/
def answerAfresh (s : Scope) : Query → Answer
  | .operand o => .value ((o.evaluate s (s.decideAfresh [])).answer ()).1
  | .condition name => .decision (s.freshDecision name)

/-- What holds of an evaluator between calls. -/
structure Idle (s : Scope) (e : Evaluator) : Prop where
  sound : Memo.Sound s e.memo
  inProgress : e.inProgress = []

theorem idle_fresh (s : Scope) : Idle s fresh := ⟨.empty, rfl⟩

/-- A call on an idle evaluator is answered afresh, adds to the memo and leaves the evaluator
idle. -/
theorem ask_of_idle {s : Scope} {e : Evaluator} (h : Idle s e) (q : Query) :
    (ask s e q).1 = answerAfresh s q ∧ e.memo <+: (ask s e q).2.memo ∧ Idle s (ask s e q).2 := by
  obtain ⟨memo, inProgress⟩ := e
  obtain ⟨hsound, rfl⟩ : Memo.Sound s memo ∧ inProgress = [] := ⟨h.sound, h.inProgress⟩
  -- No condition is in progress, so none of them can be among the remembered ones.
  have hvalid : Memo.Valid s [] memo := ⟨hsound, by simp⟩
  cases q with
  | condition name =>
    have hdecides := s.decideCondition_sound [] name hvalid
    have hrun := condition_lockstep (s := s) [] name memo
    simp only [ask, answerAfresh, Scope.freshDecision, hrun, hdecides.fresh]
    exact ⟨trivial, hdecides.grows, hdecides.valid.sound, rfl⟩
  | operand o =>
    obtain ⟨hgrows, hfresh, -⟩ :=
      Scope.evaluate_sound (fun name _ => s.decideCondition_sound [] name) o hvalid
    obtain ⟨hgrow, hkept⟩ := hgrows memo hvalid
    have hsame := evaluate_lockstep (s := s) [] o memo
    simp only [ask, answerAfresh, hsame, hfresh]
    exact ⟨trivial, hgrow, hkept.sound, rfl⟩

/-- An evaluator is idle after any calls. -/
theorem idle_after (s : Scope) (history : List Query) : Idle s (after s history) := by
  have hrun : ∀ e, Idle s e → Idle s (history.foldl (fun e q => (ask s e q).2) e) := by
    induction history with
    | nil => exact fun e he => he
    | cons q history ih => exact fun e he => ih _ (ask_of_idle he q).2.2
  exact hrun fresh (idle_fresh s)

/-- Whatever was asked before, and whether or not it failed, the next call is answered as by a
fresh evaluator. Between calls no condition is in progress, the memo only grows, and a remembered
condition comes after every condition that its expression reads. The evaluator decides conditions by
rounds on its memo and its stack; no other computation does. -/
theorem answer_after_history (s : Scope) (history : List Query) (next : Query) :
    (∀ decide, decide = decideWith s decide ↔ decide = condition s) ∧
      ((after s history).ask s next).1 = (fresh.ask s next).1 ∧
      (after s history).inProgress = [] ∧
      (after s history).memo <+: ((after s history).ask s next).2.memo ∧
      ∀ earlier later name b, (after s history).memo = earlier ++ (name, b) :: later →
        ∃ o, s.template.conditions.find? name = some o ∧
          ∀ other ∈ s.reads o, other ∈ Entries.keys earlier := by
  have hidle := idle_after s history
  obtain ⟨hanswer, hgrow, -⟩ := ask_of_idle hidle next
  have hfirst := (ask_of_idle (idle_fresh s) next).1
  refine ⟨decideWith_eq_iff, hanswer.trans hfirst.symm, hidle.inProgress, hgrow, ?_⟩
  -- An entry of the memo is as it was when it was added.
  intro earlier later name b hmemo
  have hsound := hidle.sound
  rw [hmemo] at hsound
  obtain ⟨hearlier, -, o, v, hdeclared, hv, -⟩ := hsound.at_entry
  exact ⟨o, hdeclared, hearlier.reads_subset hv⟩

end Evaluator

end StackTemplate
