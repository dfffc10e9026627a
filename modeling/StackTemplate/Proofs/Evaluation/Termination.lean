import StackTemplate.Proofs.Pruning.Deciding

/-!
# Evaluation ends

Evaluation goes back from an operand to the conditions that it names, so it is no recursion on the
operand. It ends because a decision that comes back to a condition in progress fails: the stack
holds declared names only, none of them twice, so decisions nest no deeper than there are
conditions. Since each condition in progress mentions the one above it, what a decision comes back
to stands on a cycle.

* `Holder.decideWith` : one round of a decision on any state that holds an evaluator.
* `Holder.decideWithin` : rounds within rounds, to a given depth.
* `Scope.IsStack` : the invariant of the conditions in progress.
* `Evaluator.watched_decideWithin` : rounds within more rounds than there are conditions decide.
* `Scope.circular_of_decideAfresh` : a circular condition is reached and stands on a cycle.
* `Evaluator.ask_ends` : calls end, and what they find circular is so.
-/

namespace StackTemplate

open Relation

variable {σ : Type}

/-! ## Rounds on a state that holds an evaluator -/

/-- A state that holds an evaluator: how it is found, and how the state changes when it does. -/
structure Holder (σ : Type) where
  evaluator : σ → Evaluator
  change : (Evaluator → Evaluator) → σ → σ

/-- An evaluator, with every stack that it has had since it is watched. -/
structure Watched where
  evaluator : Evaluator
  seen : List (List String)
deriving DecidableEq, Repr

namespace Holder

/-- The evaluator alone. -/
def plain : Holder Evaluator := ⟨id, id⟩

/-- With each change of the evaluator its stack is written down. -/
def watching : Holder Watched where
  evaluator := Watched.evaluator
  change f w := ⟨f w.evaluator, w.seen ++ [(f w.evaluator).inProgress]⟩

variable (H : Holder σ) (s : Scope)

/-- One round of a decision, given how the conditions inside an expression are decided. -/
def decideWith (decide : String → Eval σ Bool) (name : String) : Eval σ Bool := do
  let e := H.evaluator (← get)
  match Entries.find? e.memo name with
  | some b => return b
  | none =>
    if name ∈ e.inProgress then throw (.circularCondition name)
    else
      match s.template.conditions.find? name with
      | none => throw (.unknownCondition name)
      | some expression =>
        modify (H.change (Evaluator.push name))
        let outcome ← Eval.attempt (expression.evaluate s decide)
        modify (H.change Evaluator.pop)
        let v ← Eval.ofExcept outcome
        match v.bool? with
        | none => throw (.nonBooleanCondition name)
        | some b =>
          modify (H.change (Evaluator.remember name b))
          return b

/-- Rounds within rounds to a given depth, below which conditions are decided in another way. -/
def decideWithin (deeper : String → Eval σ Bool) : Nat → String → Eval σ Bool
  | 0 => deeper
  | depth + 1 => H.decideWith s (decideWithin deeper depth)

/-- The rounds of an evaluator are those on the evaluator alone. -/
theorem decideWith_plain (decide : String → Eval Evaluator Bool) :
    plain.decideWith s decide = Evaluator.decideWith s decide := rfl

end Holder

/-- The answer to a call on a state, given how conditions are decided, and the state afterwards. -/
def Query.run (s : Scope) (decide : String → Eval σ Bool) (st : σ) : Query → Answer × σ
  | .operand o => (.value ((o.evaluate s decide).answer st).1, ((o.evaluate s decide).answer st).2)
  | .condition name => (.decision ((decide name).answer st).1, ((decide name).answer st).2)

/-! ## The stack -/

/-- What holds of the conditions in progress: each is declared, and none is there twice. -/
structure Scope.IsStack (s : Scope) (inProgress : List String) : Prop where
  nodup : inProgress.Nodup
  declared : ∀ name ∈ inProgress, name ∈ s.template.conditions.keys

theorem Scope.IsStack.nil (s : Scope) : s.IsStack [] := ⟨List.nodup_nil, by simp⟩

/-- A declared condition is pushed if it is not in progress. -/
theorem Scope.IsStack.push {s : Scope} {inProgress : List String} {name : String} {o : Operand}
    (h : s.IsStack inProgress) (hnew : name ∉ inProgress)
    (hdeclared : s.template.conditions.find? name = some o) : s.IsStack (name :: inProgress) := by
  refine ⟨List.nodup_cons.2 ⟨hnew, h.nodup⟩, fun n hn => ?_⟩
  rcases List.mem_cons.1 hn with rfl | hn
  · exact Dict.contains_iff.1 (by simp [Dict.contains, hdeclared])
  · exact h.declared n hn

/-- A computation on a watched evaluator goes as one on its memo: the conditions in progress are the
same before and after, and what is written down meanwhile are stacks. -/
structure Scope.Watches (s : Scope) (inProgress : List String) {α : Type} (x : Eval Watched α)
    (y : Eval Memo α) (memo : Memo) (seen : List (List String)) : Prop where
  result : (x.answer ⟨⟨memo, inProgress⟩, seen⟩).1 = (y.answer memo).1
  evaluator : (x.answer ⟨⟨memo, inProgress⟩, seen⟩).2.evaluator = ⟨(y.answer memo).2, inProgress⟩
  seen : ∀ stack ∈ (x.answer ⟨⟨memo, inProgress⟩, seen⟩).2.seen, s.IsStack stack

/-- Two runs with the same result, memo and stack. -/
theorem Scope.Watches.of_answer_eq {s : Scope} {inProgress : List String} {α : Type}
    {x : Eval Watched α} {y : Eval Memo α} {memo memo' : Memo} {seen seen' : List (List String)}
    {r : Except EvalError α}
    (hx : x.answer ⟨⟨memo, inProgress⟩, seen⟩ = (r, ⟨⟨memo', inProgress⟩, seen'⟩))
    (hy : y.answer memo = (r, memo')) (hseen : ∀ stack ∈ seen', s.IsStack stack) :
    s.Watches inProgress x y memo seen where
  result := by rw [hx, hy]
  evaluator := by rw [hx, hy]
  seen := by rwa [hx]

/-- The two runs of computations of which one goes as the other. -/
theorem Scope.Watches.exists_answer {s : Scope} {inProgress : List String} {α : Type}
    {x : Eval Watched α} {y : Eval Memo α} {memo : Memo} {seen : List (List String)}
    (h : s.Watches inProgress x y memo seen) :
    ∃ r memo' seen', x.answer ⟨⟨memo, inProgress⟩, seen⟩ = (r, ⟨⟨memo', inProgress⟩, seen'⟩) ∧
      y.answer memo = (r, memo') ∧ ∀ stack ∈ seen', s.IsStack stack := by
  obtain ⟨hresult, hevaluator, hseen⟩ := h
  rcases hx : x.answer ⟨⟨memo, inProgress⟩, seen⟩ with ⟨r, e, seen'⟩
  rw [hx] at hresult hevaluator hseen
  obtain rfl : e = ⟨(y.answer memo).2, inProgress⟩ := hevaluator
  exact ⟨r, (y.answer memo).2, seen', rfl, Prod.ext hresult.symm rfl, hseen⟩

/-- The congruence of watched computations, as long as what was written down before are stacks. -/
def Eval.Congruence.watched (s : Scope) (inProgress : List String) :
    Eval.Congruence Watched Memo where
  rel x y := ∀ memo seen, (∀ stack ∈ seen, s.IsStack stack) → s.Watches inProgress x y memo seen
  ret _ _ _ hseen := .of_answer_eq rfl rfl hseen
  fail _ _ _ _ hseen := .of_answer_eq rfl rfl hseen
  seq {_ _ x y f g} hx hf := by
    intro memo seen hseen
    obtain ⟨r, memo', seen', hxr, hyr, hseen'⟩ := (hx memo seen hseen).exists_answer
    have hxf := Eval.answer_bind x f ⟨⟨memo, inProgress⟩, seen⟩
    have hyg := Eval.answer_bind y g memo
    rw [hxr] at hxf
    rw [hyr] at hyg
    cases r with
    | error e => exact .of_answer_eq hxf hyg hseen'
    | ok a =>
      obtain ⟨r, memo'', seen'', hfr, hgr, hlast⟩ := (hf a memo' seen' hseen').exists_answer
      exact .of_answer_eq (hxf.trans hfr) (hyg.trans hgr) hlast

namespace Evaluator

variable {s : Scope} {inProgress : List String} {name : String} {memo memo' : Memo}
  {seen seen' : List (List String)}

theorem seen_append (hseen : ∀ stack ∈ seen, s.IsStack stack) (hstack : s.IsStack inProgress) :
    ∀ stack ∈ seen ++ [inProgress], s.IsStack stack :=
  List.forall_mem_append.2 ⟨hseen, List.forall_mem_singleton.2 hstack⟩

/-- A watched round that enters a condition pushes it, evaluates its expression and pops it. -/
theorem answer_decideWith_declared {decide : String → Eval Watched Bool} {o : Operand}
    {r : Except EvalError Value} (hmemo : Entries.find? memo name = none) (hnew : name ∉ inProgress)
    (hdeclared : s.template.conditions.find? name = some o)
    (hrun : (o.evaluate s decide).answer ⟨⟨memo, name :: inProgress⟩, seen ++ [name :: inProgress]⟩ =
      (r, ⟨⟨memo', name :: inProgress⟩, seen'⟩)) :
    (Holder.watching.decideWith s decide name).answer ⟨⟨memo, inProgress⟩, seen⟩ =
      match r with
      | .error e => (.error e, ⟨⟨memo', inProgress⟩, seen' ++ [inProgress]⟩)
      | .ok v =>
        match v.bool? with
        | none => (.error (.nonBooleanCondition name), ⟨⟨memo', inProgress⟩, seen' ++ [inProgress]⟩)
        | some b => (.ok b, ⟨⟨Entries.insert memo' name b, inProgress⟩,
            seen' ++ [inProgress] ++ [inProgress]⟩) := by
  simp only [Holder.decideWith, Holder.watching, Eval.answer_bind, Eval.answer_get, hmemo, hnew,
    if_false, hdeclared, Eval.answer_modify, push, Eval.answer_attempt, hrun, pop, List.tail_cons,
    Eval.answer_ofExcept]
  cases r with
  | error e => rfl
  | ok v =>
    cases hbool : v.bool? with
    | none => simp only [hbool]; rfl
    | some b => simp only [hbool]; rfl

/-- A watched round goes as a decision with the stack as an argument, and its stack is pushed and
popped within the invariant. -/
theorem watched_decideWith {decide : String → Eval Watched Bool} (hstack : s.IsStack inProgress)
    (h : ∀ o, s.template.conditions.find? name = some o → name ∉ inProgress → ∀ other,
      (Eval.Congruence.watched s (name :: inProgress)).rel (decide other)
        (s.decideCondition (name :: inProgress) other)) :
    (Eval.Congruence.watched s inProgress).rel (Holder.watching.decideWith s decide name)
      (s.decideCondition inProgress name) := by
  intro memo seen hseen
  -- The cases are those of a decision: remembered, circular, undeclared, and entered.
  cases hfind : Entries.find? memo name with
  | some b =>
    refine .of_answer_eq ?_ (s.decideCondition_remembered hfind) hseen
    simp [Holder.decideWith, Holder.watching, Eval.answer_bind, hfind]
  | none =>
    by_cases hin : name ∈ inProgress
    · refine .of_answer_eq ?_ (s.decideCondition_circular hfind hin) hseen
      simp [Holder.decideWith, Holder.watching, Eval.answer_bind, hfind, hin]
    · cases hdeclared : s.template.conditions.find? name with
      | none =>
        refine .of_answer_eq ?_ (s.decideCondition_undeclared hfind hin hdeclared) hseen
        simp [Holder.decideWith, Holder.watching, Eval.answer_bind, hfind, hin, hdeclared]
      | some o =>
        have hexpression : (Eval.Congruence.watched s (name :: inProgress)).rel
            (o.evaluate s decide) (o.evaluate s (s.decideCondition (name :: inProgress))) := by
          refine o.evaluate_congr _ (.refl (fun r memo seen hseen => ?_) s _) fun other _ =>
            h o hdeclared hin other
          exact .of_answer_eq (Eval.answer_ofExcept _ _) (Eval.answer_ofExcept _ _) hseen
        -- The stack with the condition is written down before its expression is evaluated.
        have hpushed := seen_append hseen (hstack.push hin hdeclared)
        obtain ⟨r, memo', seen', hx, hy, hseen'⟩ := (hexpression memo _ hpushed).exists_answer
        have hround := answer_decideWith_declared hfind hin hdeclared hx
        have hdecision := s.decideCondition_declared hfind hin hdeclared
        rw [hy] at hdecision
        -- The stack without it is written down again, also where the expression fails.
        have hpopped := seen_append hseen' hstack
        cases r with
        | error e => exact .of_answer_eq hround hdecision hpopped
        | ok v =>
          cases hbool : v.bool? with
          | none =>
            simp only [hbool] at hround hdecision
            exact .of_answer_eq hround hdecision hpopped
          | some b =>
            simp only [hbool] at hround hdecision
            exact .of_answer_eq hround hdecision (seen_append hpopped hstack)

/-- Rounds within more rounds than there are conditions that are not in progress decide a condition,
however deeper ones would be decided. -/
theorem watched_decideWithin (deeper : String → Eval Watched Bool) {depth : Nat}
    (hstack : s.IsStack inProgress) (hdepth : (s.waiting inProgress).length < depth) (name : String) :
    (Eval.Congruence.watched s inProgress).rel (Holder.watching.decideWithin s deeper depth name)
      (s.decideCondition inProgress name) := by
  induction depth generalizing inProgress name with
  | zero => exact absurd hdepth (Nat.not_lt_zero _)
  | succ depth ih =>
    refine watched_decideWith hstack fun o hdeclared hnew other => ?_
    have hfewer := Scope.length_waiting_lt hdeclared hnew
    exact ih (hstack.push hnew hdeclared) (by omega) other

end Evaluator

/-! ## Cycles -/

namespace Template

/-- A condition stands on a cycle: distinct declared conditions, each of which mentions the next
one, and the last one the first. -/
def OnCycle (t : Template) (name : String) : Prop :=
  ∃ others, (name :: others).Nodup ∧ (∀ c ∈ name :: others, c ∈ t.conditions.keys) ∧
    (name :: others ++ [name]).IsChain t.Mentions

end Template

namespace Scope

variable {s : Scope} {inProgress : List String} {name c : String}

/-- What comes back to a stack, in which each condition mentions the one above it, stands on a
cycle. -/
theorem IsStack.onCycle (h : s.IsStack inProgress)
    (hpath : (name :: inProgress).IsChain fun a b => s.template.Mentions b a)
    (hmem : name ∈ inProgress) : s.template.OnCycle name := by
  -- The cycle is the part of the stack above the condition, read from below.
  obtain ⟨above, below, rfl, habove⟩ := List.eq_append_cons_of_mem hmem
  have hnodup : above.Nodup := (List.nodup_append.1 h.nodup).1
  have hback : (name :: above ++ [name]).IsChain fun a b => s.template.Mentions b a := by
    have hsplit : name :: (above ++ name :: below) = (name :: above ++ [name]) ++ below := by simp
    rw [hsplit] at hpath
    exact hpath.left_of_append
  refine ⟨above.reverse, ?_, ?_, ?_⟩
  · simpa using ⟨habove, hnodup⟩
  · intro d hd
    rcases List.mem_cons.1 hd with rfl | hd
    · exact h.declared d hmem
    · exact h.declared d (List.mem_append_left _ (List.mem_reverse.1 hd))
  · have hreverse : name :: above.reverse ++ [name] = (name :: above ++ [name]).reverse := by simp
    rw [hreverse]
    exact List.isChain_reverse.2 hback

/-- An expression that is found circular mentions a condition whose decision is. -/
theorem exists_mention_of_circular {decide : String → Eval Unit Bool} {o : Operand}
    (h : ((o.evaluate s decide).answer ()).1 = .error (.circularCondition c)) :
    ∃ other, .condition other ∈ o.mentions ∧
      ((decide other).answer ()).1 = .error (.circularCondition c) := by
  -- The one error is avoided where no decision in the expression has it.
  by_contra hnone
  have havoids : (o.evaluate s decide).Avoids (· == .circularCondition c) := by
    refine avoids_evaluate (fun e he => ?_) fun other hother st e he => ?_
    · cases e <;> simp_all [EvalError.isCircular]
    · refine beq_eq_false_iff_ne.2 ?_
      rintro rfl
      exact hnone ⟨other, hother, he⟩
  simpa using havoids () _ h

/-- A condition that is found circular is reached from the one that is decided, and stands on a
cycle. -/
theorem circular_of_decideAfresh (hstack : s.IsStack inProgress)
    (hpath : (name :: inProgress).IsChain fun a b => s.template.Mentions b a)
    (h : ((s.decideAfresh inProgress name).answer ()).1 = .error (.circularCondition c)) :
    ReflTransGen s.template.Mentions name c ∧ s.template.OnCycle c := by
  induction inProgress using s.inProgress_induction generalizing name with
  | enter inProgress ih =>
    by_cases hin : name ∈ inProgress
    · -- The decision has come back to its own condition, which the stack below it leads to.
      rw [decideAfresh_circular hin] at h
      cases h
      exact ⟨.refl, hstack.onCycle hpath hin⟩
    · cases hfind : s.template.conditions.find? name with
      | none =>
        rw [decideAfresh_undeclared hin hfind] at h
        cases h
      | some o =>
        -- The error is the one of the expression, since a value is never circular.
        have hexpression : ((o.evaluate s (s.decideAfresh (name :: inProgress))).answer ()).1 =
            .error (.circularCondition c) := by
          rw [decideAfresh_declared hin hfind, Eval.answer_bind] at h
          rcases hrun : (o.evaluate s (s.decideAfresh (name :: inProgress))).answer () with
            ⟨e | v, st⟩
          · rw [hrun] at h
            cases h
            rfl
          · rw [hrun] at h
            cases hbool : v.bool? <;> simp [hbool] at h
        obtain ⟨other, hother, hcircular⟩ := exists_mention_of_circular hexpression
        have hmentions : s.template.Mentions name other := ⟨o, hfind, hother⟩
        obtain ⟨hreach, hcycle⟩ := ih name o hfind hin (hstack.push hin hfind)
          (List.isChain_cons_cons.2 ⟨hmentions, hpath⟩) hcircular
        exact ⟨.head hmentions hreach, hcycle⟩

end Scope

/-! ## Calls -/

/-- The error that a call is answered with. -/
def Answer.error? : Answer → Option EvalError
  | .value (.error e) | .decision (.error e) => some e
  | _ => none

@[simp] theorem Answer.error?_value {r : Except EvalError Value} {e : EvalError} :
    (value r).error? = some e ↔ r = .error e := by
  cases r <;> simp [error?]

@[simp] theorem Answer.error?_decision {r : Except EvalError Bool} {e : EvalError} :
    (decision r).error? = some e ↔ r = .error e := by
  cases r <;> simp [error?]

/-- What a call mentions itself. -/
def Query.mentions : Query → List Reference
  | .operand o => o.mentions
  | .condition name => [.condition name]

namespace Evaluator

variable {s : Scope}

/-- A call on an evaluator that is watched from the beginning is answered within more rounds than
there are conditions, however deeper ones would be decided. -/
theorem watched_run (deeper : String → Eval Watched Bool) {depth : Nat}
    (hdepth : s.template.conditions.keys.length < depth) (q : Query) :
    (q.run s (Holder.watching.decideWithin s deeper depth) ⟨fresh, []⟩).1 = (fresh.ask s q).1 ∧
      (q.run s (Holder.watching.decideWithin s deeper depth) ⟨fresh, []⟩).2.evaluator =
        (fresh.ask s q).2 ∧
      ∀ stack ∈ (q.run s (Holder.watching.decideWithin s deeper depth) ⟨fresh, []⟩).2.seen,
        s.IsStack stack := by
  have hwaiting : (s.waiting []).length < depth := by simpa [Scope.waiting] using hdepth
  have hdecision := watched_decideWithin deeper (.nil s) hwaiting
  cases q with
  | condition name =>
    obtain ⟨hresult, hevaluator, hseen⟩ := hdecision name [] [] (by simp)
    exact ⟨congrArg Answer.decision hresult, hevaluator, hseen⟩
  | operand o =>
    have hwatched : (Eval.Congruence.watched s []).rel
        (o.evaluate s (Holder.watching.decideWithin s deeper depth))
        (o.evaluate s (s.decideCondition [])) := by
      refine o.evaluate_congr _ (.refl (fun r memo seen hseen => ?_) s _) fun other _ =>
        hdecision other
      exact .of_answer_eq (Eval.answer_ofExcept _ _) (Eval.answer_ofExcept _ _) hseen
    -- The unwatched evaluator goes as its memo does, so both go alike.
    have hlockstep : (Eval.Congruence.lockstep []).rel (o.evaluate s (condition s))
        (o.evaluate s (s.decideCondition [])) := by
      refine o.evaluate_congr _ (.refl (fun r memo => ?_) s _) fun name _ =>
        condition_lockstep [] name
      rw [Eval.answer_ofExcept, Eval.answer_ofExcept]
    obtain ⟨hresult, hevaluator, hseen⟩ := hwatched [] [] (by simp)
    have hask := hlockstep []
    refine ⟨congrArg Answer.value ?_, ?_, hseen⟩
    · exact hresult.trans (congrArg Prod.fst hask).symm
    · exact hevaluator.trans (congrArg Prod.snd hask).symm

/-- Where a fresh evaluator finds a condition circular, the call reaches it, and it stands on a
cycle. -/
theorem circular_of_ask {q : Query} {name : String}
    (h : (fresh.ask s q).1.error? = some (.circularCondition name)) :
    (∃ first, .condition first ∈ q.mentions ∧ ReflTransGen s.template.Mentions first name) ∧
      s.template.OnCycle name := by
  rw [(ask_of_idle (idle_fresh s) q).1] at h
  obtain ⟨first, hfirst, hcircular⟩ : ∃ first, .condition first ∈ q.mentions ∧
      ((s.decideAfresh [] first).answer ()).1 = .error (.circularCondition name) := by
    cases q with
    | condition first => exact ⟨first, List.mem_singleton_self _, Answer.error?_decision.1 h⟩
    | operand o => exact Scope.exists_mention_of_circular (Answer.error?_value.1 h)
  obtain ⟨hreach, hcycle⟩ :=
    Scope.circular_of_decideAfresh (.nil s) (List.isChain_singleton first) hcircular
  exact ⟨⟨first, hfirst, hreach⟩, hcycle⟩

/-- Every call on a fresh evaluator ends, whatever the conditions mention: with a value or an error
that rounds within more rounds than there are conditions find, whatever would be done below them.
The rounds are those of an evaluator, watched. At every moment the conditions in progress are
declared, and none is in progress twice. A condition that is found circular is reached from the
call, and stands on a cycle of declared conditions. -/
theorem ask_ends (s : Scope) (q : Query) :
    (∀ decide, Holder.plain.decideWith s decide = decideWith s decide) ∧
    (∀ (deeper : String → Eval Watched Bool) (depth : Nat),
      s.template.conditions.keys.length < depth →
        (q.run s (Holder.watching.decideWithin s deeper depth) ⟨fresh, []⟩).1 = (fresh.ask s q).1 ∧
        (q.run s (Holder.watching.decideWithin s deeper depth) ⟨fresh, []⟩).2.evaluator =
          (fresh.ask s q).2 ∧
        ∀ stack ∈ (q.run s (Holder.watching.decideWithin s deeper depth) ⟨fresh, []⟩).2.seen,
          stack.Nodup ∧ ∀ name ∈ stack, name ∈ s.template.conditions.keys) ∧
    ∀ name, (fresh.ask s q).1.error? = some (.circularCondition name) →
      (∃ first, .condition first ∈ q.mentions ∧ ReflTransGen s.template.Mentions first name) ∧
        s.template.OnCycle name := by
  refine ⟨Holder.decideWith_plain s, fun deeper depth hdepth => ?_, fun name => circular_of_ask⟩
  obtain ⟨hanswer, hevaluator, hseen⟩ := watched_run deeper hdepth q
  exact ⟨hanswer, hevaluator, fun stack hstack => ⟨(hseen stack hstack).nodup,
    (hseen stack hstack).declared⟩⟩

/-- A template in which a condition leads into a cycle of two others. -/
def leadingIntoCycle : Scope :=
  ⟨{ Template.empty with
      conditions :=
        ⟨[("Start", .call (.not (.call (.condition "Loop")))),
          ("Loop", .call (.or [.call (.condition "Back"), .scalar (.bool true)])),
          ("Back", .list [.call (.condition "Loop")])], by simp [Entries.keys]⟩ }, default⟩

/-- The condition that is found circular is not the one that the call names. The stack grows up to
all three conditions and is empty in the end. -/
theorem leadingIntoCycle_ends :
    (fresh.ask leadingIntoCycle (.condition "Start")).1.error? = some (.circularCondition "Loop") ∧
    (∃ first, .condition first ∈ (Query.condition "Start").mentions ∧
      ReflTransGen leadingIntoCycle.template.Mentions first "Loop") ∧
    leadingIntoCycle.template.OnCycle "Loop" ∧
    ∃ w, (Query.run leadingIntoCycle (Holder.watching.decideWithin leadingIntoCycle
      (fun name => throw (.unknownCondition name)) 4) ⟨fresh, []⟩ (.condition "Start")).2 = w ∧
      w.seen = [["Start"], ["Loop", "Start"], ["Back", "Loop", "Start"], ["Loop", "Start"],
        ["Start"], []] ∧
      ∀ stack ∈ w.seen, stack.Nodup ∧
        ∀ name ∈ stack, name ∈ leadingIntoCycle.template.conditions.keys := by
  obtain ⟨-, hends, hcircular⟩ := ask_ends leadingIntoCycle (.condition "Start")
  obtain ⟨hanswer, -, hseen⟩ := hends (fun name => throw (.unknownCondition name)) 4 (by decide)
  have herror : (fresh.ask leadingIntoCycle (.condition "Start")).1.error? =
      some (.circularCondition "Loop") := by
    rw [← hanswer]
    rfl
  obtain ⟨hreached, hcycle⟩ := hcircular "Loop" herror
  exact ⟨herror, hreached, hcycle, _, rfl, rfl, hseen⟩

end Evaluator

end StackTemplate
