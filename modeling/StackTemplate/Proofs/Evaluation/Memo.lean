import StackTemplate.Proofs.Evaluation.Congruence

/-!
# Remembered conditions

Deciding a condition with a memo gives what deciding it afresh gives: a truth value that was found
while other conditions were in progress does not depend on them. The invariant is `Memo.Sound`:
each remembered truth value is what its expression gives when only the conditions remembered before
it are read. A condition in progress is never among the remembered ones.

* `Scope.decideAfresh` : deciding a condition without a memo.
* `Memo.Sound.decideAfresh_eq` : a remembered truth value is found again from every stack of
  conditions in progress that are not remembered.
* `Scope.decideCondition_sound` : one decision keeps the invariant and gives what deciding afresh
  gives.
-/

namespace StackTemplate

@[simp] theorem Eval.answer_get {σ : Type} (st : σ) : (get : Eval σ σ).answer st = (.ok st, st) :=
  rfl

namespace Scope

/-- Decides a condition that is reached from the conditions in progress, without a memo. -/
def decideAfresh (s : Scope) (inProgress : List String) (name : String) : Eval Unit Bool := do
  if _ : name ∈ inProgress then throw (.circularCondition name)
  else
    match _ : s.template.conditions.find? name with
    | none => throw (.unknownCondition name)
    | some expression =>
      let v ← expression.evaluate s fun other => decideAfresh s (name :: inProgress) other
      match v.bool? with
      | none => throw (.nonBooleanCondition name)
      | some b => return b
termination_by (s.waiting inProgress).length
decreasing_by exact length_waiting_lt ‹_› ‹_›

/-- What deciding a condition afresh gives. -/
def freshDecision (s : Scope) (name : String) : Except EvalError Bool :=
  ((s.decideAfresh [] name).answer ()).1

variable {s : Scope} {inProgress : List String} {name : String}

/-- Induction along the conditions in progress. A decision enters declared conditions only, and none
of them twice, so a statement holds if it holds whenever it holds with one more in progress. -/
theorem inProgress_induction (s : Scope) {P : List String → Prop}
    (enter : ∀ inProgress, (∀ name o, s.template.conditions.find? name = some o →
      name ∉ inProgress → P (name :: inProgress)) → P inProgress)
    (inProgress : List String) : P inProgress := by
  induction hn : (s.waiting inProgress).length using Nat.strongRecOn generalizing inProgress with
  | ind n ih =>
    subst hn
    -- The number of declared conditions that are not in progress goes down.
    exact enter inProgress fun name o hdeclared hnew =>
      ih _ (length_waiting_lt hdeclared hnew) (name :: inProgress) rfl

/-! ## One round of a decision -/

theorem decideAfresh_circular (h : name ∈ inProgress) :
    s.decideAfresh inProgress name = throw (.circularCondition name) := by
  rw [decideAfresh, dif_pos h]

/-- A condition that is not declared is unknown. -/
theorem decideAfresh_undeclared (hnew : name ∉ inProgress)
    (h : s.template.conditions.find? name = none) :
    s.decideAfresh inProgress name = throw (.unknownCondition name) := by
  rw [decideAfresh, dif_neg hnew]
  split
  · rfl
  · next hsome => simp [h] at hsome

/-- A declared condition that is not in progress has the truth value of its expression. -/
theorem decideAfresh_declared {o : Operand} (hnew : name ∉ inProgress)
    (h : s.template.conditions.find? name = some o) :
    s.decideAfresh inProgress name =
      (o.evaluate s (s.decideAfresh (name :: inProgress))) >>= fun v =>
        match v.bool? with
        | none => throw (.nonBooleanCondition name)
        | some b => pure b := by
  rw [decideAfresh, dif_neg hnew]
  split
  · next hnone => simp [h] at hnone
  · next o' hsome =>
    have ho : o' = o := by simpa [hsome] using h
    rw [ho]

/-- A remembered condition is not decided again. -/
theorem decideCondition_remembered {b : Bool} {memo : Memo}
    (h : Entries.find? memo name = some b) :
    (s.decideCondition inProgress name).answer memo = (.ok b, memo) := by
  rw [decideCondition, Eval.answer_bind]
  simp [Eval.answer_get, h]

/-- A condition in progress that is not remembered is circular, and the memo stays. -/
theorem decideCondition_circular {memo : Memo} (hmemo : Entries.find? memo name = none)
    (h : name ∈ inProgress) :
    (s.decideCondition inProgress name).answer memo = (.error (.circularCondition name), memo) := by
  rw [decideCondition, Eval.answer_bind]
  simp [Eval.answer_get, hmemo, h]

/-- A condition that is neither remembered nor declared is unknown, and the memo stays. -/
theorem decideCondition_undeclared {memo : Memo} (hmemo : Entries.find? memo name = none)
    (hnew : name ∉ inProgress) (h : s.template.conditions.find? name = none) :
    (s.decideCondition inProgress name).answer memo = (.error (.unknownCondition name), memo) := by
  rw [decideCondition, Eval.answer_bind]
  simp only [Eval.answer_get, hmemo, hnew, dite_false]
  split
  · rfl
  · next hsome => simp [h] at hsome

/-- A declared condition that is neither remembered nor in progress has the truth value of its
expression, which is then remembered. -/
theorem decideCondition_declared {memo : Memo} {o : Operand}
    (hmemo : Entries.find? memo name = none) (hnew : name ∉ inProgress)
    (h : s.template.conditions.find? name = some o) :
    (s.decideCondition inProgress name).answer memo =
      match (o.evaluate s (s.decideCondition (name :: inProgress))).answer memo with
      | (.error e, memo') => (.error e, memo')
      | (.ok v, memo') =>
        match v.bool? with
        | none => (.error (.nonBooleanCondition name), memo')
        | some b => (.ok b, Entries.insert memo' name b) := by
  rw [decideCondition, Eval.answer_bind]
  simp only [Eval.answer_get, hmemo, hnew, dite_false]
  split
  · next hnone => simp [h] at hnone
  · next o' hsome =>
    have ho : o' = o := by simpa [hsome] using h
    rw [ho, Eval.answer_bind]
    rcases (o.evaluate s (s.decideCondition (name :: inProgress))).answer memo with ⟨e | v, memo'⟩
    · rfl
    · simp only
      cases v.bool? with
      | none => rfl
      | some b => rfl

end Scope

/-! ## Sound memos -/

/-- Reads the truth value of a condition from the memo, and decides nothing. -/
def remembered (name : String) : Eval Memo Bool := do
  match Entries.find? (← get) name with
  | some b => return b
  | none => throw (.unknownCondition name)

/-- Only a remembered truth value is recalled, and the memo stays. -/
theorem answer_remembered_eq_ok {memo memo' : Memo} {name : String} {b : Bool} :
    (remembered name).answer memo = (.ok b, memo') ↔
      Entries.find? memo name = some b ∧ memo' = memo := by
  rw [remembered, Eval.answer_bind]
  cases hfind : Entries.find? memo name <;> simp [Eval.answer_get, hfind, eq_comm]

/-- Each remembered truth value is what the expression of its condition gives when the conditions
that it reads are recalled from the part of the memo before it. -/
inductive Memo.Sound (s : Scope) : Memo → Prop where
  | empty : Sound s []
  | remember {memo : Memo} {name : String} {o : Operand} {v : Value} {b : Bool} :
    Sound s memo → name ∉ Entries.keys memo → s.template.conditions.find? name = some o →
      (o.evaluate s remembered).answer memo = (.ok v, memo) → v.bool? = some b →
        Sound s (memo ++ [(name, b)])

/-- A sound memo without the conditions in progress. -/
structure Memo.Valid (s : Scope) (inProgress : List String) (memo : Memo) : Prop where
  sound : Memo.Sound s memo
  apart : ∀ name ∈ inProgress, name ∉ Entries.keys memo

/-- A scope gives what it gives, where that is related to itself. -/
theorem Scope.LookupsRelated.refl {σ τ : Type} {C : Eval.Congruence σ τ}
    (h : ∀ r : Except EvalError Value, C.rel (Eval.ofExcept r) (Eval.ofExcept r)) (s : Scope)
    (mentioned : List Reference) : Scope.LookupsRelated C s s mentioned where
  ref name _ := h (s.ref name)
  attributeValue resource _ name _ := h (s.attributeValue resource name)
  imports := rfl
  maps := rfl
  zones := rfl

/-- What succeeds on a memo, and keeps it, succeeds with the same result without a memo. -/
def Eval.Congruence.forgetting (memo : Memo) : Eval.Congruence Memo Unit where
  rel x y := ∀ a memo', x.answer memo = (.ok a, memo') →
    memo' = memo ∧ y.answer () = (.ok a, ())
  ret a := by
    intro a' memo' h
    cases h
    exact ⟨rfl, rfl⟩
  fail e _ := by
    intro a memo' h
    cases h
  seq {_ _ x y f g} hx hf := by
    intro b memo' h
    obtain ⟨a, memo₁, hxm, hfa⟩ := Eval.answer_bind_eq_ok.1 h
    obtain ⟨rfl, hy⟩ := hx a memo₁ hxm
    obtain ⟨rfl, hg⟩ := hf a b memo' hfa
    exact ⟨rfl, Eval.answer_bind_eq_ok.2 ⟨a, (), hy, hg⟩⟩

/-- A remembered truth value is found again without the memo, whichever conditions are in progress
besides the remembered ones. -/
theorem Memo.Sound.decideAfresh_eq {s : Scope} {memo : Memo} (h : Memo.Sound s memo)
    {inProgress : List String} (hapart : ∀ n ∈ inProgress, n ∉ Entries.keys memo) {name : String}
    {b : Bool} (hmem : (name, b) ∈ memo) :
    (s.decideAfresh inProgress name).answer () = (.ok b, ()) := by
  induction h generalizing inProgress name b with
  | empty => cases hmem
  | @remember memo newest o v c hmemo hnew hdeclared hv hbool ih =>
    have hkeys : ∀ n ∈ inProgress, n ∉ Entries.keys memo ∧ n ≠ newest := by
      intro n hn
      have := hapart n hn
      simp only [Entries.keys, List.map_append, List.map_cons, List.map_nil, List.mem_append,
        List.mem_singleton, not_or] at this
      exact this
    rcases List.mem_append.1 hmem with hold | hlast
    · exact ih (fun n hn => (hkeys n hn).1) hold
    · obtain ⟨rfl, rfl⟩ : name = newest ∧ b = c := by simpa using hlast
      have hnotin : name ∉ inProgress := fun hin => (hkeys name hin).2 rfl
      have hstack : ∀ n ∈ name :: inProgress, n ∉ Entries.keys memo := by
        intro n hn
        rcases List.mem_cons.1 hn with rfl | hn
        · exact hnew
        · exact (hkeys n hn).1
      -- The expression recalls earlier conditions only, and those are found again by induction.
      have hsame : (Eval.Congruence.forgetting memo).rel (o.evaluate s remembered)
          (o.evaluate s (s.decideAfresh (name :: inProgress))) := by
        refine o.evaluate_congr _ (.refl ?_ s _) fun other _ => ?_
        · intro r a memo' hr
          rw [Eval.answer_ofExcept] at hr
          cases hr
          exact ⟨rfl, rfl⟩
        · intro a memo' hremembered
          obtain ⟨hfind, rfl⟩ := answer_remembered_eq_ok.1 hremembered
          exact ⟨rfl, ih hstack (Entries.mem_of_find?_eq_some hfind)⟩
      obtain ⟨-, hfresh⟩ := hsame v memo hv
      rw [Scope.decideAfresh_declared hnotin hdeclared, Eval.answer_bind, hfresh]
      simp [hbool]

/-! ## Growing memos -/

/-- A computation that only adds to a memo and keeps what is required of it. -/
def Eval.Grows {α : Type} (required : Memo → Prop) (x : Eval Memo α) : Prop :=
  ∀ memo, required memo → memo <+: (x.answer memo).2 ∧ required (x.answer memo).2

/-- What leaves the memo alone keeps what is required of it. -/
theorem Eval.grows_of_answer_eq {α : Type} {required : Memo → Prop} {x : Eval Memo α}
    (h : ∀ memo, (x.answer memo).2 = memo) : Eval.Grows required x := by
  intro memo hmemo
  rw [h memo]
  exact ⟨List.prefix_rfl, hmemo⟩

/-- What only adds to a memo may be followed by what only adds to it. -/
theorem Eval.Grows.bind {α β : Type} {required : Memo → Prop} {x : Eval Memo α}
    {f : α → Eval Memo β} (hx : Eval.Grows required x) (hf : ∀ a, Eval.Grows required (f a)) :
    Eval.Grows required (x >>= f) := by
  intro memo hmemo
  obtain ⟨hgrow, hkept⟩ := hx memo hmemo
  rw [Eval.answer_bind]
  rcases hxm : x.answer memo with ⟨e | a, memo'⟩
  · rw [hxm] at hgrow hkept
    exact ⟨hgrow, hkept⟩
  · rw [hxm] at hgrow hkept
    obtain ⟨hgrow', hkept'⟩ := hf a memo' hkept
    exact ⟨hgrow.trans hgrow', hkept'⟩

/-- The same result with and without a memo of which something is required. -/
def Eval.Congruence.memoized (required : Memo → Prop) : Eval.Congruence Memo Unit where
  rel x y := Eval.Grows required x ∧
    ∀ memo, required memo → (x.answer memo).1 = (y.answer ()).1
  ret a := ⟨Eval.grows_of_answer_eq fun _ => rfl, fun _ _ => rfl⟩
  fail e _ := ⟨Eval.grows_of_answer_eq fun _ => rfl, fun _ _ => rfl⟩
  seq {_ _ x y f g} hx hf := by
    refine ⟨hx.1.bind fun a => (hf a).1, fun memo hmemo => ?_⟩
    have hkept := (hx.1 memo hmemo).2
    have hsame := hx.2 memo hmemo
    rw [Eval.answer_bind, Eval.answer_bind]
    rcases hxm : x.answer memo with ⟨e | a, memo'⟩ <;> rcases hy : y.answer () with ⟨e' | a', u⟩ <;>
      rw [hxm, hy] at hsame <;> cases hsame
    · rfl
    · rw [hxm] at hkept
      exact (hf a).2 memo' hkept

/-- What succeeds and fills a memo succeeds again, with the same result, on every later memo, where
it adds nothing. -/
def Eval.Congruence.replayed (required : Memo → Prop) : Eval.Congruence Memo Memo where
  rel x y := Eval.Grows required x ∧
    ∀ memo later a, required memo → (x.answer memo).1 = .ok a → (x.answer memo).2 <+: later →
      y.answer later = (.ok a, later)
  ret a := by
    refine ⟨Eval.grows_of_answer_eq fun _ => rfl, fun memo later a' _ ha _ => ?_⟩
    cases ha
    rfl
  fail e _ := by
    refine ⟨Eval.grows_of_answer_eq fun _ => rfl, fun memo later a _ ha _ => ?_⟩
    cases ha
  seq {_ _ x y f g} hx hf := by
    refine ⟨hx.1.bind fun a => (hf a).1, fun memo later b hmemo hb hlater => ?_⟩
    have hkept := (hx.1 memo hmemo).2
    rw [Eval.answer_bind] at hb hlater
    rcases hxm : x.answer memo with ⟨e | a, memo'⟩
    · rw [hxm] at hb
      cases hb
    · rw [hxm] at hb hlater hkept
      -- The second part only adds to the memo that the first one leaves.
      have hbetween : memo' <+: later := ((hf a).1 memo' hkept).1.trans hlater
      have hfirst : y.answer later = (.ok a, later) :=
        hx.2 memo later a hmemo (by rw [hxm]) (by rw [hxm]; exact hbetween)
      rw [Eval.answer_bind, hfirst]
      exact (hf a).2 memo' later b hkept hb hlater

/-! ## Decisions -/

/-- What a decision from a valid memo leads to. -/
structure Scope.Decides (s : Scope) (inProgress : List String) (name : String) (memo : Memo) :
    Prop where
  fresh : ((s.decideCondition inProgress name).answer memo).1 =
    ((s.decideAfresh inProgress name).answer ()).1
  grows : memo <+: ((s.decideCondition inProgress name).answer memo).2
  valid : Memo.Valid s inProgress ((s.decideCondition inProgress name).answer memo).2
  remembered : ∀ b, ((s.decideCondition inProgress name).answer memo).1 = .ok b →
    Entries.find? ((s.decideCondition inProgress name).answer memo).2 name = some b

/-- If the conditions that an expression mentions are decided soundly, so is the expression: it
gives what it gives afresh, and it gives that again when the conditions are recalled. -/
theorem Scope.evaluate_sound {s : Scope} {inProgress : List String}
    (hdec : ∀ name memo, Memo.Valid s inProgress memo → s.Decides inProgress name memo)
    (o : Operand) {memo : Memo} (hmemo : Memo.Valid s inProgress memo) :
    Eval.Grows (Memo.Valid s inProgress) (o.evaluate s (s.decideCondition inProgress)) ∧
      ((o.evaluate s (s.decideCondition inProgress)).answer memo).1 =
        ((o.evaluate s (s.decideAfresh inProgress)).answer ()).1 ∧
      ∀ v memo', (o.evaluate s (s.decideCondition inProgress)).answer memo = (.ok v, memo') →
        (o.evaluate s remembered).answer memo' = (.ok v, memo') := by
  have hgrows (name : String) :
      Eval.Grows (Memo.Valid s inProgress) (s.decideCondition inProgress name) :=
    fun memo hmemo => ⟨(hdec name memo hmemo).grows, (hdec name memo hmemo).valid⟩
  have hfresh : (Eval.Congruence.memoized (Memo.Valid s inProgress)).rel
      (o.evaluate s (s.decideCondition inProgress)) (o.evaluate s (s.decideAfresh inProgress)) := by
    refine o.evaluate_congr _ (.refl (fun r => ?_) s _) fun name _ => ?_
    · exact ⟨Eval.grows_of_answer_eq fun memo => by rw [Eval.answer_ofExcept],
        fun memo _ => by rw [Eval.answer_ofExcept, Eval.answer_ofExcept]⟩
    · exact ⟨hgrows name, fun memo hmemo => (hdec name memo hmemo).fresh⟩
  -- What is remembered while the expression is evaluated is found again by a replay.
  have hreplay : (Eval.Congruence.replayed (Memo.Valid s inProgress)).rel
      (o.evaluate s (s.decideCondition inProgress)) (o.evaluate s remembered) := by
    refine o.evaluate_congr _ (.refl (fun r => ?_) s _) fun name _ => ?_
    · refine ⟨Eval.grows_of_answer_eq fun memo => by rw [Eval.answer_ofExcept], ?_⟩
      intro memo later a _ ha _
      rw [Eval.answer_ofExcept] at ha ⊢
      cases ha
      rfl
    · refine ⟨hgrows name, fun memo later b hmemo hb hlater => ?_⟩
      have hfind := (hdec name memo hmemo).remembered b hb
      exact answer_remembered_eq_ok.2 ⟨Entries.find?_of_earlier hlater hfind, rfl⟩
  refine ⟨hfresh.1, hfresh.2 memo hmemo, fun v memo' hv => ?_⟩
  have hlast : ((o.evaluate s (s.decideCondition inProgress)).answer memo).2 <+: memo' :=
    ⟨[], by rw [List.append_nil, hv]⟩
  exact hreplay.2 memo memo' v hmemo (by rw [hv]) hlast

/-- A decision with a known outcome. -/
theorem Scope.Decides.of_answer_eq {s : Scope} {inProgress : List String} {name : String}
    {memo memo' : Memo} {r : Except EvalError Bool}
    (hrun : (s.decideCondition inProgress name).answer memo = (r, memo'))
    (hfresh : ((s.decideAfresh inProgress name).answer ()).1 = r) (hgrow : memo <+: memo')
    (hvalid : Memo.Valid s inProgress memo')
    (hfound : ∀ b, r = .ok b → Entries.find? memo' name = some b) :
    s.Decides inProgress name memo where
  fresh := by rw [hrun, hfresh]
  grows := by rwa [hrun]
  valid := by rwa [hrun]
  remembered b hb := by
    rw [hrun] at hb ⊢
    exact hfound b hb

/-- A decision that fails and leaves the memo alone. -/
theorem Scope.Decides.of_error {s : Scope} {inProgress : List String} {name : String}
    {memo : Memo} {e : EvalError} (hmemo : Memo.Valid s inProgress memo)
    (hrun : (s.decideCondition inProgress name).answer memo = (.error e, memo))
    (hfresh : s.decideAfresh inProgress name = throw e) : s.Decides inProgress name memo := by
  refine .of_answer_eq hrun (by rw [hfresh, Eval.answer_throw]) List.prefix_rfl hmemo ?_
  intro b hb
  cases hb

/-- A remembered condition is decided by the memo. -/
theorem Scope.Decides.of_remembered {s : Scope} {inProgress : List String} {name : String}
    {memo : Memo} {b : Bool} (hmemo : Memo.Valid s inProgress memo)
    (hfind : Entries.find? memo name = some b) : s.Decides inProgress name memo := by
  have hfresh := hmemo.sound.decideAfresh_eq hmemo.apart (Entries.mem_of_find?_eq_some hfind)
  refine .of_answer_eq (decideCondition_remembered hfind) (by rw [hfresh]) List.prefix_rfl hmemo ?_
  intro c hc
  cases hc
  exact hfind

theorem Memo.Valid.leave {s : Scope} {inProgress : List String} {name : String} {memo : Memo}
    (h : Memo.Valid s (name :: inProgress) memo) : Memo.Valid s inProgress memo :=
  ⟨h.sound, fun n hn => h.apart n (List.mem_cons_of_mem name hn)⟩

/-- A memo stays valid when a condition is entered that is not remembered. -/
theorem Memo.Valid.enter {s : Scope} {inProgress : List String} {name : String} {memo : Memo}
    (h : Memo.Valid s inProgress memo) (hname : name ∉ Entries.keys memo) :
    Memo.Valid s (name :: inProgress) memo := by
  refine ⟨h.sound, fun n hn => ?_⟩
  rcases List.mem_cons.1 hn with rfl | hn
  · exact hname
  · exact h.apart n hn

/-- A condition that is entered is decided soundly if those that its expression mentions are. -/
theorem Scope.Decides.of_declared {s : Scope} {inProgress : List String} {name : String}
    {memo : Memo} {o : Operand} (hmemo : Memo.Valid s inProgress memo)
    (hfind : Entries.find? memo name = none) (hnew : name ∉ inProgress)
    (hdeclared : s.template.conditions.find? name = some o)
    (hdec : ∀ other memo, Memo.Valid s (name :: inProgress) memo →
      s.Decides (name :: inProgress) other memo) : s.Decides inProgress name memo := by
  have hentered := hmemo.enter (Entries.find?_eq_none_iff.1 hfind)
  obtain ⟨hgrows, hsame, hremembered⟩ := evaluate_sound hdec o hentered
  obtain ⟨hgrow, hkept⟩ := hgrows memo hentered
  have hrun := decideCondition_declared hfind hnew hdeclared
  have hfresh := congrArg (fun x => (x.answer ()).1) (decideAfresh_declared hnew hdeclared)
  simp only [Eval.answer_bind] at hfresh
  -- Both evaluations give the same error or the same value.
  rcases hx : (o.evaluate s (s.decideCondition (name :: inProgress))).answer memo
    with ⟨e | v, memo'⟩ <;>
    rcases hy : (o.evaluate s (s.decideAfresh (name :: inProgress))).answer () with ⟨e' | v', u⟩ <;>
      rw [hx, hy] at hsame <;> cases hsame <;> rw [hx] at hrun hgrow hkept <;> rw [hy] at hfresh
  · refine .of_answer_eq hrun hfresh hgrow hkept.leave ?_
    intro b hb
    cases hb
  · -- The value decides the condition if it is a truth value.
    cases hbool : v.bool? with
    | none =>
      simp only [hbool] at hrun hfresh
      refine .of_answer_eq hrun hfresh hgrow hkept.leave ?_
      intro b hb
      cases hb
    | some b =>
      -- While the condition was in progress nothing was remembered under its name.
      have hstill : name ∉ Entries.keys memo' := hkept.apart name List.mem_cons_self
      simp only [hbool, Entries.insert_of_not_mem b hstill] at hrun hfresh
      refine .of_answer_eq hrun hfresh (hgrow.trans (List.prefix_append memo' _)) ⟨?_, ?_⟩ ?_
      · exact .remember hkept.sound hstill hdeclared (hremembered v memo' hx) hbool
      · -- The conditions that are still in progress are other ones.
        intro n hn
        have hold := hkept.leave.apart n hn
        have hne : n ≠ name := fun heq => hnew (heq ▸ hn)
        simpa [Entries.keys, hne] using hold
      · intro c hc
        cases hc
        exact Entries.find?_append_self b hstill

/-- One decision from a valid memo gives what deciding afresh gives and leaves a valid memo. -/
theorem Scope.decideCondition_sound (s : Scope) (inProgress : List String) (name : String)
    {memo : Memo} (hmemo : Memo.Valid s inProgress memo) : s.Decides inProgress name memo := by
  induction inProgress using s.inProgress_induction generalizing name memo with
  | enter inProgress ih =>
    cases hfind : Entries.find? memo name with
    | some b => exact .of_remembered hmemo hfind
    | none =>
      by_cases hin : name ∈ inProgress
      · exact .of_error hmemo (decideCondition_circular hfind hin) (decideAfresh_circular hin)
      · cases hdeclared : s.template.conditions.find? name with
        | none =>
          exact .of_error hmemo (decideCondition_undeclared hfind hin hdeclared)
            (decideAfresh_undeclared hin hdeclared)
        | some o =>
          exact .of_declared hmemo hfind hin hdeclared fun other memo' hmemo' =>
            ih name o hdeclared hin other hmemo'

/-! ## The order of the memo -/

namespace Scope

/-- Decides a condition afresh and writes down its name if it has a truth value. -/
def logged (s : Scope) (name : String) : Eval (List String) Bool := do
  let b ← Eval.ofExcept (s.freshDecision name)
  modify fun names => names ++ [name]
  return b

/-- The conditions whose truth values the evaluation of an operand reads, in order. -/
def reads (s : Scope) (o : Operand) : List String := ((o.evaluate s s.logged).answer []).2

end Scope

/-- The name of a condition that has a truth value is written down. -/
theorem Scope.answer_logged {s : Scope} {name : String} {b : Bool}
    (h : s.freshDecision name = .ok b) (names : List String) :
    (s.logged name).answer names = (.ok b, names ++ [name]) := by
  rw [Scope.logged, h]
  rfl

/-- What succeeds on a memo, and keeps it, succeeds while every name written down is remembered. -/
def Eval.Congruence.loggedWithin (memo : Memo) : Eval.Congruence Memo (List String) where
  rel x y := ∀ a memo', x.answer memo = (.ok a, memo') → memo' = memo ∧
    ∀ names, names ⊆ Entries.keys memo →
      (y.answer names).1 = .ok a ∧ (y.answer names).2 ⊆ Entries.keys memo
  ret a := by
    intro a' memo' h
    cases h
    exact ⟨rfl, fun names hnames => ⟨rfl, hnames⟩⟩
  fail e _ := by
    intro a memo' h
    cases h
  seq {_ _ x y f g} hx hf := by
    intro b memo' h
    obtain ⟨a, memo₁, hxm, hfa⟩ := Eval.answer_bind_eq_ok.1 h
    obtain ⟨rfl, hy⟩ := hx a memo₁ hxm
    obtain ⟨rfl, hg⟩ := hf a b memo' hfa
    refine ⟨rfl, fun names hnames => ?_⟩
    obtain ⟨hok, hwithin⟩ := hy names hnames
    rw [Eval.answer_bind_of_ok (Prod.ext hok rfl)]
    exact hg (y.answer names).2 hwithin

/-- An evaluation that recalls every condition that it needs reads remembered conditions only. -/
theorem Memo.Sound.reads_subset {s : Scope} {memo : Memo} (h : Memo.Sound s memo) {o : Operand}
    {v : Value} (hv : (o.evaluate s remembered).answer memo = (.ok v, memo)) :
    s.reads o ⊆ Entries.keys memo := by
  have hlog : (Eval.Congruence.loggedWithin memo).rel (o.evaluate s remembered)
      (o.evaluate s s.logged) := by
    refine o.evaluate_congr _ (.refl (fun r => ?_) s _) fun name _ => ?_
    · intro a memo' ha
      rw [Eval.answer_ofExcept] at ha
      cases ha
      refine ⟨rfl, fun names hnames => ?_⟩
      rw [Eval.answer_ofExcept]
      exact ⟨rfl, hnames⟩
    · intro b memo' hremembered
      -- A name is written down where its truth value is recalled.
      obtain ⟨hfind, rfl⟩ := answer_remembered_eq_ok.1 hremembered
      have hmem := Entries.mem_of_find?_eq_some hfind
      have hfresh : s.freshDecision name = .ok b := by
        rw [Scope.freshDecision, h.decideAfresh_eq (by simp) hmem]
      refine ⟨rfl, fun names hnames => ?_⟩
      rw [Scope.answer_logged hfresh]
      refine ⟨rfl, List.append_subset.2 ⟨hnames, fun other hother => ?_⟩⟩
      obtain rfl := List.mem_singleton.1 hother
      exact List.mem_map.2 ⟨(other, b), hmem, rfl⟩
  exact ((hlog v memo hv).2 [] (List.nil_subset _)).2

/-- Every part of a sound memo is sound: the truth value after it is what its expression gives when
the conditions that it reads are recalled from that part. -/
theorem Memo.Sound.at_entry {s : Scope} {earlier later : Memo} {name : String} {b : Bool}
    (h : Memo.Sound s (earlier ++ (name, b) :: later)) :
    Memo.Sound s earlier ∧ name ∉ Entries.keys earlier ∧
      ∃ o v, s.template.conditions.find? name = some o ∧
        (o.evaluate s remembered).answer earlier = (.ok v, earlier) ∧ v.bool? = some b := by
  generalize hmemo : earlier ++ (name, b) :: later = memo at h
  induction h generalizing later with
  | empty => simp at hmemo
  | @remember memo newest o v c hsound hnew hdeclared hv hbool ih =>
    rcases List.eq_nil_or_concat later with rfl | ⟨front, last, rfl⟩
    · -- The entry is the last one of the memo.
      obtain ⟨rfl, heq⟩ := List.append_inj' hmemo rfl
      obtain ⟨rfl, rfl⟩ : name = newest ∧ b = c := by simpa using heq
      exact ⟨hsound, hnew, o, v, hdeclared, hv, hbool⟩
    · have hsplit : (earlier ++ (name, b) :: front) ++ [last] = memo ++ [(newest, c)] := by
        simpa using hmemo
      exact ih (List.append_inj' hsplit rfl).1

end StackTemplate
