import StackTemplate.Proofs.Evaluation.Evaluator

/-!
# Evaluators that recall conditions

An evaluator looks at its memo before anything else. Whatever it remembers, it answers as one that
remembers nothing and serves the template in which each remembered condition is declared by its
truth value, with the conditions in progress that are not remembered. Since that one decides afresh,
an answer is one evaluation without a state, from every state of an evaluator.

* `Scope.recalling` : the scope in which remembered conditions are declared by their truth values.
* `Scope.tracking_decideCondition` : a memo is overlaid with the conditions that are decided.
* `Evaluator.ask_eq_recalling` : an answer is an evaluation without a state.
-/

namespace StackTemplate

/-- Computations on two states that are kept in a relation, with the same result. -/
def Eval.Congruence.tracking {σ τ : Type} (related : σ → τ → Prop) : Eval.Congruence σ τ where
  rel x y := ∀ st st', related st st' →
    (x.answer st).1 = (y.answer st').1 ∧ related (x.answer st).2 (y.answer st').2
  ret _ _ _ h := ⟨rfl, h⟩
  fail _ _ _ _ h := ⟨rfl, h⟩
  seq {_ _ x y f g} hx hf := by
    intro st st' h
    rcases hx st st' h with ⟨hresult, hkept⟩
    rw [Eval.answer_bind, Eval.answer_bind]
    rcases hxs : x.answer st with ⟨e | a, st₁⟩ <;> rcases hys : y.answer st' with ⟨e' | a', st₁'⟩ <;>
      rw [hxs, hys] at hresult hkept <;> cases hresult
    · exact ⟨rfl, hkept⟩
    · exact hf a st₁ st₁' hkept

/-- A memo finds what another one finds, and else what was added to a third one. -/
structure Memo.Overlay (base memo added : Memo) : Prop where
  found : ∀ name, Entries.find? memo name = (Entries.find? base name).or (Entries.find? added name)
  agree : ∀ name b b', Entries.find? base name = some b → Entries.find? added name = some b' → b' = b

variable {base memo added : Memo} {name : String} {b : Bool}

/-- Nothing has been added at first. -/
theorem Memo.overlay_self (base : Memo) : Memo.Overlay base base [] where
  found name := by simp
  agree name b b' _ h := by cases h

/-- What is added agrees with the base where both find something. -/
theorem Memo.Overlay.agree_insert (h : Memo.Overlay base memo added)
    (hb : ∀ c, Entries.find? base name = some c → b = c) (other : String) (c c' : Bool)
    (hc : Entries.find? base other = some c)
    (hc' : Entries.find? (Entries.insert added name b) other = some c') : c' = c := by
  rw [Entries.find?_insert] at hc'
  split at hc'
  · -- This is the condition that was added.
    next heq =>
    subst heq
    cases hc'
    exact hb c hc
  · exact h.agree other c c' hc hc'

/-- What the base finds may be added as it is found there. -/
theorem Memo.Overlay.recall (h : Memo.Overlay base memo added)
    (hbase : Entries.find? base name = some b) :
    Memo.Overlay base memo (Entries.insert added name b) where
  found other := by
    rw [h.found, Entries.find?_insert]
    split
    · next heq =>
      subst heq
      simp [hbase]
    · rfl
  agree := by
    apply h.agree_insert
    intro c hc
    rw [hbase] at hc
    exact Option.some.inj hc

/-- What the base does not find may be added to both. -/
theorem Memo.Overlay.remember (h : Memo.Overlay base memo added)
    (hbase : Entries.find? base name = none) (b : Bool) :
    Memo.Overlay base (Entries.insert memo name b) (Entries.insert added name b) where
  found other := by
    rw [Entries.find?_insert, Entries.find?_insert]
    split
    · next heq =>
      subst heq
      simp [hbase]
    · exact h.found other
  agree := by
    apply h.agree_insert
    intro c hc
    rw [hbase] at hc
    cases hc

namespace Scope

/-- The scope in which remembered conditions are declared by their truth values. -/
def recalling (s : Scope) (memo : Memo) : Scope :=
  { s with
    template :=
      { s.template with
        conditions := memo.foldr (fun e conditions => conditions.insert e.1 (.scalar (.bool e.2)))
          s.template.conditions } }

/-- A remembered condition is declared by its truth value, any other one as before. -/
theorem find?_recalling (s : Scope) (memo : Memo) (name : String) :
    (s.recalling memo).template.conditions.find? name =
      ((Entries.find? memo name).map fun b => .scalar (.bool b)).or
        (s.template.conditions.find? name) := by
  induction memo with
  | nil => rfl
  | cons e memo ih =>
    rcases e with ⟨key, b⟩
    -- Of several entries for one condition the first one counts, in the memo and in the
    -- declarations.
    have hinsert : (s.recalling ((key, b) :: memo)).template.conditions =
        (s.recalling memo).template.conditions.insert key (.scalar (.bool b)) := rfl
    rw [hinsert, Dict.find?_insert, ih, Entries.find?]
    split
    · rfl
    · rfl

/-- Declaring conditions otherwise changes no other look-up. -/
theorem lookupsRelated_recalling {σ τ : Type} {C : Eval.Congruence σ τ}
    (h : ∀ r : Except EvalError Value, C.rel (Eval.ofExcept r) (Eval.ofExcept r)) (s : Scope)
    (memo : Memo) (mentioned : List Reference) :
    LookupsRelated C s (s.recalling memo) mentioned where
  ref name _ := h (s.ref name)
  attributeValue resource _ name _ := h (s.attributeValue resource name)
  imports := rfl
  maps := rfl
  zones := rfl

/-- The conditions in progress that are not remembered. -/
def unremembered (memo : Memo) (inProgress : List String) : List String :=
  inProgress.filter fun name => name ∉ Entries.keys memo

/-- A condition that is not remembered is in progress on both sides or on none. -/
theorem mem_unremembered {inProgress : List String} (h : Entries.find? memo name = none) :
    name ∈ unremembered memo inProgress ↔ name ∈ inProgress := by
  rw [unremembered, List.mem_filter, decide_eq_true_iff]
  exact and_iff_left (Entries.find?_eq_none_iff.1 h)

/-- A condition that is remembered is not in progress on the other side. -/
theorem not_mem_unremembered {inProgress : List String} (h : Entries.find? memo name = some b) :
    name ∉ unremembered memo inProgress := by
  rw [unremembered, List.mem_filter, decide_eq_true_iff]
  intro hname
  rw [Entries.find?_eq_none_iff.2 hname.2] at h
  cases h

/-- A condition that is not remembered is entered on both sides. -/
theorem unremembered_cons {inProgress : List String} (h : Entries.find? memo name = none) :
    unremembered memo (name :: inProgress) = name :: unremembered memo inProgress :=
  List.filter_cons_of_pos (by simpa using Entries.find?_eq_none_iff.1 h)

/-- The expression of a condition keeps the overlay if the decisions in it do. -/
theorem tracking_evaluate {s : Scope} {inProgress waiting : List String}
    (h : ∀ name, (Eval.Congruence.tracking (Memo.Overlay base)).rel
      (s.decideCondition inProgress name) ((s.recalling base).decideCondition waiting name))
    (o : Operand) :
    (Eval.Congruence.tracking (Memo.Overlay base)).rel
      (o.evaluate s (s.decideCondition inProgress))
      (o.evaluate (s.recalling base) ((s.recalling base).decideCondition waiting)) := by
  apply o.evaluate_congr
  · apply lookupsRelated_recalling
    intro r memo added hoverlay
    rw [Eval.answer_ofExcept, Eval.answer_ofExcept]
    exact ⟨rfl, hoverlay⟩
  · intro name _
    exact h name

/-- One decision has the same result on both sides and keeps the overlay. -/
def Tracks (s : Scope) (base : Memo) (inProgress : List String) (name : String)
    (memo added : Memo) : Prop :=
  ((s.decideCondition inProgress name).answer memo).1 =
      (((s.recalling base).decideCondition (unremembered base inProgress) name).answer added).1 ∧
    Memo.Overlay base ((s.decideCondition inProgress name).answer memo).2
      (((s.recalling base).decideCondition (unremembered base inProgress) name).answer added).2

variable {s : Scope} {inProgress : List String}

/-- A remembered condition is found in the memo on the one side. On the other side it is decided by
its declaration when it is first met, and then remembered. -/
theorem Tracks.of_remembered (hoverlay : Memo.Overlay base memo added)
    (hbase : Entries.find? base name = some b) : s.Tracks base inProgress name memo added := by
  have hfound := hoverlay.found name
  have hrecalling := s.find?_recalling base name
  rw [hbase] at hfound hrecalling
  unfold Tracks
  rw [decideCondition_remembered hfound]
  cases hadded : Entries.find? added name with
  | some b' =>
    rw [decideCondition_remembered hadded, hoverlay.agree name b b' hbase hadded]
    exact ⟨rfl, hoverlay⟩
  | none =>
    rw [decideCondition_declared hadded (not_mem_unremembered hbase) hrecalling]
    exact ⟨rfl, hoverlay.recall hbase⟩

/-- A condition that neither side remembers is entered on both. -/
theorem Tracks.of_declared {o : Operand} (hoverlay : Memo.Overlay base memo added)
    (hbase : Entries.find? base name = none) (hadded : Entries.find? added name = none)
    (hin : name ∉ inProgress) (hdeclared : s.template.conditions.find? name = some o)
    (h : ∀ other, (Eval.Congruence.tracking (Memo.Overlay base)).rel
      (s.decideCondition (name :: inProgress) other)
      ((s.recalling base).decideCondition (unremembered base (name :: inProgress)) other)) :
    s.Tracks base inProgress name memo added := by
  have hfound := hoverlay.found name
  have hrecalling := s.find?_recalling base name
  rw [hbase, hadded] at hfound
  rw [hbase, hdeclared] at hrecalling
  -- Inside of the condition it is in progress on both sides.
  have hinside := tracking_evaluate h o memo added hoverlay
  rw [unremembered_cons hbase] at hinside
  rcases hinside with ⟨hresult, hkept⟩
  unfold Tracks
  rw [decideCondition_declared hfound hin hdeclared,
    decideCondition_declared hadded (mt (mem_unremembered hbase).1 hin) hrecalling]
  rcases hx : (o.evaluate s (s.decideCondition (name :: inProgress))).answer memo
    with ⟨e | v, memo'⟩ <;>
    rcases hy : (o.evaluate (s.recalling base) ((s.recalling base).decideCondition
      (name :: unremembered base inProgress))).answer added with ⟨e' | v', added'⟩ <;>
    rw [hx, hy] at hresult hkept <;> cases hresult
  · exact ⟨rfl, hkept⟩
  · cases hbool : v.bool? with
    | none =>
      simp only [hbool]
      exact ⟨trivial, hkept⟩
    | some b =>
      -- The base does not find the condition, so both sides remember it.
      simp only [hbool]
      exact ⟨trivial, hkept.remember hbase b⟩

/-- Deciding conditions keeps the overlay, whichever conditions are in progress. -/
theorem tracking_decideCondition (s : Scope) (base : Memo) (inProgress : List String)
    (name : String) :
    (Eval.Congruence.tracking (Memo.Overlay base)).rel (s.decideCondition inProgress name)
      ((s.recalling base).decideCondition (unremembered base inProgress) name) := by
  induction inProgress using s.inProgress_induction generalizing name with
  | enter inProgress ih =>
    intro memo added hoverlay
    -- What the base answers is a declared constant on the right; else both sides take one branch.
    cases hbase : Entries.find? base name with
    | some b => exact Tracks.of_remembered hoverlay hbase
    | none =>
      have hfound := hoverlay.found name
      have hrecalling := s.find?_recalling base name
      rw [hbase] at hfound hrecalling
      cases hadded : Entries.find? added name with
      | some b =>
        rw [hadded] at hfound
        rw [decideCondition_remembered hfound, decideCondition_remembered hadded]
        exact ⟨rfl, hoverlay⟩
      | none =>
        rw [hadded] at hfound
        by_cases hin : name ∈ inProgress
        · rw [decideCondition_circular hfound hin,
            decideCondition_circular hadded ((mem_unremembered hbase).2 hin)]
          exact ⟨rfl, hoverlay⟩
        · cases hdeclared : s.template.conditions.find? name with
          | none =>
            rw [hdeclared] at hrecalling
            rw [decideCondition_undeclared hfound hin hdeclared,
              decideCondition_undeclared hadded (mt (mem_unremembered hbase).1 hin) hrecalling]
            exact ⟨rfl, hoverlay⟩
          | some o =>
            exact Tracks.of_declared hoverlay hbase hadded hin hdeclared
              (ih name o hdeclared hin)

end Scope

namespace Evaluator

/-- What an evaluator in some state is asked, it answers like a fresh one for the template in which
the remembered conditions are declared by their truth values. -/
theorem ask_eq_recalling (s : Scope) (e : Evaluator) (o : Operand) :
    (ask s e (.operand o)).1 =
      .value ((o.evaluate (s.recalling e.memo) ((s.recalling e.memo).decideAfresh
        (Scope.unremembered e.memo e.inProgress))).answer ()).1 := by
  have hlockstep := evaluate_lockstep (s := s) e.inProgress o e.memo
  have htracking := Scope.tracking_evaluate (s.tracking_decideCondition e.memo e.inProgress) o
    e.memo [] (Memo.overlay_self e.memo)
  -- The other evaluator remembers nothing, so it decides afresh.
  have hvalid : Memo.Valid (s.recalling e.memo) (Scope.unremembered e.memo e.inProgress) [] :=
    ⟨.empty, fun name _ => List.not_mem_nil⟩
  have hfresh := (Scope.evaluate_sound (fun name _ => Scope.decideCondition_sound _ _ name) o
    hvalid).2.1
  rw [ask, hlockstep, htracking.1, hfresh]

end Evaluator

end StackTemplate
