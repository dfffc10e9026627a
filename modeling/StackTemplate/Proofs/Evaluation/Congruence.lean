import StackTemplate.Evaluation.Condition
import StackTemplate.Proofs.Entries

/-!
# Congruences of evaluation

The evaluation of an operand uses its scope and its state only where it looks a name up or decides
a condition. Everything else is returning, failing and sequencing. A relation between computations
that these three respect therefore relates two evaluations of one operand as soon as it relates
their look-ups and decisions, and only for the names that the operand mentions.

* `Eval.Congruence` : a relation that returning, failing and sequencing respect.
* `Eval.Congruence.avoiding` : the congruence of the computations without errors of some sort.
* `Scope.LookupsRelated` : a congruence relates the look-ups of two scopes.
* `Call.evaluate_congr` : the evaluations of a call are related if those of its operands are.
* `Operand.evaluate_congr` : the evaluations of an operand are related.
-/

namespace StackTemplate

variable {σ τ α β : Type}

namespace EvalError

/-- Whether an error says that a name is not declared. -/
def isUndeclared : EvalError → Bool
  | .unknownReference _ | .unknownResource _ | .unknownCondition _ => true
  | _ => false

/-- Whether an error says that a condition is reached while it is being decided. -/
def isCircular : EvalError → Bool
  | .circularCondition _ => true
  | _ => false

/-- Whether an error is raised where a name is looked up or a condition is decided, and nowhere
else. -/
def isOfNames (e : EvalError) : Bool := e.isUndeclared || e.isCircular

theorem isUndeclared_of_isOfNames {e : EvalError} (h : e.isOfNames = false) :
    e.isUndeclared = false :=
  (Bool.or_eq_false_iff.1 h).1

/-- What is raised elsewhere says nothing about cycles. -/
theorem isCircular_of_isOfNames {e : EvalError} (h : e.isOfNames = false) : e.isCircular = false :=
  (Bool.or_eq_false_iff.1 h).2

end EvalError

/-! ## Runs -/

@[simp] theorem Eval.answer_pure (a : α) (st : σ) :
    (pure a : Eval σ α).answer st = (.ok a, st) := rfl

@[simp] theorem Eval.answer_throw (e : EvalError) (st : σ) :
    (throw e : Eval σ α).answer st = (.error e, st) := rfl

/-- A sequence goes on from the state of its first part, and only if that part succeeds. -/
theorem Eval.answer_bind (x : Eval σ α) (f : α → Eval σ β) (st : σ) :
    (x >>= f).answer st =
      match x.answer st with
      | (.ok a, st') => (f a).answer st'
      | (.error e, st') => (.error e, st') := by
  change ExceptT.bindCont f (x.answer st).1 (x.answer st).2 = _
  rcases x.answer st with ⟨e | a, st'⟩ <;> rfl

theorem Eval.answer_bind_of_ok {x : Eval σ α} {f : α → Eval σ β} {st st' : σ} {a : α}
    (h : x.answer st = (.ok a, st')) : (x >>= f).answer st = (f a).answer st' := by
  rw [Eval.answer_bind, h]

/-- A sequence succeeds where both of its parts do. -/
theorem Eval.answer_bind_eq_ok {x : Eval σ α} {f : α → Eval σ β} {st st' : σ} {b : β} :
    (x >>= f).answer st = (.ok b, st') ↔
      ∃ a st₁, x.answer st = (.ok a, st₁) ∧ (f a).answer st₁ = (.ok b, st') := by
  rw [Eval.answer_bind]
  rcases x.answer st with ⟨e | a, st₁⟩ <;> simp

@[simp] theorem Eval.answer_ofExcept (r : Except EvalError α) (st : σ) :
    (Eval.ofExcept r : Eval σ α).answer st = (r, st) := by
  cases r <;> rfl

/-! ## Congruences -/

/-- A relation between computations that equal returns, equal failures and sequences of related
parts respect. Failures for undeclared names are left to the look-ups, and those for circular
conditions to the decisions. -/
structure Eval.Congruence (σ τ : Type) where
  rel : ∀ {α : Type}, Eval σ α → Eval τ α → Prop
  ret : ∀ {α : Type} (a : α), rel (pure a) (pure a)
  fail : ∀ {α : Type} (e : EvalError), e.isOfNames = false →
    rel (throw e : Eval σ α) (throw e)
  seq : ∀ {α β : Type} {x : Eval σ α} {y : Eval τ α} {f : α → Eval σ β} {g : α → Eval τ β},
    rel x y → (∀ a, rel (f a) (g a)) → rel (x >>= f) (y >>= g)

/-- Whether a look-up fails neither for an undeclared name nor for a circular condition. -/
def Ordinary (r : Except EvalError α) : Prop := ∀ e, r = .error e → e.isOfNames = false

namespace Eval.Congruence

variable (C : Eval.Congruence σ τ)

/-- An ordinary look-up is related to itself. -/
theorem rel_ofExcept {r : Except EvalError α} (h : Ordinary r) :
    C.rel (Eval.ofExcept r) (Eval.ofExcept r) := by
  cases r with
  | ok a => exact C.ret a
  | error e => exact C.fail e (h e rfl)

/-- Related computations followed by one ordinary look-up are related. -/
theorem rel_check {x : Eval σ α} {y : Eval τ α} {check : α → Except EvalError β} (h : C.rel x y)
    (hcheck : ∀ a, Ordinary (check a)) :
    C.rel (x >>= fun a => Eval.ofExcept (check a)) (y >>= fun a => Eval.ofExcept (check a)) :=
  C.seq h fun a => C.rel_ofExcept (hcheck a)

/-- Related computations followed by one function are related. -/
theorem rel_map {x : Eval σ α} {y : Eval τ α} (f : α → β) (h : C.rel x y) :
    C.rel (x >>= fun a => pure (f a)) (y >>= fun a => pure (f a)) :=
  C.seq h fun a => C.ret (f a)

end Eval.Congruence

/-! ## Errors that never arise -/

/-- A computation that never fails with an error of some sort, whatever state it starts from. -/
def Eval.Avoids (sort : EvalError → Bool) (x : Eval σ α) : Prop :=
  ∀ st e, (x.answer st).1 = .error e → sort e = false

/-- A look-up avoids the errors that it does not have. -/
theorem Eval.avoids_ofExcept {sort : EvalError → Bool} {r : Except EvalError α}
    (h : ∀ e, r = .error e → sort e = false) : (Eval.ofExcept r : Eval σ α).Avoids sort := by
  intro st e he
  rw [Eval.answer_ofExcept] at he
  exact h e he

/-- Computations that avoid a sort of errors, where only look-ups and decisions raise these. -/
def Eval.Congruence.avoiding (σ : Type) {sort : EvalError → Bool}
    (hsort : ∀ e, e.isOfNames = false → sort e = false) : Eval.Congruence σ σ where
  rel x _ := x.Avoids sort
  ret a st e he := by cases he
  fail e he st e' he' := by
    cases he'
    exact hsort e he
  seq {_ _ x _ f _} hx hf st e he := by
    rw [Eval.answer_bind] at he
    rcases hxs : x.answer st with ⟨e' | a, st'⟩
    · rw [hxs] at he
      cases he
      exact hx st e (by rw [hxs])
    · rw [hxs] at he
      exact hf a st' e he

/-! ## Look-ups that are ordinary -/

namespace Value

theorem ordinary_expectBool (f : Intrinsic) (v : Value) : Ordinary (v.expectBool f) := by
  intro e he
  unfold expectBool at he
  split at he <;> cases he
  rfl

theorem ordinary_expectText (f : Intrinsic) (v : Value) : Ordinary (v.expectText f) := by
  intro e he
  unfold expectText at he
  split at he <;> cases he
  rfl

theorem ordinary_expectInteger (f : Intrinsic) (v : Value) : Ordinary (v.expectInteger f) := by
  intro e he
  unfold expectInteger at he
  split at he <;> cases he
  rfl

theorem ordinary_expectList (f : Intrinsic) (v : Value) : Ordinary (v.expectList f) := by
  intro e he
  unfold expectList at he
  split at he <;> cases he
  rfl

theorem ordinary_select (items : List Value) (i : Int) : Ordinary (select items i) := by
  intro e he
  unfold select at he
  split at he <;> cases he
  rfl

/-- Joining fails for a value that is no text only. -/
theorem ordinary_joinTexts (vs : List Value) : Ordinary (joinTexts vs) := by
  induction vs with
  | nil =>
    intro e he
    cases he
  | cons v vs ih =>
    intro e he
    unfold joinTexts at he
    split at he
    · cases he
      rfl
    · -- The text is one, so the error is the one of the rest.
      cases hrest : joinTexts vs with
      | ok ts =>
        rw [hrest] at he
        cases he
      | error e' =>
        rw [hrest] at he
        cases he
        exact ih e hrest

/-- Dividing a block fails for what is wrong with the division. -/
theorem ordinary_subnets (block : String) (count bits : Int) :
    Ordinary (subnets block count bits) := by
  intro e he
  unfold subnets at he
  split at he
  · cases he
  · cases he
    rfl

end Value

/-- A map is searched without regard to the names of the template. -/
theorem Scope.ordinary_findInMap (s : Scope) (map topKey secondKey : String) :
    Ordinary (s.findInMap map topKey secondKey) := by
  intro e he
  unfold findInMap at he
  repeat' split at he
  all_goals
    cases he
    try rfl

/-! ## Evaluations -/

section Lists

variable (C : Eval.Congruence σ τ) {f : Operand → Eval σ Value} {g : Operand → Eval τ Value}

theorem evaluateText_congr {x : Eval σ Value} {y : Eval τ Value} (k : Intrinsic) (h : C.rel x y) :
    C.rel (evaluateText k x) (evaluateText k y) :=
  C.rel_check h fun v => v.ordinary_expectText k

theorem evaluateInteger_congr {x : Eval σ Value} {y : Eval τ Value} (k : Intrinsic)
    (h : C.rel x y) : C.rel (evaluateInteger k x) (evaluateInteger k y) :=
  C.rel_check h fun v => v.ordinary_expectInteger k

/-- Conjunctions are related operand by operand. -/
theorem evaluateAll_congr (k : Intrinsic) (xs : List Operand)
    (h : ∀ x ∈ xs, C.rel (f x) (g x)) :
    C.rel (evaluateAll k (xs.map f)) (evaluateAll k (xs.map g)) := by
  induction xs with
  | nil => exact C.ret true
  | cons x xs ih =>
    have hx : C.rel (f x) (g x) := h x List.mem_cons_self
    have hxs := ih fun z hz => h z (List.mem_cons_of_mem x hz)
    refine C.seq hx fun v => C.seq (C.rel_ofExcept (v.ordinary_expectBool k)) fun b => ?_
    -- The first operand that does not hold ends the conjunction.
    cases b with
    | true => exact hxs
    | false => exact C.ret false

/-- Disjunctions are related operand by operand. -/
theorem evaluateAny_congr (k : Intrinsic) (xs : List Operand)
    (h : ∀ x ∈ xs, C.rel (f x) (g x)) :
    C.rel (evaluateAny k (xs.map f)) (evaluateAny k (xs.map g)) := by
  induction xs with
  | nil => exact C.ret false
  | cons x xs ih =>
    have hx : C.rel (f x) (g x) := h x List.mem_cons_self
    have hxs := ih fun z hz => h z (List.mem_cons_of_mem x hz)
    refine C.seq hx fun v => C.seq (C.rel_ofExcept (v.ordinary_expectBool k)) fun b => ?_
    -- The first operand that holds ends the disjunction.
    cases b with
    | true => exact C.ret true
    | false => exact hxs

/-- Items are related one by one. -/
theorem evaluateItems_congr (xs : List Operand) (h : ∀ x ∈ xs, C.rel (f x) (g x)) :
    C.rel (evaluateItems (xs.map f)) (evaluateItems (xs.map g)) := by
  induction xs with
  | nil => exact C.ret []
  | cons x xs ih =>
    have hx : C.rel (f x) (g x) := h x List.mem_cons_self
    have hxs := ih fun z hz => h z (List.mem_cons_of_mem x hz)
    exact C.seq hx fun v => C.rel_map (v :: ·) hxs

/-- Entries are related one by one. -/
theorem evaluateEntries_congr (es : List (String × Operand))
    (h : ∀ x ∈ Entries.values es, C.rel (f x) (g x)) :
    C.rel (evaluateEntries (es.map fun e => (e.1, f e.2)))
      (evaluateEntries (es.map fun e => (e.1, g e.2))) := by
  induction es with
  | nil => exact C.ret []
  | cons e es ih =>
    have hx : C.rel (f e.2) (g e.2) := h e.2 List.mem_cons_self
    have hxs := ih fun z hz => h z (List.mem_cons_of_mem e.2 hz)
    exact C.seq hx fun v => C.rel_map ((e.1, v) :: ·) hxs

end Lists

/-- A congruence relates what two scopes give for the names that are mentioned; of the rest the
scopes give the same. -/
structure Scope.LookupsRelated (C : Eval.Congruence σ τ) (s s' : Scope)
    (mentioned : List Reference) : Prop where
  ref : ∀ name, .ref name ∈ mentioned →
    C.rel (Eval.ofExcept (s.ref name)) (Eval.ofExcept (s'.ref name))
  attributeValue : ∀ resource label name, .getAtt resource label ∈ mentioned →
    C.rel (Eval.ofExcept (s.attributeValue resource name))
      (Eval.ofExcept (s'.attributeValue resource name))
  imports : s.importValue = s'.importValue
  maps : s.findInMap = s'.findInMap
  zones : s.availabilityZones = s'.availabilityZones

section Calls

variable (C : Eval.Congruence σ τ) {s s' : Scope} {dec : String → Eval σ Bool}
  {dec' : String → Eval τ Bool} {f : Operand → Eval σ Value} {g : Operand → Eval τ Value}

/-- What is inserted is related if the bindings are and, for a name without a binding, the look-ups.
-/
theorem evaluatePlaceholder_congr {bindings : List (String × Operand)} (key : String)
    (otherwise : Scope → Except EvalError Value)
    (h : ∀ x ∈ Entries.values bindings, C.rel (f x) (g x))
    (hother : key ∉ Entries.keys bindings →
      C.rel (Eval.ofExcept (otherwise s)) (Eval.ofExcept (otherwise s'))) :
    C.rel (evaluatePlaceholder s (bindings.map fun e => (e.1, f e.2)) key otherwise)
      (evaluatePlaceholder s' (bindings.map fun e => (e.1, g e.2)) key otherwise) := by
  unfold evaluatePlaceholder
  rw [Entries.find?_map, Entries.find?_map]
  apply evaluateText_congr
  -- A binding comes before any name of the template.
  cases hfind : Entries.find? bindings key with
  | none => exact hother (Entries.find?_eq_none_iff.1 hfind)
  | some x =>
    have hmem : x ∈ Entries.values bindings :=
      List.mem_map.2 ⟨(key, x), Entries.mem_of_find?_eq_some hfind, rfl⟩
    exact h x hmem

/-- A segment is related if the bindings are and the look-up of what it refers to. -/
theorem evaluateSegment_congr {mentioned : List Reference}
    (hs : Scope.LookupsRelated C s s' mentioned) {bindings : List (String × Operand)}
    (h : ∀ x ∈ Entries.values bindings, C.rel (f x) (g x)) (segment : Segment)
    (hsegment : ∀ r, segment.reference? (Entries.keys bindings) = some r → r ∈ mentioned) :
    C.rel (evaluateSegment s (bindings.map fun e => (e.1, f e.2)) segment)
      (evaluateSegment s' (bindings.map fun e => (e.1, g e.2)) segment) := by
  cases segment with
  | literal text => exact C.ret text
  | ref name =>
    refine evaluatePlaceholder_congr C name (fun s => s.ref name) h fun hfree => ?_
    exact hs.ref name (hsegment _ (by simp [Segment.reference?, Segment.variableName?, hfree]))
  | getAtt resource name =>
    refine evaluatePlaceholder_congr C (resource ++ "." ++ name)
      (fun s => s.attributeValue resource name) h fun hfree => ?_
    exact hs.attributeValue resource name name
      (hsegment _ (by simp [Segment.reference?, Segment.variableName?, hfree]))

/-- Segments are related one by one. -/
theorem evaluateSegments_congr {mentioned : List Reference}
    (hs : Scope.LookupsRelated C s s' mentioned) {bindings : List (String × Operand)}
    (h : ∀ x ∈ Entries.values bindings, C.rel (f x) (g x)) (segments : List Segment)
    (hsegments : ∀ segment ∈ segments, ∀ r,
      segment.reference? (Entries.keys bindings) = some r → r ∈ mentioned) :
    C.rel (evaluateSegments s (bindings.map fun e => (e.1, f e.2)) segments)
      (evaluateSegments s' (bindings.map fun e => (e.1, g e.2)) segments) := by
  induction segments with
  | nil => exact C.ret ""
  | cons segment segments ih =>
    have hfirst := evaluateSegment_congr C hs h segment (hsegments segment List.mem_cons_self)
    have hrest := ih fun other hother => hsegments other (List.mem_cons_of_mem segment hother)
    exact C.seq hfirst fun text => C.rel_map (text ++ ·) hrest

/-- The evaluations of a call are related if those of its operands, the look-ups of the names that
it mentions itself and the decisions of the conditions among them are. -/
theorem Call.evaluate_congr (c : Call Operand)
    (hs : Scope.LookupsRelated C s s' c.ownReferences)
    (hdec : ∀ name, .condition name ∈ c.ownReferences → C.rel (dec name) (dec' name))
    (h : ∀ x ∈ c.operands, C.rel (f x) (g x)) :
    C.rel ((c.map f).evaluate s dec) ((c.map g).evaluate s' dec') := by
  have text (k : Intrinsic) (x : Operand) (hx : x ∈ c.operands) :
      C.rel (evaluateText k (f x)) (evaluateText k (g x)) :=
    evaluateText_congr C k (h x hx)
  have integer (k : Intrinsic) (x : Operand) (hx : x ∈ c.operands) :
      C.rel (evaluateInteger k (f x)) (evaluateInteger k (g x)) :=
    evaluateInteger_congr C k (h x hx)
  -- Each call evaluates its operands in order and then does something that is no look-up.
  cases c with
  | and xs => exact C.rel_map Value.bool (evaluateAll_congr C .and xs h)
  | or xs => exact C.rel_map Value.bool (evaluateAny_congr C .or xs h)
  | not x =>
    refine C.seq (h x (by simp [operands])) fun v => ?_
    exact C.rel_map (fun b => Value.bool (!b)) (C.rel_ofExcept (v.ordinary_expectBool .not))
  | equals x y =>
    refine C.seq (h x (by simp [operands])) fun left => ?_
    exact C.rel_map (fun right => Value.bool (left.looselyEquals right))
      (h y (by simp [operands]))
  | ref name => exact hs.ref name (by simp [ownReferences])
  | condition name => exact C.rel_map Value.bool (hdec name (by simp [ownReferences]))
  | getAtt resource x =>
    refine C.seq (text .getAtt x (by simp [operands])) fun name => ?_
    exact hs.attributeValue resource _ name (List.mem_singleton_self _)
  | importValue x =>
    have himports : s.importValue = s'.importValue := hs.imports
    simp only [map, evaluate, himports]
    exact C.rel_map s'.importValue (text .importValue x (by simp [operands]))
  | findInMap x y z =>
    have hmaps : s.findInMap = s'.findInMap := hs.maps
    simp only [map, evaluate, hmaps]
    refine C.seq (text .findInMap x (by simp [operands])) fun name => ?_
    refine C.seq (text .findInMap y (by simp [operands])) fun topKey => ?_
    exact C.rel_check (text .findInMap z (by simp [operands])) fun secondKey =>
      s'.ordinary_findInMap name topKey secondKey
  | getAZs x =>
    have hzones : s.availabilityZones = s'.availabilityZones := hs.zones
    simp only [map, evaluate, hzones]
    exact C.rel_map s'.availabilityZones (text .getAZs x (by simp [operands]))
  | cidr x y z =>
    refine C.seq (text .cidr x (by simp [operands])) fun block => ?_
    refine C.seq (integer .cidr y (by simp [operands])) fun count => ?_
    exact C.rel_check (integer .cidr z (by simp [operands])) fun bits =>
      Value.ordinary_subnets block count bits
  | select x y =>
    refine C.seq (integer .select x (by simp [operands])) fun index => ?_
    refine C.seq (h y (by simp [operands])) fun v => ?_
    exact C.rel_check (C.rel_ofExcept (v.ordinary_expectList .select)) fun items =>
      Value.ordinary_select items index
  | split x y =>
    refine C.seq (text .split x (by simp [operands])) fun delimiter => ?_
    exact C.rel_map (fun source => Value.list ((Text.split delimiter source).map .string))
      (text .split y (by simp [operands]))
  | join x y =>
    refine C.seq (text .join x (by simp [operands])) fun delimiter => ?_
    refine C.seq (h y (by simp [operands])) fun v => ?_
    refine C.seq (C.rel_ofExcept (v.ordinary_expectList .join)) fun items => ?_
    exact C.rel_map (fun texts => Value.string (String.intercalate delimiter texts))
      (C.rel_ofExcept (Value.ordinary_joinTexts items))
  | sub template bindings =>
    refine C.rel_map Value.string (evaluateSegments_congr C hs h _ fun segment hsegment r hr => ?_)
    exact List.mem_filterMap.2 ⟨segment, hsegment, hr⟩
  | base64 x =>
    exact C.rel_map (fun t => Value.string (Text.base64 t))
      (text .base64 x (by simp [operands]))
  -- Only one of the branches is evaluated, and it is the same one on both sides.
  | ifElse name x y =>
    refine C.seq (hdec name (by simp [ownReferences])) fun b => ?_
    cases b with
    | true => exact h x (by simp [operands])
    | false => exact h y (by simp [operands])

end Calls

/-- Look-ups that are related for some names are so for fewer. -/
theorem Scope.LookupsRelated.mono {C : Eval.Congruence σ τ} {s s' : Scope}
    {mentioned fewer : List Reference} (h : Scope.LookupsRelated C s s' mentioned)
    (hsub : fewer ⊆ mentioned) : Scope.LookupsRelated C s s' fewer where
  ref name hname := h.ref name (hsub hname)
  attributeValue resource label name hname := h.attributeValue resource label name (hsub hname)
  imports := h.imports
  maps := h.maps
  zones := h.zones

namespace Operand

theorem mentions_call (c : Call Operand) :
    (call c).mentions = c.ownReferences ++ (c.operands.map mentions).flatten := by
  simp [mentions]

/-- An operand mentions what its parts mention. -/
theorem mentions_subset_of_mem_parts {x o : Operand} (h : x ∈ o.parts) :
    x.mentions ⊆ o.mentions := by
  intro r hr
  cases o with
  | scalar s => cases h
  | pending id => cases h
  | list items =>
    simp only [mentions, fold_list]
    exact List.mem_flatten.2 ⟨_, List.mem_map.2 ⟨x, h, rfl⟩, hr⟩
  | map entries =>
    obtain ⟨e, he, rfl⟩ := List.mem_map.1 h
    simp only [mentions, fold_map, Entries.values, List.map_map]
    exact List.mem_flatten.2 ⟨_, List.mem_map.2 ⟨e, he, rfl⟩, hr⟩
  | call c =>
    rw [mentions_call]
    exact List.mem_append_right _ (List.mem_flatten.2 ⟨_, List.mem_map.2 ⟨x, h, rfl⟩, hr⟩)

/-- A congruence that relates the look-ups and the decisions that an operand mentions relates its
evaluations. -/
theorem evaluate_congr (C : Eval.Congruence σ τ) {s s' : Scope} {dec : String → Eval σ Bool}
    {dec' : String → Eval τ Bool} (o : Operand) (hs : Scope.LookupsRelated C s s' o.mentions)
    (hdec : ∀ name, .condition name ∈ o.mentions → C.rel (dec name) (dec' name)) :
    C.rel (o.evaluate s dec) (o.evaluate s' dec') := by
  induction o using Operand.induction with
  | step o ih =>
    -- What a part mentions the operand mentions as well.
    have hparts : ∀ x ∈ o.parts, C.rel (x.evaluate s dec) (x.evaluate s' dec') := by
      intro x hx
      have hsub := mentions_subset_of_mem_parts hx
      exact ih x hx (hs.mono hsub) fun name hname => hdec name (hsub hname)
    cases o with
    | scalar x => exact C.ret (Value.scalar x)
    | pending id => exact C.fail (.unresolvedPlaceholder id) rfl
    | list items =>
      simp only [evaluate, fold_list]
      exact C.rel_map Value.list (evaluateItems_congr C items hparts)
    | map entries =>
      simp only [evaluate, fold_map]
      exact C.rel_map Value.map (evaluateEntries_congr C entries hparts)
    | call c =>
      have hown : c.ownReferences ⊆ (call c).mentions := by
        rw [mentions_call]
        exact List.subset_append_left _ _
      simp only [evaluate, fold_call]
      exact Call.evaluate_congr C c (hs.mono hown) (fun name hname => hdec name (hown hname)) hparts

end Operand

end StackTemplate
