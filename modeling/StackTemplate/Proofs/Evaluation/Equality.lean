import StackTemplate.Proofs.Evaluation.Splitting
import StackTemplate.Proofs.Value.LooseEquality

/-!
# The function of equality

Every function makes values in which keys differ out of such values. So wherever the keys in a
template and in the settings of an evaluation differ, as they do after reading, the function that
compares two operands compares values on which loose equality is an equivalence relation.

* `Operand.KeysDiffer`, `Scope.KeysDiffer` : no map in an operand or a scope has a key twice.
* `Operand.yields_evaluate` : neither has a value of an operand.
* `Evaluator.equals_equivalence` : the laws of equality, for values and for the function.
-/

namespace StackTemplate

/-! ## Properties of results -/

/-- Every result of a computation has a property, from whatever state it is run. -/
def Eval.Yields {σ α : Type} (P : α → Prop) (x : Eval σ α) : Prop :=
  ∀ st a, (x.answer st).1 = .ok a → P a

namespace Eval.Yields

variable {σ α β : Type} {P : α → Prop} {Q : β → Prop} {x : Eval σ α} {f : α → Eval σ β}

theorem pure {a : α} (h : P a) : Eval.Yields P (Pure.pure a : Eval σ α) := by
  intro st b hb
  cases hb
  exact h

theorem ofExcept {r : Except EvalError α} (h : ∀ a, r = .ok a → P a) :
    Eval.Yields P (Eval.ofExcept r : Eval σ α) := by
  intro st a ha
  rw [Eval.answer_ofExcept] at ha
  exact h a ha

theorem bind (hx : Eval.Yields P x) (hf : ∀ a, P a → Eval.Yields Q (f a)) :
    Eval.Yields Q (x >>= f) := by
  intro st b hb
  -- A result of the whole needs one of the first part, on whose state the second part is run.
  obtain ⟨a, st', hrun, hfa⟩ := Eval.answer_bind_eq_ok.1 (Prod.ext hb rfl)
  have ha : P a := hx st a (by rw [hrun])
  exact hf a ha st' b (by rw [hfa])

/-- What follows a computation has results with a property whatever its own result is. -/
theorem after (hf : ∀ a, Eval.Yields Q (f a)) : Eval.Yields Q (x >>= f) := by
  have hany : Eval.Yields (fun _ => True) x := fun _ _ _ => trivial
  exact bind hany fun a _ => hf a

end Eval.Yields

/-! ## Operands and scopes in which keys differ -/

/-- No map in an operand, at any depth, has two entries under one key. -/
inductive Operand.KeysDiffer : Operand → Prop
  | scalar (s : Scalar) : KeysDiffer (.scalar s)
  | pending (id : Nat) : KeysDiffer (.pending id)
  | list {items : List Operand} (hitems : ∀ x ∈ items, KeysDiffer x) : KeysDiffer (.list items)
  | map {entries : List (String × Operand)} (hkeys : (Entries.keys entries).Nodup)
      (hvalues : ∀ e ∈ entries, KeysDiffer e.2) : KeysDiffer (.map entries)
  | call {c : Call Operand} (hoperands : ∀ x ∈ c.operands, KeysDiffer x) : KeysDiffer (.call c)

/-- No map that an evaluation can look up has two entries under one key. -/
structure Scope.KeysDiffer (s : Scope) : Prop where
  mappings : ∀ m ∈ s.template.mappings.values, ∀ level ∈ m.values, ∀ v ∈ level.values,
    v.KeysDiffer
  pseudo : ∀ v ∈ s.settings.pseudo.overrides.values, v.KeysDiffer
  imports : ∀ v ∈ s.settings.imports.values, v.KeysDiffer
  attributes : ∀ e ∈ s.settings.attributes, e.2.KeysDiffer

theorem Dict.mem_values_of_find? {α : Type} {d : Dict α} {key : String} {x : α}
    (h : d.find? key = some x) : x ∈ d.values :=
  List.mem_map_of_mem (Entries.mem_of_find?_eq_some h)

namespace Scope

variable {s : Scope} {v : Value}

/-- What is remembered is decided, not looked up. -/
theorem KeysDiffer.recalling (h : s.KeysDiffer) (memo : Memo) : (s.recalling memo).KeysDiffer :=
  ⟨h.mappings, h.pseudo, h.imports, h.attributes⟩

theorem keysDiffer_texts (texts : List String) : (Value.list (texts.map .string)).KeysDiffer := by
  apply Value.KeysDiffer.list
  intro v hv
  rcases List.mem_map.1 hv with ⟨text, -, rfl⟩
  exact .scalar (.string text)

theorem keysDiffer_availabilityZones (s : Scope) (region : String) :
    (s.availabilityZones region).KeysDiffer := by
  have hzones (region : String) := keysDiffer_texts (["a", "b", "c"].map fun zone => region ++ zone)
  simp only [List.map_map] at hzones
  exact hzones _

/-- What stands in for a pseudo-parameter is a text, or a list of none. -/
theorem keysDiffer_standIn (values : PseudoValues) (p : PseudoParameter) :
    (values.standIn p).KeysDiffer := by
  cases p with
  | notificationArns => exact keysDiffer_texts []
  | _ => exact .scalar _

/-- The value of a parameter is a scalar or a list of texts. -/
theorem keysDiffer_parameter {name : String} (hv : s.parameter name = .ok v) : v.KeysDiffer := by
  -- A raw value is taken as it is, or divided into texts at its commas.
  have hshape (type : String) (raw : Scalar) : (Parameter.shape type raw).KeysDiffer := by
    unfold Parameter.shape
    split_ifs
    · exact keysDiffer_texts []
    · have hitems := keysDiffer_texts ((Text.split "," raw.text).map Text.trim)
      rwa [List.map_map] at hitems
    · exact .scalar raw
  unfold parameter at hv
  split at hv
  · cases hv
  · split at hv
    · cases hv
      exact hshape _ _
    · cases hv
      exact hshape _ _
    · cases hv

/-- A `Ref` gives a parameter, a name, or what the settings have for a pseudo-parameter. -/
theorem KeysDiffer.ref (h : s.KeysDiffer) {name : String} (hv : s.ref name = .ok v) :
    v.KeysDiffer := by
  unfold Scope.ref at hv
  split at hv
  · exact keysDiffer_parameter hv
  · cases hv
    exact .scalar (.string name)
  · split at hv
    · next p _ =>
      cases hv
      rw [PseudoValues.value]
      cases hoverride : s.settings.pseudo.overrides.find? p.name with
      | none => exact keysDiffer_standIn _ p
      | some w => exact h.pseudo w (Dict.mem_values_of_find? hoverride)
    · cases hv
  · cases hv

theorem KeysDiffer.attributeValue (h : s.KeysDiffer) {resource name : String}
    (hv : s.attributeValue resource name = .ok v) : v.KeysDiffer := by
  unfold Scope.attributeValue at hv
  split at hv
  · split at hv
    · next e hfind =>
      cases hv
      exact h.attributes e (List.mem_reverse.1 (List.mem_of_find?_eq_some hfind))
    · cases hv
      exact .scalar _
  · cases hv

theorem KeysDiffer.importValue (h : s.KeysDiffer) (name : String) :
    (s.importValue name).KeysDiffer := by
  unfold Scope.importValue
  cases hfind : s.settings.imports.find? name with
  | none => exact .scalar _
  | some v => exact h.imports v (Dict.mem_values_of_find? hfind)

/-- What is found in a map is one of its values. -/
theorem KeysDiffer.findInMap (h : s.KeysDiffer) {map topKey secondKey : String}
    (hv : s.findInMap map topKey secondKey = .ok v) : v.KeysDiffer := by
  unfold Scope.findInMap at hv
  split at hv
  · cases hv
  · next m hm =>
    split at hv
    · cases hv
    · next level hlevel =>
      split at hv
      · cases hv
      · next w hw =>
        cases hv
        exact h.mappings m (Dict.mem_values_of_find? hm) level (Dict.mem_values_of_find? hlevel) v
          (Dict.mem_values_of_find? hw)

end Scope

/-! ## Values in which keys differ -/

namespace Value

/-- An item that is selected is one of the items. -/
theorem keysDiffer_select {items : List Value} {index : Int} {v : Value}
    (hitems : ∀ v ∈ items, v.KeysDiffer) (hv : select items index = .ok v) : v.KeysDiffer := by
  unfold select at hv
  split at hv
  · next w hw =>
    cases hv
    split at hw
    · cases hw
    · exact hitems v (List.mem_of_getElem? hw)
  · cases hv

/-- In the items of a list keys differ if they do in the list. -/
theorem keysDiffer_expectList {function : Intrinsic} {v : Value} {items : List Value}
    (h : v.KeysDiffer) (hitems : v.expectList function = .ok items) :
    ∀ v ∈ items, v.KeysDiffer := by
  cases h with
  | scalar s => cases hitems
  | list hvs =>
    cases hitems
    exact hvs
  | map _ _ => cases hitems

theorem keysDiffer_subnets {block : String} {count bits : Int} {v : Value}
    (hv : subnets block count bits = .ok v) : v.KeysDiffer := by
  unfold subnets at hv
  split at hv
  · cases hv
    exact Scope.keysDiffer_texts _
  · cases hv

end Value

section Evaluation

variable {σ : Type} {s : Scope} {decide : String → Eval σ Bool}

/-- Entries are computed under the keys that they have. -/
theorem yields_evaluateEntries {es : List (String × Eval σ Value)}
    (h : ∀ e ∈ es, Eval.Yields Value.KeysDiffer e.2) :
    Eval.Yields (fun vs => Entries.keys vs = Entries.keys es ∧ ∀ e ∈ vs, e.2.KeysDiffer)
      (evaluateEntries es) := by
  induction es with
  | nil => exact .pure ⟨rfl, by simp⟩
  | cons e es ih =>
    rcases e with ⟨key, x⟩
    rw [List.forall_mem_cons] at h
    refine .bind h.1 fun v hv => .bind (ih h.2) fun vs hvs => .pure ?_
    rcases hvs with ⟨hkeys, hvs⟩
    constructor
    · rw [Entries.keys_cons, Entries.keys_cons, hkeys]
    · exact List.forall_mem_cons.2 ⟨hv, hvs⟩

/-- Items are computed one by one. -/
theorem yields_evaluateItems {xs : List (Eval σ Value)}
    (h : ∀ x ∈ xs, Eval.Yields Value.KeysDiffer x) :
    Eval.Yields (fun vs => ∀ v ∈ vs, v.KeysDiffer) (evaluateItems xs) := by
  induction xs with
  | nil => exact .pure (by simp)
  | cons x xs ih =>
    rw [List.forall_mem_cons] at h
    refine .bind h.1 fun v hv => .bind (ih h.2) fun vs hvs => .pure ?_
    exact List.forall_mem_cons.2 ⟨hv, hvs⟩

/-- A call gives a scalar, texts, something that the scope has, or something that its operands
have. -/
theorem Call.yields_evaluate {c : Call (Eval σ Value)} (hs : s.KeysDiffer)
    (h : ∀ x ∈ c.operands, Eval.Yields Value.KeysDiffer x) :
    Eval.Yields Value.KeysDiffer (c.evaluate s decide) := by
  cases c with
  | and xs | or xs | condition name | sub template bindings | base64 x =>
    exact .after fun _ => .pure (.scalar _)
  | not x => exact .after fun _ => .after fun _ => .pure (.scalar _)
  | equals x y => exact .after fun _ => .after fun _ => .pure (.scalar _)
  | join x y => exact .after fun _ => .after fun _ => .after fun _ => .after fun _ => .pure (.scalar _)
  | ref name => exact .ofExcept fun v hv => hs.ref hv
  | getAtt resource x => exact .after fun _ => .ofExcept fun v hv => hs.attributeValue hv
  | importValue x => exact .after fun name => .pure (hs.importValue name)
  | findInMap x y z =>
    exact .after fun _ => .after fun _ => .after fun _ => .ofExcept fun v hv => hs.findInMap hv
  | getAZs x => exact .after fun region => .pure (s.keysDiffer_availabilityZones region)
  | cidr x y z =>
    exact .after fun _ => .after fun _ => .after fun _ => .ofExcept fun v hv =>
      Value.keysDiffer_subnets hv
  | split x y => exact .after fun _ => .after fun _ => .pure (Scope.keysDiffer_texts _)
  -- Only here and below does a result depend on the results of operands.
  | select x y =>
    refine .after fun index => .bind (h y (by simp [operands])) fun v hv => ?_
    refine .bind (.ofExcept fun items hitems => Value.keysDiffer_expectList hv hitems) ?_
    intro items hitems
    exact .ofExcept fun v hv => Value.keysDiffer_select hitems hv
  | ifElse name x y =>
    refine .after fun b => ?_
    cases b with
    | true => exact h x (by simp [operands])
    | false => exact h y (by simp [operands])

/-- In the value of an operand keys differ if they do in the operand and in the scope. -/
theorem Operand.yields_evaluate {o : Operand} (hs : s.KeysDiffer) (ho : o.KeysDiffer) :
    Eval.Yields Value.KeysDiffer (o.evaluate s decide) := by
  induction ho with
  | scalar x => exact .pure (.scalar x)
  | pending id =>
    intro st v hv
    cases hv
  | list _ ih =>
    rw [evaluate_list]
    exact .bind (yields_evaluateItems (List.forall_mem_map.2 ih)) fun vs hvs => .pure (.list hvs)
  | @map entries hkeys _ ih =>
    rw [evaluate_map]
    refine .bind (yields_evaluateEntries (List.forall_mem_map.2 ih)) fun vs hvs => .pure ?_
    rcases hvs with ⟨hsame, hvs⟩
    -- The keys are those of the operand, with which the map was written.
    have hkeys' : (Entries.keys vs).Nodup := by
      rw [hsame, Entries.keys, List.map_map]
      exact hkeys
    exact .map hkeys' hvs
  | @call c _ ih =>
    rw [evaluate_call]
    apply Call.yields_evaluate hs
    rw [Call.operands_map]
    exact List.forall_mem_map.2 ih

end Evaluation

/-! ## The function of equality -/

namespace Evaluator

variable {s : Scope} {e : Evaluator} {x y : Operand} {u : Value}

theorem HasValue.keysDiffer {o : Operand} {v : Value} (h : HasValue s e o v) (hs : s.KeysDiffer)
    (ho : o.KeysDiffer) : v.KeysDiffer := by
  have hrun := hasValue_iff.1 h
  exact Operand.yields_evaluate (hs.recalling e.memo) ho () v (by rw [hrun])

/-- In one state an operand has one value at most. -/
theorem HasValue.unique {o : Operand} {v w : Value} (hv : HasValue s e o v)
    (hw : HasValue s e o w) : v = w := by
  rw [HasValue, hv] at hw
  cases hw
  rfl

/-- A comparison has the answer of loose equality, where both of its operands have values. -/
theorem hasValue_equals_iff : HasValue s e (.call (.equals x y)) u ↔
    ∃ v w, HasValue s e x v ∧ HasValue s e y w ∧ u = .bool (v.looselyEquals w) := by
  simp only [hasValue_iff, Operand.evaluate_call, Call.map, Call.evaluate, Eval.answer_bind_eq_ok,
    Eval.answer_pure, Prod.mk.injEq, Except.ok.injEq, and_true]
  constructor
  · rintro ⟨v, ⟨⟩, hv, w, ⟨⟩, hw, rfl⟩
    exact ⟨v, w, hv, hw, rfl⟩
  · rintro ⟨v, w, hv, hw, rfl⟩
    exact ⟨v, (), hv, w, (), hw, rfl⟩

section Laws

variable {z : Operand} (hs : s.KeysDiffer) (hx : x.KeysDiffer) (hy : y.KeysDiffer)

include hs hx

theorem equals_self {v : Value} (hv : HasValue s e x v) :
    HasValue s e (.call (.equals x x)) (.bool true) := by
  refine hasValue_equals_iff.2 ⟨v, v, hv, hv, ?_⟩
  rw [Value.looselyEquals_refl (hv.keysDiffer hs hx)]

include hy

/-- The order of the operands does not matter. -/
theorem equals_swap (h : HasValue s e (.call (.equals x y)) u) :
    HasValue s e (.call (.equals y x)) u := by
  rcases hasValue_equals_iff.1 h with ⟨v, w, hv, hw, rfl⟩
  refine hasValue_equals_iff.2 ⟨w, v, hw, hv, ?_⟩
  rw [Value.looselyEquals_comm (hv.keysDiffer hs hx) (hw.keysDiffer hs hy)]

/-- An operand may take the place of one that it equals. -/
theorem equals_chain (hz : z.KeysDiffer)
    (hxy : HasValue s e (.call (.equals x y)) (.bool true))
    (h : HasValue s e (.call (.equals y z)) u) : HasValue s e (.call (.equals x z)) u := by
  rcases hasValue_equals_iff.1 hxy with ⟨v, w, hv, hw, htrue⟩
  rcases hasValue_equals_iff.1 h with ⟨w', r, hw', hr, rfl⟩
  -- The operand in the middle has the same value in both comparisons.
  obtain rfl := hw.unique hw'
  have hvw : v.looselyEquals w = true := by simpa [Value.bool] using htrue.symm
  have hself := Value.looselyEquals_refl (hr.keysDiffer hs hz)
  refine hasValue_equals_iff.2 ⟨v, r, hv, hr, ?_⟩
  rw [Value.looselyEquals_congr (hv.keysDiffer hs hx) (hw.keysDiffer hs hy)
    (hr.keysDiffer hs hz) (hr.keysDiffer hs hz) hvw hself]

end Laws

/-- Loose equality is an equivalence relation on the values in which keys differ, and the order of
entries does not matter on either side. So in every state of an evaluator the function of equality
finds an operand equal to itself, gives the same value with its operands swapped, and can be
chained: an operand may take the place of one that it equals. -/
theorem equals_equivalence :
    Equivalence (fun v w : {v : Value // v.KeysDiffer} => v.1.looselyEquals w.1 = true) ∧
    (∀ v v' w w' : Value, v.KeysDiffer → w.KeysDiffer → v.Reordered v' → w.Reordered w' →
      v.looselyEquals w = v'.looselyEquals w') ∧
    ∀ (s : Scope) (e : Evaluator) (x y z : Operand), s.KeysDiffer → x.KeysDiffer →
      y.KeysDiffer → z.KeysDiffer →
      (∀ v, HasValue s e x v → HasValue s e (.call (.equals x x)) (.bool true)) ∧
      (∀ u, HasValue s e (.call (.equals x y)) u ↔ HasValue s e (.call (.equals y x)) u) ∧
      (HasValue s e (.call (.equals x y)) (.bool true) →
        ∀ u, HasValue s e (.call (.equals y z)) u ↔ HasValue s e (.call (.equals x z)) u) := by
  refine ⟨⟨?_, ?_, ?_⟩, ?_, ?_⟩
  · intro v
    exact Value.looselyEquals_refl v.2
  · intro v w h
    exact Value.looselyEquals_symm v.2 w.2 h
  · intro u v w huv hvw
    exact Value.looselyEquals_trans u.2 huv hvw
  · intro v v' w w' hv hw hvv' hww'
    exact Value.looselyEquals_of_reordered hv hw hvv' hww'
  · intro s e x y z hs hx hy hz
    refine ⟨fun v hv => equals_self hs hx hv, fun u => ?_, fun hxy u => ?_⟩
    · exact ⟨equals_swap hs hx hy, equals_swap hs hy hx⟩
    · constructor
      · exact equals_chain hs hx hy hz hxy
      · exact equals_chain hs hy hx hz (equals_swap hs hx hy hxy)

/-- A map with a not-a-number and a list of scalars of two kinds. -/
def measured : Operand :=
  .map [("Mean", .scalar (.float Binary64.nan)),
    ("Tags", .list [.scalar (.int 1), .map [("On", .scalar (.bool true)), ("Off", .scalar .null)]])]

/-- The texts of that map, with all entries in another order. -/
def reported : Operand :=
  .map [("Tags", .list [.string "1", .map [("Off", .string ""), ("On", .string "true")]]),
    ("Mean", .string "NaN")]

/-- The map and its texts are equal in either order, and equal to the same values. -/
theorem narrowed_equals :
    HasValue dashed narrowed (.call (.equals measured reported)) (.bool true) ∧
    HasValue dashed narrowed (.call (.equals reported measured)) (.bool true) ∧
    ∀ u, HasValue dashed narrowed (.call (.equals reported (.string ""))) u ↔
      HasValue dashed narrowed (.call (.equals measured (.string ""))) u := by
  have hscope : dashed.KeysDiffer := by
    constructor <;> rintro _ ⟨⟩
  have hmeasured : measured.KeysDiffer := by
    apply Operand.KeysDiffer.map (by decide)
    rw [List.forall_mem_cons, List.forall_mem_singleton]
    refine ⟨.scalar _, .list ?_⟩
    rw [List.forall_mem_cons, List.forall_mem_singleton]
    refine ⟨.scalar _, .map (by decide) ?_⟩
    rw [List.forall_mem_cons, List.forall_mem_singleton]
    exact ⟨.scalar _, .scalar _⟩
  have hreported : reported.KeysDiffer := by
    apply Operand.KeysDiffer.map (by decide)
    rw [List.forall_mem_cons, List.forall_mem_singleton]
    refine ⟨.list ?_, .scalar _⟩
    rw [List.forall_mem_cons, List.forall_mem_singleton]
    refine ⟨.scalar _, .map (by decide) ?_⟩
    rw [List.forall_mem_cons, List.forall_mem_singleton]
    exact ⟨.scalar _, .scalar _⟩
  have hequal : HasValue dashed narrowed (.call (.equals measured reported)) (.bool true) := by
    refine hasValue_equals_iff.2 ⟨_, _, rfl, rfl, congrArg Value.bool ?_⟩
    decide +kernel
  have hlaws := equals_equivalence.2.2 dashed narrowed measured reported (.string "") hscope
    hmeasured hreported (.scalar (.string ""))
  exact ⟨hequal, (hlaws.2.1 _).1 hequal, hlaws.2.2 hequal⟩

end Evaluator

end StackTemplate
