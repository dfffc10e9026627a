import StackTemplate.Proofs.Resolution.Layer
import StackTemplate.Resolution.Placeholder

/-!
# Attempts at resolution

An attempt is a resolution without the report of its fault. What a node resolves to depends on its
layer only, and on what its children resolve to: resolving it attempts its children one after the
other, each in the context that the layer gives it.

* `Resolution.attempt` : the attempt of a resolution, which respects sequencing.
* `Node.layer?` : the layer of a node in a context, and `Node.HasLayer` the ways in which it has
  one.
* `Node.attempt_resolve` : resolving a node attempts the children of its layer.
-/

namespace StackTemplate

variable {σ α β : Type}

/-- Computations that keep a state and stop without a report. -/
abbrev Attempt (σ : Type) := StateT σ Option

namespace Resolution

/-- A sequence of resolutions goes on with the state of the first one, or stops at its fault. -/
theorem run_bind (x : Resolution σ α) (f : α → Resolution σ β) (st : σ) :
    (x >>= f).run st =
      match x.run st with
      | (.ok a, st') => (f a).run st'
      | (.error e, st') => (.error e, st') := by
  have hcont : (x >>= f).run st =
      (ExceptT.bindCont f (x.run st).1 : StateM σ (Except Fault β)) (x.run st).2 := rfl
  rw [hcont]
  rcases x.run st with ⟨e | a, st'⟩ <;> rfl

/-- A resolution without the report of its fault. -/
def attempt (x : Resolution σ α) : Attempt σ α := fun st =>
  match x.run st with
  | (.ok a, st') => some (a, st')
  | (.error _, _) => none

/-- An attempt succeeds where the resolution does, with the same result and state. -/
theorem attempt_eq_some {x : Resolution σ α} {st st' : σ} {a : α} :
    attempt x st = some (a, st') ↔ x.run st = (.ok a, st') := by
  unfold attempt
  rcases x.run st with ⟨e | b, st₁⟩
  · constructor <;> rintro ⟨⟩
  · constructor <;> rintro ⟨⟩ <;> rfl

@[simp] theorem attempt_pure (a : α) : attempt (pure a : Resolution σ α) = pure a := rfl

@[simp] theorem attempt_throw (e : Fault) : attempt (throw e : Resolution σ α) = failure := rfl

@[simp] theorem attempt_bind (x : Resolution σ α) (f : α → Resolution σ β) :
    attempt (x >>= f) = attempt x >>= fun a => attempt (f a) := by
  funext st
  change _ = (attempt x st).bind fun p => attempt (f p.1) p.2
  unfold attempt
  rw [run_bind]
  rcases x.run st with ⟨e | a, st'⟩ <;> rfl

@[simp] theorem attempt_map (f : α → β) (x : Resolution σ α) :
    attempt (f <$> x) = f <$> attempt x := by
  rw [← bind_pure_comp, attempt_bind, ← bind_pure_comp]
  rfl

@[simp] theorem attempt_mapM (f : α → Resolution σ β) (xs : List α) :
    attempt (xs.mapM f) = xs.mapM fun x => attempt (f x) := by
  induction xs with
  | nil => simp
  | cons x xs ih => simp [ih]

@[simp] theorem attempt_ite {c : Prop} [Decidable c] (x y : Resolution σ α) :
    attempt (if c then x else y) = if c then attempt x else attempt y := by
  split <;> rfl

end Resolution

namespace Attempt

@[simp] theorem failure_apply (st : σ) : (failure : Attempt σ α) st = none := rfl

@[simp] theorem bind_failure (x : Attempt σ α) :
    (x >>= fun _ => (failure : Attempt σ β)) = failure := by
  funext st
  change ((x st).bind fun _ => none) = none
  cases x st <;> rfl

/-- A sequence goes on from the state that its first part leaves. -/
theorem bind_of_some {x : Attempt σ α} {st st' : σ} {a : α} (f : α → Attempt σ β)
    (h : x st = some (a, st')) : (x >>= f) st = f a st' := by
  change (x st).bind _ = _
  rw [h]
  rfl

/-- A sequence stops where its first part does. -/
theorem bind_of_none {x : Attempt σ α} {st : σ} (f : α → Attempt σ β) (h : x st = none) :
    (x >>= f) st = none := by
  change (x st).bind _ = none
  rw [h]
  rfl

/-- A sequence succeeds where both parts do. -/
theorem bind_eq_some {x : Attempt σ α} {f : α → Attempt σ β} {st st' : σ} {b : β} :
    (x >>= f) st = some (b, st') ↔ ∃ a st₁, x st = some (a, st₁) ∧ f a st₁ = some (b, st') := by
  change ((x st).bind fun p => f p.1 p.2) = some (b, st') ↔ _
  simp [Option.bind_eq_some_iff]

/-- Mapping the result of an attempt leaves its state as it is. -/
theorem map_eq_some {x : Attempt σ α} {f : α → β} {st st' : σ} {b : β} :
    (f <$> x) st = some (b, st') ↔ ∃ a, x st = some (a, st') ∧ f a = b := by
  rw [← bind_pure_comp, bind_eq_some]
  constructor
  · rintro ⟨a, st₁, ha, hb⟩
    cases hb
    exact ⟨a, ha, rfl⟩
  · rintro ⟨a, ha, rfl⟩
    exact ⟨a, st', ha, rfl⟩

end Attempt

/-! ## The layer of a node -/

/-- The texts of the keys of a mapping with the values, where every key has one. -/
def keyTexts? (es : List (Node × Node)) : Option (List (String × Node)) :=
  es.mapM fun e => (Scalar.keyText? e.1).map fun k => (k, e.2)

/-- A mapping has texts of keys if its first key has one and the others have. -/
theorem keyTexts?_cons (e : Node × Node) (es : List (Node × Node)) :
    keyTexts? (e :: es) =
      (Scalar.keyText? e.1).bind fun k => (keyTexts? es).map fun bs => (k, e.2) :: bs := by
  unfold keyTexts?
  rw [List.mapM_cons]
  cases Scalar.keyText? e.1 with
  | none => rfl
  | some k => cases es.mapM fun e => (Scalar.keyText? e.1).map fun k => (k, e.2) <;> rfl

namespace Context

/-- The context of the children of a layer that is read in a context. -/
def inside (ctx : Context) (owner? : Option Intrinsic) (slot : Slot) : Context :=
  match owner? with
  | some f => (ctx.within f).child slot.segment
  | none => ctx.plain slot.segment

theorem owner_inside (ctx : Context) (owner? : Option Intrinsic) (slot : Slot) :
    (ctx.inside owner? slot).owner = owner? := by
  cases owner? <;> rfl

end Context

namespace Node

/-- The layer of a node in a context, absent where the node itself is faulty. -/
def layer? (ctx : Context) (node : Node) : Option (Layer Node) :=
  match node.call? ctx with
  | .error _ => none
  | .ok (some (f, args)) =>
    match ctx.area.restriction? f ctx.owner with
    | some _ => none
    | none =>
      match Arguments.ofNode f args with
      | .error _ => none
      | .ok (.literal c) => some (.leaf (.call c))
      | .ok (.call c) => some (.call c)
      | .ok (.substitution template bindings) =>
        (keyTexts? bindings).map fun bs => .call (.sub template bs)
  | .ok none =>
    match node with
    | .seq items => some (.list items)
    | .map entries => (keyTexts? entries).map .map
    | leaf => some (.leaf (.scalar ((Scalar.ofNode? leaf).getD .null)))

end Node

/-- The ways in which a node has a layer in a context. -/
inductive Node.HasLayer (ctx : Context) (node : Node) : Layer Node → Prop where
  | literal {f : Intrinsic} {args : Node} {c : Call Operand}
      (hcall : node.call? ctx = .ok (some (f, args)))
      (hallowed : ctx.area.restriction? f ctx.owner = none)
      (harguments : Arguments.ofNode f args = .ok (.literal c)) : HasLayer ctx node (.leaf (.call c))
  | call {f : Intrinsic} {args : Node} {c : Call Node}
      (hcall : node.call? ctx = .ok (some (f, args)))
      (hallowed : ctx.area.restriction? f ctx.owner = none)
      (harguments : Arguments.ofNode f args = .ok (.call c)) : HasLayer ctx node (.call c)
  | substitution {f : Intrinsic} {args : Node} {template : String} {bindings : List (Node × Node)}
      {bs : List (String × Node)} (hcall : node.call? ctx = .ok (some (f, args)))
      (hallowed : ctx.area.restriction? f ctx.owner = none)
      (harguments : Arguments.ofNode f args = .ok (.substitution template bindings))
      (hbs : keyTexts? bindings = some bs) : HasLayer ctx node (.call (.sub template bs))
  | list {items : List Node} (hnode : node = .seq items) : HasLayer ctx node (.list items)
  | map {entries : List (Node × Node)} {bs : List (String × Node)} (hnode : node = .map entries)
      (hcall : node.call? ctx = .ok none) (hbs : keyTexts? entries = some bs) :
      HasLayer ctx node (.map bs)
  | scalar {s : Scalar} (hs : Scalar.ofNode? node = some s) : HasLayer ctx node (.leaf (.scalar s))

namespace Node

/-- A tag always calls a function, known or unknown. -/
theorem call?_tagged_ne (ctx : Context) (name : String) (content : Node) :
    (tagged name content).call? ctx ≠ .ok none := by
  unfold call?
  dsimp only
  split <;> rintro ⟨⟩

/-- A node has the layer that is read off it. -/
theorem hasLayer_of_layer? {ctx : Context} {node : Node} {l : Layer Node}
    (h : node.layer? ctx = some l) : node.HasLayer ctx l := by
  unfold layer? at h
  split at h
  · cases h
  · next f args hcall =>
    split at h
    · cases h
    · next hallowed =>
      split at h
      · cases h
      · next c harguments =>
        cases h
        exact .literal hcall hallowed harguments
      · next c harguments =>
        cases h
        exact .call hcall hallowed harguments
      · next template bindings harguments =>
        rcases Option.map_eq_some_iff.1 h with ⟨bs, hbs, rfl⟩
        exact .substitution hcall hallowed harguments hbs
  · next hcall =>
    cases node with
    | seq items =>
      cases h
      exact .list rfl
    | map entries =>
      rcases Option.map_eq_some_iff.1 h with ⟨bs, hbs, rfl⟩
      exact .map rfl hcall hbs
    | tagged name content => exact absurd hcall (call?_tagged_ne ctx name content)
    | _ =>
      cases h
      exact .scalar rfl

/-- A layer that a node has is the one that is read off it, so a node has at most one. -/
theorem HasLayer.layer?_eq {ctx : Context} {node : Node} {l : Layer Node}
    (h : node.HasLayer ctx l) : node.layer? ctx = some l := by
  cases h with
  | literal hcall hallowed harguments => simp only [layer?, hcall, hallowed, harguments]
  | call hcall hallowed harguments => simp only [layer?, hcall, hallowed, harguments]
  | substitution hcall hallowed harguments hbs =>
    simp only [layer?, hcall, hallowed, harguments, hbs, Option.map_some]
  | list hnode =>
    subst hnode
    rfl
  | map hnode hcall hbs =>
    subst hnode
    simp only [layer?, hcall, hbs, Option.map_some]
  -- A scalar has no members, so the node is a leaf and calls nothing.
  | scalar hs =>
    cases node with
    | seq _ | map _ | tagged _ _ => cases hs
    | _ =>
      cases hs
      rfl

theorem layer?_eq_some_iff {ctx : Context} {node : Node} {l : Layer Node} :
    node.layer? ctx = some l ↔ node.HasLayer ctx l :=
  ⟨hasLayer_of_layer?, HasLayer.layer?_eq⟩

end Node

/-- The operand of a layer whose children are resolved. -/
def Layer.build (l : Layer Operand) : Operand := l.tidy.toOperand

/-- Only a substitution has anything to tidy. -/
theorem Layer.build_call {c : Call Operand} (h : c.function ≠ .sub) :
    (Layer.call c).build = .call c := by
  cases c with
  | sub t bindings => exact absurd rfl h
  | _ => rfl

namespace Staging

/-- What a staging answers for a child; a child that it does not stage is resolved at once. -/
def answer (staging : Staging σ) (ctx : Context) (slot : Slot) (node : Node) :
    Resolution σ Operand :=
  match staging ctx slot node with
  | some answer => answer
  | none => node.resolve staging ctx

/-- A staging of operands of calls only. -/
def CallsOnly (staging : Staging σ) : Prop :=
  ∀ ctx slot node, ctx.owner = none → staging ctx slot node = none

end Staging

/-! ## Arguments of calls -/

namespace Arguments

/-- The arguments of a call are a call of the same function. -/
theorem function_of_ofNode {f : Intrinsic} {args : Node} {c : Call Node}
    (h : ofNode f args = .ok (.call c)) : c.function = f := by
  cases f <;>
    simp only [ofNode, one, two, three, ofSubstitution, attributePath, bind, Except.bind, pure,
      Except.pure] at h <;>
    grind [Call.function]

/-- The arguments of a substitution are never an ordinary call. -/
theorem function_ne_sub_of_ofNode {f : Intrinsic} {args : Node} {c : Call Node}
    (h : ofNode f args = .ok (.call c)) : c.function ≠ .sub := by
  rw [function_of_ofNode h]
  rintro rfl
  simp only [ofNode, ofSubstitution, bind, Except.bind, pure, Except.pure] at h
  -- A substitution is read as a text and variables, in a case of its own.
  grind

/-- Only the arguments of `Fn::Sub` are read as a substitution. -/
theorem eq_sub_of_ofNode {f : Intrinsic} {args : Node} {template : String}
    {bindings : List (Node × Node)} (h : ofNode f args = .ok (.substitution template bindings)) :
    f = .sub := by
  cases f <;>
    simp only [ofNode, one, two, three, attributePath, bind, Except.bind, pure, Except.pure] at h <;>
    grind

end Arguments

/-- The values of a mapping are reached where all its keys have texts. -/
theorem attempt_traverseMapping {ctx : Context} {es : List (Node × Node)}
    (f : Slot → Node → Resolution σ β) :
    (traverseMapping ctx es fun k x _ => f (.key k) x).attempt =
      match keyTexts? es with
      | none => failure
      | some bs => (fun ys => (Entries.keys bs).zip ys) <$>
          (Call.keyed bs).mapM fun e => (f e.1 e.2).attempt := by
  induction es with
  | nil => simp [traverseMapping, keyTexts?, Call.keyed]
  | cons e es ih =>
    obtain ⟨key, x⟩ := e
    cases hkey : Scalar.keyText? key with
    | none => simp [traverseMapping, keyTexts?, hkey]
    | some k =>
      -- A key without a text further on stops the whole mapping, whatever its values resolve to.
      cases hrest : keyTexts? es with
      | none =>
        simp only [hrest] at ih
        simp only [keyTexts?] at hrest
        simp [traverseMapping, keyTexts?, hkey, hrest, ih]
      | some bs =>
        simp only [hrest] at ih
        simp only [keyTexts?] at hrest
        simp [traverseMapping, keyTexts?, hkey, hrest, ih, Call.keyed]

/-! ## Resolving a layer -/

namespace Node

/-- The members of a collection are staged by no staging of operands of calls. -/
theorem answer_plain {staging : Staging σ} (hstaging : staging.CallsOnly) (ctx : Context)
    (slot : Slot) (node : Node) :
    staging.answer (ctx.plain slot.segment) slot node =
      node.resolve staging (ctx.plain slot.segment) := by
  rw [Staging.answer, hstaging (ctx.plain slot.segment) slot node rfl]

/-- The children of a layer, attempted one after the other in their contexts. -/
def attemptChildren (staging : Staging σ) (ctx : Context) (l : Layer Node) :
    Attempt σ (List Operand) :=
  l.children.mapM fun e => (staging.answer (ctx.inside l.owner? e.1) e.1 e.2).attempt

/-- The operands of a call are attempted as the children of its layer. -/
theorem attempt_call (staging : Staging σ) (ctx : Context) (c : Call Node) :
    (c.traverse fun slot x _ =>
        staging.answer ((ctx.within c.function).child slot.segment) slot x).attempt =
      c.refill <$> attemptChildren staging ctx (.call c) := by
  rw [Call.traverse_eq c fun slot x =>
    staging.answer ((ctx.within c.function).child slot.segment) slot x]
  simp only [Resolution.attempt_map, Resolution.attempt_mapM]
  rfl

/-- The bindings of a substitution are attempted as the children of its layer. -/
theorem attempt_bindings (staging : Staging σ) (ctx : Context) (template : String)
    (bindings : List (Node × Node)) :
    (traverseMapping (ctx.within .sub) bindings fun k x _ =>
        staging.answer ((ctx.within .sub).child (Slot.key k).segment) (.key k) x).attempt =
      match keyTexts? bindings with
      | none => failure
      | some bs => (fun ys => (Entries.keys bs).zip ys) <$>
          attemptChildren staging ctx (.call (.sub template bs)) := by
  rw [attempt_traverseMapping fun slot x =>
    staging.answer ((ctx.within .sub).child slot.segment) slot x]
  rfl

/-- The items of a sequence are attempted as the children of its layer. -/
theorem attempt_items {staging : Staging σ} (hstaging : staging.CallsOnly) (ctx : Context)
    (items : List Node) :
    (traverseItems 0 items fun i x _ =>
        x.resolve staging (ctx.plain (Slot.index i).segment)).attempt =
      attemptChildren staging ctx (.list items) := by
  simp only [← answer_plain hstaging]
  rw [Call.traverseItems_eq fun slot x => staging.answer (ctx.plain slot.segment) slot x,
    Resolution.attempt_mapM]
  rfl

/-- The values of a mapping are attempted as the children of its layer. -/
theorem attempt_entries {staging : Staging σ} (hstaging : staging.CallsOnly) (ctx : Context)
    (entries : List (Node × Node)) :
    (traverseMapping ctx entries fun k x _ =>
        x.resolve staging (ctx.plain (Slot.key k).segment)).attempt =
      match keyTexts? entries with
      | none => failure
      | some bs => (fun ys => (Entries.keys bs).zip ys) <$>
          attemptChildren staging ctx (.map bs) := by
  simp only [← answer_plain hstaging]
  rw [attempt_traverseMapping fun slot x => staging.answer (ctx.plain slot.segment) slot x]
  rfl

/-- Resolving a node attempts the children of its layer and builds the operand from them. -/
theorem attempt_resolve {staging : Staging σ} (hstaging : staging.CallsOnly) (ctx : Context)
    (node : Node) :
    (node.resolve staging ctx).attempt =
      match node.layer? ctx with
      | none => failure
      | some l => (fun ys => (l.refill ys).build) <$> attemptChildren staging ctx l := by
  rw [resolve]
  -- The cases are those of the resolution: what the node calls, whether it may, with what
  -- arguments.
  split
  · next e hcall => simp [layer?, hcall]
  · next f args hcall =>
    split
    · next r hrestriction => simp [layer?, hcall, hrestriction]
    · next hrestriction =>
      split
      · next e harguments => simp [layer?, hcall, hrestriction, harguments]
      · next c harguments =>
        simp [layer?, hcall, hrestriction, harguments, attemptChildren, Layer.children,
          Layer.refill, Layer.build, Layer.tidy, Layer.toOperand]
      · next c harguments =>
        obtain rfl := Arguments.function_of_ofNode harguments
        simp only [layer?, hcall, hrestriction, harguments]
        change (Operand.call <$> c.traverse fun slot x _ =>
          staging.answer ((ctx.within c.function).child slot.segment) slot x).attempt = _
        rw [Resolution.attempt_map, attempt_call, Functor.map_map]
        refine congrArg (fun g => g <$> attemptChildren staging ctx (.call c)) (funext fun ys => ?_)
        exact (Layer.build_call (by simpa using Arguments.function_ne_sub_of_ofNode harguments)).symm
      · next template bindings harguments =>
        obtain rfl := Arguments.eq_sub_of_ofNode harguments
        simp only [layer?, hcall, hrestriction, harguments]
        change ((fun bs => Operand.call (.sub template (Entries.ofList bs))) <$>
          traverseMapping (ctx.within .sub) bindings fun k x _ =>
            staging.answer ((ctx.within .sub).child (Slot.key k).segment) (.key k) x).attempt = _
        rw [Resolution.attempt_map, attempt_bindings staging ctx template]
        cases keyTexts? bindings with
        | none => rfl
        | some bs =>
          simp only [Functor.map_map]
          rfl
  · next hcall =>
    -- The members of a plain collection are operands of no call, so none of them is staged.
    cases node with
    | seq items =>
      simp only [layer?, hcall, bind_pure_comp, Resolution.attempt_map, attempt_items hstaging]
      rfl
    | map entries =>
      simp only [layer?, hcall, bind_pure_comp, Resolution.attempt_map, attempt_entries hstaging]
      cases keyTexts? entries with
      | none => rfl
      | some bs =>
        simp only [Functor.map_map]
        rfl
    | _ =>
      simp [layer?, hcall, attemptChildren, Layer.children, Layer.refill, Layer.build, Layer.tidy,
        Layer.toOperand]

end Node

end StackTemplate
