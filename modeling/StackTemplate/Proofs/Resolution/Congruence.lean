import StackTemplate.Proofs.Resolution.Genuine

/-!
# Congruences of resolution

Resolving a node uses the placeholders that are recorded so far only where it records one more.
Everything else is returning, failing and sequencing, and no failure depends on an operand that is
resolved before. A relation between resolutions that respects these four, whatever is returned,
therefore relates the resolution of a node to itself.

* `Resolution.Congruence` : a relation that returning, failing, recording and sequencing respect.
* `Node.resolve_congr` : the resolution of a node is related to itself.
* `Resolution.ReportsIn`, `Node.reportsIn_resolve` : resolving a node reports genuine faults only,
  leaves the placeholders that were there alone, and does all inside of its path.
* `Resolution.Genuine`, `Node.genuine_resolve` : the same without regard to paths.
* `Resolution.SameFault`, `Resolution.Congruence.sameFault` : two resolutions that report the same
  fault, whatever is recorded.
-/

namespace StackTemplate

variable {α β ι : Type}

namespace Resolution

/-- A relation between resolutions that any two returns, equal genuine failures, recording and
sequences of related parts respect. Failures and placeholders are on paths with a property. -/
structure Congruence where
  paths : Paths
  rel : ∀ {α : Type}, Resolution Placeholders α → Resolution Placeholders α → Prop
  ret : ∀ {α : Type} (a b : α), rel (pure a) (pure b)
  fail : ∀ {α : Type} (e : Fault), e.LiesIn paths →
    rel (throw e : Resolution Placeholders α) (throw e)
  record : ∀ p, paths.holds p.path → rel (Placeholder.record p) (Placeholder.record p)
  seq : ∀ {α β : Type} {x y : Resolution Placeholders α} {f g : α → Resolution Placeholders β},
    rel x y → (∀ a b, rel (f a) (g b)) → rel (x >>= f) (y >>= g)

namespace Congruence

variable (C : Congruence)

theorem rel_ite {c : Prop} [Decidable c] {x x' y y' : Resolution Placeholders α} (h : C.rel x x')
    (h' : C.rel y y') : C.rel (if c then x else y) (if c then x' else y') := by
  split
  · exact h
  · exact h'

/-- Resolving a list is related to itself where resolving each member is. -/
theorem rel_mapM {f : ι → Resolution Placeholders α} {xs : List ι}
    (h : ∀ x ∈ xs, C.rel (f x) (f x)) : C.rel (xs.mapM f) (xs.mapM f) := by
  induction xs with
  | nil => exact C.ret [] []
  | cons x xs ih =>
    rw [List.mapM_cons]
    have hrest := ih fun y hy => h y (List.mem_cons_of_mem x hy)
    exact C.seq (h x List.mem_cons_self) fun a b => C.seq hrest fun as bs =>
      C.ret (a :: as) (b :: bs)

/-- Folding a list is related to itself from any two starts, since no step depends on its start. -/
theorem rel_foldlM {f : β → ι → Resolution Placeholders β}
    (h : ∀ b b' x, C.rel (f b x) (f b' x)) (xs : List ι) (b b' : β) :
    C.rel (xs.foldlM f b) (xs.foldlM f b') := by
  induction xs generalizing b b' with
  | nil => exact C.ret b b'
  | cons x xs ih =>
    rw [List.foldlM_cons, List.foldlM_cons]
    exact C.seq (h b b' x) ih

/-- Resolving the children of a call is related to itself where resolving each is. -/
theorem rel_traverse (c : Call ι) {f : Slot → ι → Resolution Placeholders Operand}
    (h : ∀ e ∈ c.children, C.rel (f e.1 e.2) (f e.1 e.2)) :
    C.rel (c.traverse fun slot x _ => f slot x) (c.traverse fun slot x _ => f slot x) := by
  rw [Call.traverse_eq, ← bind_pure_comp]
  exact C.seq (C.rel_mapM h) fun _ _ => C.ret _ _

/-- Resolving the items of a sequence is related to itself where resolving each is. -/
theorem rel_traverseItems {xs : List ι} {f : Nat → (x : ι) → x ∈ xs → Resolution Placeholders β}
    (h : ∀ i x hx, C.rel (f i x hx) (f i x hx)) (i : Nat) :
    C.rel (traverseItems i xs f) (traverseItems i xs f) := by
  induction xs generalizing i with
  | nil => exact C.ret [] []
  | cons x xs ih =>
    exact C.seq (h i x _) fun y y' => C.seq (ih (fun j z hz => h j z _) (i + 1)) fun ys ys' =>
      C.ret (y :: ys) (y' :: ys')

/-- Resolving the values of a mapping is related to itself: a key without a text is a genuine fault.
-/
theorem rel_traverseMapping {ctx : Context} {es : List (Node × Node)}
    {f : String → (x : Node) → x ∈ es.map Prod.snd → Resolution Placeholders β}
    (hctx : C.paths.holds ctx.path) (h : ∀ k x hx, C.rel (f k x hx) (f k x hx)) :
    C.rel (traverseMapping ctx es f) (traverseMapping ctx es f) := by
  induction es with
  | nil => exact C.ret [] []
  | cons e es ih =>
    obtain ⟨key, x⟩ := e
    unfold StackTemplate.traverseMapping
    split
    · exact C.fail _ (.of_label rfl rfl hctx)
    · next k _ =>
      exact C.seq (h k x _) fun y y' => C.seq (ih fun l z hz => h l z _) fun ys ys' =>
        C.ret ((k, y) :: ys) ((k, y') :: ys')

end Congruence

end Resolution

/-! ## Nodes -/

namespace Node

variable (C : Resolution.Congruence)

/-- The answer for a node is related to itself where its resolution is. -/
theorem answer_congr {node : Node} {ctx : Context} (hctx : C.paths.holds ctx.path)
    (h : C.rel (node.resolve Placeholder.staging ctx) (node.resolve Placeholder.staging ctx))
    (slot : Slot) :
    C.rel (Placeholder.staging.answer ctx slot node) (Placeholder.staging.answer ctx slot node) := by
  rcases Placeholder.answer_staging ctx slot node with ⟨owner, -, -, hrecord⟩ | hresolve
  · rw [hrecord]
    exact C.record _ hctx
  · rw [hresolve]
    exact h

/-- The resolution of a node while operands are staged is related to itself. -/
theorem resolve_congr (node : Node) {ctx : Context} (hctx : C.paths.holds ctx.path) :
    C.rel (node.resolve Placeholder.staging ctx) (node.resolve Placeholder.staging ctx) := by
  induction node using Node.induction generalizing ctx with
  | step node ih =>
    -- The cases are those of the resolution: what the node calls, whether it may, with what
    -- arguments.
    rw [resolve]
    split
    · next e hcall => exact C.fail e (failsIn_call? hctx node e hcall)
    · next f args hcall =>
      have hwithin : C.paths.holds (ctx.within f).path :=
        C.paths.inside _ (C.paths.inside _ hctx)
      split
      · exact C.fail _ (.of_label rfl rfl hctx)
      · split
        · exact C.fail _ (.of_label rfl rfl hwithin)
        · exact C.ret _ _
        · next c harguments =>
          refine C.seq (C.rel_traverse c fun e he => ?_) fun _ _ => C.ret _ _
          -- Operands lie within the node, and their paths inside of its path.
          have hoperand := within_of_mem_operands hcall harguments
            (Layer.mem_operands_of_mem_children he)
          have hchild := C.paths.inside e.1.segment hwithin
          exact answer_congr C hchild (ih e.2 hoperand hchild) e.1
        · next template bindings harguments =>
          obtain rfl := Arguments.eq_sub_of_ofNode harguments
          refine C.seq (C.rel_traverseMapping hwithin fun k x hx => ?_) fun _ _ => C.ret _ _
          have hvariable := within_of_mem_variables hcall harguments hx
          have hchild := C.paths.inside (Slot.key k).segment hwithin
          exact answer_congr C hchild (ih x hvariable hchild) _
    · -- The members of a plain collection are resolved at once, never recorded.
      cases node with
      | seq items =>
        refine C.seq (C.rel_traverseItems (fun i x hx => ?_) 0) fun _ _ => C.ret _ _
        exact ih x (.member hx) (C.paths.inside _ hctx)
      | map entries =>
        refine C.seq (C.rel_traverseMapping hctx fun k x hx => ?_) fun _ _ => C.ret _ _
        exact ih x (.member hx) (C.paths.inside _ hctx)
      | _ => exact C.ret _ _

end Node

/-! ## Genuine resolutions -/

namespace Resolution

/-- A resolution that leaves the placeholders of the table alone, adds placeholders on paths with a
property, and fails with genuine faults on such paths only. -/
def ReportsIn (P : Paths) (x : Resolution Placeholders α) : Prop :=
  ∀ table, (∃ new, table ++ new = (x.run table).2 ∧ ∀ p ∈ new, P.holds p.path) ∧
    ∀ e, (x.run table).1 = .error e → e.LiesIn P

/-- Resolutions that report on paths with a property. -/
def Congruence.reporting (P : Paths) : Congruence where
  paths := P
  rel x _ := x.ReportsIn P
  ret _ _ table := ⟨⟨[], List.append_nil table, by simp⟩, fun _ h => by cases h⟩
  fail e he table := by
    refine ⟨⟨[], List.append_nil table, by simp⟩, ?_⟩
    rintro _ ⟨⟩
    exact he
  record p hp table := ⟨⟨[p], rfl, by simpa using hp⟩, fun _ h => by cases h⟩
  seq {_ _ x _ f _} hx hf table := by
    obtain ⟨⟨new, hnew, hpaths⟩, hfaults⟩ := hx table
    rw [run_bind]
    rcases hrun : x.run table with ⟨e | a, after⟩ <;> rw [hrun] at hnew hfaults
    · -- The first part fails, and its fault is reported.
      refine ⟨⟨new, hnew, hpaths⟩, ?_⟩
      rintro _ ⟨⟩
      exact hfaults e rfl
    · obtain ⟨⟨new', hnew', hpaths'⟩, hfaults'⟩ := hf a a after
      refine ⟨⟨new ++ new', ?_, ?_⟩, hfaults'⟩
      · rw [← List.append_assoc, hnew]
        exact hnew'
      · exact List.forall_mem_append.2 ⟨hpaths, hpaths'⟩

/-- A resolution that leaves the placeholders of the table alone and fails with genuine faults
only. -/
def Genuine (x : Resolution Placeholders α) : Prop :=
  ∀ table, table <+: (x.run table).2 ∧ ∀ e, (x.run table).1 = .error e → e.isBookkeeping = false

/-- What reports on some paths reports genuine faults. -/
theorem ReportsIn.genuine {P : Paths} {x : Resolution Placeholders α} (h : x.ReportsIn P) :
    x.Genuine := by
  intro table
  rcases h table with ⟨⟨new, hnew, -⟩, hfaults⟩
  exact ⟨⟨new, hnew⟩, fun e he => (hfaults e he).genuine⟩

end Resolution

/-- Resolving a node while operands are staged reports genuine faults only, inside of its path. -/
theorem Node.reportsIn_resolve {P : Paths} (node : Node) {ctx : Context} (hctx : P.holds ctx.path) :
    Resolution.ReportsIn P (node.resolve Placeholder.staging ctx) :=
  node.resolve_congr (.reporting P) hctx

/-- Resolving a node while operands are staged reports genuine faults only. -/
theorem Node.genuine_resolve (node : Node) (ctx : Context) :
    Resolution.Genuine (node.resolve Placeholder.staging ctx) :=
  (node.reportsIn_resolve (P := .all) trivial).genuine

/-! ## Faults that do not depend on the table -/

namespace Resolution

/-- The fault that a resolution reports. -/
def fault? (x : Resolution Placeholders α) (table : Placeholders) : Option Fault :=
  match (x.run table).1 with
  | .ok _ => none
  | .error e => some e

/-- Two resolutions that report the same fault, or both none, whatever is recorded. -/
def SameFault (x y : Resolution Placeholders α) : Prop :=
  ∀ table table', x.fault? table = y.fault? table'

/-- Resolutions that report the same fault. -/
def Congruence.sameFault : Congruence where
  paths := .all
  rel := SameFault
  ret _ _ _ _ := rfl
  fail _ _ _ _ := rfl
  record _ _ _ _ := rfl
  seq {_ _ x y f g} hx hf table table' := by
    have hfirst := hx table table'
    unfold fault? at hfirst ⊢
    rw [run_bind, run_bind]
    rcases hrun : x.run table with ⟨e | a, after⟩ <;>
      rcases hrun' : y.run table' with ⟨e' | a', after'⟩ <;>
        rw [hrun, hrun'] at hfirst
    · -- Either both first parts fail with one fault, or both go on.
      exact hfirst
    · cases hfirst
    · cases hfirst
    · exact hf a a' after after'

end Resolution

end StackTemplate
