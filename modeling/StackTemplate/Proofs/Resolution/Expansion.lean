import StackTemplate.Proofs.Resolution.Within

/-!
# Expansion of placeholders

The meaning of a placeholder is the operand that its node resolves to when nothing is staged.
Expanding an operand puts the meanings in the places of its placeholders; whether a placeholder was
resolved before does not matter.

* `Operand.expand` : the operand with the meanings of its placeholders in their places.
* `Operand.occurrences` : the placeholders of an operand with the places where they are found.
* `Layer.expand_build` : building a layer from expanded children expands what is built.
-/

namespace StackTemplate

namespace Placeholder

/-- The operand that the node of a placeholder resolves to when nothing is staged. -/
def meaning? (p : Placeholder) : Option Operand :=
  ((p.node.resolveDirectly p.context).attempt ()).map Prod.fst

end Placeholder

/-- Two tables hold the same placeholders, the second one possibly more of them; which of them are
resolved does not matter. -/
def Placeholders.Extends (later earlier : Placeholders) : Prop :=
  earlier.map (fun p => { p with resolved := false }) <+:
    later.map fun p => { p with resolved := false }

/-- A place where a placeholder is found. -/
structure Occurrence where
  id : Nat
  owner : Option Intrinsic
  slot : Slot
deriving DecidableEq, Repr

namespace Operand

/-- The operand with the meanings of its placeholders in their places, where all have one. -/
def expand (table : Placeholders) : Operand → Option Operand :=
  fold
    { scalar := fun s => some (.scalar s)
      list := fun items => (items.mapM id).map .list
      map := fun entries =>
        ((Entries.values entries).mapM id).map fun ys => .map ((Entries.keys entries).zip ys)
      call := fun c answers => (answers.operands.mapM id).map fun ys => .call (c.refill ys)
      pending := fun id => table[id]?.bind Placeholder.meaning? }

/-- The placeholders of each form of operand with their places, given where the operand is. -/
def occurrenceClauses : Clauses (Option Intrinsic → Slot → List Occurrence) where
  scalar _ _ _ := []
  list items _ _ := (Call.indexed items).flatMap fun e => e.2 none e.1
  map entries _ _ := (Call.keyed entries).flatMap fun e => e.2 none e.1
  call c answers _ _ := answers.children.flatMap fun e => e.2 (some c.function) e.1
  pending id owner slot := [⟨id, owner, slot⟩]

/-- The placeholders of an operand with their places, when the operand itself is in a slot. -/
def occurrences (owner : Option Intrinsic) (slot : Slot) (o : Operand) : List Occurrence :=
  fold occurrenceClauses o owner slot

/-- The numbers of the placeholders of an operand in a slot. -/
def ids (owner : Option Intrinsic) (slot : Slot) (o : Operand) : List Nat :=
  (o.occurrences owner slot).map Occurrence.id

end Operand

/-! ## One layer of an expansion -/

theorem Call.children_map {α β : Type} (f : α → β) (c : Call α) :
    (c.map f).children = c.children.map fun e => (e.1, f e.2) := by
  cases c <;> simp [map, children, indexed, keyed, List.zipIdx_map, Function.comp_def]

namespace Operand

variable {table : Placeholders}

@[simp] theorem expand_pending (id : Nat) :
    expand table (.pending id) = table[id]?.bind Placeholder.meaning? := by
  simp [expand]

/-- The expansion of an operand that is no placeholder expands its parts. -/
theorem expand_eq {o : Operand} (h : ∀ id, o ≠ .pending id) :
    o.expand table = (o.parts.mapM (expand table)).map o.refill := by
  have hid (xs : List Operand) : (xs.map (expand table)).mapM id = xs.mapM (expand table) := by
    rw [List.mapM_map]
    rfl
  cases o with
  | pending id => exact absurd rfl (h id)
  | scalar s => simp [expand, parts, refill, layer, Layer.refill, Layer.toOperand]
  | list items =>
    simp only [expand, fold_list, parts]
    exact congrArg (Option.map Operand.list) (hid items)
  | map entries =>
    have hunfold : expand table (.map entries) =
        ((Entries.values (entries.map fun e => (e.1, expand table e.2))).mapM id).map fun ys =>
          .map ((Entries.keys (entries.map fun e => (e.1, expand table e.2))).zip ys) := by
      simp only [expand, fold_map]
    rw [hunfold, Entries.values_map, Entries.keys_map, hid]
    rfl
  | call c =>
    -- The clause for calls collects the expansions from the call that holds them.
    have hunfold : expand table (.call c) =
        ((c.map (expand table)).operands.mapM id).map fun ys => .call (c.refill ys) := by
      simp only [expand, fold_call]
    rw [hunfold, Call.operands_map, hid]
    rfl

@[simp] theorem occurrences_pending (owner : Option Intrinsic) (slot : Slot) (id : Nat) :
    occurrences owner slot (.pending id) = [⟨id, owner, slot⟩] := by
  simp [occurrences, occurrenceClauses]

/-- The placeholders of an operand that is none are those of its children, in slot order. -/
theorem occurrences_eq {o : Operand} (h : ∀ id, o ≠ .pending id) (owner : Option Intrinsic)
    (slot : Slot) :
    o.occurrences owner slot =
      o.children.flatMap fun e => e.2.occurrences o.layer.owner? e.1 := by
  cases o with
  | pending id => exact absurd rfl (h id)
  | scalar s => simp [occurrences, occurrenceClauses, children]
  | list items =>
    simp [occurrences, occurrenceClauses, children, layer, Layer.owner?, Call.indexed,
      List.zipIdx_map, List.flatMap_map]
  | map entries =>
    simp [occurrences, occurrenceClauses, children, layer, Layer.owner?, Call.keyed,
      List.flatMap_map]
  | call c =>
    simp [occurrences, occurrenceClauses, children, layer, Layer.owner?, Call.children_map,
      List.flatMap_map]

theorem ids_eq {o : Operand} (h : ∀ id, o ≠ .pending id) (owner : Option Intrinsic)
    (slot : Slot) : o.ids owner slot = o.children.flatMap fun e => e.2.ids o.layer.owner? e.1 := by
  rw [ids, occurrences_eq h, List.map_flatMap]
  rfl

/-! ## Operands without placeholders -/

theorem pending_or_ne (o : Operand) : (∃ id, o = .pending id) ∨ ∀ id, o ≠ .pending id := by
  cases o with
  | pending id => exact .inl ⟨id, rfl⟩
  | _ => exact .inr nofun

theorem ne_pending_of_hasPending {o : Operand} (h : o.hasPending = false) (id : Nat) :
    o ≠ .pending id := by
  rintro rfl
  simp [hasPending] at h

/-- A placeholder occurs in an operand that is none if one occurs in its parts. -/
theorem hasPending_eq {o : Operand} (h : ∀ id, o ≠ .pending id) :
    o.hasPending = o.parts.any hasPending := by
  cases o with
  | scalar s => simp [hasPending, parts]
  | pending id => exact absurd rfl (h id)
  | list items =>
    simp only [hasPending, fold_list, List.any_map, parts]
    rfl
  | map entries =>
    simp only [hasPending, fold_map, List.any_map, parts, Entries.values]
    rfl
  | call c =>
    simp only [hasPending, fold_call, Call.operands_map, List.any_map, parts]
    rfl

theorem hasPending_of_mem_parts {o x : Operand} (h : o.hasPending = false) (hx : x ∈ o.parts) :
    x.hasPending = false := by
  rw [hasPending_eq (ne_pending_of_hasPending h), List.any_eq_false] at h
  simpa using h x hx

/-- An operand is built from its own parts. -/
theorem refill_parts (o : Operand) : o.refill o.parts = o := by
  cases o with
  | scalar s => rfl
  | pending id => rfl
  | list items => rfl
  | map entries =>
    simp [refill, layer, Layer.refill, Layer.toOperand, parts, Entries.keys, Entries.values,
      List.zip_map']
  | call c => simp [refill, layer, Layer.refill, Layer.toOperand, parts, Call.refill_operands]

/-- An operand without placeholders stands for itself. -/
theorem expand_of_hasPending {o : Operand} (h : o.hasPending = false) :
    o.expand table = some o := by
  induction o using Operand.induction with
  | step o ih =>
    have hparts : o.parts.mapM (expand table) = some o.parts :=
      mapM_eq_some_iff.2 (List.forall₂_same.2 fun x hx => ih x hx (hasPending_of_mem_parts h hx))
    rw [expand_eq (ne_pending_of_hasPending h), hparts, Option.map_some, refill_parts]

/-- An operand in which no placeholder is found has none. -/
theorem hasPending_of_occurrences {o : Operand} {owner : Option Intrinsic} {slot : Slot}
    (h : o.occurrences owner slot = []) : o.hasPending = false := by
  induction o using Operand.induction generalizing owner slot with
  | step o ih =>
    -- A placeholder would be found in itself.
    have hne : ∀ id, o ≠ .pending id := by
      rintro id rfl
      simp at h
    rw [hasPending_eq hne, List.any_eq_false]
    intro x hx
    rw [← map_snd_children] at hx
    obtain ⟨e, he, rfl⟩ := List.mem_map.1 hx
    rw [occurrences_eq hne, List.flatMap_eq_nil_iff] at h
    simp [ih e.2 (mem_parts_of_mem_children he) (h e he)]

/-- In an operand without placeholders none is found. -/
theorem occurrences_of_hasPending {o : Operand} (h : o.hasPending = false)
    (owner : Option Intrinsic) (slot : Slot) : o.occurrences owner slot = [] := by
  induction o using Operand.induction generalizing owner slot with
  | step o ih =>
    rw [occurrences_eq (ne_pending_of_hasPending h), List.flatMap_eq_nil_iff]
    intro e he
    have hpart := mem_parts_of_mem_children he
    exact ih e.2 hpart (hasPending_of_mem_parts h hpart) _ _

end Operand

/-! ## Building a layer -/

/-- Related values stay related under the same keys. -/
theorem forall₂_related_zip {α β : Type} {R : α → β → Prop} {ys : List α} {os : List β}
    (h : List.Forall₂ R ys os) (ks : List String) :
    List.Forall₂ (Entries.Related R) (ks.zip ys) (ks.zip os) := by
  induction h generalizing ks with
  | nil => simp
  | @cons y o ys os hyo _ ih =>
    cases ks with
    | nil => exact .nil
    | cons k ks => exact .cons ⟨rfl, hyo⟩ (ih ks)

/-- Entries are expanded value by value. -/
theorem Operand.mapM_expand_values {table : Placeholders} {es fs : List (String × Operand)}
    (h : List.Forall₂ (Entries.Related fun x y => x.expand table = some y) es fs) :
    (Entries.values es).mapM (expand table) = some (Entries.values fs) ∧
      (Entries.keys es).zip (Entries.values fs) = fs := by
  induction h with
  | nil => exact ⟨rfl, rfl⟩
  | @cons e f es fs hef _ ih =>
    obtain ⟨k, x⟩ := e
    obtain ⟨l, y⟩ := f
    obtain ⟨rfl, hxy⟩ : k = l ∧ x.expand table = some y := hef
    have hrest : (List.map Prod.snd es).mapM (expand table) = some (List.map Prod.snd fs) := ih.1
    refine ⟨by simp [Entries.values, hxy, hrest], ?_⟩
    have hzip := ih.2
    simp only [Entries.keys, Entries.values] at hzip ⊢
    simp [hzip]

namespace Layer

variable {α β : Type} {l : Layer α} {ys os : List Operand} {table : Placeholders}

/-- A layer whose leaf, if it is one, holds no placeholder. -/
def Literal (l : Layer α) : Prop := ∀ o, l = .leaf o → o.hasPending = false

/-- Building a layer from expanded children expands what is built. -/
theorem expand_build (hleaf : l.Literal) (hlength : ys.length = l.children.length)
    (h : List.Forall₂ (fun y o => y.expand table = some o) ys os) :
    (l.refill ys).build.expand table = some (l.refill os).build := by
  cases l with
  -- A leaf has no children to expand, and it holds no placeholder.
  | leaf o => exact Operand.expand_of_hasPending (hleaf o rfl)
  | list items =>
    have hitems : ys.mapM (Operand.expand table) = some os := mapM_eq_some_iff.2 h
    rw [refill, build, tidy, toOperand, Operand.expand_eq (by simp), Operand.parts, hitems]
    · rfl
    all_goals simp
  | map entries =>
    -- Of values under the same key the last one counts, before and after the expansion.
    have hrelated := Entries.forall₂_ofList (forall₂_related_zip h (Entries.keys entries))
    obtain ⟨hvalues, hzip⟩ := Operand.mapM_expand_values hrelated
    simp only [refill, build, tidy, toOperand]
    rw [Operand.expand_eq (by simp), Operand.parts, hvalues, Option.map_some]
    exact congrArg (fun es => some (Operand.map es)) hzip
  | call c =>
    have hoperands : (c.refill ys).operands = ys :=
      Call.operands_refill (by simpa [children] using hlength)
    -- All calls but a substitution are built as they are.
    have hplain : Operand.expand table (.call (c.refill ys)) = some (.call (c.refill os)) := by
      rw [Operand.expand_eq (by simp), Operand.parts, hoperands, mapM_eq_some_iff.2 h]
      exact congrArg (fun d => some (Operand.call d))
        (Call.refill_refill (by simpa [children] using hlength))
    cases c with
    | sub t bindings =>
      have hrelated := Entries.forall₂_ofList (forall₂_related_zip h (Entries.keys bindings))
      obtain ⟨hvalues, hzip⟩ := Operand.mapM_expand_values hrelated
      simp only [refill, build, tidy, toOperand, Call.refill]
      rw [Operand.expand_eq (by simp), Operand.parts, Call.operands, hvalues, Option.map_some]
      exact congrArg (fun es => some (Operand.call (.sub t es))) hzip
    | _ => exact hplain

/-- The placeholders of a layer with operands as children are those of the children. -/
theorem occurrences_toOperand {l : Layer Operand} (hleaf : l.Literal) (owner : Option Intrinsic)
    (slot : Slot) :
    l.toOperand.occurrences owner slot =
      l.children.flatMap fun e => e.2.occurrences l.owner? e.1 := by
  cases l with
  | leaf o => exact Operand.occurrences_of_hasPending (hleaf o rfl) owner slot
  | list items => exact Operand.occurrences_eq (by simp [toOperand]) owner slot
  | map entries => exact Operand.occurrences_eq (by simp [toOperand]) owner slot
  | call c => exact Operand.occurrences_eq (by simp [toOperand]) owner slot

/-- Tidying does not change what a layer calls. -/
theorem owner?_tidy (l : Layer α) : l.tidy.owner? = l.owner? := by
  cases l with
  | call c => cases c <;> rfl
  | _ => rfl

/-- Other children do not change what a layer calls. -/
theorem owner?_refill [Inhabited β] (l : Layer α) (ys : List β) :
    (l.refill ys).owner? = l.owner? := by
  cases l with
  | call c => exact congrArg some (Call.function_refill c ys)
  | _ => rfl

/-- Of the children of a layer, those remain that no later child replaces. -/
theorem remains_tidy {kept : Prop} {l : Layer α} (h : kept → l.keys.Nodup) :
    Remains kept l.tidy.children l.children := by
  cases l with
  | map entries => exact (Entries.remains_ofList h).map _
  | call c =>
    cases c with
    | sub t bindings => exact (Entries.remains_ofList h).map _
    | _ => exact .refl _
  | _ => exact .refl _

/-- A layer with as many other children has the same keys. -/
theorem keys_refill [Inhabited β] {l : Layer α} {zs : List β}
    (hlength : zs.length = l.children.length) : (l.refill zs).keys = l.keys := by
  have hzip (entries : List (String × α)) (h : zs.length = entries.length) :
      Entries.keys ((Entries.keys entries).zip zs) = Entries.keys entries :=
    List.map_fst_zip (by simpa [Entries.keys] using Nat.le_of_eq h.symm)
  cases l with
  | map entries => exact hzip entries (by simpa [children, Call.keyed] using hlength)
  | call c =>
    cases c with
    | sub t bindings =>
      exact hzip bindings (by simpa [children, Call.children, Call.keyed] using hlength)
    | _ => rfl
  | _ => rfl

/-- The placeholders in what is built are those of the children that are not replaced. -/
theorem remains_occurrences_build {kept : Prop} (hleaf : l.Literal) (hkeys : kept → l.keys.Nodup)
    (hlength : ys.length = l.children.length) (owner : Option Intrinsic) (slot : Slot) :
    Remains kept ((l.refill ys).build.occurrences owner slot)
      (((l.children.map Prod.fst).zip ys).flatMap fun e => e.2.occurrences l.owner? e.1) := by
  have hliteral : (l.refill ys).tidy.Literal := by
    intro o ho
    cases l with
    | leaf o' =>
      cases ho
      exact hleaf o rfl
    | call c => cases c <;> cases ho
    | _ => cases ho
  -- Where keys repeat, tidying drops children, and the placeholders in them.
  have htidy := remains_tidy (l := l.refill ys) fun hk => by
    rw [keys_refill hlength]
    exact hkeys hk
  rw [children_refill hlength] at htidy
  rw [build, occurrences_toOperand hliteral, owner?_tidy, owner?_refill]
  exact htidy.flatMap _

/-- What a layer builds is no placeholder. -/
theorem build_ne_pending (hleaf : l.Literal) (id : Nat) : (l.refill ys).build ≠ .pending id := by
  cases l with
  | leaf o => exact Operand.ne_pending_of_hasPending (hleaf o rfl) id
  | list items => simp [refill, build, tidy, toOperand]
  | map entries => simp [refill, build, tidy, toOperand]
  | call c => cases c <;> simp [refill, build, tidy, toOperand, Call.refill]

end Layer

end StackTemplate
