import StackTemplate.Operand
import StackTemplate.Proofs.Entries

/-!
# Layers

A layer is one level of an operand, or of the node that an operand is read from: a literal, a list,
a map or a call, with children of any type in its slots. Running an action on the children of a
layer in slot order is the same for all of them.

* `Layer.children`, `Layer.refill` : the children with their slots, and the layer with others.
* `Call.traverse_eq`, `Operand.traverse_eq` : a traversal runs through the children and refills the
  layer.
-/

namespace StackTemplate

variable {α β γ : Type}

namespace Call

/-- The call with other operands, given in slot order. -/
def refill [Inhabited β] : Call α → List β → Call β
  | .and _, ys => .and ys
  | .or _, ys => .or ys
  | .not _, ys => .not (ys.getD 0 default)
  | .equals _ _, ys => .equals (ys.getD 0 default) (ys.getD 1 default)
  | .ref n, _ => .ref n
  | .condition n, _ => .condition n
  | .getAtt r _, ys => .getAtt r (ys.getD 0 default)
  | .importValue _, ys => .importValue (ys.getD 0 default)
  | .findInMap _ _ _, ys =>
    .findInMap (ys.getD 0 default) (ys.getD 1 default) (ys.getD 2 default)
  | .getAZs _, ys => .getAZs (ys.getD 0 default)
  | .cidr _ _ _, ys => .cidr (ys.getD 0 default) (ys.getD 1 default) (ys.getD 2 default)
  | .select _ _, ys => .select (ys.getD 0 default) (ys.getD 1 default)
  | .split _ _, ys => .split (ys.getD 0 default) (ys.getD 1 default)
  | .join _ _, ys => .join (ys.getD 0 default) (ys.getD 1 default)
  | .sub t bindings, ys => .sub t ((Entries.keys bindings).zip ys)
  | .base64 _, ys => .base64 (ys.getD 0 default)
  | .ifElse n _ _, ys => .ifElse n (ys.getD 0 default) (ys.getD 1 default)

/-- The slots of a call that has operands. -/
def slots (c : Call α) : List Slot := c.children.map Prod.fst

@[simp] theorem length_operands (c : Call α) : c.operands.length = c.children.length := by
  rw [← map_snd_children, List.length_map]

@[simp] theorem function_refill [Inhabited β] (c : Call α) (ys : List β) :
    (c.refill ys).function = c.function := by
  cases c <;> rfl

/-- Visiting the items of a list runs the action on each, in its slot. -/
theorem traverseItems_eq {m : Type → Type} [Monad m] [LawfulMonad m] (f : Slot → α → m β) (i : Nat)
    (xs : List α) :
    traverseItems i xs (fun j x _ => f (.index j) x) =
      ((xs.zipIdx i).map fun (x, j) => (Slot.index j, x)).mapM fun e => f e.1 e.2 := by
  induction xs generalizing i with
  | nil => simp [traverseItems]
  | cons x xs ih => simp [traverseItems, ih]

/-- Visiting the entries of a map runs the action on each value and puts the results under the same
keys. -/
theorem traverseEntries_eq {m : Type → Type} [Monad m] [LawfulMonad m] (f : Slot → α → m β)
    (es : List (String × α)) :
    traverseEntries es (fun k x _ => f (.key k) x) =
      (fun ys => (Entries.keys es).zip ys) <$> (keyed es).mapM fun e => f e.1 e.2 := by
  induction es with
  | nil => simp [traverseEntries, keyed]
  | cons e es ih =>
    obtain ⟨k, x⟩ := e
    simp only [traverseEntries, ih]
    simp [keyed]

/-- A traversal runs its action on the children in slot order and refills the call. -/
theorem traverse_eq [Inhabited β] {m : Type → Type} [Monad m] [LawfulMonad m] (c : Call α)
    (f : Slot → α → m β) :
    c.traverse (fun slot x _ => f slot x) = c.refill <$> c.children.mapM fun e => f e.1 e.2 := by
  cases c with
  | and xs =>
    simp only [traverse, traverseItems_eq, children, indexed, bind_pure_comp]
    rfl
  | or xs =>
    simp only [traverse, traverseItems_eq, children, indexed, bind_pure_comp]
    rfl
  | sub t bindings =>
    simp only [traverse, traverseEntries_eq, children, bind_pure_comp, Functor.map_map]
    rfl
  | _ => simp [traverse, children, refill]

/-- The operands of a refilled call, one for each that the call had. -/
theorem operands_refill [Inhabited β] {c : Call α} {ys : List β}
    (h : ys.length = c.operands.length) : (c.refill ys).operands = ys := by
  cases c with
  | and xs => rfl
  | or xs => rfl
  -- The values are zipped with the keys, and none is lost because there are as many.
  | sub t bindings =>
    have hkeys : ys.length ≤ (Entries.keys bindings).length := by
      simpa [operands, Entries.values, Entries.keys] using Nat.le_of_eq h
    exact List.map_snd_zip hkeys
  | ref n => exact (List.length_eq_zero_iff.1 h).symm
  | condition n => exact (List.length_eq_zero_iff.1 h).symm
  | not x | getAtt r x | importValue x | getAZs x | base64 x =>
    obtain ⟨y, rfl⟩ := List.length_eq_one_iff.1 h
    rfl
  | equals x y | select x y | split x y | join x y | ifElse n x y =>
    obtain ⟨y₁, y₂, rfl⟩ := List.length_eq_two.1 h
    rfl
  | findInMap x y z | cidr x y z =>
    obtain ⟨y₁, y₂, y₃, rfl⟩ := List.length_eq_three.1 h
    rfl

theorem zip_map_fst_indexed {xs : List α} {ys : List β} (h : ys.length = xs.length) :
    ((indexed xs).map Prod.fst).zip ys = indexed ys := by
  refine List.ext_getElem (by simp [indexed, h]) fun i hi hi' => ?_
  simp [indexed]

/-- The slots of a map are its keys, whatever its values are. -/
theorem zip_map_fst_keyed {es : List (String × α)} {ys : List β} :
    ((keyed es).map Prod.fst).zip ys = keyed ((Entries.keys es).zip ys) := by
  refine List.ext_getElem (by simp [keyed, Entries.keys]) fun i hi hi' => ?_
  simp [keyed, Entries.keys]

/-- A refilled call has the slots that the call had. -/
theorem children_refill [Inhabited β] {c : Call α} {ys : List β}
    (h : ys.length = c.operands.length) : (c.refill ys).children = c.slots.zip ys := by
  cases c with
  | and xs => exact (zip_map_fst_indexed h).symm
  | or xs => exact (zip_map_fst_indexed h).symm
  | sub t bindings => exact zip_map_fst_keyed.symm
  | ref n => rfl
  | condition n => rfl
  | not x | getAtt r x | importValue x | getAZs x | base64 x =>
    obtain ⟨y, rfl⟩ := List.length_eq_one_iff.1 h
    rfl
  | equals x y | select x y | split x y | join x y | ifElse n x y =>
    obtain ⟨y₁, y₂, rfl⟩ := List.length_eq_two.1 h
    rfl
  | findInMap x y z | cidr x y z =>
    obtain ⟨y₁, y₂, y₃, rfl⟩ := List.length_eq_three.1 h
    rfl

/-- Only the shape of a refilled call counts. -/
theorem refill_refill [Inhabited β] [Inhabited γ] {c : Call α} {ys : List β} {zs : List γ}
    (h : ys.length = c.operands.length) : (c.refill ys).refill zs = c.refill zs := by
  cases c with
  -- Only here the shape, which is the keys, passes through the first list of operands.
  | sub t bindings =>
    have hlength : (Entries.keys bindings).length ≤ ys.length := by
      simpa [operands, Entries.values, Entries.keys] using Nat.le_of_eq h.symm
    simp only [refill, Entries.keys] at hlength ⊢
    rw [List.map_fst_zip hlength]
  | _ => rfl

/-- A call is built from its own operands. -/
theorem refill_operands [Inhabited α] (c : Call α) : c.refill c.operands = c := by
  cases c with
  | sub t bindings =>
    simp [refill, operands, Entries.keys, Entries.values, List.zip_map']
  | _ => rfl

end Call

/-! ## Layers -/

/-- One level of an operand, with children of another type. -/
inductive Layer (α : Type) where
  | leaf (o : Operand)
  | list (items : List α)
  | map (entries : List (String × α))
  | call (c : Call α)

namespace Layer

/-- The children with their slots, in slot order. -/
def children : Layer α → List (Slot × α)
  | .leaf _ => []
  | .list items => Call.indexed items
  | .map entries => Call.keyed entries
  | .call c => c.children

/-- The layer with other children, given in slot order. -/
def refill [Inhabited β] : Layer α → List β → Layer β
  | .leaf o, _ => .leaf o
  | .list _, ys => .list ys
  | .map entries, ys => .map ((Entries.keys entries).zip ys)
  | .call c, ys => .call (c.refill ys)

/-- The function whose operands the children are. -/
def owner? : Layer α → Option Intrinsic
  | .call c => some c.function
  | _ => none

def toOperand : Layer Operand → Operand
  | .leaf o => o
  | .list items => .list items
  | .map entries => .map entries
  | .call c => .call c

/-- The layer in which of two children with the same key the later one takes the place of the
first. -/
def tidy : Layer α → Layer α
  | .map entries => .map (Entries.ofList entries)
  | .call (.sub t bindings) => .call (.sub t (Entries.ofList bindings))
  | l => l

/-- A refilled layer has the slots that the layer had. -/
theorem children_refill [Inhabited β] {l : Layer α} {ys : List β}
    (h : ys.length = l.children.length) :
    (l.refill ys).children = (l.children.map Prod.fst).zip ys := by
  cases l with
  | leaf o => rfl
  | list items =>
    have hlength : ys.length = items.length := by simpa [children, Call.indexed] using h
    exact (Call.zip_map_fst_indexed hlength).symm
  | map entries => exact Call.zip_map_fst_keyed.symm
  | call c => exact Call.children_refill (by simpa [children] using h)

end Layer

namespace Operand

/-- The outermost level of an operand; placeholders and literals have no children. -/
def layer : Operand → Layer Operand
  | .list items => .list items
  | .map entries => .map entries
  | .call c => .call c
  | o => .leaf o

/-- The operand with other parts, given in slot order. -/
def refill (o : Operand) (ys : List Operand) : Operand := (o.layer.refill ys).toOperand

theorem children_layer (o : Operand) : o.layer.children = o.children := by
  cases o <;> rfl

/-- The children of an operand without their slots are its parts. -/
theorem map_snd_children (o : Operand) : o.children.map Prod.snd = o.parts := by
  cases o with
  | scalar s => rfl
  | pending id => rfl
  | list items => simp [children, parts, Call.indexed, Function.comp_def]
  | map entries => simp [children, parts, Call.keyed, Entries.values]
  | call c => exact c.map_snd_children

theorem mem_parts_of_mem_children {o x : Operand} {slot : Slot} (h : (slot, x) ∈ o.children) :
    x ∈ o.parts := by
  rw [← map_snd_children]
  exact List.mem_map.2 ⟨(slot, x), h, rfl⟩

/-- A traversal runs its action on the parts in slot order and refills the operand. -/
theorem traverse_eq {m : Type → Type} [Monad m] [LawfulMonad m] (o : Operand)
    (f : Slot → Operand → m Operand) :
    o.traverse (fun slot x _ => f slot x) = o.refill <$> o.children.mapM fun e => f e.1 e.2 := by
  cases o with
  | scalar s => simp [traverse, children, layer, refill, Layer.refill, Layer.toOperand]
  | pending id => simp [traverse, children, layer, refill, Layer.refill, Layer.toOperand]
  | list items =>
    simp only [traverse, Call.traverseItems_eq, bind_pure_comp]
    rfl
  -- Both sides put the results under the keys of the map.
  | map entries =>
    simp only [traverse, Call.traverseEntries_eq, bind_pure_comp, Functor.map_map]
    rfl
  | call c =>
    calc (call c).traverse (fun slot x _ => f slot x)
        = call <$> c.traverse fun slot x _ => f slot x := by
          simp only [traverse, bind_pure_comp]
          rfl
      _ = call <$> c.refill <$> c.children.mapM fun e => f e.1 e.2 := by
          rw [Call.traverse_eq c f]
      _ = (call c).refill <$> (call c).children.mapM fun e => f e.1 e.2 :=
          Functor.map_map c.refill call _

end Operand

end StackTemplate
