import StackTemplate.Dict
import StackTemplate.Intrinsic

/-!
# Calls of intrinsic functions

`Call α` is one call of an intrinsic function whose operands are of type `α`: expressions,
documents, or the values computed for them. The operands of a call sit in named slots.

- `Call.map` applies a function to every operand, `Call.traverse` runs an action on every operand
  in slot order.
- `Call.operands` lists the operands, `Call.children` the operands with their slots.
-/

namespace StackTemplate

/-- The place of an operand within a call or a collection. -/
inductive Slot where
  | index (i : Nat)
  | key (name : String)
  | field (name : String)
deriving DecidableEq, Repr

/-- The path segment of a slot. -/
def Slot.segment : Slot → String
  | .index i => "[" ++ toString i ++ "]"
  | .key name => "." ++ name
  | .field name => "::" ++ name

/-- One call of an intrinsic function with operands of type `α`. -/
inductive Call (α : Type) where
  | and (operands : List α)
  | or (operands : List α)
  | not (operand : α)
  | equals (left right : α)
  | ref (name : String)
  | condition (name : String)
  | getAtt (resource : String) (attributeName : α)
  | importValue (name : α)
  | findInMap (map topKey secondKey : α)
  | getAZs (region : α)
  | cidr (block count bits : α)
  | select (index list : α)
  | split (delimiter source : α)
  | join (delimiter values : α)
  | sub (template : String) (bindings : List (String × α))
  | base64 (value : α)
  | ifElse (condition : String) (whenTrue whenFalse : α)
deriving DecidableEq, Repr

/-- An action run on the members of a list with their indices, from `i` up. -/
def traverseItems {α β : Type} {m : Type → Type} [Monad m] (i : Nat) :
    (xs : List α) → (Nat → (x : α) → x ∈ xs → m β) → m (List β)
  | [], _ => pure []
  | x :: xs, f => do
    let y ← f i x List.mem_cons_self
    let ys ← traverseItems (i + 1) xs fun j z h => f j z (List.mem_cons_of_mem x h)
    pure (y :: ys)

/-- An action run on the values of a list of entries with their keys. -/
def traverseEntries {α β : Type} {m : Type → Type} [Monad m] :
    (es : List (String × α)) → (String → (x : α) → x ∈ Entries.values es → m β) →
      m (List (String × β))
  | [], _ => pure []
  | (k, x) :: es, f => do
    let y ← f k x List.mem_cons_self
    let ys ← traverseEntries es fun l z h => f l z (List.mem_cons_of_mem x h)
    pure ((k, y) :: ys)

namespace Call

variable {α β : Type}

def function : Call α → Intrinsic
  | .and _ => .and
  | .or _ => .or
  | .not _ => .not
  | .equals .. => .equals
  | .ref _ => .ref
  | .condition _ => .condition
  | .getAtt .. => .getAtt
  | .importValue _ => .importValue
  | .findInMap .. => .findInMap
  | .getAZs _ => .getAZs
  | .cidr .. => .cidr
  | .select .. => .select
  | .split .. => .split
  | .join .. => .join
  | .sub .. => .sub
  | .base64 _ => .base64
  | .ifElse .. => .ifElse

/-- The operands in slot order. -/
def operands : Call α → List α
  | .and xs | .or xs => xs
  | .not x | .importValue x | .getAZs x | .base64 x => [x]
  | .ref _ | .condition _ => []
  | .getAtt _ x => [x]
  | .equals x y | .select x y | .split x y | .join x y | .ifElse _ x y => [x, y]
  | .findInMap x y z | .cidr x y z => [x, y, z]
  | .sub _ bindings => Entries.values bindings

/-- The members of a list with their indices as slots. -/
def indexed (xs : List α) : List (Slot × α) :=
  xs.zipIdx.map fun (x, i) => (.index i, x)

/-- The members of a list of entries with their keys as slots. -/
def keyed (es : List (String × α)) : List (Slot × α) :=
  es.map fun (k, x) => (.key k, x)

/-- The operands with their slots, in slot order. -/
def children : Call α → List (Slot × α)
  | .and xs | .or xs => indexed xs
  | .not x => [(.field "operand", x)]
  | .equals x y => [(.field "left", x), (.field "right", y)]
  | .ref _ | .condition _ => []
  | .getAtt _ x => [(.field "attribute", x)]
  | .importValue x => [(.field "name", x)]
  | .findInMap x y z => [(.field "map", x), (.field "top_key", y), (.field "second_key", z)]
  | .getAZs x => [(.field "region", x)]
  | .cidr x y z => [(.field "block", x), (.field "count", y), (.field "bits", z)]
  | .select x y => [(.field "index", x), (.field "list", y)]
  | .split x y => [(.field "delimiter", x), (.field "source", y)]
  | .join x y => [(.field "delimiter", x), (.field "values", y)]
  | .sub _ bindings => keyed bindings
  | .base64 x => [(.field "value", x)]
  | .ifElse _ x y => [(.field "when_true", x), (.field "when_false", y)]

def map (f : α → β) : Call α → Call β
  | .and xs => .and (xs.map f)
  | .or xs => .or (xs.map f)
  | .not x => .not (f x)
  | .equals x y => .equals (f x) (f y)
  | .ref n => .ref n
  | .condition n => .condition n
  | .getAtt r x => .getAtt r (f x)
  | .importValue x => .importValue (f x)
  | .findInMap x y z => .findInMap (f x) (f y) (f z)
  | .getAZs x => .getAZs (f x)
  | .cidr x y z => .cidr (f x) (f y) (f z)
  | .select x y => .select (f x) (f y)
  | .split x y => .split (f x) (f y)
  | .join x y => .join (f x) (f y)
  | .sub t bindings => .sub t (bindings.map fun e => (e.1, f e.2))
  | .base64 x => .base64 (f x)
  | .ifElse c x y => .ifElse c (f x) (f y)

/-- The call with an action run on every operand in slot order. -/
def traverse {m : Type → Type} [Monad m] :
    (c : Call α) → (Slot → (x : α) → x ∈ c.operands → m β) → m (Call β)
  | .and xs, f => do return .and (← traverseItems 0 xs fun i x h => f (.index i) x h)
  | .or xs, f => do return .or (← traverseItems 0 xs fun i x h => f (.index i) x h)
  | .not x, f => do return .not (← f (.field "operand") x (by simp [operands]))
  | .equals x y, f => do
    let x' ← f (.field "left") x (by simp [operands])
    let y' ← f (.field "right") y (by simp [operands])
    return .equals x' y'
  | .ref n, _ => pure (.ref n)
  | .condition n, _ => pure (.condition n)
  | .getAtt r x, f => do return .getAtt r (← f (.field "attribute") x (by simp [operands]))
  | .importValue x, f => do return .importValue (← f (.field "name") x (by simp [operands]))
  | .findInMap x y z, f => do
    let x' ← f (.field "map") x (by simp [operands])
    let y' ← f (.field "top_key") y (by simp [operands])
    let z' ← f (.field "second_key") z (by simp [operands])
    return .findInMap x' y' z'
  | .getAZs x, f => do return .getAZs (← f (.field "region") x (by simp [operands]))
  | .cidr x y z, f => do
    let x' ← f (.field "block") x (by simp [operands])
    let y' ← f (.field "count") y (by simp [operands])
    let z' ← f (.field "bits") z (by simp [operands])
    return .cidr x' y' z'
  | .select x y, f => do
    let x' ← f (.field "index") x (by simp [operands])
    let y' ← f (.field "list") y (by simp [operands])
    return .select x' y'
  | .split x y, f => do
    let x' ← f (.field "delimiter") x (by simp [operands])
    let y' ← f (.field "source") y (by simp [operands])
    return .split x' y'
  | .join x y, f => do
    let x' ← f (.field "delimiter") x (by simp [operands])
    let y' ← f (.field "values") y (by simp [operands])
    return .join x' y'
  | .sub t bindings, f => do
    return .sub t (← traverseEntries bindings fun k x h => f (.key k) x h)
  | .base64 x, f => do return .base64 (← f (.field "value") x (by simp [operands]))
  | .ifElse c x y, f => do
    let x' ← f (.field "when_true") x (by simp [operands])
    let y' ← f (.field "when_false") y (by simp [operands])
    return .ifElse c x' y'

@[simp] theorem function_map (f : α → β) (c : Call α) : (c.map f).function = c.function := by
  cases c <;> rfl

@[simp] theorem operands_map (f : α → β) (c : Call α) : (c.map f).operands = c.operands.map f := by
  cases c <;> simp [map, operands, Entries.values, Function.comp_def]

/-- The children of a call are its operands. -/
theorem map_snd_children (c : Call α) : c.children.map Prod.snd = c.operands := by
  cases c <;> simp [children, operands, indexed, keyed, Entries.values, Function.comp_def]

/-- A value is smaller than the entries that it stands in. -/
theorem sizeOf_values_le (es : List (String × α)) [SizeOf α] {x : α}
    (h : x ∈ Entries.values es) : sizeOf x < sizeOf es := by
  obtain ⟨e, he, rfl⟩ := List.mem_map.1 h
  have hlt := List.sizeOf_lt_of_mem he
  obtain ⟨k, v⟩ := e
  simp only [Prod.mk.sizeOf_spec] at hlt
  simp only
  omega

/-- An operand is smaller than its call. -/
theorem sizeOf_lt_of_mem_operands [SizeOf α] {c : Call α} {x : α} (h : x ∈ c.operands) :
    sizeOf x < sizeOf c := by
  cases c with
  | and xs =>
    have := List.sizeOf_lt_of_mem (show x ∈ xs from h)
    simp only [Call.and.sizeOf_spec]; omega
  | or xs =>
    have := List.sizeOf_lt_of_mem (show x ∈ xs from h)
    simp only [Call.or.sizeOf_spec]; omega
  | sub t bindings =>
    have := sizeOf_values_le bindings (show x ∈ Entries.values bindings from h)
    simp only [Call.sub.sizeOf_spec]; omega
  | _ =>
    simp only [operands, List.mem_cons, List.not_mem_nil, or_false] at h <;>
      rcases h with rfl | rfl | rfl <;> simp +arith

end Call

end StackTemplate
