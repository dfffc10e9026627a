import StackTemplate.Call
import StackTemplate.Substitution
import StackTemplate.Value

/-!
# Operands

An operand is an unevaluated expression: a literal, a collection of operands, a call of an
intrinsic function, or the placeholder of an operand whose resolution is pending.

- `Operand.fold` computes bottom-up over an operand, given one clause per form (`Operand.Clauses`);
  its equations are `fold_list`, `fold_map` and `fold_call`.
- `Operand.induction` proves a statement about an operand from its parts.
- `Operand.references` lists the names that an operand mentions, each once, in order of first
  mention.
- `Operand.toNode` writes an operand with the long names of its functions.
-/

namespace StackTemplate

/-- An unevaluated expression. -/
inductive Operand where
  | scalar (s : Scalar)
  | list (items : List Operand)
  | map (entries : List (String × Operand))
  | call (c : Call Operand)
  | pending (id : Nat)
deriving Repr, Inhabited

namespace Operand

def string (text : String) : Operand := .scalar (.string text)

/-! ## Recursion and induction -/

/-- One clause for each form of operand; a call is given with its operands as they are and with
what was computed for them. -/
structure Clauses (β : Type) where
  scalar : Scalar → β
  list : List β → β
  map : List (String × β) → β
  call : Call Operand → Call β → β
  pending : Nat → β

variable {β : Type}

mutual

/-- What the clauses compute for an operand. -/
def fold (cl : Clauses β) : Operand → β
  | .scalar s => cl.scalar s
  | .list items => cl.list (foldItems cl items)
  | .map entries => cl.map (foldEntries cl entries)
  | .call c => cl.call c (foldCall cl c)
  | .pending id => cl.pending id

def foldItems (cl : Clauses β) : List Operand → List β
  | [] => []
  | x :: xs => fold cl x :: foldItems cl xs

def foldEntries (cl : Clauses β) : List (String × Operand) → List (String × β)
  | [] => []
  | (k, x) :: es => (k, fold cl x) :: foldEntries cl es

/-- What the clauses compute for each operand of a call. -/
def foldCall (cl : Clauses β) : Call Operand → Call β
  | .and xs => .and (foldItems cl xs)
  | .or xs => .or (foldItems cl xs)
  | .not x => .not (fold cl x)
  | .equals x y => .equals (fold cl x) (fold cl y)
  | .ref n => .ref n
  | .condition n => .condition n
  | .getAtt r x => .getAtt r (fold cl x)
  | .importValue x => .importValue (fold cl x)
  | .findInMap x y z => .findInMap (fold cl x) (fold cl y) (fold cl z)
  | .getAZs x => .getAZs (fold cl x)
  | .cidr x y z => .cidr (fold cl x) (fold cl y) (fold cl z)
  | .select x y => .select (fold cl x) (fold cl y)
  | .split x y => .split (fold cl x) (fold cl y)
  | .join x y => .join (fold cl x) (fold cl y)
  | .sub t bindings => .sub t (foldEntries cl bindings)
  | .base64 x => .base64 (fold cl x)
  | .ifElse c x y => .ifElse c (fold cl x) (fold cl y)

end

/-- The mutual recursion over the items of a list is a map. -/
theorem foldItems_eq_map (cl : Clauses β) (xs : List Operand) :
    foldItems cl xs = xs.map (fold cl) := by
  induction xs with
  | nil => simp [foldItems]
  | cons x xs ih => simp [foldItems, ih]

/-- The mutual recursion over the entries of a mapping maps their values. -/
theorem foldEntries_eq_map (cl : Clauses β) (es : List (String × Operand)) :
    foldEntries cl es = es.map fun e => (e.1, fold cl e.2) := by
  induction es with
  | nil => simp [foldEntries]
  | cons e es ih =>
    obtain ⟨k, x⟩ := e
    simp [foldEntries, ih]

theorem foldCall_eq_map (cl : Clauses β) (c : Call Operand) :
    foldCall cl c = c.map (fold cl) := by
  cases c <;> simp [foldCall, Call.map, foldItems_eq_map, foldEntries_eq_map]

@[simp] theorem fold_scalar (cl : Clauses β) (s : Scalar) :
    fold cl (.scalar s) = cl.scalar s := by
  simp [fold]

@[simp] theorem fold_list (cl : Clauses β) (items : List Operand) :
    fold cl (.list items) = cl.list (items.map (fold cl)) := by
  simp [fold, foldItems_eq_map]

@[simp] theorem fold_map (cl : Clauses β) (entries : List (String × Operand)) :
    fold cl (.map entries) = cl.map (entries.map fun e => (e.1, fold cl e.2)) := by
  simp [fold, foldEntries_eq_map]

@[simp] theorem fold_call (cl : Clauses β) (c : Call Operand) :
    fold cl (.call c) = cl.call c (c.map (fold cl)) := by
  simp [fold, foldCall_eq_map]

@[simp] theorem fold_pending (cl : Clauses β) (id : Nat) :
    fold cl (.pending id) = cl.pending id := by
  simp [fold]

/-- The operands directly inside an operand. -/
def parts : Operand → List Operand
  | .scalar _ | .pending _ => []
  | .list items => items
  | .map entries => Entries.values entries
  | .call c => c.operands

/-- A part of an operand is smaller than the operand. -/
theorem sizeOf_lt_of_mem_parts {x o : Operand} (h : x ∈ o.parts) : sizeOf x < sizeOf o := by
  cases o with
  | scalar s => simp [parts] at h
  | pending id => simp [parts] at h
  | list items =>
    have := List.sizeOf_lt_of_mem (show x ∈ items from h)
    simp only [Operand.list.sizeOf_spec]; omega
  | map entries =>
    have := Call.sizeOf_values_le entries (show x ∈ Entries.values entries from h)
    simp only [Operand.map.sizeOf_spec]; omega
  | call c =>
    have := Call.sizeOf_lt_of_mem_operands (show x ∈ c.operands from h)
    simp only [Operand.call.sizeOf_spec]; omega

/-- The operand with an action run on each part, in slot order. -/
def traverse {m : Type → Type} [Monad m] :
    (o : Operand) → (Slot → (x : Operand) → x ∈ o.parts → m Operand) → m Operand
  | .scalar s, _ => pure (.scalar s)
  | .pending id, _ => pure (.pending id)
  | .list items, f => do return .list (← traverseItems 0 items fun i x h => f (.index i) x h)
  | .map entries, f => do return .map (← traverseEntries entries fun k x h => f (.key k) x h)
  | .call c, f => do return .call (← c.traverse f)

/-- A statement that holds of an operand whenever it holds of its parts holds of every operand. -/
theorem induction {P : Operand → Prop} (step : ∀ o : Operand, (∀ x ∈ o.parts, P x) → P o)
    (o : Operand) : P o :=
  step o fun x h =>
    have := sizeOf_lt_of_mem_parts h
    induction step x
termination_by sizeOf o

/-! ## Views -/

/-- The text of a literal string operand. -/
def literal? : Operand → Option String
  | .scalar s => s.string?
  | _ => none

def call? : Operand → Option (Call Operand)
  | .call c => some c
  | _ => none

/-- The operands directly inside an operand, with their slots. -/
def children : Operand → List (Slot × Operand)
  | .scalar _ | .pending _ => []
  | .list items => Call.indexed items
  | .map entries => Call.keyed entries
  | .call c => c.children

/-- Whether a placeholder occurs at any depth. -/
def hasPending : Operand → Bool :=
  fold
    { scalar := fun _ => false
      list := fun items => items.any id
      map := fun entries => entries.any Prod.snd
      call := fun _ c => c.operands.any id
      pending := fun _ => true }

end Operand

/-! ## References -/

/-- A mention of another entity. -/
inductive Reference where
  | ref (name : String)
  | getAtt (name attributeName : String)
  | condition (name : String)
deriving DecidableEq, Repr

def Reference.name : Reference → String
  | .ref name | .getAtt name _ | .condition name => name

/-- The attribute name that stands for an attribute computed at evaluation time. -/
def dynamicAttribute : String := "*"

/-- The members of a list, each at its first occurrence only. -/
def firstOccurrences {α : Type} [DecidableEq α] (xs : List α) : List α :=
  xs.foldl (fun acc x => if x ∈ acc then acc else acc ++ [x]) []

namespace Segment

/-- The reference of a placeholder that none of the variables replaces. -/
def reference? (bindings : List String) (s : Segment) : Option Reference :=
  match s, s.variableName? with
  | .ref name, some key => if key ∈ bindings then none else some (.ref name)
  | .getAtt resource attributeName, some key =>
    if key ∈ bindings then none else some (.getAtt resource attributeName)
  | _, _ => none

end Segment

/-- The references that a call makes itself, apart from its operands. -/
def Call.ownReferences : Call Operand → List Reference
  | .ref name => [.ref name]
  | .condition name => [.condition name]
  | .getAtt resource attributeName =>
    [.getAtt resource (attributeName.literal?.getD dynamicAttribute)]
  | .ifElse name _ _ => [.condition name]
  | .sub template bindings =>
    (Segment.parse template).filterMap (Segment.reference? (Entries.keys bindings))
  | _ => []

namespace Operand

/-- Every mention of an entity, in order, with repetitions. -/
def mentions : Operand → List Reference :=
  fold
    { scalar := fun _ => []
      list := fun items => items.flatten
      map := fun entries => (Entries.values entries).flatten
      call := fun whole c => whole.ownReferences ++ c.operands.flatten
      pending := fun _ => [] }

/-- The entities that an operand mentions, each once, in order of first mention. -/
def references (o : Operand) : List Reference := firstOccurrences o.mentions

end Operand

/-! ## Documents -/

/-- The arguments of a call as a document. -/
def Call.argumentsNode : Call Node → Node
  | .ref name | .condition name => .string name
  | .not x => .seq [x]
  | .importValue x | .getAZs x | .base64 x => x
  | .getAtt resource attributeName => .seq [.string resource, attributeName]
  | .sub template [] => .string template
  | .sub template bindings =>
    .seq [.string template, .map (bindings.map fun e => (.string e.1, e.2))]
  | .ifElse name whenTrue whenFalse => .seq [.string name, whenTrue, whenFalse]
  | .and xs | .or xs => .seq xs
  | .equals x y | .select x y | .split x y | .join x y => .seq [x, y]
  | .findInMap x y z | .cidr x y z => .seq [x, y, z]

/-- The mapping that writes a call under the long name of its function. -/
def Call.toNode (c : Call Node) : Node :=
  .map [(.string c.function.longName, c.argumentsNode)]

def Operand.toNode : Operand → Node :=
  Operand.fold
    { scalar := Scalar.toNode
      list := .seq
      map := fun entries => .map (entries.map fun e => (.string e.1, e.2))
      call := fun _ c => c.toNode
      pending := fun id => .string ("<pending #" ++ toString id ++ ">") }

end StackTemplate
