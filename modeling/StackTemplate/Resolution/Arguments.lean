import StackTemplate.Operand
import StackTemplate.Resolution.Fault

/-!
# Calls in documents

A node is a call when it carries a local tag or is a mapping whose single key names a function.
Whether a mapping with the single key `Condition` is a call depends on the context.

- `Node.call?` recognises a call and returns its function and argument node.
- `Arguments.ofNode` reads the argument node: it checks the number of operands and the literal
  names, and leaves the operands as nodes.
- The operands of a call are the argument node or its items (`Arguments.operand_of_ofNode`), so
  they are smaller than the node of the call (`Node.sizeOf_lt_of_call?`,
  `Arguments.sizeOf_le_of_mem_operands`, `Arguments.sizeOf_lt_of_mem_variables`).
-/

namespace StackTemplate

/-- The function and the argument node of a call, where the node is one. -/
def Node.call? (ctx : Context) : Node → Except Fault (Option (Intrinsic × Node))
  | .tagged name content =>
    match Intrinsic.ofName? (Node.tagText name) with
    | some f => .ok (some (f, content))
    | none => .error (.unknownFunction ctx.path (Node.tagText name))
  | .map [(.string key, content)] =>
    if !Intrinsic.isCallKey key then .ok none
    else if key = Intrinsic.condition.longName && !ctx.area.readsConditionKey ctx.owner then
      .ok none
    else if key = "Fn::Transform" then .error (.macroCall ctx.path)
    else
      match Intrinsic.ofName? key with
      | some f => .ok (some (f, content))
      | none => .error (.unknownFunction ctx.path key)
  | _ => .ok none

/-- A call is larger than its argument node. -/
theorem Node.sizeOf_lt_of_call? {ctx : Context} {node args : Node} {f : Intrinsic}
    (h : node.call? ctx = .ok (some (f, args))) : sizeOf args < sizeOf node := by
  unfold Node.call? at h
  split at h
  · split at h
    · simp only [Except.ok.injEq, Option.some.injEq, Prod.mk.injEq] at h
      simp only [Node.tagged.sizeOf_spec, ← h.2]
      omega
    · simp at h
  · -- Of the ways to read a mapping, one gives a call, and its only value is the argument node.
    repeat' split at h
    all_goals
      simp only [Except.ok.injEq, Option.some.injEq, Prod.mk.injEq, reduceCtorEq] at h
    simp only [Node.map.sizeOf_spec, List.cons.sizeOf_spec, Prod.mk.sizeOf_spec, ← h.2]
    omega
  · simp at h

/-- Whether the meaning of an operand depends on the call around it: a sequence, a mapping that is
no call in every context, or a mapping with the single key `Condition`. -/
def Node.dependsOnOwner : Node → Bool
  | .seq _ => true
  | .map [(.string key, _)] => !Intrinsic.isCallKey key || key = Intrinsic.condition.longName
  | .map _ => true
  | _ => false

/-- The arguments of a call before its operands are resolved. A call is literal where its operand
is part of a text or left out; the keys of the variables of a substitution are not checked yet. -/
inductive Arguments where
  | call (c : Call Node)
  | literal (c : Call Operand)
  | substitution (template : String) (bindings : List (Node × Node))

namespace Arguments

/-- The items of a sequence of `least` to `most` operands. -/
def items (least most : Nat) : Node → Except CallFault (List Node)
  | .seq items =>
    if least ≤ items.length ∧ items.length ≤ most then .ok items
    else .error (.arity least most (some items.length))
  | _ => .error (.arity least most none)

/-- A literal logical name. -/
def logicalName : Node → Except CallFault String
  | .string name => if name = "" then .error .logicalName else .ok name
  | _ => .error .logicalName

def one (make : Node → Call Node) (args : Node) : Except CallFault Arguments := do
  match ← items 1 1 args with
  | [x] => return .call (make x)
  | xs => .error (.arity 1 1 (some xs.length))

def two (make : Node → Node → Except CallFault (Call Node)) (args : Node) :
    Except CallFault Arguments := do
  match ← items 2 2 args with
  | [x, y] => return .call (← make x y)
  | xs => .error (.arity 2 2 (some xs.length))

def three (make : Node → Node → Node → Except CallFault (Call Node)) (args : Node) :
    Except CallFault Arguments := do
  match ← items 3 3 args with
  | [x, y, z] => return .call (← make x y z)
  | xs => .error (.arity 3 3 (some xs.length))

/-- The resource and the attribute of a text in which the first point divides them. -/
def attributePath (path : String) : Except CallFault Arguments :=
  match Text.splitOnce? "." path with
  | none => .error .attributePath
  | some (resource, name) =>
    if resource = "" ∨ name = "" then .error .emptyAttributePath
    else .ok (.literal (.getAtt resource (.string name)))

/-- The arguments of a substitution: a string, or a sequence of a string and variables. -/
def ofSubstitution : Node → Except CallFault Arguments
  | .string template => .ok (.substitution template [])
  | args => do
    match ← items 1 2 args with
    | .string template :: [] => return .substitution template []
    | .string template :: .map bindings :: _ => return .substitution template bindings
    | .string _ :: _ => .error .substitutionVariables
    | _ => .error .substitutionText

/-- The arguments of a call of a function. -/
def ofNode (f : Intrinsic) (args : Node) : Except CallFault Arguments :=
  match f with
  | .and => return .call (.and (← items 2 10 args))
  | .or => return .call (.or (← items 2 10 args))
  | .not => one .not args
  | .equals => two (fun x y => .ok (.equals x y)) args
  | .ref => return .call (.ref (← logicalName args))
  | .condition => return .call (.condition (← logicalName args))
  | .getAtt =>
    match args with
    | .string path => attributePath path
    | args => two (fun x y => return .getAtt (← logicalName x) y) args
  | .importValue => .ok (.call (.importValue args))
  | .findInMap => three (fun x y z => .ok (.findInMap x y z)) args
  | .getAZs =>
    match args with
    | .null => .ok (.literal (.getAZs (.string "")))
    | args => .ok (.call (.getAZs args))
  | .cidr => three (fun x y z => .ok (.cidr x y z)) args
  | .select => two (fun x y => .ok (.select x y)) args
  | .split => two (fun x y => .ok (.split x y)) args
  | .join => two (fun x y => .ok (.join x y)) args
  | .sub => ofSubstitution args
  | .base64 => .ok (.call (.base64 args))
  | .ifElse => three (fun x y z => return .ifElse (← logicalName x) y z) args

/-! ## Sizes -/

/-- Only a sequence has items. -/
theorem eq_seq_of_items {least most : Nat} {args : Node} {xs : List Node}
    (h : items least most args = .ok xs) : args = .seq xs := by
  unfold items at h
  split at h
  · split at h
    · simp only [Except.ok.injEq] at h
      rw [h]
    · simp at h
  · simp at h

/-- An operand of a call is the argument node itself or one of its items. -/
theorem operand_of_ofNode {f : Intrinsic} {args x : Node} {c : Call Node}
    (h : ofNode f args = .ok (.call c)) (hx : x ∈ c.operands) :
    x = args ∨ ∃ xs, args = .seq xs ∧ x ∈ xs := by
  cases f <;>
    simp only [ofNode, one, two, three, ofSubstitution, attributePath, bind, Except.bind, pure,
      Except.pure] at h <;>
    grind [eq_seq_of_items, Call.operands]

/-- An operand is no larger than the argument node that it is read from. -/
theorem sizeOf_le_of_mem_operands {f : Intrinsic} {args x : Node} {c : Call Node}
    (h : ofNode f args = .ok (.call c)) (hx : x ∈ c.operands) : sizeOf x ≤ sizeOf args := by
  rcases operand_of_ofNode h hx with rfl | ⟨xs, rfl, hmem⟩
  · exact Nat.le_refl _
  · have := List.sizeOf_lt_of_mem hmem
    simp only [Node.seq.sizeOf_spec]
    omega

/-- The variables of a substitution are written as its second argument, if at all. -/
theorem mem_of_substitution {args : Node} {template : String} {bindings : List (Node × Node)}
    (h : ofSubstitution args = .ok (.substitution template bindings)) :
    bindings = [] ∨ ∃ x xs, args = .seq (x :: .map bindings :: xs) := by
  simp only [ofSubstitution, bind, Except.bind, pure, Except.pure] at h
  grind [eq_seq_of_items]

/-- The value of a variable is smaller than the argument node of the substitution. -/
theorem sizeOf_lt_of_mem_variables {f : Intrinsic} {args x : Node} {template : String}
    {bindings : List (Node × Node)} (h : ofNode f args = .ok (.substitution template bindings))
    (hx : x ∈ bindings.map Prod.snd) : sizeOf x < sizeOf args := by
  have hsub : ofSubstitution args = .ok (.substitution template bindings) := by
    cases f <;>
      simp only [ofNode, one, two, three, attributePath, bind, Except.bind, pure,
        Except.pure] at h <;>
      grind
  rcases mem_of_substitution hsub with rfl | ⟨y, ys, rfl⟩
  · simp at hx
  · obtain ⟨e, he, rfl⟩ := List.mem_map.1 hx
    have hlt := List.sizeOf_lt_of_mem he
    obtain ⟨k, v⟩ := e
    simp only [Node.seq.sizeOf_spec, List.cons.sizeOf_spec, Node.map.sizeOf_spec,
      Prod.mk.sizeOf_spec] at hlt ⊢
    omega

end Arguments

end StackTemplate
