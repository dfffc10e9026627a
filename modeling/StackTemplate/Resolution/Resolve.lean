import StackTemplate.Resolution.Arguments

/-!
# Resolution of documents into operands

Resolution reads a node in a context: calls become calls, sequences and mappings become
collections, leaves become literals. The operands of a call may be staged, that is, handed to an
action that answers for them; an operand that is not staged is resolved at once in the context of
its call.

Sections that hold literal data are not resolved: they admit no calls at any depth, and no mapping
keys without a text.

- `Node.resolve` resolves a node, given how operands are staged.
- `Node.resolveDirectly` resolves a node and stages nothing.
- `Node.checkLiteral` refuses what is not literal data.
-/

namespace StackTemplate

/-- Computations that keep a state, also when they fail. -/
abbrev Resolution (σ : Type) := ExceptT Fault (StateM σ)

variable {σ : Type}

/-- How an operand of a call in a slot is staged; absent where it is resolved at once. -/
abbrev Staging (σ : Type) := Context → Slot → Node → Option (Resolution σ Operand)

/-- An action run on the values of a mapping with the texts of their keys, up to the first key that
has none. -/
def traverseMapping {β : Type} (ctx : Context) :
    (es : List (Node × Node)) → (String → (x : Node) → x ∈ es.map Prod.snd → Resolution σ β) →
      Resolution σ (List (String × β))
  | [], _ => pure []
  | (key, x) :: es, f =>
    match Scalar.keyText? key with
    | none => throw (.keyNotScalar ctx.path)
    | some k => do
      let y ← f k x List.mem_cons_self
      let ys ← traverseMapping ctx es fun l z h => f l z (List.mem_cons_of_mem x h)
      pure ((k, y) :: ys)

theorem sizeOf_lt_of_mem_values {es : List (Node × Node)} {x : Node}
    (h : x ∈ es.map Prod.snd) : sizeOf x < sizeOf es := by
  obtain ⟨e, he, rfl⟩ := List.mem_map.1 h
  have hlt := List.sizeOf_lt_of_mem he
  obtain ⟨k, v⟩ := e
  simp only [Prod.mk.sizeOf_spec] at hlt
  simp only
  omega

/-- The operand that a node denotes in a context. -/
def Node.resolve (staging : Staging σ) (ctx : Context) (node : Node) : Resolution σ Operand :=
  match _ : node.call? ctx with
  | .error e => throw e
  | .ok (some (f, args)) =>
    match ctx.area.restriction? f ctx.owner with
    | some r => throw (.misplacedFunction ctx.path ctx.area f (some r))
    | none =>
      let inner := ctx.within f
      match _ : Arguments.ofNode f args with
      | .error e => throw (.malformedCall inner.path f e)
      | .ok (.literal c) => pure (.call c)
      | .ok (.call c) => do
        let c ← c.traverse fun slot x _ =>
          match staging (inner.child slot.segment) slot x with
          | some answer => answer
          | none => x.resolve staging (inner.child slot.segment)
        return .call c
      | .ok (.substitution template bindings) => do
        let bindings ← traverseMapping inner bindings fun k x _ =>
          match staging (inner.child (Slot.key k).segment) (.key k) x with
          | some answer => answer
          | none => x.resolve staging (inner.child (Slot.key k).segment)
        return .call (.sub template (Entries.ofList bindings))
  | .ok none =>
    match node with
    | .seq items => do
      return .list (← traverseItems 0 items fun i x _ =>
        x.resolve staging (ctx.plain (Slot.index i).segment))
    | .map entries => do
      let entries ← traverseMapping ctx entries fun k x _ =>
        x.resolve staging (ctx.plain (Slot.key k).segment)
      return .map (Entries.ofList entries)
    | leaf => pure (.scalar ((Scalar.ofNode? leaf).getD .null))
termination_by sizeOf node
decreasing_by
  · have := Node.sizeOf_lt_of_call? ‹_›
    have := Arguments.sizeOf_le_of_mem_operands ‹_› ‹x ∈ _›
    omega
  · have := Node.sizeOf_lt_of_call? ‹_›
    have := Arguments.sizeOf_lt_of_mem_variables ‹_› ‹x ∈ _›
    omega
  · have := List.sizeOf_lt_of_mem ‹x ∈ items›
    simp only [Node.seq.sizeOf_spec]
    omega
  · have := sizeOf_lt_of_mem_values ‹x ∈ _›
    simp only [Node.map.sizeOf_spec]
    omega

/-- The operand that a node denotes in a context, all operands of calls resolved at once. -/
def Node.resolveDirectly (ctx : Context) (node : Node) : Resolution Unit Operand :=
  node.resolve (fun _ _ _ => none) ctx

/-! ## Literal documents -/

namespace Node

mutual

/-- Refuses the first call or key without a text in a node. -/
def checkLiteral (ctx : Context) (node : Node) : Except Fault Unit :=
  match node.call? ctx with
  | .error e => .error e
  | .ok (some (f, _)) =>
    .error (.misplacedFunction ctx.path ctx.area f (ctx.area.restriction? f ctx.owner))
  | .ok none =>
    match node with
    | .seq items => checkLiteralItems ctx 0 items
    | .map entries => checkLiteralEntries ctx entries
    | _ => .ok ()

def checkLiteralItems (ctx : Context) (i : Nat) : List Node → Except Fault Unit
  | [] => .ok ()
  | item :: items =>
    match item.checkLiteral (ctx.plain (Slot.index i).segment) with
    | .error e => .error e
    | .ok () => checkLiteralItems ctx (i + 1) items

def checkLiteralEntries (ctx : Context) : List (Node × Node) → Except Fault Unit
  | [] => .ok ()
  | (key, value) :: entries =>
    match Scalar.keyText? key with
    | none => .error (.keyNotScalar ctx.path)
    | some k =>
      match value.checkLiteral (ctx.plain (Slot.key k).segment) with
      | .error e => .error e
      | .ok () => checkLiteralEntries ctx entries

end

end Node

end StackTemplate
