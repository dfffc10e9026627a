import StackTemplate.Resolution.Resolve
import StackTemplate.Template

/-!
# Placeholders

Staged resolution leaves a placeholder for each operand of a call whose meaning depends on the
call, and records the node with its context in a table. Once the operand tree exists, settling
replaces every placeholder by the operand that its node resolves to, in the place for which it was
recorded. Resolving a node may record further placeholders, for nodes inside of it; settling
follows them, so its depth is bounded by the depth of the recorded nodes.

- `Placeholder.staging` records an operand.
- `Operand.settle` replaces the placeholders inside of an operand.
- `Template.settle` settles a template and reports the placeholders that were never resolved.
-/

namespace StackTemplate

/-- An operand whose resolution is pending: the node, its context, and the slot it fills. -/
structure Placeholder where
  target : Target
  area : Section
  path : String
  node : Node
  resolved : Bool
deriving Repr

/-- The recorded placeholders; the number of a placeholder is its position. -/
abbrev Placeholders := List Placeholder

namespace Placeholder

/-- The context of the node when it was recorded. -/
def context (p : Placeholder) : Context := ⟨p.area, p.path, some p.target.owner⟩

/-- Records a placeholder and answers with a reference to it. -/
def record (p : Placeholder) : Resolution Placeholders Operand := do
  let table ← get
  set (table ++ [p])
  return .pending table.length

/-- Operands of calls whose meaning depends on the call are recorded. -/
def staging : Staging Placeholders := fun ctx slot node =>
  match ctx.owner with
  | none => none
  | some owner =>
    if node.dependsOnOwner then some (record ⟨⟨owner, slot⟩, ctx.area, ctx.path, node, false⟩)
    else none

/-- The operand for a placeholder that was found in a slot of a call. -/
def resolve (id : Nat) (owner : Option Intrinsic) (slot : Slot) (path : String) :
    Resolution Placeholders Operand := do
  match (← get)[id]? with
  | none => throw (.unknownPlaceholder path id)
  | some p =>
    if p.resolved then throw (.placeholderRepeated path p.path id)
    else if owner ≠ some p.target.owner ∨ slot ≠ p.target.slot then
      throw (.placeholderMismatch path p.path id p.target owner slot)
    else
      let operand ← p.node.resolve staging p.context
      modify fun table => table.modify id fun p => { p with resolved := true }
      return operand

end Placeholder

namespace Operand

/-- The operand with its placeholders replaced, and those that appear in their place, up to a
depth of replacements within replacements. -/
def settle (depth : Nat) (path : String) (o : Operand) : Resolution Placeholders Operand :=
  o.traverse fun slot x _ =>
    match x, depth with
    | .pending id, depth + 1 => do
      let x ← Placeholder.resolve id (o.call?.map Call.function) slot (path ++ slot.segment)
      x.settle depth (path ++ slot.segment)
    | x, depth => x.settle depth (path ++ slot.segment)
termination_by (depth, sizeOf o)
decreasing_by
  · exact Prod.Lex.left _ _ (Nat.lt_succ_self _)
  · exact Prod.Lex.right _ (sizeOf_lt_of_mem_parts ‹_›)

end Operand

namespace Template

/-- Settles one operand of a template; the first fault inside of it is added to a list. -/
def settleOperand (depth : Nat) (path : String) (o : Operand) :
    StateM (Placeholders × List Fault) Operand := do
  let (table, faults) ← get
  match (o.settle depth path).run table with
  | (.ok o, table) =>
    set (table, faults)
    return o
  | (.error e, table) =>
    set (table, faults ++ [e])
    return o

/-- The depth to which the nodes in a table can hold placeholders. -/
def settlingDepth (table : Placeholders) : Nat :=
  (table.map fun p => p.node.depth).foldr max 0 + 1

/-- The faults of the placeholders that were never resolved. -/
def unresolvedFaults (table : Placeholders) : List Fault :=
  (table.filter fun p => !p.resolved).map fun p => .neverResolved p.path p.target.owner

/-- The template with all placeholders replaced. -/
def settle (t : Template) (table : Placeholders) : Except (List Fault) Template :=
  if table.isEmpty then .ok t
  else
    let (settled, table, faults) := t.mapOperands (settleOperand (settlingDepth table)) (table, [])
    let faults := faults ++ unresolvedFaults table
    if faults.isEmpty then .ok settled else .error faults

end Template

end StackTemplate
