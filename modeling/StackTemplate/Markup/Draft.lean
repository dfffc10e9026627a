import StackTemplate.Markup.Meaning

/-!
# Drafts of documents

A draft is a document as it is written: its scalars still have their text, and a reference stands
where a node was given an anchor elsewhere. The node of a draft follows the references.

- `Draft.node` : a copy for every reference, in a bounded number and to a bounded depth.
- `Anchors` : which node a reference leads to.
-/

namespace StackTemplate.Markup

/-- A node as it is written. -/
inductive Draft where
  | scalar (kind : Option Kind) (quoted : Bool) (text : String)
  | seq (kind : Option Kind) (items : List Draft)
  | map (kind : Option Kind) (entries : List (Draft × Draft))
  /-- A reference to the node of an anchor with a number. -/
  | reference (number : Nat)
deriving Repr, Inhabited

namespace Draft

def empty : Draft := .scalar none false ""

mutual

/-- The number of scalars, references, and starts and ends of collections. -/
def size : Draft → Nat
  | .scalar _ _ _ | .reference _ => 1
  | .seq _ items => sizeOfItems items + 2
  | .map _ entries => sizeOfEntries entries + 2

def sizeOfItems : List Draft → Nat
  | [] => 0
  | item :: items => item.size + sizeOfItems items

def sizeOfEntries : List (Draft × Draft) → Nat
  | [] => 0
  | (key, value) :: entries => key.size + value.size + sizeOfEntries entries

end

end Draft

/-! ## Anchors -/

/-- The anchors of a document. Each has as its number how many names there were in front of it, so
that an anchor whose name has been given before shares it with the next one of a new name. -/
structure Anchors where
  /-- Each name with the number of its latest anchor. -/
  names : List (String × Nat)
  /-- The number of each anchor, the latest first. -/
  numbers : List Nat
  /-- The nodes of the anchors by their place in the document, as far as they are complete. -/
  nodes : List (Nat × Draft)

namespace Anchors

def none : Anchors := ⟨[], [], []⟩

/-- The anchors with one more, whose node follows, and its place. -/
def add (name : String) (a : Anchors) : Anchors × Nat :=
  let number := a.names.length
  ({ a with
      names := (name, number) :: a.names.filter fun e => e.1 ≠ name
      numbers := number :: a.numbers },
    a.numbers.length)

/-- The anchors with the node of the one at a place. -/
def complete (place : Nat) (node : Draft) (a : Anchors) : Anchors :=
  { a with nodes := (place, node) :: a.nodes }

/-- The node that a reference leads to: that of the latest anchor with its number. -/
def find? (number : Nat) (a : Anchors) : Option Draft :=
  let earlier := a.numbers.dropWhile (· ≠ number)
  if earlier.isEmpty then Option.none else a.nodes.lookup (earlier.length - 1)

end Anchors

/-! ## Nodes -/

/-- A computation that may follow a number of references. -/
abbrev Following := StateT Nat (Except SyntaxCause)

/-- The node that a reference leads to, or else the node itself. -/
def Anchors.follow (a : Anchors) : Draft → Following Draft
  | .reference number => do
    match ← get with
    | 0 => throw .tooManyReferences
    | left + 1 =>
      set left
      match a.find? number with
      | some node => return node
      | Option.none => throw .unknownAnchor
  | node => return node

namespace Draft

/-- A collection under what its tag says. -/
def tagged (kind : Option Kind) (node : Node) : Node :=
  match kind with
  | some (.named name) => .tagged name node
  | _ => node

/-- The entries of a mapping, whose keys have to differ, after those in front of them. -/
def addEntries (node : Draft → Following Node) (before : List (Node × Node)) :
    List (Draft × Draft) → Following (List (Node × Node))
  | [] => return before
  | (key, value) :: entries => do
    let key ← node key
    if before.any fun e => e.1.same key then throw .duplicateKey
    addEntries node (before ++ [(key, ← node value)]) entries

/-- The node of a draft with at most `depth` collections inside of one another. -/
def node (a : Anchors) (depth : Nat) (draft : Draft) : Following Node := do
  match depth, ← a.follow draft with
  | _, .scalar kind quoted text => liftM (scalarNode kind quoted text)
  | depth + 1, .seq kind items =>
    return tagged kind (.seq (← items.mapM (node a depth)))
  | depth + 1, .map kind entries =>
    return tagged kind (.map (← addEntries (node a depth) [] entries))
  | 0, _ => throw .tooDeep
  | _, .reference _ => throw .unknownAnchor

end Draft

/-- The greatest number of collections inside of one another. -/
def greatestDepth : Nat := 128

/-- The node of a document, where no more than a hundred references are followed for each part of
its draft. -/
def Draft.toNode (a : Anchors) (draft : Draft) : Except SyntaxCause Node :=
  (draft.node a greatestDepth).run' (100 * draft.size)

end StackTemplate.Markup
