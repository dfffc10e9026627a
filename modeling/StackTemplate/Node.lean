import StackTemplate.Binary64

/-!
# Document trees

A template document is a tree of scalars, sequences, mappings and tagged nodes, as a reader of
structured text delivers it. Mapping keys are nodes of any kind, and the order of entries is kept.

- `Node.depth` : how many sequences and mappings are nested.
- `Node.collections` : how many sequences and mappings there are.
- `Node.same` : equality of trees as keys of a mapping.
-/

namespace StackTemplate

/-- A node of a document tree. -/
inductive Node where
  | null
  | bool (value : Bool)
  | int (value : Int)
  | float (value : Binary64)
  | string (text : String)
  | seq (items : List Node)
  | map (entries : List (Node × Node))
  | tagged (name : String) (content : Node)
deriving Repr, Inhabited

namespace Node

/-- The written form of a local tag: one exclamation mark in front of the name, which may bring its
own where something follows it. -/
def tagText (name : String) : String :=
  match name.toList with
  | '!' :: c :: cs => String.ofList ('!' :: c :: cs)
  | cs => String.ofList ('!' :: cs)

mutual

/-- The nesting depth of sequences and mappings. -/
def depth : Node → Nat
  | .seq items => depthOfItems items + 1
  | .map entries => depthOfEntries entries + 1
  | .tagged _ content => content.depth
  | _ => 0

def depthOfItems : List Node → Nat
  | [] => 0
  | item :: items => max item.depth (depthOfItems items)

def depthOfEntries : List (Node × Node) → Nat
  | [] => 0
  | (key, value) :: entries => max (max key.depth value.depth) (depthOfEntries entries)

end

mutual

/-- The number of sequences and mappings in a tree. -/
def collections : Node → Nat
  | .seq items => collectionsOfItems items + 1
  | .map entries => collectionsOfEntries entries + 1
  | .tagged _ content => content.collections
  | _ => 0

def collectionsOfItems : List Node → Nat
  | [] => 0
  | item :: items => item.collections + collectionsOfItems items

def collectionsOfEntries : List (Node × Node) → Nat
  | [] => 0
  | (key, value) :: entries =>
    key.collections + value.collections + collectionsOfEntries entries

end

mutual

/-- Whether two nodes are the same key of a mapping: numbers are compared by value, integers and
floating-point numbers apart, and mappings whatever the order of their entries. -/
def same : Node → Node → Bool
  | .null, .null => true
  | .bool a, .bool b => a = b
  | .int a, .int b => a = b
  | .float a, .float b => a.numericallyEquals b || (a.isNaN && b.isNaN)
  | .string a, .string b => a = b
  | .seq as, .seq bs => sameItems as bs
  | .map as, .map bs => as.length = bs.length && sameEntries as bs
  | .tagged n a, .tagged m b => tagText n = tagText m && a.same b
  | _, _ => false

/-- Whether two sequences have the same items. -/
def sameItems : List Node → List Node → Bool
  | [], [] => true
  | a :: as, b :: bs => a.same b && sameItems as bs
  | _, _ => false

/-- Whether each of some entries is among the entries of a mapping. -/
def sameEntries : List (Node × Node) → List (Node × Node) → Bool
  | [], _ => true
  | (k, a) :: as, bs => bs.any (fun (l, b) => k.same l && a.same b) && sameEntries as bs

end

/-- The content of a node under any number of tags. -/
def untagged : Node → Node
  | .tagged _ content => content.untagged
  | node => node

def string? (node : Node) : Option String :=
  match node.untagged with
  | .string text => some text
  | _ => none

def isNull (node : Node) : Bool :=
  match node.untagged with
  | .null => true
  | _ => false

end Node

end StackTemplate
