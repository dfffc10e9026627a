import StackTemplate.Resolution.Fault
import StackTemplate.Value

/-!
# Entries of sections

The literal parts of a template document: attribute names, texts, scalars and lists of names. Each
reader takes the path of its node, for the fault that it reports.
-/

namespace StackTemplate.Entry

def malformed {α : Type} (path : String) (fault : EntryFault) : Except Fault α :=
  .error (.malformedEntry path fault)

/-- The attributes of a mapping whose keys all have texts; of attributes with the same text the
last one counts, in the place of the first. -/
def attributes (path : String) : Node → Except Fault (List (String × Node))
  | .map entries => do
    let entries ← entries.mapM fun (key, value) =>
      match Scalar.keyText? key with
      | some k => .ok (k, value)
      | none => malformed path .keyNotScalar
    return Entries.ofList entries
  | _ => malformed path .notMapping

/-- The text of a scalar that is not null. -/
def text (path : String) (node : Node) : Except Fault String :=
  match Scalar.keyText? node with
  | some t => .ok t
  | none => malformed path .notString

def scalar (path : String) (node : Node) : Except Fault Scalar :=
  match Scalar.ofNode? node with
  | some s => .ok s
  | none => malformed path .notScalar

def flag (path : String) (node : Node) : Except Fault Bool := do
  match (Value.scalar (← scalar path node)).bool? with
  | some b => return b
  | none => malformed path .notBoolean

/-- The items of a sequence, each read at its own path; the first has the index `i`. -/
def readItems {α : Type} (read : String → Node → Except Fault α) (path : String) (i : Nat) :
    List Node → Except Fault (List α)
  | [] => .ok []
  | item :: items => do
    let x ← read (path ++ (Slot.index i).segment) item
    let xs ← readItems read path (i + 1) items
    return x :: xs

def scalars (path : String) : Node → Except Fault (List Scalar)
  | .seq items => readItems scalar path 0 items
  | _ => malformed path .notValueList

/-- A logical name among others. -/
def listedName (path : String) : Node → Except Fault String
  | .string name => .ok name
  | _ => malformed path .notName

/-- A logical name or a list of them. -/
def names (path : String) : Node → Except Fault (List String)
  | .string name => .ok [name]
  | .seq items => readItems listedName path 0 items
  | _ => malformed path .notNames

/-- The attribute that has to be present. -/
def required (path field : String) (attributes : List (String × Node)) : Except Fault Node :=
  match Entries.find? attributes field with
  | some node => .ok node
  | none => .error (.missingField path field)

end StackTemplate.Entry
