import StackTemplate.Node

/-!
# Tables of configuration files

A table is opened by a header, by a path that leads to another table, or by a setting whose key is a
path. A header may open a table that has only been on a path so far, and a setting may add to a
table that no header has opened; a value is never added to. Several headers of the other kind open
the tables of a list.
-/

namespace StackTemplate.Configuration.Table

/-- What has opened a table. -/
inductive Opening where
  | path
  | header
  | setting
deriving DecidableEq, Repr

/-- What stands under a key. -/
inductive Entry where
  | value (node : Node)
  | table (opening : Opening) (rows : List (String × Entry))
  /-- A list of tables: those in front of the last, and the rows of the last. -/
  | tables (earlier : List Entry) (rows : List (String × Entry))

/-- The entries of a table, in order. -/
abbrev Rows := List (String × Entry)

mutual

def Entry.node : Entry → Node
  | .value node => node
  | .table _ rows => .map (nodes rows)
  | .tables earlier rows => .seq (itemNodes earlier ++ [.map (nodes rows)])

def nodes : List (String × Entry) → List (Node × Node)
  | [] => []
  | (key, entry) :: rows => (.string key, entry.node) :: nodes rows

def itemNodes : List Entry → List Node
  | [] => []
  | entry :: entries => entry.node :: itemNodes entries

end

namespace Rows

/-- The rows with an entry in the place of the one under a key, or behind the others. -/
def insert (key : String) (entry : Entry) (rows : Rows) : Rows :=
  if (rows.lookup key).isSome then rows.map fun row => if row.1 = key then (key, entry) else row
  else rows ++ [(key, entry)]

/-- The rows with those of the table under a path changed, which is opened where it does not exist
yet. A setting adds to no table that a header has opened. -/
def change (opening : Opening) (update : Rows → Option Rows) : List String → Rows → Option Rows
  | [], rows => update rows
  | key :: path, rows =>
    match rows.lookup key with
    | none =>
      (change opening update path []).map fun inner => rows.insert key (.table opening inner)
    | some (.value _) => none
    | some (.table previous inner) =>
      if opening = .setting && previous = .header then none
      else
        let opening' := if opening = .setting then opening else previous
        (change opening update path inner).map fun inner =>
          rows.insert key (.table opening' inner)
    | some (.tables earlier inner) =>
      if opening = .setting then none
      else
        (change opening update path inner).map fun inner => rows.insert key (.tables earlier inner)

/-- The rows with a value under a key that is new. -/
def addValue (key : String) (node : Node) (rows : Rows) : Option Rows :=
  if (rows.lookup key).isSome then none else some (rows.insert key (.value node))

/-- The rows with the table under a key opened by a header. -/
def openTable (key : String) (rows : Rows) : Option Rows :=
  match rows.lookup key with
  | none => some (rows.insert key (.table .header []))
  | some (.table .path inner) => some (rows.insert key (.table .header inner))
  | some _ => none

/-- The rows with one more table in the list under a key. -/
def openItem (key : String) (rows : Rows) : Option Rows :=
  match rows.lookup key with
  | none => some (rows.insert key (.tables [] []))
  | some (.tables earlier inner) =>
    some (rows.insert key (.tables (earlier ++ [.table .header inner]) []))
  | some _ => none

/-- The rows with an update at the last key of a path applied to the table in front of it. -/
def changeAt (opening : Opening) (update : String → Rows → Option Rows) (path : List String)
    (rows : Rows) : Option Rows :=
  match path.getLast? with
  | none => none
  | some key => rows.change opening (update key) path.dropLast

/-- The rows with the value of a setting. -/
def set (path : List String) (node : Node) : Rows → Option Rows :=
  changeAt .setting (fun key => addValue key node) path

end Rows

end StackTemplate.Configuration.Table
