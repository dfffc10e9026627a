import StackTemplate.Dependency

/-!
# DOT text of dependency graphs

A dependency graph is written as a directed graph in the DOT language: one line for each vertex,
with the shape of its kind, then one line for each edge, with its label. Entities of different kinds
may share a name, so the group of the kind is part of the identifier of a vertex.
-/

namespace StackTemplate

def EntityKind.shape : EntityKind → String
  | .resource => "box"
  | .parameter => "ellipse"
  | .pseudoParameter => "note"
  | .output => "parallelogram"
  | .condition => "diamond"

namespace Dot

/-- A character inside of a quoted string: quotes, backslashes and newlines are escaped. -/
def quoteChar : Char → List Char
  | '"' => ['\\', '"']
  | '\\' => ['\\', '\\']
  | '\n' => ['\\', 'n']
  | c => [c]

/-- A text as a quoted string. -/
def quote (s : String) : String :=
  String.ofList ('"' :: s.toList.flatMap quoteChar ++ ['"'])

def identifier (v : Vertex) : String := quote (v.kind.group ++ "/" ++ v.name)

def vertexLine (v : Vertex) : String :=
  "    " ++ identifier v ++ " [label=" ++ quote v.name ++ ", shape=" ++ v.kind.shape ++ "];"

def edgeLine (e : Edge Vertex EdgeDetail) : String :=
  "    " ++ identifier e.source ++ " -> " ++ identifier e.target ++ " [label=" ++
    quote e.value.label ++ "];"

/-- The lines of a graph under a name. -/
def lines (name : String) (g : DependencyGraph) : List String :=
  ["digraph " ++ quote name ++ " \x7b", "    rankdir=LR;"] ++ g.vertices.map vertexLine ++
    g.edges.map edgeLine ++ ["\x7d"]

/-- The text of a graph under a name, every line ended by a newline. -/
def renderNamed (name : String) (g : DependencyGraph) : String :=
  String.join ((lines name g).map (· ++ "\n"))

def render (g : DependencyGraph) : String := renderNamed "template" g

/-- The causes for which a graph cannot be written out. -/
inductive ExportError where
  /-- The place where the text is written to failed. -/
  | write (cause : String)
deriving DecidableEq, Repr

def ExportError.message : ExportError → String
  | .write cause => "I/O error: " ++ cause

/-- The text of a graph written to a place that takes a number of bytes and then fails. -/
def renderWithin (capacity : Nat) (cause name : String) (g : DependencyGraph) :
    Except ExportError String :=
  if (renderNamed name g).utf8ByteSize ≤ capacity then .ok (renderNamed name g)
  else .error (.write cause)

end Dot

end StackTemplate
