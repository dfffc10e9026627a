import StackTemplate.Elaboration.Declaration
import StackTemplate.Markup.Document
import StackTemplate.Resolution.Placeholder

/-!
# Templates from documents

A template document is a mapping from section keys to sections. Its layout is checked first; then
every entity is read on its own, so that the faults of all malformed entities are reported, section
by section and in document order.

- `Template.elaborate` reads a document, given how operands of calls are staged.
- `Template.ofDocument` reads a document in two passes: operands whose meaning depends on the call
  around them are staged, and settled at the end.
- `Template.ofDocumentDirectly` reads a document in one pass.
- `Template.parse` reads the text of a template as a document and then the document.
-/

namespace StackTemplate

variable {σ : Type}

namespace Document

/-- The fault of a top-level key. -/
def keyFault? (key : Node) : Option Fault :=
  match key.string? with
  | none => some .sectionKeyNotString
  | some name =>
    match Section.ofKey? name with
    | some .transform => some (.transformSection name)
    | some _ => none
    | none => some (.unknownSection name)

/-- The content of a section; a tag on its key does not count, and of two the later is taken. -/
def section? (root : List (Node × Node)) (area : Section) : Option Node :=
  (root.reverse.find? fun e => e.1.string? = some area.key).map Prod.snd

/-- A logical name in a section: ASCII letters and digits, at least one. -/
def logicalName (area : Section) (key : Node) : Except Fault String :=
  match key.string? with
  | none => .error (.nameNotString area)
  | some name =>
    if name ≠ "" ∧ name.toList.all Char.isAlphanum then .ok name
    else .error (.invalidName area name)

/-- The faults of a section as a whole: its shape and its malformed names. -/
def sectionFaults (area : Section) : Option Node → List Fault
  | none => []
  | some (.map entries) =>
    entries.filterMap fun (key, _) =>
      match logicalName area key with
      | .ok _ => none
      | .error e => some e
  | some node => if node.isNull then [] else [.sectionNotMapping area]

/-- The well-named entities of a section with their bodies. -/
def entities (area : Section) : Option Node → List (String × Node)
  | some (.map entries) =>
    entries.filterMap fun (key, body) =>
      match logicalName area key with
      | .ok name => some (name, body)
      | .error _ => none
  | _ => []

/-- The entities that can be read from their bodies, and the faults of the others. -/
def readEntities {α : Type} (read : String → Node → Resolution σ α) :
    List (String × Node) → StateM σ (List Fault × List (String × α))
  | [] => return ([], [])
  | (name, body) :: es => do
    let answer ← (read name body).run
    let (faults, entries) ← readEntities read es
    match answer with
    | .ok x => return (faults, (name, x) :: entries)
    | .error e => return (e :: faults, entries)

/-- The entities of a section, and the faults of the section and of its entities. -/
def readSection {α : Type} (root : List (Node × Node)) (area : Section)
    (read : String → Node → Resolution σ α) : StateM σ (List Fault × Dict α) := do
  let content := section? root area
  let (faults, entries) ← readEntities read (entities area content)
  return (sectionFaults area content ++ faults, Dict.ofList entries)

/-- The text of a section that holds one. -/
def readText (root : List (Node × Node)) (area : Section) : List Fault × Option String :=
  match section? root area with
  | none => ([], none)
  | some node =>
    match Entry.text area.key node with
    | .ok t => ([], some t)
    | .error e => ([e], none)

/-- The faults of the section of free literal data. -/
def metadataFaults (root : List (Node × Node)) : List Fault :=
  match section? root .metadata with
  | none => []
  | some node =>
    match node.checkLiteral (.root .metadata Section.metadata.key) with
    | .ok () => []
    | .error e => [e]

end Document

namespace Template

open Document

/-- The template that a document describes, the operands of calls staged as given. -/
def elaborate (staging : Staging σ) : Node → StateM σ (Except (List Fault) Template)
  | .map root => do
    let layoutFaults := root.filterMap fun (key, _) => keyFault? key
    if !layoutFaults.isEmpty then return .error layoutFaults
    else
      let (versionFaults, formatVersion) := readText root .formatVersion
      let (descriptionFaults, description) := readText root .description
      let (parameterFaults, parameters) ← readSection root .parameters fun name body =>
        Resolution.ofExcept (Parameter.ofNode name body)
      let (mappingFaults, mappings) ← readSection root .mappings fun name body =>
        Resolution.ofExcept (Mapping.ofNode name body)
      let (conditionFaults, conditions) ←
        readSection root .conditions (conditionOfNode staging)
      let (resourceFaults, resources) ← readSection root .resources (Resource.ofNode staging)
      let (outputFaults, outputs) ← readSection root .outputs (Output.ofNode staging)
      let absenceFaults := if (section? root .resources).isNone then [Fault.noResources] else []
      let faults := versionFaults ++ descriptionFaults ++ metadataFaults root ++ parameterFaults ++
        mappingFaults ++ conditionFaults ++ absenceFaults ++ resourceFaults ++ outputFaults
      if faults.isEmpty then
        return .ok
          ⟨formatVersion, description, parameters, mappings, conditions, resources, outputs⟩
      else return .error faults
  | _ => return .error [.rootNotMapping]

/-- The template that a document describes, operands staged and settled. -/
def ofDocument (document : Node) : Except (List Fault) Template :=
  match elaborate Placeholder.staging document [] with
  | (.ok t, table) => t.settle table
  | (.error faults, _) => .error faults

/-- The template that a document describes, every operand resolved at once. -/
def ofDocumentDirectly (document : Node) : Except (List Fault) Template :=
  (elaborate (fun _ _ _ => none) document ()).1

end Template

/-! ## Templates from text -/

/-- The place of a syntax error as the path of a label; lines and columns are counted from one. -/
def Markup.SyntaxError.path (e : Markup.SyntaxError) : String :=
  match e.position with
  | some (line, column) => "line " ++ toString (line + 1) ++ ", column " ++ toString (column + 1)
  | none => ""

def Markup.SyntaxError.diagnostic (e : Markup.SyntaxError) : Diagnostic :=
  Fault.diagnose .malformedDocument ("malformed template document: " ++ e.cause.message) e.path
    "here"

namespace Template

/-- The template that a document describes, or the diagnostics of its faults. -/
def parseDocument (document : Node) : Except (List Diagnostic) Template :=
  (ofDocument document).mapError fun faults => faults.map Fault.diagnostic

/-- The template that a document read from a text describes, or the diagnostics of its faults. -/
def parseRead (document : Except Markup.SyntaxError Node) : Except (List Diagnostic) Template :=
  match document with
  | .ok document => parseDocument document
  | .error e => .error [e.diagnostic]

/-- The template that a text describes, or the diagnostics of its faults. -/
def parse (text : String) : Except (List Diagnostic) Template := parseRead (Markup.read text)

/-- The template that the text of a given document describes, or the diagnostics of its faults; a
document that is too deep has no text that can be read. -/
def parseWritten (document : Node) : Except (List Diagnostic) Template :=
  parseRead (Markup.checkDepth document)

end Template

end StackTemplate
