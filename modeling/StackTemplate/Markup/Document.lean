import StackTemplate.Markup.Draft
import StackTemplate.Markup.Layout

/-!
# Documents as text

The tokens of a text become the draft of a document, whose node is the document. A node may have an
anchor and a tag; a node that is left out behind its mark is an empty scalar.

- `Markup.read` reads the document of a text; a text without content is null.

Every rule takes a token or hands on to the next, and no token is handed on more than three times,
so that four times the number of tokens is enough fuel.
-/

namespace StackTemplate.Markup

/-- What has been read of a document. -/
structure Progress where
  tokens : List Token
  handles : List (String × Octets)
  anchors : Anchors

/-- A step of reading. -/
abbrev Reader := StateT Progress (Except SyntaxError)

namespace Reader

def refuse {α : Type} (cause : SyntaxCause) : Reader α := do
  throw ⟨cause, (← get).tokens.head?.bind Token.position⟩

def peek : Reader (Option Lexeme) := return (← get).tokens.head?.map Token.lexeme

def advance : Reader Unit := modify fun p => { p with tokens := p.tokens.drop 1 }

/-! ## Properties -/

/-- The anchor of a node, where one stands here. -/
def anchor : Reader (Option String) := do
  match ← peek with
  | some (.anchor name) => advance; return some name
  | _ => return none

/-- What the tag of a node says, where one stands here, and whether there is one. -/
def tag : Reader (Bool × Option Kind) := do
  match ← peek with
  | some (.tag written) =>
    match written.resolve? (← get).handles with
    | some octets => advance; return (true, Kind.ofTag? octets)
    | none => refuse .badTag
  | _ => return (false, none)

/-- The draft of a node with an anchor. -/
def anchored (name : Option String) (content : Reader Draft) : Reader Draft := do
  match name with
  | none => content
  | some name =>
    let (anchors, place) := (← get).anchors.add name
    modify fun p => { p with anchors := anchors }
    let node ← content
    modify fun p => { p with anchors := p.anchors.complete place node }
    return node

def reference (name : String) : Reader Draft := do
  match (← get).anchors.names.lookup name with
  | some number => advance; return .reference number
  | none => refuse .unknownAnchor

/-! ## Separators -/

/-- A node, or an empty one where it is left out in front of certain tokens. -/
def orEmpty (ends : Option Lexeme → Bool) (node : Reader Draft) : Reader Draft := do
  if ends (← peek) then return .empty else node

/-- The value of an entry behind its colon, or an empty one where there is no colon. -/
def valueOf (ends : Option Lexeme → Bool) (node : Reader Draft) : Reader Draft := do
  match ← peek with
  | some .value => advance; orEmpty ends node
  | _ => return .empty

/-- Whether the key or the value of a block ends in front of a token. -/
def endsEntry : Option Lexeme → Bool
  | some .key | some .value | some .blockEnd => true
  | _ => false

/-- Whether the item of a block ends in front of a token. In a sequence that has no block of its own
a key or a value of the mapping around it ends it too. -/
def endsItem (own : Bool) : Option Lexeme → Bool
  | some .dash => true
  | token => if own then token = some .blockEnd else endsEntry token

/-- Whether a node inside of brackets ends in front of a token. -/
def endsFlow (close : Lexeme) (token : Option Lexeme) : Bool :=
  token = some .comma || token = some close

/-- Whether a key inside of brackets ends in front of a token. -/
def endsFlowKey (close : Lexeme) (token : Option Lexeme) : Bool :=
  token = some .value || endsFlow close token

/-- The comma between two parts inside of brackets. -/
def separator (isFirst : Bool) (close : Lexeme) : Reader Unit := do
  let token ← peek
  if isFirst || token = some close then return
  else if token = some .comma then advance
  else refuse .unexpected

/-- The key of a single entry among the items of a sequence. A mark in the place of the key is
passed over. -/
def singleKey (node : Reader Draft) : Reader Draft := do
  if endsFlowKey .closeBracket (← peek) then
    advance
    return .empty
  else node

/-! ## Nodes -/

mutual

/-- A node. Blocks may be refused; a sequence of a block may do without a block of its own. -/
def node (fuel : Nat) (block bare : Bool) : Reader Draft := do
  match fuel, ← peek with
  | 0, _ => refuse .unexpected
  | _, some (.reference name) => reference name
  | fuel + 1, _ =>
    let first ← anchor
    let (tagged, kind) ← tag
    let name ← if first.isSome then pure first else anchor
    anchored name (content fuel block bare (tagged || name.isSome) kind)

/-- What a node is behind its anchor and its tag; nothing but where it has one of them. -/
def content (fuel : Nat) (block bare hasProperty : Bool) (kind : Option Kind) : Reader Draft := do
  match fuel, ← peek with
  | fuel + 1, some .openBracket => advance; return .seq kind (← bracketItems fuel true)
  | fuel + 1, some .openBrace => advance; return .map kind (← braceEntries fuel true)
  | _, some (.scalar quoted text) => advance; return .scalar kind quoted text
  | fuel + 1, token =>
    if bare && token = some .dash then return .seq kind (← blockItems fuel false)
    else if block && token = some .sequenceStart then
      advance
      return .seq kind (← blockItems fuel true)
    else if block && token = some .mappingStart then
      advance
      return .map kind (← blockEntries fuel)
    else if hasProperty then return .scalar kind false ""
    else refuse .unexpected
  | 0, _ => refuse .unexpected

/-- The items of a block sequence, up to the end of its block if it has one of its own. -/
def blockItems (fuel : Nat) (own : Bool) : Reader (List Draft) := do
  match fuel, ← peek with
  | fuel + 1, some .dash =>
    advance
    let item ← orEmpty (endsItem own) (node fuel true false)
    return item :: (← blockItems fuel own)
  | _, some .blockEnd =>
    if own then advance
    return []
  | _, _ => if own then refuse .unexpected else return []

/-- The entries of a block mapping, up to its end. -/
def blockEntries (fuel : Nat) : Reader (List (Draft × Draft)) := do
  match fuel, ← peek with
  | fuel + 1, some .key =>
    advance
    let key ← orEmpty endsEntry (node fuel true true)
    let value ← valueOf endsEntry (node fuel true true)
    return (key, value) :: (← blockEntries fuel)
  | _, some .blockEnd => advance; return []
  | _, _ => refuse .unexpected

/-- The items of a sequence in brackets, up to its end. -/
def bracketItems (fuel : Nat) (isFirst : Bool) : Reader (List Draft) := do
  match fuel with
  | 0 => refuse .unexpected
  | fuel + 1 =>
    separator isFirst .closeBracket
    match ← peek with
    | some .closeBracket => advance; return []
    | some .key =>
      advance
      let key ← singleKey (node fuel false false)
      let value ← valueOf (endsFlow .closeBracket) (node fuel false false)
      return .map none [(key, value)] :: (← bracketItems fuel false)
    | _ => return (← node fuel false false) :: (← bracketItems fuel false)

/-- The entries of a mapping in braces, up to its end. -/
def braceEntries (fuel : Nat) (isFirst : Bool) : Reader (List (Draft × Draft)) := do
  match fuel with
  | 0 => refuse .unexpected
  | fuel + 1 =>
    separator isFirst .closeBrace
    match ← peek with
    | some .closeBrace => advance; return []
    | some .key =>
      advance
      let key ← orEmpty (endsFlowKey .closeBrace) (node fuel false false)
      let value ← valueOf (endsFlow .closeBrace) (node fuel false false)
      return (key, value) :: (← braceEntries fuel false)
    | _ => return (← node fuel false false, .empty) :: (← braceEntries fuel false)

end

/-! ## Documents -/

/-- The directives in front of a document. The version is stated once at most, and so is what a
handle stands for. -/
def directives (fuel : Nat) (versioned : Bool) : Reader Unit := do
  match fuel, ← peek with
  | fuel + 1, some (.version major minor) =>
    if versioned || major ≠ 1 || (minor ≠ 1 && minor ≠ 2) then refuse .badDirective
    advance
    directives fuel true
  | fuel + 1, some (.handle name lead) =>
    if ((← get).handles.lookup name).isSome then refuse .badDirective
    advance
    modify fun p => { p with handles := (name, lead) :: p.handles }
    directives fuel versioned
  | _, _ => modify fun p => { p with handles := p.handles ++ Tag.commonHandles }

/-- Whether a document without content ends in front of a token. -/
def endsDocument : Option Lexeme → Bool
  | none | some .documentStart | some .documentEnd => true
  | some (.version _ _) | some (.handle _ _) => true
  | _ => false

/-- The draft of a document, behind which there may be only marks of its end. -/
def document : Reader Draft := do
  let first ← peek
  let length := (← get).tokens.length
  directives length false
  let start ← peek
  let draft ←
    if first.isNone then pure .empty
    else if start = some .documentStart then
      advance
      orEmpty endsDocument (node (4 * length) true false)
    else if start = first then node (4 * length) true false
    else refuse .unexpected
  modify fun p => { p with tokens := p.tokens.dropWhile fun t => t.lexeme = .documentEnd }
  if (← peek).isSome then refuse .severalDocuments else return draft

end Reader

/-- The document that a text denotes; a text without content is null. -/
def read (text : String) : Except SyntaxError Node := do
  let (draft, progress) ← Reader.document.run ⟨← tokens text, [], .none⟩
  (draft.toNode progress.anchors).mapError fun cause => ⟨cause, none⟩

/-- A document that is not too deep for a text to denote it. -/
def checkDepth (document : Node) : Except SyntaxError Node :=
  if greatestDepth < document.depth then .error ⟨.tooDeep, none⟩ else .ok document

end StackTemplate.Markup
