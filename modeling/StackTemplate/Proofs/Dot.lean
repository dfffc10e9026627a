import StackTemplate.Dot
import StackTemplate.Proofs.Dependency.Order

/-!
# Reading DOT text

DOT text is read into tokens, where a quoted string is one token, and the tokens are cut into
statements at the semicolons outside of quoted strings. The text of a dependency graph has one
statement for each vertex, with two quoted strings, and one for each edge, with three. No name can
end its string early, so the statements give back the vertices and the edges.

* `Dot.tokens?` : the tokens of DOT text.
* `Dot.statements` : the quoted strings of each statement.
* `Dot.render_unambiguous` : graphs with the same text have the same vertices and edges.
-/

namespace StackTemplate

namespace Dot

/-! ## Tokens -/

/-- A part of DOT text: a quoted string, or a character outside of quoted strings. -/
inductive Token where
  | quoted (text : String)
  | plain (c : Char)
deriving DecidableEq

/-- Where a reader of DOT text stands. Within a quoted string it holds what it has read. -/
inductive Mode where
  | outside
  | inside (text : List Char)
  | escaped (text : List Char)

def unescape : Char → Char
  | 'n' => '\n'
  | c => c

/-- The tokens that a reader finds from where it stands. There are none where the text ends within a
quoted string. -/
def tokensFrom : Mode → List Char → Option (List Token)
  | .outside, [] => some []
  | .outside, '"' :: cs => tokensFrom (.inside []) cs
  | .outside, c :: cs => (tokensFrom .outside cs).map (.plain c :: ·)
  | .inside text, '"' :: cs => (tokensFrom .outside cs).map (.quoted (String.ofList text) :: ·)
  | .inside text, '\\' :: cs => tokensFrom (.escaped text) cs
  | .inside text, c :: cs => tokensFrom (.inside (text ++ [c])) cs
  | .escaped text, c :: cs => tokensFrom (.inside (text ++ [unescape c])) cs
  | .inside _, [] | .escaped _, [] => none

def tokens? (s : String) : Option (List Token) := tokensFrom .outside s.toList

def plainTokens (s : String) : List Token := s.toList.map .plain

/-- A text is read into tokens, whatever stands after it. -/
def Reads (s : String) (ts : List Token) : Prop :=
  ∀ cs, tokensFrom .outside (s.toList ++ cs) = (tokensFrom .outside cs).map (ts ++ ·)

/-- A text that is read into tokens, whatever stands after it, is read into them on its own. -/
theorem Reads.tokens? {s : String} {ts : List Token} (h : Reads s ts) : tokens? s = some ts := by
  simpa [Dot.tokens?, tokensFrom] using h []

theorem Reads.append {s s' : String} {ts ts' : List Token} (h : Reads s ts) (h' : Reads s' ts') :
    Reads (s ++ s') (ts ++ ts') := by
  intro cs
  rw [String.toList_append, List.append_assoc, h, h', Option.map_map]
  simp [Function.comp_def]

/-- A list of texts is read text by text. -/
theorem Reads.join {α : Type} {text : α → String} {tokens : α → List Token}
    (h : ∀ x, Reads (text x) (tokens x)) (xs : List α) :
    Reads (String.join (xs.map text)) (xs.flatMap tokens) := by
  induction xs with
  | nil =>
    intro cs
    simp
  | cons x xs ih =>
    rw [List.map_cons, String.join_cons, List.flatMap_cons]
    exact (h x).append ih

theorem tokensFrom_outside_cons {c : Char} (h : c ≠ '"') (cs : List Char) :
    tokensFrom .outside (c :: cs) = (tokensFrom .outside cs).map (.plain c :: ·) := by
  rw [tokensFrom]
  exact h

/-- A text without quotes is read character by character. -/
theorem reads_plain {s : String} (h : '"' ∉ s.toList) : Reads s (plainTokens s) := by
  intro cs
  unfold plainTokens
  generalize s.toList = text at h
  induction text with
  | nil => simp
  | cons c text ih =>
    rw [List.mem_cons, not_or] at h
    rw [List.cons_append, tokensFrom_outside_cons (Ne.symm h.1), ih h.2, Option.map_map]
    rfl

/-- Within a quoted string, a character is read back from the way in which it is written. -/
theorem tokensFrom_quoteChar (text : List Char) (c : Char) (cs : List Char) :
    tokensFrom (.inside text) (quoteChar c ++ cs) = tokensFrom (.inside (text ++ [c])) cs := by
  unfold quoteChar
  split
  · rfl
  · rfl
  · rfl
  · -- Any other character is written as itself, and it opens no escape and ends no string.
    rename_i hquote hbackslash hnewline
    rw [List.singleton_append, tokensFrom]
    · exact hquote
    · exact hbackslash

/-- A quoted text is read to its end, whichever characters it has. -/
theorem tokensFrom_quoted (text s cs : List Char) :
    tokensFrom (.inside text) (s.flatMap quoteChar ++ '"' :: cs) =
      (tokensFrom .outside cs).map (.quoted (String.ofList (text ++ s)) :: ·) := by
  induction s generalizing text with
  | nil => simp [tokensFrom]
  | cons c s ih =>
    rw [List.flatMap_cons, List.append_assoc, tokensFrom_quoteChar, ih]
    simp

/-- A quoted text is one token, which ends where the quoted text ends. -/
theorem reads_quote (s : String) : Reads (quote s) [.quoted s] := by
  intro cs
  simp [quote, tokensFrom, tokensFrom_quoted]

/-! ## Statements -/

/-- The quoted strings of each statement. A semicolon outside of quoted strings ends a statement. -/
def statements : List Token → List (List String)
  | [] => [[]]
  | .plain c :: ts => if c = ';' then [] :: statements ts else statements ts
  | .quoted text :: ts => (statements ts).modifyHead (text :: ·)

/-- Text without semicolons adds nothing to a statement. -/
theorem statements_plainTokens {s : String} (h : ';' ∉ s.toList) (ts : List Token) :
    statements (plainTokens s ++ ts) = statements ts := by
  unfold plainTokens
  generalize s.toList = cs at h
  induction cs with
  | nil => rfl
  | cons c cs ih =>
    rw [List.mem_cons, not_or] at h
    rw [List.map_cons, List.cons_append, statements, if_neg (Ne.symm h.1), ih h.2]

/-- The text that identifies a vertex. -/
def qualifiedName (v : Vertex) : String := v.kind.group ++ "/" ++ v.name

/-- The quoted strings of the statement of a vertex. -/
def vertexStatement (v : Vertex) : List String := [qualifiedName v, v.name]

/-- The quoted strings of the statement of an edge. -/
def edgeStatement (e : Edge Vertex EdgeDetail) : List String :=
  [qualifiedName e.source, qualifiedName e.target, e.value.label]

def vertexTokens (v : Vertex) : List Token :=
  plainTokens "    " ++ [.quoted (qualifiedName v)] ++ plainTokens " [label=" ++ [.quoted v.name] ++
    plainTokens ", shape=" ++ plainTokens v.kind.shape ++ plainTokens "];"

def edgeTokens (e : Edge Vertex EdgeDetail) : List Token :=
  plainTokens "    " ++ [.quoted (qualifiedName e.source)] ++ plainTokens " -> " ++
    [.quoted (qualifiedName e.target)] ++ plainTokens " [label=" ++ [.quoted e.value.label] ++
    plainTokens "];"

/-- The tokens of the text of a graph under a name. -/
def graphTokens (name : String) (g : DependencyGraph) : List Token :=
  plainTokens "digraph " ++ [.quoted name] ++ plainTokens " \x7b\n    rankdir=LR;\n" ++
    g.vertices.flatMap (fun v => vertexTokens v ++ plainTokens "\n") ++
    g.edges.flatMap (fun e => edgeTokens e ++ plainTokens "\n") ++ plainTokens "\x7d\n"

/-- Shapes are words, without quotes, semicolons and newlines. -/
theorem not_mem_shape {c : Char} (h : c.isAlpha = false) (kind : EntityKind) :
    c ∉ kind.shape.toList := by
  -- The shapes are finitely many words.
  have hletters : kind.shape.toList.all Char.isAlpha = true := by cases kind <;> decide
  intro hc
  have hletter := List.all_eq_true.1 hletters c hc
  rw [h] at hletter
  cases hletter

/-- The line of a vertex holds two quoted strings, its identifier and its name. -/
theorem reads_vertexLine (v : Vertex) : Reads (vertexLine v) (vertexTokens v) := by
  -- The line is put together as it is written, a quoted string at a time.
  have hstart : Reads ("    " ++ identifier v)
      (plainTokens "    " ++ [.quoted (qualifiedName v)]) :=
    (reads_plain (by decide)).append (reads_quote _)
  have hname := (hstart.append (reads_plain (s := " [label=") (by decide))).append
    (reads_quote v.name)
  have hshape := (hname.append (reads_plain (s := ", shape=") (by decide))).append
    (reads_plain (not_mem_shape (by decide) v.kind))
  exact hshape.append (reads_plain (by decide))

/-- The line of an edge holds three quoted strings: both identifiers and the label. -/
theorem reads_edgeLine (e : Edge Vertex EdgeDetail) : Reads (edgeLine e) (edgeTokens e) := by
  have hsource : Reads ("    " ++ identifier e.source)
      (plainTokens "    " ++ [.quoted (qualifiedName e.source)]) :=
    (reads_plain (by decide)).append (reads_quote _)
  have htarget := (hsource.append (reads_plain (s := " -> ") (by decide))).append
    (reads_quote (qualifiedName e.target))
  have hlabel := (htarget.append (reads_plain (s := " [label=") (by decide))).append
    (reads_quote e.value.label)
  exact hlabel.append (reads_plain (by decide))

/-- The text of a graph is read into the tokens of its lines, one after the other. -/
theorem reads_renderNamed (name : String) (g : DependencyGraph) :
    Reads (renderNamed name g) (graphTokens name g) := by
  have hnewline : Reads "\n" (plainTokens "\n") := reads_plain (by decide)
  have hheader : Reads ("digraph " ++ quote name ++ " \x7b\n    rankdir=LR;\n")
      (plainTokens "digraph " ++ [.quoted name] ++ plainTokens " \x7b\n    rankdir=LR;\n") :=
    ((reads_plain (by decide)).append (reads_quote name)).append (reads_plain (by decide))
  have hvertices := Reads.join (fun v => (reads_vertexLine v).append hnewline) g.vertices
  have hedges := Reads.join (fun e => (reads_edgeLine e).append hnewline) g.edges
  have hgraph := ((hheader.append hvertices).append hedges).append
    (reads_plain (s := "\x7d\n") (by decide))
  have htext : renderNamed name g = "digraph " ++ quote name ++ " \x7b\n    rankdir=LR;\n" ++
      String.join (g.vertices.map fun v => vertexLine v ++ "\n") ++
      String.join (g.edges.map fun e => edgeLine e ++ "\n") ++ "\x7d\n" := by
    apply String.toList_inj.1
    simp [renderNamed, lines, Function.comp_def]
  rw [htext]
  exact hgraph

theorem statements_close (ts : List Token) :
    statements (plainTokens "];" ++ (plainTokens "\n" ++ ts)) = [] :: statements ts := by
  simp [plainTokens, statements]

/-- The line of a vertex is one statement. -/
theorem statements_vertexTokens (v : Vertex) (ts : List Token) :
    statements (vertexTokens v ++ plainTokens "\n" ++ ts) = vertexStatement v :: statements ts := by
  simp only [vertexTokens, List.append_assoc]
  -- Text, identifier, text, name, text: only what closes the line has a semicolon.
  rw [statements_plainTokens (by decide), List.singleton_append, statements,
    statements_plainTokens (by decide), List.singleton_append, statements,
    statements_plainTokens (by decide), statements_plainTokens (not_mem_shape (by decide) v.kind),
    statements_close]
  rfl

/-- The line of an edge is one statement. -/
theorem statements_edgeTokens (e : Edge Vertex EdgeDetail) (ts : List Token) :
    statements (edgeTokens e ++ plainTokens "\n" ++ ts) = edgeStatement e :: statements ts := by
  simp only [edgeTokens, List.append_assoc]
  rw [statements_plainTokens (by decide), List.singleton_append, statements,
    statements_plainTokens (by decide), List.singleton_append, statements,
    statements_plainTokens (by decide), List.singleton_append, statements, statements_close]
  rfl

/-- Lines that are each one statement are as many statements. -/
theorem statements_flatMap {α : Type} {tokens : α → List Token} {statement : α → List String}
    (h : ∀ x ts, statements (tokens x ++ ts) = statement x :: statements ts) (xs : List α)
    (ts : List Token) :
    statements (xs.flatMap tokens ++ ts) = xs.map statement ++ statements ts := by
  induction xs with
  | nil => rfl
  | cons x xs ih =>
    rw [List.flatMap_cons, List.append_assoc, h, ih, List.map_cons, List.cons_append]

/-- The text of a graph has a statement for each vertex and each edge, after that of the layout. -/
theorem statements_graphTokens (name : String) (g : DependencyGraph) :
    statements (graphTokens name g) =
      [name] :: (g.vertices.map vertexStatement ++ (g.edges.map edgeStatement ++ [[]])) := by
  have hclose : statements (plainTokens "\x7d\n") = [[]] := by simp [plainTokens, statements]
  have hlayout (ts : List Token) :
      statements (plainTokens " \x7b\n    rankdir=LR;\n" ++ ts) = [] :: statements ts := by
    simp [plainTokens, statements]
  simp only [graphTokens, List.append_assoc]
  rw [statements_plainTokens (by decide), List.singleton_append, statements, hlayout,
    statements_flatMap statements_vertexTokens, statements_flatMap statements_edgeTokens, hclose]
  rfl

/-! ## What the statements determine -/

theorem slash_not_mem_group (kind : EntityKind) : '/' ∉ kind.group.toList := by
  cases kind <;> decide

theorem group_inj {kind kind' : EntityKind} (h : kind.group = kind'.group) : kind = kind' := by
  cases kind <;> cases kind' <;> first | rfl | simp [EntityKind.group] at h

/-- Two texts are the same up to a separator if neither has it before. -/
theorem append_cons_inj {α : Type} [DecidableEq α] {xs ys zs ws : List α} {a : α} (hxs : a ∉ xs)
    (hys : a ∉ ys) (h : xs ++ a :: zs = ys ++ a :: ws) : xs = ys ∧ zs = ws := by
  have hlength := congrArg (List.idxOf a) h
  rw [List.idxOf_append_of_notMem hxs, List.idxOf_append_of_notMem hys, List.idxOf_cons_self,
    List.idxOf_cons_self] at hlength
  rcases List.append_inj h hlength with ⟨heq, hrest⟩
  exact ⟨heq, (List.cons.inj hrest).2⟩

/-- The first slash ends the group of a vertex, so slashes in names do no harm. -/
theorem qualifiedName_inj {v w : Vertex} (h : qualifiedName v = qualifiedName w) : v = w := by
  -- The group has no slash, so the first one is where the group ends.
  have hchars : v.kind.group.toList ++ '/' :: v.name.toList =
      w.kind.group.toList ++ '/' :: w.name.toList := by
    simpa [qualifiedName] using congrArg String.toList h
  rcases append_cons_inj (slash_not_mem_group _) (slash_not_mem_group _) hchars with ⟨hgroup, hname⟩
  rcases v with ⟨kind, name⟩
  rcases w with ⟨kind', name'⟩
  rw [Vertex.mk.injEq]
  exact ⟨group_inj (String.toList_inj.1 hgroup), String.toList_inj.1 hname⟩

theorem vertexStatement_injective : Function.Injective vertexStatement := by
  intro v w h
  rw [vertexStatement, vertexStatement, List.cons.injEq] at h
  exact qualifiedName_inj h.1

/-- A `Ref` is a direct reference exactly where it leads to a resource. The label leaves out which
of the two it is, so the target has to tell. -/
def Fits (e : Edge Vertex EdgeDetail) : Prop :=
  (e.value = .directReference → e.target.kind = .resource) ∧
    (e.value = .parameterReference → e.target.kind ≠ .resource)

/-- Two details have the same label only if both are of a `Ref`. -/
theorem label_cases {detail detail' : EdgeDetail} (h : detail.label = detail'.label) :
    detail = detail' ∨ (detail = .directReference ∧ detail' = .parameterReference) ∨
      detail = .parameterReference ∧ detail' = .directReference := by
  have hchars : detail.label.toList = detail'.label.toList := by rw [h]
  cases detail <;> cases detail' <;> simp [EdgeDetail.label] at hchars ⊢
  exact String.toList_inj.1 hchars

/-- The statement of an edge determines the edge, where the detail fits the target. -/
theorem edgeStatement_inj {e e' : Edge Vertex EdgeDetail} (he : Fits e) (he' : Fits e')
    (h : edgeStatement e = edgeStatement e') : e = e' := by
  rcases e with ⟨source, target, detail⟩
  rcases e' with ⟨source', target', detail'⟩
  simp only [edgeStatement, List.cons.injEq, and_true] at h
  rcases h with ⟨hsource, htarget, hlabel⟩
  have hsource := qualifiedName_inj hsource
  have htarget := qualifiedName_inj htarget
  subst hsource htarget
  -- The labels may hide whether a `Ref` is direct, but the target shows it.
  rcases label_cases hlabel with rfl | ⟨rfl, rfl⟩ | ⟨rfl, rfl⟩
  · rfl
  · exact absurd (he.1 rfl) (he'.2 rfl)
  · exact absurd (he'.1 rfl) (he.2 rfl)

/-- The statements of edges determine the edges, in their order. -/
theorem edges_eq_of_statements {es es' : List (Edge Vertex EdgeDetail)} (hes : ∀ e ∈ es, Fits e)
    (hes' : ∀ e ∈ es', Fits e) (h : es.map edgeStatement = es'.map edgeStatement) : es = es' := by
  induction es generalizing es' with
  | nil => exact (List.map_eq_nil_iff.1 h.symm).symm
  | cons e es ih =>
    cases es' with
    | nil => cases h
    | cons e' es' =>
      rw [List.map_cons, List.map_cons, List.cons.injEq] at h
      rw [List.forall_mem_cons] at hes hes'
      rw [edgeStatement_inj hes.1 hes'.1 h.1, ih hes.2 hes'.2 h.2]

/-- The statements of vertices have two quoted strings, those of edges three. -/
theorem vertices_eq_of_statements {g g' : DependencyGraph}
    (h : g.vertices.map vertexStatement ++ (g.edges.map edgeStatement ++ [[]]) =
      g'.vertices.map vertexStatement ++ (g'.edges.map edgeStatement ++ [[]])) :
    g.vertices = g'.vertices := by
  -- The statements of vertices are picked out by their number of strings.
  have hvertices (g : DependencyGraph) :
      (g.vertices.map vertexStatement ++ (g.edges.map edgeStatement ++ [[]])).filter
        (fun texts => texts.length = 2) = g.vertices.map vertexStatement := by
    simp [List.filter_append, List.filter_map, Function.comp_def, vertexStatement, edgeStatement]
  have hmap := congrArg (List.filter fun texts => texts.length = 2) h
  rw [hvertices, hvertices] at hmap
  exact List.map_injective_iff.2 vertexStatement_injective hmap

/-- Where the details fit the targets, the text of a graph determines the graph. -/
theorem eq_of_renderNamed_eq {name : String} {g g' : DependencyGraph} (hg : ∀ e ∈ g.edges, Fits e)
    (hg' : ∀ e ∈ g'.edges, Fits e) (h : renderNamed name g = renderNamed name g') : g = g' := by
  have htokens := (reads_renderNamed name g).tokens?
  rw [h, (reads_renderNamed name g').tokens?, Option.some.injEq] at htokens
  -- Equal texts have equal tokens, and so equal statements.
  have hstatements := congrArg statements htokens.symm
  rw [statements_graphTokens, statements_graphTokens, List.cons.injEq] at hstatements
  rcases g with ⟨vertices, edges⟩
  rcases g' with ⟨vertices', edges'⟩
  have hvertices : vertices = vertices' := vertices_eq_of_statements hstatements.2
  subst hvertices
  -- Once the vertices are the same, what is left are the statements of edges.
  have hedges : edges = edges' := edges_eq_of_statements hg hg'
    (List.append_cancel_right (List.append_cancel_left hstatements.2))
  rw [hedges]

end Dot

/-! ## Graphs of templates -/

theorem Template.Depends.fits {t : Template} {v w : Vertex} {detail : EdgeDetail}
    (h : t.Depends v w detail) : Dot.Fits ⟨v, w, detail⟩ := by
  cases h <;> simp [Dot.Fits]

/-- In a graph that was built, and after any removals, the details fit the targets. -/
theorem DependencyGraph.Obtained.fits {g : DependencyGraph} (h : g.Obtained) :
    ∀ e ∈ g.edges, Dot.Fits e := by
  induction h with
  | build hgraph =>
    intro e he
    exact ((Template.exact_of_dependencyGraph hgraph).depends_of_mem_edges he).fits
  -- Removal leaves some of the edges and brings none.
  | removeVertices _ vs ih =>
    intro e he
    exact ih e (List.mem_of_mem_filter he)

namespace Dot

/-! ## Lines -/

/-- A newline is written as an escape. -/
theorem newline_not_mem_quoteChar (c : Char) : '\n' ∉ quoteChar c := by
  unfold quoteChar
  split
  · decide
  · decide
  · decide
  · rename_i hnewline
    rw [List.mem_singleton]
    exact Ne.symm hnewline

theorem newline_not_mem_quote (s : String) : '\n' ∉ (quote s).toList := by
  simp [quote, newline_not_mem_quoteChar]

/-- No name adds a line to the text of a graph. -/
theorem newline_not_mem_lines {name line : String} {g : DependencyGraph}
    (h : line ∈ lines name g) : '\n' ∉ line.toList := by
  have hvertex (v : Vertex) : '\n' ∉ (vertexLine v).toList := by
    have hshape : '\n' ∉ v.kind.shape.toList := not_mem_shape (by decide) v.kind
    simp [vertexLine, identifier, newline_not_mem_quote, hshape]
  have hedge (e : Edge Vertex EdgeDetail) : '\n' ∉ (edgeLine e).toList := by
    simp [edgeLine, identifier, newline_not_mem_quote]
  simp only [lines, List.mem_append, List.mem_cons, List.mem_map, List.not_mem_nil, or_false] at h
  -- The header, the layout, a vertex, an edge, or the closing brace.
  rcases h with (((rfl | rfl) | ⟨v, -, rfl⟩) | ⟨e, -, rfl⟩) | rfl
  · simp [newline_not_mem_quote]
  · decide
  · exact hvertex v
  · exact hedge e
  · decide

/-- Three lines open and close the graph; each vertex and each edge has one. -/
theorem length_lines (name : String) (g : DependencyGraph) :
    (lines name g).length = g.vertices.length + g.edges.length + 3 := by
  simp only [lines, List.length_append, List.length_map, List.length_cons, List.length_nil]
  omega

/-- Graphs with the same text have the same vertices and the same edges. The text of a graph has a
line for each vertex, for each edge and three more, and its statements, as they are read, have the
quoted strings that were written, in the order of the vertices and edges. -/
theorem render_unambiguous :
    (∀ g g' : DependencyGraph, g.Obtained → g'.Obtained → render g = render g' →
      g.vertices = g'.vertices ∧ g.edges = g'.edges) ∧
    ∀ g : DependencyGraph,
      (∃ ls : List String, render g = String.join (ls.map (· ++ "\n")) ∧
        (∀ line ∈ ls, '\n' ∉ line.toList) ∧ ls.length = g.vertices.length + g.edges.length + 3) ∧
      ∃ ts, tokens? (render g) = some ts ∧ statements ts =
        ["template"] :: (g.vertices.map vertexStatement ++ (g.edges.map edgeStatement ++ [[]])) := by
  constructor
  · intro g g' hg hg' h
    have heq : g = g' := eq_of_renderNamed_eq hg.fits hg'.fits h
    rw [heq]
    exact ⟨rfl, rfl⟩
  · intro g
    constructor
    · exact ⟨lines "template" g, rfl, fun line => newline_not_mem_lines, length_lines _ g⟩
    · exact ⟨_, (reads_renderNamed "template" g).tokens?, statements_graphTokens "template" g⟩

/-- A template with names that hold quotes, backslashes, slashes, newlines and arrows. -/
def quotedResources : Template :=
  { Template.empty with
    resources :=
      ⟨[("Key\"];\n\\", Resource.ofType "Service::Key"),
        ("Resources/Key", { Resource.ofType "Service::Queue" with
          properties := ⟨[("Arn", .call (.getAtt "Key\"];\n\\" (.string "\" -> \"")))], by decide⟩ })],
        by decide⟩ }

theorem quotedResources_unambiguous : ∃ g, quotedResources.dependencyGraph = .ok g ∧
    render g ≠ render (g.removeVertices [⟨.resource, "Resources/Key"⟩]) := by
  have hgraph : quotedResources.dependencyGraph = .ok _ := rfl
  have hobtained := DependencyGraph.Obtained.build hgraph
  refine ⟨_, hgraph, ?_⟩
  intro h
  -- Equal texts would have equal vertices, but one was removed.
  have hvertices := (render_unambiguous.1 _ _ hobtained (hobtained.removeVertices _) h).1
  revert hvertices
  decide +kernel

end Dot

end StackTemplate
