import StackTemplate.Proofs.Elaboration.Attempt
import StackTemplate.Proofs.Elaboration.Literal
import StackTemplate.Proofs.Resolution.Genuine

/-!
# Plain data

The check of literal data reads calls as resolution does, while the values of mappings are read
without a context. Both agree on plain data: no tag, no mapping that is a call by its only key, and
a text for every key. So there is a value wherever the check passes, and a mapping is never refused
for a value that is no literal.

* `Node.IsData` : plain data, as a property of all nodes in a node.
* `Node.checkLiteral_eq_ok_iff` : the check passes on plain data and on nothing else.
* `Node.literal_data_exact` : the check, the values of literal data, and the faults of mappings.
-/

namespace StackTemplate

/-! ## Plain data -/

/-- A text for a key: a scalar that is not null. -/
theorem Scalar.exists_keyText?_iff {key : Node} :
    (∃ k, keyText? key = some k) ↔ ∃ s, ofNode? key = some s ∧ s ≠ .null := by
  unfold keyText?
  cases ofNode? key with
  | none => simp
  | some s => cases s <;> simp

/-- All keys have texts if each one has. -/
theorem exists_keyTexts?_iff {entries : List (Node × Node)} :
    (∃ bs, keyTexts? entries = some bs) ↔ ∀ e ∈ entries, ∃ k, Scalar.keyText? e.1 = some k := by
  induction entries with
  | nil =>
    constructor
    · rintro - _ ⟨⟩
    · exact fun _ => ⟨[], rfl⟩
  | cons e entries ih =>
    rw [List.forall_mem_cons, ← ih, keyTexts?_cons]
    simp [Option.bind_eq_some_iff]

theorem Text.beginsWith_eq_false_iff {start s : String} :
    beginsWith start s = false ↔ ¬ start.toList <+: s.toList := by
  rw [beginsWith, ← List.isPrefixOf_iff_prefix, Bool.not_eq_true]

namespace Node

/-- A node stands at some depth in another one, mapping keys and the contents of tags included. -/
inductive Occurs (x : Node) : Node → Prop where
  | here : Occurs x x
  | item {item : Node} {items : List Node} (hitem : item ∈ items) (h : Occurs x item) :
    Occurs x (.seq items)
  | key {e : Node × Node} {entries : List (Node × Node)} (he : e ∈ entries) (h : Occurs x e.1) :
    Occurs x (.map entries)
  | value {e : Node × Node} {entries : List (Node × Node)} (he : e ∈ entries) (h : Occurs x e.2) :
    Occurs x (.map entries)
  | content {name : String} {content : Node} (h : Occurs x content) :
    Occurs x (.tagged name content)

/-- At every depth there is no tag, no mapping whose only key is `Ref` or begins with `Fn::`, and no
key that is null or no scalar. -/
structure IsData (node : Node) : Prop where
  untagged : ∀ name content, ¬ Occurs (.tagged name content) node
  uncalled : ∀ key value, Occurs (.map [(.string key, value)]) node →
    key ≠ "Ref" ∧ ¬ "Fn::".toList <+: key.toList
  keyed : ∀ entries, Occurs (.map entries) node → ∀ e ∈ entries,
    ∃ s, Scalar.ofNode? e.1 = some s ∧ s ≠ .null

/-- What stands in a member stands in the collection. -/
theorem Occurs.of_mem_members {x y node : Node} (h : Occurs x y) (hy : y ∈ node.members) :
    Occurs x node := by
  cases node with
  | seq items => exact .item hy h
  | map entries =>
    rcases List.mem_map.1 hy with ⟨e, he, rfl⟩
    exact .value he h
  | tagged name content =>
    rcases List.mem_singleton.1 hy with rfl
    exact .content h
  | _ => cases hy

/-- What is in plain data is plain data. -/
theorem IsData.of_mem_members {x node : Node} (h : node.IsData) (hx : x ∈ node.members) :
    x.IsData where
  untagged name content hoccurs := h.untagged name content (hoccurs.of_mem_members hx)
  uncalled key value hoccurs := h.uncalled key value (hoccurs.of_mem_members hx)
  keyed entries hoccurs := h.keyed entries (hoccurs.of_mem_members hx)

end Node

/-! ## Sections of literal data -/

namespace Node

variable {area : Section}

/-- Members of plain collections are checked as members of no call. -/
theorem checkLiteralItems_root (ctx : Context) (i : Nat) (items : List Node) :
    checkLiteralItems ctx i items = checkLiteralItems (.root ctx.area ctx.path) i items := by
  induction items generalizing i with
  | nil => rfl
  | cons item items ih =>
    rw [checkLiteralItems, checkLiteralItems, ih]
    rfl

/-- Values of plain mappings are checked as members of no call. -/
theorem checkLiteralEntries_root (ctx : Context) (entries : List (Node × Node)) :
    checkLiteralEntries ctx entries = checkLiteralEntries (.root ctx.area ctx.path) entries := by
  induction entries with
  | nil => rfl
  | cons e entries ih =>
    rcases e with ⟨key, value⟩
    rw [checkLiteralEntries, checkLiteralEntries, ih]
    rfl

/-- In a section of literal data a call is read without regard to what it stands in. -/
theorem call?_root {ctx : Context} (harea : ctx.area.HoldsData) (node : Node) :
    node.call? ctx = node.call? (.root ctx.area ctx.path) := by
  have hroot : (Context.root ctx.area ctx.path).area = ctx.area := rfl
  have hpath : (Context.root ctx.area ctx.path).path = ctx.path := rfl
  unfold call?
  rw [hroot, hpath, harea.readsConditionKey, harea.readsConditionKey]

/-- Literal data is checked alike as an operand of any function and of none. -/
theorem checkLiteral_root {ctx : Context} (harea : ctx.area.HoldsData) (node : Node) :
    node.checkLiteral ctx = node.checkLiteral (.root ctx.area ctx.path) := by
  have hroot : (Context.root ctx.area ctx.path).area = ctx.area := rfl
  unfold checkLiteral
  rw [call?_root harea, hroot]
  rcases node.call? (.root ctx.area ctx.path) with e | ⟨⟩ | ⟨f, args⟩
  · rfl
  · cases node with
    | seq items => exact checkLiteralItems_root ctx 0 items
    | map entries => exact checkLiteralEntries_root ctx entries
    | _ => rfl
  · dsimp only
    rw [harea.restriction?, harea.restriction?]
    rfl

/-! ## The check and plain data -/

/-- In a literal node, keys included, every node is literal. -/
theorem Literal.of_occurs {x node : Node} (h : node.Literal area) (hx : Occurs x node) :
    x.Literal area := by
  induction hx with
  | here => exact h
  | item hitem _ ih => exact ih (h.of_mem_members hitem)
  | value he _ ih => exact ih (h.of_mem_members (List.mem_map_of_mem he))
  | key he _ ih =>
    cases h with
    | leaf hs => cases hs
    | map _ hbs _ =>
      -- A key is a scalar, and so is whatever stands in it.
      rcases Scalar.exists_keyText?_iff.1 (exists_keyTexts?_iff.1 ⟨_, hbs⟩ _ he) with ⟨s, hs, -⟩
      exact ih (.leaf hs)
  | content _ ih =>
    cases h with
    | leaf hs => cases hs

/-- A literal node of a section of literal data is plain data. -/
theorem Literal.isData (harea : area.HoldsData) {node : Node} (h : node.Literal area) :
    node.IsData where
  untagged name content hoccurs := by
    cases h.of_occurs hoccurs with
    | leaf hs => cases hs
  uncalled key value hoccurs := by
    cases h.of_occurs hoccurs with
    | leaf hs => cases hs
    -- A single string key makes a call by its name alone, since no call surrounds it.
    | map hcall _ _ =>
      rw [← Text.beginsWith_eq_false_iff, ← harea.readsCall_eq_false_iff none]
      exact call?_single_eq_none_iff.1 (hcall "")
  keyed entries hoccurs e he := by
    cases h.of_occurs hoccurs with
    | leaf hs => cases hs
    | map _ hbs _ => exact Scalar.exists_keyText?_iff.1 (exists_keyTexts?_iff.1 ⟨_, hbs⟩ e he)

/-- A mapping without a single string key is no call in any context. -/
theorem call?_map_eq_none {ctx : Context} {entries : List (Node × Node)}
    (h : ∀ key value, entries = [(.string key, value)] → ctx.area.readsCall ctx.owner key = false) :
    (map entries).call? ctx = .ok none := by
  match entries with
  | [] => rfl
  | [(key, value)] =>
    cases key with
    | string key => exact call?_single_eq_none_iff.2 (h key value rfl)
    | _ => rfl
  | (key, value) :: e :: entries => cases key <;> rfl

/-- Plain data is literal in a section of literal data. -/
theorem IsData.literal (harea : area.HoldsData) {node : Node} (h : node.IsData) :
    node.Literal area := by
  induction node using Node.induction with
  | step node ih =>
    have hmembers : ∀ x ∈ node.members, x.Literal area := fun x hx =>
      ih x (.member hx) (h.of_mem_members hx)
    cases node with
    | seq items => exact .seq hmembers
    | map entries =>
      have htexts : ∃ bs, keyTexts? entries = some bs := by
        rw [exists_keyTexts?_iff]
        intro e he
        exact Scalar.exists_keyText?_iff.2 (h.keyed entries .here e he)
      rcases htexts with ⟨bs, hbs⟩
      refine .map (fun path => call?_map_eq_none ?_) hbs hmembers
      -- The only key of the mapping is neither `Ref` nor the key of a function.
      rintro key value rfl
      have huncalled := h.uncalled key value .here
      rw [← Text.beginsWith_eq_false_iff] at huncalled
      exact (harea.readsCall_eq_false_iff none key).2 huncalled
    | tagged name content => exact absurd .here (h.untagged name content)
    | _ => exact .leaf rfl

/-- The check passes on literal nodes and on no others. -/
theorem checkLiteral_eq_ok_iff {ctx : Context} (harea : ctx.area.HoldsData) {node : Node} :
    node.checkLiteral ctx = .ok () ↔ node.Literal ctx.area := by
  rw [checkLiteral_root harea]
  constructor
  · exact literal_of_checkLiteral
  · intro h
    exact h.checkLiteral ctx.path

end Node

/-! ## Values -/

/-- Related members make up related lists. -/
theorem exists_forall₂ {α β : Type} {R : α → β → Prop} {xs : List α}
    (h : ∀ x ∈ xs, ∃ y, R x y) : ∃ ys, List.Forall₂ R xs ys := by
  induction xs with
  | nil => exact ⟨[], .nil⟩
  | cons x xs ih =>
    rw [List.forall_mem_cons] at h
    rcases h with ⟨⟨y, hy⟩, hxs⟩
    rcases ih hxs with ⟨ys, hys⟩
    exact ⟨y :: ys, .cons hy hys⟩

/-- Every literal node has a value. -/
theorem Node.Literal.exists_value {area : Section} {node : Node} (h : node.Literal area) :
    ∃ v, Value.ofNode? node = some v := by
  induction h with
  | leaf hs => exact ⟨_, Value.ofNode?_scalar hs⟩
  | seq _ ih =>
    rcases exists_forall₂ ih with ⟨vs, hvs⟩
    refine ⟨.list vs, ?_⟩
    rw [Value.ofNode?, Value.ofItems?_eq_some_iff.2 hvs, Option.map_some]
  | @map entries bs _ hbs _ ih =>
    -- Each entry has the value of its node, under the text of its key.
    have hentries : ∀ b ∈ bs, ∃ e : String × Value,
        Entries.Related (fun x v => Value.ofNode? x = some v) b e := by
      intro b hb
      have hx : b.2 ∈ entries.map Prod.snd := by
        rw [← (keyTexts?_eq_some hbs).2]
        exact List.mem_map.2 ⟨b, hb, rfl⟩
      rcases ih b.2 hx with ⟨v, hv⟩
      exact ⟨(b.1, v), rfl, hv⟩
    rcases exists_forall₂ hentries with ⟨es, hes⟩
    refine ⟨.map (Entries.ofList es), ?_⟩
    rw [Value.ofNode?, (Value.ofEntries?_eq_some_iff hbs).2 hes, Option.map_some]

/-! ## Mappings -/

/-- The fault of an entry whose value is no literal. -/
def Fault.IsNotLiteral (e : Fault) : Prop := ∃ path, e = .malformedEntry path .notLiteral

/-- The check reports calls and keys, and never a value. -/
theorem Node.checkLiteral_never_notLiteral (node : Node) (ctx : Context) :
    Except.FailsWith (¬ ·.IsNotLiteral) (node.checkLiteral ctx) := by
  refine checkLiteral_failsWith (P := .all) ?_ ?_ ?_ node trivial
  · -- Reading a call has faults of its own.
    intro ctx node _ e h
    unfold call? at h
    repeat' split at h
    all_goals cases h
    all_goals rintro ⟨_, ⟨⟩⟩
  · rintro _ _ _ _ _ ⟨_, ⟨⟩⟩
  · rintro _ _ ⟨_, ⟨⟩⟩

/-- Reading attributes reports bodies and keys, and never a value. -/
theorem Entry.attributes_never_notLiteral (path : String) (node : Node) :
    Except.FailsWith (¬ ·.IsNotLiteral) (Entry.attributes path node) := by
  have hmalformed (fault : EntryFault) (h : fault ≠ .notLiteral) :
      Except.FailsWith (¬ ·.IsNotLiteral)
        (malformed path fault : Except Fault (List (String × Node))) := by
    apply Except.FailsWith.error
    rintro ⟨_, ⟨⟩⟩
    exact h rfl
  cases node with
  | map entries =>
    rw [attributes_map]
    split
    · exact .ok _
    · exact hmalformed .keyNotScalar nofun
  | _ => exact hmalformed .notMapping nofun

namespace Mapping

/-- A level of literal data is not refused for a value. -/
theorem withLevel_never_notLiteral {path topKey : String} {m : Mapping} {node : Node}
    (h : node.Literal .mappings) :
    Except.FailsWith (¬ ·.IsNotLiteral) (withLevel path m topKey node) := by
  unfold withLevel
  refine (Entry.attributes_never_notLiteral _ node).bind fun entries hentries => .foldlM ?_ m
  intro m e he
  rcases (h.of_mem_members (Entry.mem_members_of_attributes hentries he)).exists_value with ⟨v, hv⟩
  dsimp only
  -- A member of literal data has a value, so the fault is not reached.
  rw [hv]
  exact .ok _

/-- A mapping is never refused for a value that is no literal: the check comes before. -/
theorem ofNode_never_notLiteral (name : String) (body : Node) :
    Except.FailsWith (¬ ·.IsNotLiteral) (ofNode name body) := by
  unfold ofNode
  refine (body.checkLiteral_never_notLiteral _).bind fun _ hcheck => ?_
  refine (Entry.attributes_never_notLiteral _ body).bind fun levels hlevels => .foldlM ?_ ∅
  intro m e he
  have hbody : body.Literal .mappings := Node.literal_of_checkLiteral hcheck
  exact withLevel_never_notLiteral (hbody.of_mem_members (Entry.mem_members_of_attributes hlevels he))

end Mapping

/-- In the sections of literal data the check passes on plain data and on nothing else, and where it
passes there is a value. So a mapping is never refused for a value that is no literal. -/
theorem Node.literal_data_exact :
    (∀ (ctx : Context) (node : Node), ctx.area.HoldsData →
      (node.checkLiteral ctx = .ok () ↔ node.IsData) ∧
      (node.checkLiteral ctx = .ok () → ∃ v, Value.ofNode? node = some v)) ∧
    ∀ name body path, Mapping.ofNode name body ≠ .error (.malformedEntry path .notLiteral) := by
  constructor
  · intro ctx node harea
    rw [checkLiteral_eq_ok_iff harea]
    constructor
    · constructor
      · intro h
        exact h.isData harea
      · intro h
        exact h.literal harea
    · intro h
      exact h.exists_value
  · intro name body path h
    exact Mapping.ofNode_never_notLiteral name body _ h ⟨path, rfl⟩

/-- Data with the only key `Condition`, and with the key of a call that is not the only one. -/
def Node.conditionData : Node :=
  .map [(.string "Condition",
    .map [(.int 1, .seq [.null, .string "Fn::If"]), (.string "Ref", .bool true)])]

theorem Node.conditionData_exact : Section.metadata.HoldsData ∧ conditionData.IsData ∧
    conditionData.checkLiteral ⟨.metadata, "Metadata", some .and⟩ = .ok () ∧
    ∃ v, Value.ofNode? conditionData = some v := by
  have harea : Section.metadata.HoldsData := .inr (.inr rfl)
  have hcheck : conditionData.checkLiteral ⟨.metadata, "Metadata", some .and⟩ = .ok () := by
    decide +kernel
  have hexact := literal_data_exact.1 ⟨.metadata, "Metadata", some .and⟩ conditionData harea
  exact ⟨harea, hexact.1.1 hcheck, hcheck, hexact.2 hcheck⟩

end StackTemplate
