import StackTemplate.Elaboration.Declaration
import StackTemplate.Proofs.Resolution.Writing

/-!
# Written literals

Parameters and mappings hold literal data: nodes without calls in which every key has a text. What
the value of a literal node is written as is literal again and denotes the value.

* `Node.Literal` : no call in a node, and a text for every key.
* `Node.checkLiteral_eq_ok_iff` : what the check of literal data admits.
* `Value.Writable` : what a value is written as denotes it.
* `Value.writable_of_literal` : the value of a literal node is writable.
-/

namespace StackTemplate

namespace Node

/-- No call in a node, read as literal data of a section, and a text for every key. -/
inductive Literal (area : Section) : Node → Prop where
  | leaf {node : Node} {s : Scalar} (hs : Scalar.ofNode? node = some s) : Literal area node
  | seq {items : List Node} (hitems : ∀ x ∈ items, Literal area x) : Literal area (.seq items)
  | map {entries : List (Node × Node)} {bs : List (String × Node)}
      (hcall : ∀ path, (Node.map entries).call? (.root area path) = .ok none)
      (hbs : keyTexts? entries = some bs) (hvalues : ∀ x ∈ entries.map Prod.snd, Literal area x) :
      Literal area (.map entries)

variable {area : Section}

/-- What is in a literal node is literal. -/
theorem Literal.of_mem_members {x node : Node} (h : node.Literal area) (hx : x ∈ node.members) :
    x.Literal area := by
  cases h with
  | leaf hs =>
    cases node with
    | seq _ | map _ | tagged _ _ => cases hs
    | _ => cases hx
  | seq hitems => exact hitems x hx
  | map _ _ hvalues => exact hvalues x hx

/-- Items are admitted if each one is. -/
theorem checkLiteralItems_eq_ok {path : String} {items : List Node} {i : Nat}
    (h : ∀ x ∈ items, ∀ path, x.checkLiteral (.root area path) = .ok ()) :
    checkLiteralItems (.root area path) i items = .ok () := by
  induction items generalizing i with
  | nil => rfl
  | cons item items ih =>
    have hitem : item.checkLiteral ((Context.root area path).plain (Slot.index i).segment) =
        .ok () := h item List.mem_cons_self _
    rw [checkLiteralItems, hitem]
    exact ih fun x hx => h x (List.mem_cons_of_mem item hx)

/-- Entries are admitted if their keys have texts and each value is admitted. -/
theorem checkLiteralEntries_eq_ok {path : String} {entries : List (Node × Node)}
    {bs : List (String × Node)} (hbs : keyTexts? entries = some bs)
    (h : ∀ x ∈ entries.map Prod.snd, ∀ path, x.checkLiteral (.root area path) = .ok ()) :
    checkLiteralEntries (.root area path) entries = .ok () := by
  induction entries generalizing bs with
  | nil => rfl
  | cons e entries ih =>
    rcases e with ⟨key, value⟩
    rw [keyTexts?_cons] at hbs
    rcases Option.bind_eq_some_iff.1 hbs with ⟨k, hk, hbs⟩
    rcases Option.map_eq_some_iff.1 hbs with ⟨bs', hbs', rfl⟩
    have hvalue : value.checkLiteral ((Context.root area path).plain (Slot.key k).segment) =
        .ok () := h value List.mem_cons_self _
    simp only [checkLiteralEntries, hk, hvalue]
    exact ih hbs' fun x hx => h x (List.mem_cons_of_mem value hx)

/-- The check admits literal nodes. -/
theorem Literal.checkLiteral {node : Node} (h : node.Literal area) (path : String) :
    node.checkLiteral (.root area path) = .ok () := by
  induction h generalizing path with
  -- A scalar has nothing inside to be checked.
  | @leaf node s hs =>
    cases node with
    | seq _ | map _ | tagged _ _ => cases hs
    | _ =>
      unfold Node.checkLiteral
      rfl
  | seq hitems ih =>
    rw [Node.checkLiteral]
    exact checkLiteralItems_eq_ok ih
  | map hcall hbs hvalues ih =>
    rw [Node.checkLiteral, hcall path]
    exact checkLiteralEntries_eq_ok hbs ih

/-- Items that are admitted are so one by one. -/
theorem exists_checkLiteral_of_mem_items {ctx : Context} {items : List Node} {i : Nat}
    (h : checkLiteralItems ctx i items = .ok ()) {x : Node} (hx : x ∈ items) :
    ∃ segment, x.checkLiteral (ctx.plain segment) = .ok () := by
  induction items generalizing i with
  | nil => cases hx
  | cons item items ih =>
    rw [checkLiteralItems] at h
    split at h
    · cases h
    · -- The first item was admitted, and the others were checked after it.
      next hitem =>
      rcases List.mem_cons.1 hx with rfl | hx
      · exact ⟨_, hitem⟩
      · exact ih h hx

/-- Entries that are admitted have texts for their keys, and their values are admitted. -/
theorem exists_checkLiteral_of_entries {ctx : Context} {entries : List (Node × Node)}
    (h : checkLiteralEntries ctx entries = .ok ()) :
    (∃ bs, keyTexts? entries = some bs) ∧
      ∀ x ∈ entries.map Prod.snd, ∃ segment, x.checkLiteral (ctx.plain segment) = .ok () := by
  induction entries with
  | nil => exact ⟨⟨[], rfl⟩, by rintro _ ⟨⟩⟩
  | cons e entries ih =>
    rcases e with ⟨key, value⟩
    rw [checkLiteralEntries] at h
    split at h
    · cases h
    · next k hk =>
      split at h
      · cases h
      · next hvalue =>
        rcases ih h with ⟨⟨bs, hbs⟩, hvalues⟩
        refine ⟨⟨(k, value) :: bs, ?_⟩, List.forall_mem_cons.2 ⟨⟨_, hvalue⟩, hvalues⟩⟩
        rw [keyTexts?_cons, hk, hbs]
        rfl

/-- What the check admits is literal. -/
theorem literal_of_checkLiteral {node : Node} {path : String}
    (h : node.checkLiteral (.root area path) = .ok ()) : node.Literal area := by
  induction node using Node.induction generalizing path with
  | step node ih =>
    -- The context does not matter, since a member of plain data is checked as plain data.
    have hmembers : ∀ x ∈ node.members,
        (∃ segment, x.checkLiteral ((Context.root area path).plain segment) = .ok ()) →
          x.Literal area := by
      rintro x hx ⟨segment, hx'⟩
      exact ih x (.member hx) hx'
    unfold Node.checkLiteral at h
    split at h
    · cases h
    · cases h
    · next hcall =>
      cases node with
      | seq items =>
        exact .seq fun x hx => hmembers x hx (exists_checkLiteral_of_mem_items h hx)
      | map entries =>
        rcases exists_checkLiteral_of_entries h with ⟨⟨bs, hbs⟩, hvalues⟩
        exact .map (call?_of_path hcall) hbs fun x hx => hmembers x hx (hvalues x hx)
      | tagged name content => exact absurd hcall (call?_tagged_ne _ name content)
      | _ => exact .leaf rfl

end Node

/-! ## Values -/

namespace Value

variable {area : Section}

theorem itemsToNodes_eq (vs : List Value) : itemsToNodes vs = vs.map toNode := by
  induction vs with
  | nil => rfl
  | cons v vs ih => rw [itemsToNodes, ih, List.map_cons]

theorem entriesToNodes_eq (es : List (String × Value)) :
    entriesToNodes es = (es.map fun e => (e.1, e.2.toNode)).map fun e => (.string e.1, e.2) := by
  induction es with
  | nil => rfl
  | cons e es ih =>
    rcases e with ⟨k, v⟩
    rw [entriesToNodes, ih, List.map_cons, List.map_cons]

/-- Items are read one by one. -/
theorem ofItems?_eq_some_iff {items : List Node} {vs : List Value} :
    ofItems? items = some vs ↔ List.Forall₂ (fun x v => ofNode? x = some v) items vs := by
  induction items generalizing vs with
  | nil => simp [ofItems?, eq_comm]
  | cons x items ih =>
    rw [ofItems?, List.forall₂_cons_left_iff]
    cases ofNode? x with
    | none => simp
    | some v =>
      simp only [Option.map_eq_some_iff, ih, Option.some.injEq]
      constructor
      · rintro ⟨vs, hvs, rfl⟩
        exact ⟨v, vs, rfl, hvs, rfl⟩
      · rintro ⟨_, vs, rfl, hvs, rfl⟩
        exact ⟨vs, hvs, rfl⟩

/-- The entries of a mapping whose keys have texts. -/
theorem ofEntries?_eq_some_iff {entries : List (Node × Node)} {bs : List (String × Node)}
    (hbs : keyTexts? entries = some bs) {es : List (String × Value)} :
    ofEntries? entries = some es ↔
      List.Forall₂ (Entries.Related fun x v => ofNode? x = some v) bs es := by
  induction entries generalizing bs es with
  | nil =>
    cases hbs
    simp [ofEntries?, eq_comm]
  | cons e entries ih =>
    rcases e with ⟨key, x⟩
    rw [keyTexts?_cons] at hbs
    rcases Option.bind_eq_some_iff.1 hbs with ⟨k, hk, hbs⟩
    rcases Option.map_eq_some_iff.1 hbs with ⟨bs', hbs', rfl⟩
    -- A key with a text is a scalar with this text.
    have hkey : ∃ s, Scalar.ofNode? key = some s ∧ s.text = k := by
      unfold Scalar.keyText? at hk
      split at hk
      · cases hk
      · cases hk
      · next s _ hs =>
        cases hk
        exact ⟨s, hs, rfl⟩
    rcases hkey with ⟨s, hs, rfl⟩
    rw [ofEntries?, hs, List.forall₂_cons_left_iff]
    cases hx : ofNode? x with
    | none => simp [Entries.Related, hx]
    | some v =>
      simp only [Option.map_eq_some_iff, ih hbs', Entries.Related, hx, Option.some.injEq]
      constructor
      · rintro ⟨es, hes, rfl⟩
        exact ⟨_, es, ⟨rfl, rfl⟩, hes, rfl⟩
      · rintro ⟨⟨_, _⟩, es, ⟨rfl, rfl⟩, hes, rfl⟩
        exact ⟨es, hes, rfl⟩

/-- A node that is a scalar is read as the scalar. -/
theorem ofNode?_scalar {node : Node} {s : Scalar} (h : Scalar.ofNode? node = some s) :
    ofNode? node = some (.scalar s) := by
  cases node with
  | seq _ | map _ | tagged _ _ => cases h
  | int i => rw [ofNode?, h, Option.map_some]
  | _ =>
    cases h
    rfl

/-- What a value is written as is literal in a section and denotes the value, and no mapping in it
has two keys with the same text. -/
structure Writable (area : Section) (v : Value) : Prop where
  literal : v.toNode.Literal area
  denotes : ofNode? v.toNode = some v
  texts : v.toNode.textsDiffer = true

/-- A scalar is writable if it is read from what it is written as. -/
theorem writable_scalar {s : Scalar} (h : Scalar.ofNode? s.toNode = some s) :
    (scalar s).Writable area :=
  ⟨.leaf h, ofNode?_scalar h, s.textsDiffer_toNode⟩

/-- A list is writable if its items are. -/
theorem writable_list {vs : List Value} (h : ∀ v ∈ vs, v.Writable area) :
    (list vs).Writable area := by
  constructor
  · rw [toNode, itemsToNodes_eq]
    refine .seq ?_
    rw [List.forall_mem_map]
    exact fun v hv => (h v hv).literal
  · have hitems : ofItems? (vs.map toNode) = some vs := by
      rw [ofItems?_eq_some_iff, List.forall₂_map_left_iff, List.forall₂_same]
      exact fun v hv => (h v hv).denotes
    rw [toNode, itemsToNodes_eq, ofNode?, hitems, Option.map_some]
  · rw [toNode, itemsToNodes_eq, Node.textsDiffer_seq, List.forall_mem_map]
    exact fun v hv => (h v hv).texts

/-- A map with different keys is writable if its values are, unless it would be written as a call.
-/
theorem writable_map {es : List (String × Value)} (hnodup : (Entries.keys es).Nodup)
    (hcall : ∀ key, Entries.keys es = [key] → area.readsCall none key = false)
    (h : ∀ v ∈ Entries.values es, v.Writable area) : (map es).Writable area := by
  have hkeys : Entries.keys (es.map fun e => (e.1, e.2.toNode)) = Entries.keys es :=
    Entries.keys_map toNode es
  have hmem : ∀ e ∈ es, e.2.Writable area := fun e he => h e.2 (List.mem_map.2 ⟨e, he, rfl⟩)
  constructor
  · rw [toNode, entriesToNodes_eq]
    refine .map (fun path => ?_) (keyTexts?_string _) ?_
    · -- Written keys are strings, so only a single key could make a call.
      rw [Node.call?_map_eq_none_iff, hkeys]
      exact hcall
    · simp only [List.map_map, Function.comp_def, List.forall_mem_map]
      exact fun e he => (hmem e he).literal
  · have hentries : ofEntries? ((es.map fun e => (e.1, e.2.toNode)).map fun e =>
        (.string e.1, e.2)) = some es := by
      rw [ofEntries?_eq_some_iff (keyTexts?_string _), List.forall₂_map_left_iff,
        List.forall₂_same]
      exact fun e he => ⟨rfl, (hmem e he).denotes⟩
    rw [toNode, entriesToNodes_eq, ofNode?, hentries, Option.map_some, Entries.ofList_eq_self hnodup]
  · rw [toNode, entriesToNodes_eq, Node.textsDiffer_map, hkeys, Entries.values_map,
      List.forall_mem_map]
    exact ⟨hnodup, fun v hv => (h v hv).texts⟩

/-- The value of a literal node is writable, where no mapping in the node has the same key twice. -/
theorem writable_of_literal {node : Node} {v : Value} (hliteral : node.Literal area)
    (hkeys : node.keysDiffer = true) (h : ofNode? node = some v) : v.Writable area := by
  induction hliteral generalizing v with
  | leaf hs =>
    rw [ofNode?_scalar hs] at h
    cases h
    exact writable_scalar (Scalar.ofNode?_toNode_of_ofNode? hs)
  | seq hitems ih =>
    rw [ofNode?] at h
    rcases Option.map_eq_some_iff.1 h with ⟨vs, hvs, rfl⟩
    refine writable_list fun v hv => ?_
    rcases exists_mem_of_forall₂ (ofItems?_eq_some_iff.1 hvs) hv with ⟨x, hx, hxv⟩
    exact ih x hx (Node.everyMapping_of_mem_members hkeys hx) hxv
  | @map entries bs hcall hbs hvalues ih =>
    rw [ofNode?] at h
    rcases Option.map_eq_some_iff.1 h with ⟨es, hes, rfl⟩
    have hrelated := (ofEntries?_eq_some_iff hbs).1 hes
    refine writable_map (Entries.nodup_keys_ofList es) (fun key hkey => ?_) fun v hv => ?_
    · -- The written map has one key only if the mapping had, and that one was no call.
      rw [← Entries.keys_ofList_congr (Entries.keys_eq_of_related hrelated)] at hkey
      exact Node.readsCall_of_call?_eq_none (hcall "") hkeys hbs hkey
    · rcases List.mem_map.1 (Entries.mem_values_of_mem_values_ofList hv) with ⟨e, he, rfl⟩
      rcases exists_mem_of_forall₂ hrelated he with ⟨b, hb, -, hbe⟩
      have hx : b.2 ∈ entries.map Prod.snd := by
        rw [← (keyTexts?_eq_some hbs).2]
        exact List.mem_map.2 ⟨b, hb, rfl⟩
      exact ih b.2 hx (Node.everyMapping_of_mem_members hkeys hx) hbe

end Value

end StackTemplate
