import StackTemplate.Proofs.Resolution.Staging

/-!
# Written operands

An operand is readable in a place if what it is written as has its layer there: mappings are no
calls and calls are permitted. What a readable operand with readable parts is written as denotes the
operand again, and no mapping in it has two keys with the same text.

* `Node.Denotes` : the operand that a node denotes when nothing is staged.
* `Operand.Readable` : one level of an operand can be written and read.
* `Operand.Writable` : what an operand is written as denotes it.
* `Operand.writable_of_readable` : readable operands with writable parts are writable.
-/

namespace StackTemplate

variable {α β γ : Type}

/-! ## Layers under a function -/

namespace Call

/-- Only the shape of a call counts when its operands are replaced. -/
theorem refill_map [Inhabited γ] (f : α → β) (c : Call α) (zs : List γ) :
    (c.map f).refill zs = c.refill zs := by
  cases c with
  | sub t bindings => simp [map, refill, Entries.keys, Function.comp_def]
  | _ => rfl

/-- Whether a call is well-formed does not depend on its operands, only on their number. -/
theorem wellFormed_map {f : α → β} {c : Call α} (h : c.WellFormed) : (c.map f).WellFormed := by
  cases c with
  | sub t bindings => simpa [map, WellFormed, Entries.keys, Function.comp_def] using h
  | and xs | or xs => simpa [map, WellFormed] using h
  | _ => exact h

/-- A call with as many operands as it had is still well-formed. -/
theorem wellFormed_refill [Inhabited β] {c : Call α} {ys : List β} (h : c.WellFormed)
    (hsub : c.function ≠ .sub) (hlength : ys.length = c.operands.length) :
    (c.refill ys).WellFormed := by
  cases c with
  | sub t bindings => exact absurd rfl hsub
  | and xs | or xs =>
    rw [operands] at hlength
    simpa [refill, WellFormed, hlength] using h
  | _ => exact h

end Call

namespace Layer

/-- The layer with a function applied to every child. -/
def mapChildren (f : α → β) : Layer α → Layer β
  | .leaf o => .leaf o
  | .list items => .list (items.map f)
  | .map entries => .map (entries.map fun e => (e.1, f e.2))
  | .call c => .call (c.map f)

@[simp] theorem owner?_mapChildren (f : α → β) (l : Layer α) :
    (l.mapChildren f).owner? = l.owner? := by
  cases l <;> simp [mapChildren, owner?]

/-- The children are mapped in their slots. -/
theorem children_mapChildren (f : α → β) (l : Layer α) :
    (l.mapChildren f).children = l.children.map fun e => (e.1, f e.2) := by
  cases l with
  | leaf o => rfl
  | list items => simp [mapChildren, children, Call.indexed, List.zipIdx_map, Function.comp_def]
  | map entries => simp [mapChildren, children, Call.keyed, Function.comp_def]
  | call c => exact Call.children_map f c

/-- Only the shape of a layer counts when its children are replaced. -/
theorem refill_mapChildren [Inhabited γ] (f : α → β) (l : Layer α) (zs : List γ) :
    (l.mapChildren f).refill zs = l.refill zs := by
  cases l with
  | map entries => simp [mapChildren, refill, Entries.keys, Function.comp_def]
  | call c => exact congrArg Layer.call (Call.refill_map f c zs)
  | _ => rfl

end Layer

/-! ## What a node denotes -/

/-- Attempts without a state succeed one after the other if each of them does. -/
theorem Attempt.mapM_eq_some_iff {f : α → Attempt Unit β} {xs : List α} {ys : List β} :
    xs.mapM f () = some (ys, ()) ↔ List.Forall₂ (fun x y => f x () = some (y, ())) xs ys := by
  induction xs generalizing ys with
  | nil =>
    rw [List.mapM_nil, List.forall₂_nil_left_iff]
    constructor
    · rintro ⟨⟩
      rfl
    · rintro rfl
      rfl
  | cons x xs ih =>
    rw [List.mapM_cons, List.forall₂_cons_left_iff, Attempt.bind_eq_some]
    constructor
    · rintro ⟨y, ⟨⟩, hy, h⟩
      rcases Attempt.bind_eq_some.1 h with ⟨zs, ⟨⟩, hzs, h⟩
      cases h
      exact ⟨y, zs, hy, ih.1 hzs, rfl⟩
    · rintro ⟨y, zs, hy, hzs, rfl⟩
      exact ⟨y, (), hy, Attempt.bind_eq_some.2 ⟨zs, (), ih.2 hzs, rfl⟩⟩

namespace Node

/-- The operand that a node denotes in a context when nothing is staged. -/
def Denotes (ctx : Context) (node : Node) (o : Operand) : Prop :=
  (node.resolve Staging.none ctx).attempt () = some (o, ())

/-- A node denotes the operand that its layer builds from what its children denote. -/
theorem denotes_iff {ctx : Context} {node : Node} {o : Operand} :
    node.Denotes ctx o ↔ ∃ l ys, node.layer? ctx = some l ∧
      List.Forall₂ (fun e y => e.2.Denotes (ctx.inside l.owner? e.1) y) l.children ys ∧
        (l.refill ys).build = o := by
  rw [Denotes, attempt_resolve Staging.callsOnly_none]
  cases hlayer : node.layer? ctx with
  | none => simp
  | some l =>
    rw [Attempt.map_eq_some]
    constructor
    · rintro ⟨ys, hys, rfl⟩
      exact ⟨l, ys, rfl, Attempt.mapM_eq_some_iff.1 hys, rfl⟩
    · rintro ⟨_, ys, ⟨⟩, hys, rfl⟩
      exact ⟨ys, Attempt.mapM_eq_some_iff.2 hys, rfl⟩

end Node

/-! ## Readable operands -/

namespace Operand

/-- One level of an operand is read from what it is written as, as an operand of a call of
`owner`. -/
def Readable (area : Section) (owner : Option Intrinsic) : Operand → Prop
  | .scalar s => Scalar.ofNode? s.toNode = some s
  | .list _ => True
  | .map entries => (Entries.keys entries).Nodup ∧
    ∀ key, Entries.keys entries = [key] → area.readsCall owner key = false
  | .call c => area.restriction? c.function owner = none ∧ c.WellFormed ∧
    c ≠ .getAZs (.scalar .null)
  | .pending _ => False

/-- What an operand is written as denotes the operand, wherever in its section, and no mapping in it
has two keys with the same text. -/
structure Writable (area : Section) (owner : Option Intrinsic) (o : Operand) : Prop where
  denotes : ∀ path, o.toNode.Denotes ⟨area, path, owner⟩ o
  texts : o.toNode.textsDiffer = true

variable {area : Section} {owner : Option Intrinsic} {o : Operand}

@[simp] theorem toNode_scalar (s : Scalar) : (scalar s).toNode = s.toNode := by
  simp [toNode]

@[simp] theorem toNode_list (items : List Operand) :
    (list items).toNode = .seq (items.map toNode) := by
  simp [toNode]

/-- A map is written as a mapping with strings as keys. -/
@[simp] theorem toNode_map (entries : List (String × Operand)) :
    (map entries).toNode = .map ((entries.map fun e => (e.1, e.2.toNode)).map fun e =>
      (.string e.1, e.2)) := by
  simp [toNode]

@[simp] theorem toNode_call (c : Call Operand) : (call c).toNode = (c.map toNode).toNode := by
  simp [toNode]

end Operand

/-- Strings are their own texts as keys. -/
theorem keyTexts?_string (es : List (String × Node)) :
    keyTexts? (es.map fun e => (.string e.1, e.2)) = some es := by
  induction es with
  | nil => rfl
  | cons e es ih =>
    rw [List.map_cons, keyTexts?_cons, ih]
    rfl

namespace Operand

variable {area : Section} {owner : Option Intrinsic} {o : Operand}

/-- Only a null is written as null. -/
theorem toNode_ne_null (h : o ≠ .scalar .null) : o.toNode ≠ .null := by
  cases o with
  | scalar s =>
    cases s with
    | null => exact absurd rfl h
    | _ => simp [Scalar.toNode]
  | call c => simp [Call.toNode]
  | _ => simp [toNode]

/-- What a readable operand is written as has the layer of the operand. -/
theorem hasLayer_toNode (h : o.Readable area owner) (path : String) :
    o.toNode.HasLayer ⟨area, path, owner⟩ (o.layer.mapChildren toNode) := by
  cases o with
  | scalar s =>
    rw [toNode_scalar]
    exact .scalar h
  | list items =>
    rw [toNode_list]
    exact .list rfl
  | map entries =>
    rw [toNode_map]
    refine .map rfl (Node.call?_map_eq_none_iff.2 ?_) (keyTexts?_string _)
    rw [Entries.keys_map]
    exact h.2
  | call c =>
    rcases h with ⟨hallowed, hwellFormed, hregion⟩
    -- The function may be called here, so its long name is recognised.
    have hcall : (c.map toNode).toNode.call? ⟨area, path, owner⟩ =
        .ok (some (c.function, (c.map toNode).argumentsNode)) := by
      rw [Call.call?_toNode (by simpa using hallowed), Call.function_map]
    rw [toNode_call]
    -- A substitution is read in a way of its own.
    by_cases hsub : c.function = .sub
    · cases c with
      | sub t bindings =>
        exact .substitution hcall hallowed (Arguments.ofNode_sub _ _) (keyTexts?_string _)
      | _ => cases hsub
    · refine .call hcall hallowed ?_
      rw [← Call.function_map toNode c]
      refine Arguments.ofNode_argumentsNode (Call.wellFormed_map hwellFormed)
        (by simpa using hsub) ?_
      -- Only an operand that is null is written as null.
      cases c with
      | getAZs x =>
        intro hnull
        cases hx : x.toNode <;> simp [Call.map, hx] at hnull
        exact toNode_ne_null (fun hx => hregion (congrArg Call.getAZs hx)) hx
      | _ => simp [Call.map]
  | pending id => cases h

/-- A readable operand is built from its parts. -/
theorem build_layer (h : o.Readable area owner) : (o.layer.refill o.parts).build = o := by
  cases o with
  | scalar s => rfl
  | list items => rfl
  | map entries =>
    -- The keys of a readable map differ, so tidying drops nothing.
    have hzip : (Entries.keys entries).zip (Entries.values entries) = entries := by
      simp [Entries.keys, Entries.values, List.zip_map']
    simp only [layer, parts, Layer.refill, Layer.build, Layer.tidy, Layer.toOperand, hzip,
      Entries.ofList_eq_self h.1]
  | call c =>
    simp only [layer, parts, Layer.refill, Call.refill_operands]
    cases c with
    | sub t bindings =>
      simp only [Layer.build, Layer.tidy, Layer.toOperand, Entries.ofList_eq_self h.2.1]
    | _ => rfl
  | pending id => cases h

end Operand

/-! ## Texts of the keys of written nodes -/

namespace Node

theorem textsDiffer_seq {items : List Node} :
    (seq items).textsDiffer = true ↔ ∀ x ∈ items, x.textsDiffer = true := by
  rw [textsDiffer, Node.everyMapping, everyMappingOfItems_iff]

/-- The texts of keys differ in a mapping of strings if its keys differ, and those in its values. -/
theorem textsDiffer_map {es : List (String × Node)} :
    (map (es.map fun e => (.string e.1, e.2))).textsDiffer = true ↔
      (Entries.keys es).Nodup ∧ ∀ x ∈ Entries.values es, x.textsDiffer = true := by
  have hkeys : keyTexts (es.map fun e => (Node.string e.1, e.2)) = Entries.keys es :=
    (keyTexts?_eq_some (keyTexts?_string es)).1.symm
  rw [textsDiffer, Node.everyMapping, Bool.and_eq_true, decide_eq_true_eq, hkeys,
    everyMappingOfEntries_iff, List.forall_mem_map, Entries.values, List.forall_mem_map]
  refine and_congr_right fun _ => forall₂_congr fun e _ => ?_
  exact and_iff_right rfl

end Node

theorem Scalar.textsDiffer_toNode (s : Scalar) : s.toNode.textsDiffer = true := by
  cases s <;> rfl

/-- The texts of keys differ in a written call where they differ in its operands. -/
theorem Call.textsDiffer_toNode {c : Call Node} (h : c.WellFormed)
    (hoperands : ∀ x ∈ c.operands, x.textsDiffer = true) : c.toNode.textsDiffer = true := by
  have harguments : c.argumentsNode.textsDiffer = true := by
    cases c with
    | ref n | condition n => rfl
    | importValue x | getAZs x | base64 x => exact hoperands x List.mem_cons_self
    -- The variables are the one mapping in the arguments, with the names as its keys.
    | sub t bindings =>
      cases bindings with
      | nil => rfl
      | cons e bindings =>
        refine Node.textsDiffer_seq.2 (List.forall_mem_cons.2 ⟨rfl, ?_⟩)
        exact List.forall_mem_singleton.2 (Node.textsDiffer_map.2 ⟨h, hoperands⟩)
    | getAtt r x | ifElse n x y =>
      exact Node.textsDiffer_seq.2 (List.forall_mem_cons.2 ⟨rfl, hoperands⟩)
    | _ => exact Node.textsDiffer_seq.2 hoperands
  change (Node.map ([(c.function.longName, c.argumentsNode)].map fun e =>
    (.string e.1, e.2))).textsDiffer = true
  refine Node.textsDiffer_map.2 ⟨?_, ?_⟩
  · exact List.nodup_cons.2 ⟨List.not_mem_nil, List.nodup_nil⟩
  · exact List.forall_mem_singleton.2 harguments

/-! ## Writing and reading an operand -/

/-- Only the path of a child depends on the slot. -/
theorem Context.inside_eq (ctx : Context) (owner? : Option Intrinsic) (slot : Slot) :
    ctx.inside owner? slot = ⟨ctx.area, (ctx.inside owner? slot).path, owner?⟩ := by
  cases owner? <;> rfl

namespace Operand

variable {area : Section} {owner : Option Intrinsic} {o : Operand}

/-- A readable operand with writable parts is writable. -/
theorem writable_of_readable (h : o.Readable area owner)
    (hparts : ∀ x ∈ o.parts, x.Writable area o.layer.owner?) : o.Writable area owner := by
  constructor
  · intro path
    refine Node.denotes_iff.2 ⟨o.layer.mapChildren toNode, o.parts,
      Node.layer?_eq_some_iff.2 (hasLayer_toNode h path), ?_, ?_⟩
    · rw [Layer.children_mapChildren, Layer.owner?_mapChildren, children_layer,
        ← map_snd_children, List.forall₂_map_left_iff, List.forall₂_map_right_iff,
        List.forall₂_same]
      -- Parts are writable wherever in the section, so the path that the slot gives does not
      -- matter.
      rintro ⟨slot, x⟩ hx
      rw [Context.inside_eq]
      exact (hparts x (mem_parts_of_mem_children hx)).denotes _
    · rw [Layer.refill_mapChildren, build_layer h]
  · cases o with
    | scalar s =>
      rw [toNode_scalar]
      exact s.textsDiffer_toNode
    | list items =>
      rw [toNode_list, Node.textsDiffer_seq, List.forall_mem_map]
      exact fun x hx => (hparts x hx).texts
    | map entries =>
      rw [toNode_map, Node.textsDiffer_map, Entries.keys_map, Entries.values_map,
        List.forall_mem_map]
      exact ⟨h.1, fun x hx => (hparts x hx).texts⟩
    | call c =>
      rw [toNode_call]
      refine Call.textsDiffer_toNode (Call.wellFormed_map h.2.1) ?_
      rw [Call.operands_map, List.forall_mem_map]
      exact fun x hx => (hparts x hx).texts
    | pending id => cases h

/-- A scalar that is read back is writable. -/
theorem writable_scalar {s : Scalar} (h : Scalar.ofNode? s.toNode = some s) :
    (scalar s).Writable area owner :=
  writable_of_readable h (by rintro _ ⟨⟩)

/-- The operand of a literal call is writable. -/
theorem writable_literal {f : Intrinsic} {args : Node} {c : Call Operand}
    (hallowed : area.restriction? f owner = none)
    (harguments : Arguments.ofNode f args = .ok (.literal c)) : (call c).Writable area owner := by
  rcases Arguments.literal_of_ofNode harguments with ⟨rfl, resource, name, hne, rfl⟩ | ⟨rfl, rfl⟩
  · refine writable_of_readable ⟨hallowed, hne, by simp⟩ ?_
    exact List.forall_mem_singleton.2 (writable_scalar rfl)
  · refine writable_of_readable ⟨hallowed, trivial, by simp [Operand.string]⟩ ?_
    exact List.forall_mem_singleton.2 (writable_scalar rfl)

end Operand

/-- What a scalar that was read is written as is read again. -/
theorem Scalar.ofNode?_toNode_of_ofNode? {node : Node} {s : Scalar} (h : ofNode? node = some s) :
    ofNode? s.toNode = some s := by
  refine ofNode?_toNode fun i hi => ?_
  subst hi
  cases node with
  | int j =>
    simp only [ofNode?, Option.some.injEq] at h
    split at h
    · -- An integer that was read is in range, so it is read as an integer again.
      next hrange =>
      cases h
      exact hrange
    · cases h
  | _ => cases h

namespace Node

variable {ctx : Context} {node : Node} {o : Operand}

/-- Only null denotes a null. -/
theorem eq_null_of_denotes (h : node.Denotes ctx (.scalar .null)) : node = .null := by
  rcases denotes_iff.1 h with ⟨l, ys, hlayer, -, hbuild⟩
  cases layer?_eq_some_iff.1 hlayer with
  | scalar hs =>
    cases hbuild
    cases node with
    | null => rfl
    | int i =>
      simp only [Scalar.ofNode?, Option.some.injEq] at hs
      split at hs <;> cases hs
    | _ => cases hs
  | @call f args c _ _ harguments =>
    rw [Layer.refill, Layer.build_call] at hbuild
    · cases hbuild
    · simpa using Arguments.function_ne_sub_of_ofNode harguments
  | _ => cases hbuild

/-- A call that was read is writable if its operands are. -/
theorem writable_of_call {f : Intrinsic} {args : Node} {c : Call Node} {ys : List Operand}
    (hallowed : ctx.area.restriction? f ctx.owner = none)
    (harguments : Arguments.ofNode f args = .ok (.call c))
    (hchildren : List.Forall₂ (fun e y => e.2.Denotes (ctx.inside (some f) e.1) y) c.children ys)
    (hys : ∀ y ∈ ys, y.Writable ctx.area (some f)) :
    (Operand.call (c.refill ys)).Writable ctx.area ctx.owner := by
  obtain rfl := Arguments.function_of_ofNode harguments
  have hsub := Arguments.function_ne_sub_of_ofNode harguments
  have hoperands : ys.length = c.operands.length := by simpa using hchildren.length_eq.symm
  have hwellFormed := Call.wellFormed_refill (Arguments.wellFormed_of_ofNode harguments) hsub
    hoperands
  refine Operand.writable_of_readable ⟨by simpa using hallowed, hwellFormed, ?_⟩ ?_
  · -- A region that is null would have been written as null, which is not read as a call.
    intro hregion
    cases c with
    | getAZs x =>
      rcases List.length_eq_one_iff.1 hoperands with ⟨y, rfl⟩
      cases hregion
      rcases List.forall₂_cons.1 hchildren with ⟨hx, -⟩
      exact Arguments.ne_null_of_ofNode harguments (eq_null_of_denotes hx)
    | _ => cases hregion
  · rw [Operand.parts, Call.operands_refill hoperands]
    simpa [Layer.owner?, Operand.layer] using hys

/-- A mapping that was read is writable if its values are. -/
theorem writable_of_map {entries : List (Node × Node)} {bs : List (String × Node)}
    {ys : List Operand} (hkeys : (map entries).keysDiffer = true)
    (hcall : (map entries).call? ctx = .ok none) (hbs : keyTexts? entries = some bs)
    (hlength : bs.length = ys.length) (hys : ∀ y ∈ ys, y.Writable ctx.area none) :
    (Operand.map (Entries.ofList ((Entries.keys bs).zip ys))).Writable ctx.area ctx.owner := by
  -- There is a value for each key, so the keys that are tidied are those that were read.
  have hzip : Entries.keys ((Entries.keys bs).zip ys) = Entries.keys bs := by
    refine List.map_fst_zip ?_
    simpa [Entries.keys] using Nat.le_of_eq hlength
  refine Operand.writable_of_readable ⟨Entries.nodup_keys_ofList _, fun key hkey => ?_⟩ ?_
  · rw [Entries.keys_ofList_congr hzip] at hkey
    exact readsCall_of_call?_eq_none hcall hkeys hbs hkey
  · exact fun x hx => hys x (Entries.mem_of_mem_values_ofList_zip hx)

/-- The operand that a node denotes is writable, where no mapping in the node has the same key
twice. -/
theorem writable_of_denotes (hkeys : node.keysDiffer = true) (h : node.Denotes ctx o) :
    o.Writable ctx.area ctx.owner := by
  induction node using Node.induction generalizing ctx o with
  | step node ih =>
    rcases denotes_iff.1 h with ⟨l, ys, hlayer, hchildren, rfl⟩
    have hys : ∀ y ∈ ys, y.Writable ctx.area l.owner? := by
      intro y hy
      rcases exists_mem_of_forall₂ hchildren hy with ⟨⟨slot, x⟩, hx, hxy⟩
      have hwithin := within_of_layer hlayer hx
      have hwritable := ih x hwithin (hwithin.everyMapping hkeys) hxy
      rwa [Context.inside_eq] at hwritable
    -- The children are writable, so what is built from them is if it is readable here.
    cases layer?_eq_some_iff.1 hlayer with
    | literal _ hallowed harguments => exact Operand.writable_literal hallowed harguments
    | call _ hallowed harguments =>
      obtain rfl := Arguments.function_of_ofNode harguments
      rw [Layer.refill, Layer.build_call]
      · exact writable_of_call hallowed harguments hchildren hys
      · simpa using Arguments.function_ne_sub_of_ofNode harguments
    | substitution _ hallowed harguments =>
      obtain rfl := Arguments.eq_sub_of_ofNode harguments
      refine Operand.writable_of_readable ⟨hallowed, Entries.nodup_keys_ofList _, by simp⟩ ?_
      exact fun x hx => hys x (Entries.mem_of_mem_values_ofList_zip hx)
    | list hnode => exact Operand.writable_of_readable trivial hys
    | map hnode hcall hbs =>
      subst hnode
      have hlength := hchildren.length_eq
      exact writable_of_map hkeys hcall hbs (by simpa [Layer.children, Call.keyed] using hlength)
        hys
    | scalar hs => exact Operand.writable_scalar (Scalar.ofNode?_toNode_of_ofNode? hs)

end Node

end StackTemplate
