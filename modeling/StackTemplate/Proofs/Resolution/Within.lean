import StackTemplate.Proofs.Resolution.Attempt

/-!
# Nodes within nodes

The children of the layer of a node lie strictly within the node. They are smaller, no deeper, and
less deep if the node is a collection; where no mapping in the node has two keys with the same text,
neither has one in its children.

* `Node.Within` : a node lies strictly within another.
* `Node.induction` : induction along the nodes within a node.
* `Node.textsDiffer`, `Node.keysDiffer` : no mapping in a node has two keys with the same text, or
  the same key twice.
* `Node.within_of_layer` : the children of a layer lie within its node.
-/

namespace StackTemplate

namespace Node

/-- The nodes directly inside a node, apart from mapping keys. -/
def members : Node → List Node
  | .seq items => items
  | .map entries => entries.map Prod.snd
  | .tagged _ content => [content]
  | _ => []

/-- The first node lies strictly within the second one. -/
inductive Within : Node → Node → Prop where
  | member {x y : Node} : x ∈ y.members → Within x y
  | inside {x y z : Node} : x ∈ y.members → Within y z → Within x z

def isCollection : Node → Bool
  | .seq _ | .map _ => true
  | _ => false

/-- Only collections can depend on the call whose operand they are. -/
theorem isCollection_of_dependsOnOwner {node : Node} (h : node.dependsOnOwner = true) :
    node.isCollection = true := by
  cases node with
  | seq items => rfl
  | map entries => rfl
  | _ => simp [dependsOnOwner] at h

/-! ## Sizes and depths -/

/-- Members are smaller than the node. -/
theorem sizeOf_lt_of_mem_members {x y : Node} (h : x ∈ y.members) : sizeOf x < sizeOf y := by
  cases y with
  | seq items =>
    have := List.sizeOf_lt_of_mem (show x ∈ items from h)
    simp only [Node.seq.sizeOf_spec]
    omega
  | map entries =>
    have := sizeOf_lt_of_mem_values (show x ∈ entries.map Prod.snd from h)
    simp only [Node.map.sizeOf_spec]
    omega
  | tagged name content =>
    obtain rfl := List.mem_singleton.1 h
    simp only [Node.tagged.sizeOf_spec]
    omega
  | _ => cases h

theorem depth_le_depthOfItems {x : Node} {items : List Node} (h : x ∈ items) :
    x.depth ≤ depthOfItems items := by
  induction items with
  | nil => cases h
  | cons item items ih =>
    rw [depthOfItems]
    rcases List.mem_cons.1 h with rfl | h
    · exact Nat.le_max_left _ _
    · exact Nat.le_trans (ih h) (Nat.le_max_right _ _)

theorem depth_le_depthOfEntries {x : Node} {entries : List (Node × Node)}
    (h : x ∈ entries.map Prod.snd) : x.depth ≤ depthOfEntries entries := by
  induction entries with
  | nil => cases h
  | cons e entries ih =>
    obtain ⟨key, value⟩ := e
    rw [depthOfEntries]
    rcases List.mem_cons.1 h with rfl | h
    · exact Nat.le_trans (Nat.le_max_right _ _) (Nat.le_max_left _ _)
    · exact Nat.le_trans (ih h) (Nat.le_max_right _ _)

/-- Members are no deeper than the node. -/
theorem depth_le_of_mem_members {x y : Node} (h : x ∈ y.members) : x.depth ≤ y.depth := by
  cases y with
  | seq items =>
    rw [depth]
    exact Nat.le_succ_of_le (depth_le_depthOfItems h)
  | map entries =>
    rw [depth]
    exact Nat.le_succ_of_le (depth_le_depthOfEntries h)
  -- A tag adds nothing to the depth of its content.
  | tagged name content =>
    obtain rfl := List.mem_singleton.1 h
    exact Nat.le_of_eq (by rw [depth])
  | _ => cases h

/-- Members of a collection are less deep than the collection. -/
theorem depth_lt_of_mem_members {x y : Node} (hy : y.isCollection = true) (h : x ∈ y.members) :
    x.depth < y.depth := by
  cases y with
  | seq items =>
    rw [depth]
    exact Nat.lt_succ_of_le (depth_le_depthOfItems h)
  | map entries =>
    rw [depth]
    exact Nat.lt_succ_of_le (depth_le_depthOfEntries h)
  | _ => simp [isCollection] at hy

theorem Within.sizeOf_lt {x y : Node} (h : Within x y) : sizeOf x < sizeOf y := by
  induction h with
  | member hx => exact sizeOf_lt_of_mem_members hx
  | inside hx _ ih => exact Nat.lt_trans (sizeOf_lt_of_mem_members hx) ih

/-- What lies within a collection is less deep. -/
theorem Within.depth_lt {x y : Node} (h : Within x y) (hy : y.isCollection = true) :
    x.depth < y.depth := by
  induction h with
  | member hx => exact depth_lt_of_mem_members hy hx
  | inside hx _ ih => exact Nat.lt_of_le_of_lt (depth_le_of_mem_members hx) (ih hy)

theorem Within.trans {x y z : Node} (h : Within x y) (h' : Within y z) : Within x z := by
  induction h with
  | member hx => exact .inside hx h'
  | inside hx _ ih => exact .inside hx (ih h')

/-- A statement that holds of a node whenever it holds of all that lies within it holds of every
node. -/
theorem induction {P : Node → Prop} (step : ∀ node : Node, (∀ x, Within x node → P x) → P node)
    (node : Node) : P node :=
  step node fun x h =>
    have := h.sizeOf_lt
    induction step x
termination_by sizeOf node

/-! ## Texts of keys -/

/-- The texts of the keys of a mapping; a key that is no scalar or null has none. -/
def keyTexts (entries : List (Node × Node)) : List String :=
  entries.filterMap fun e => Scalar.keyText? e.1

mutual

/-- Whether a test holds of the entries of every mapping in a node. -/
def everyMapping (test : List (Node × Node) → Bool) : Node → Bool
  | .seq items => everyMappingOfItems test items
  | .map entries => test entries && everyMappingOfEntries test entries
  | .tagged _ content => content.everyMapping test
  | _ => true

def everyMappingOfItems (test : List (Node × Node) → Bool) : List Node → Bool
  | [] => true
  | item :: items => item.everyMapping test && everyMappingOfItems test items

def everyMappingOfEntries (test : List (Node × Node) → Bool) : List (Node × Node) → Bool
  | [] => true
  | (key, value) :: entries =>
    key.everyMapping test && value.everyMapping test && everyMappingOfEntries test entries

end

/-- Whether no mapping in a node has two keys with the same text. -/
def textsDiffer : Node → Bool := everyMapping fun entries => decide (keyTexts entries).Nodup

/-- Whether no mapping in a node has the same key twice; a mapping that is read with a repeated key
is refused. -/
def keysDiffer : Node → Bool :=
  everyMapping fun entries => decide (entries.Pairwise fun e f => e.1.same f.1 = false)

section

variable {test : List (Node × Node) → Bool} {x y : Node}

/-- A test of every mapping holds of a sequence if it holds of its items. -/
theorem everyMappingOfItems_iff {items : List Node} :
    everyMappingOfItems test items = true ↔ ∀ x ∈ items, x.everyMapping test = true := by
  induction items with
  | nil => simp [everyMappingOfItems]
  | cons item items ih => simp [everyMappingOfItems, ih]

/-- A test of every mapping holds of entries if it holds of their keys and values. -/
theorem everyMappingOfEntries_iff {entries : List (Node × Node)} :
    everyMappingOfEntries test entries = true ↔
      ∀ e ∈ entries, e.1.everyMapping test = true ∧ e.2.everyMapping test = true := by
  induction entries with
  | nil => simp [everyMappingOfEntries]
  | cons e entries ih =>
    rcases e with ⟨key, value⟩
    simp [everyMappingOfEntries, ih]

/-- A test of every mapping holds of the members of a node as well. -/
theorem everyMapping_of_mem_members (h : y.everyMapping test = true) (hx : x ∈ y.members) :
    x.everyMapping test = true := by
  cases y with
  | seq items =>
    rw [everyMapping] at h
    exact everyMappingOfItems_iff.1 h x hx
  | map entries =>
    rw [everyMapping, Bool.and_eq_true] at h
    rcases List.mem_map.1 hx with ⟨e, he, rfl⟩
    exact (everyMappingOfEntries_iff.1 h.2 e he).2
  | tagged name content =>
    obtain rfl := List.mem_singleton.1 hx
    rwa [everyMapping] at h
  | _ => cases hx

/-- A test of every mapping holds of what lies within a node as well. -/
theorem Within.everyMapping (h : Within x y) (hy : y.everyMapping test = true) :
    x.everyMapping test = true := by
  induction h with
  | member hx => exact everyMapping_of_mem_members hy hx
  | inside hx _ ih => exact everyMapping_of_mem_members (ih hy) hx

theorem Within.textsDiffer (h : Within x y) (hy : y.textsDiffer = true) : x.textsDiffer = true :=
  h.everyMapping hy

theorem nodup_keyTexts {entries : List (Node × Node)} (h : (map entries).textsDiffer = true) :
    (keyTexts entries).Nodup := by
  rw [Node.textsDiffer, Node.everyMapping, Bool.and_eq_true] at h
  exact of_decide_eq_true h.1

theorem pairwise_of_keysDiffer {entries : List (Node × Node)}
    (h : (map entries).keysDiffer = true) :
    entries.Pairwise fun e f => e.1.same f.1 = false := by
  rw [keysDiffer, Node.everyMapping, Bool.and_eq_true] at h
  exact of_decide_eq_true h.1

end

/-! ## Children of layers -/

/-- The arguments of a call are a member of its node. -/
theorem arguments_mem_members {ctx : Context} {node args : Node} {f : Intrinsic}
    (h : node.call? ctx = .ok (some (f, args))) : args ∈ node.members := by
  unfold call? at h
  split at h
  · split at h <;> cases h
    exact List.mem_singleton_self _
  · repeat' split at h
    all_goals cases h
    exact List.mem_singleton_self _
  · cases h

end Node

/-- Where all keys have texts, these are the keys, and the values are those of the mapping. -/
theorem keyTexts?_eq_some {es : List (Node × Node)} {bs : List (String × Node)}
    (h : keyTexts? es = some bs) :
    Entries.keys bs = Node.keyTexts es ∧ Entries.values bs = es.map Prod.snd := by
  induction es generalizing bs with
  | nil =>
    cases h
    exact ⟨rfl, rfl⟩
  | cons e es ih =>
    obtain ⟨key, x⟩ := e
    cases hkey : Scalar.keyText? key with
    | none => simp [keyTexts?, hkey] at h
    | some k =>
      cases hrest : keyTexts? es with
      | none =>
        unfold keyTexts? at h hrest
        simp [hkey, hrest] at h
      | some bs' =>
        obtain ⟨hkeys, hvalues⟩ := ih hrest
        unfold keyTexts? at h hrest
        simp only [List.mapM_cons, hkey, Option.map_some, hrest] at h
        cases h
        constructor
        · simp [Node.keyTexts, hkey, Entries.keys_cons, hkeys]
        · simpa [Entries.values] using hvalues

namespace Arguments

/-- An operand of a call is its argument or an item of it. -/
theorem mem_members_of_ofNode {f : Intrinsic} {args x : Node} {c : Call Node}
    (h : ofNode f args = .ok (.call c)) (hx : x ∈ c.operands) : x = args ∨ x ∈ args.members := by
  rcases operand_of_ofNode h hx with rfl | ⟨xs, rfl, hmem⟩
  · exact .inl rfl
  · exact .inr hmem

/-- The variables of a substitution are the mapping behind its text. -/
theorem variables_mem_members {args : Node} {template : String} {bindings : List (Node × Node)}
    (h : ofNode .sub args = .ok (.substitution template bindings)) :
    bindings = [] ∨ Node.map bindings ∈ args.members := by
  rcases mem_of_substitution h with rfl | ⟨y, ys, rfl⟩
  · exact .inl rfl
  · exact .inr (List.mem_cons_of_mem y List.mem_cons_self)

end Arguments

namespace Layer

variable {α : Type}

/-- The keys of a layer in which one key could replace another. -/
def keys : Layer α → List String
  | .map entries => Entries.keys entries
  | .call (.sub _ bindings) => Entries.keys bindings
  | _ => []

theorem mem_operands_of_mem_children {c : Call α} {slot : Slot} {x : α}
    (h : (slot, x) ∈ (Layer.call c).children) : x ∈ c.operands := by
  rw [← Call.map_snd_children]
  exact List.mem_map.2 ⟨(slot, x), h, rfl⟩

end Layer

namespace Node

/-- The operands of a call lie within the node that is the call. -/
theorem within_of_mem_operands {ctx : Context} {node args x : Node} {f : Intrinsic} {c : Call Node}
    (hcall : node.call? ctx = .ok (some (f, args))) (h : Arguments.ofNode f args = .ok (.call c))
    (hx : x ∈ c.operands) : Within x node := by
  have hargs := arguments_mem_members hcall
  -- The arguments are the only operand, or a sequence of operands.
  rcases Arguments.mem_members_of_ofNode h hx with rfl | hmem
  · exact .member hargs
  · exact .inside hmem (.member hargs)

/-- The variables of a substitution lie within the node that is the call. -/
theorem within_of_mem_variables {ctx : Context} {node args x : Node} {template : String}
    {bindings : List (Node × Node)} (hcall : node.call? ctx = .ok (some (.sub, args)))
    (h : Arguments.ofNode .sub args = .ok (.substitution template bindings))
    (hx : x ∈ bindings.map Prod.snd) : Within x node := by
  have hargs := arguments_mem_members hcall
  rcases Arguments.variables_mem_members h with rfl | hmem
  · cases hx
  · exact .inside (y := .map bindings) hx (.inside hmem (.member hargs))

/-- The children of the layer of a node lie within the node. -/
theorem within_of_layer {ctx : Context} {node x : Node} {l : Layer Node} {slot : Slot}
    (h : node.layer? ctx = some l) (hx : (slot, x) ∈ l.children) : Within x node := by
  cases layer?_eq_some_iff.1 h with
  | literal hcall _ harguments => cases hx
  | call hcall _ harguments =>
    exact within_of_mem_operands hcall harguments (Layer.mem_operands_of_mem_children hx)
  -- The variables have texts for keys in the layer, but the values are those of the mapping.
  | @substitution f args template bindings bs hcall _ harguments hbs =>
    obtain rfl := Arguments.eq_sub_of_ofNode harguments
    refine within_of_mem_variables hcall harguments ?_
    rw [← (keyTexts?_eq_some hbs).2]
    exact Layer.mem_operands_of_mem_children hx
  | list hnode =>
    subst hnode
    rw [Layer.children, Call.indexed] at hx
    rcases List.mem_map.1 hx with ⟨⟨y, i⟩, hy, heq⟩
    cases heq
    exact .member (List.fst_mem_of_mem_zipIdx hy)
  | map hnode _ hbs =>
    subst hnode
    rcases List.mem_map.1 hx with ⟨e, he, heq⟩
    cases heq
    refine .member ?_
    rw [members, ← (keyTexts?_eq_some hbs).2]
    exact List.mem_map.2 ⟨e, he, rfl⟩
  | scalar hs => cases hx

/-- In a node whose mappings have different keys, no child of its layer replaces another. -/
theorem nodup_keys_of_layer {ctx : Context} {node : Node} {l : Layer Node}
    (h : node.layer? ctx = some l) (hnode : node.textsDiffer = true) : l.keys.Nodup := by
  cases layer?_eq_some_iff.1 h with
  -- An ordinary call has no keys.
  | @call f args c _ _ harguments =>
    have hne := Arguments.function_ne_sub_of_ofNode harguments
    cases c with
    | sub t bindings => exact absurd rfl hne
    | _ => exact List.nodup_nil
  | @substitution f args template bindings bs hcall _ harguments hbs =>
    obtain rfl := Arguments.eq_sub_of_ofNode harguments
    rw [Layer.keys, (keyTexts?_eq_some hbs).1]
    rcases Arguments.variables_mem_members harguments with rfl | hmem
    · exact List.nodup_nil
    · have hwithin : Within (.map bindings) node := .inside hmem (.member (arguments_mem_members hcall))
      exact nodup_keyTexts (hwithin.textsDiffer hnode)
  | map hmap _ hbs =>
    subst hmap
    rw [Layer.keys, (keyTexts?_eq_some hbs).1]
    exact nodup_keyTexts hnode
  | _ => exact List.nodup_nil

end Node

end StackTemplate
