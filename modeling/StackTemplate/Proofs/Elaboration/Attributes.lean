import StackTemplate.Proofs.Elaboration.Attempt
import StackTemplate.Proofs.Elaboration.Literal

/-!
# Written attributes

Entities and sections are written as mappings with string keys, of which the absent ones are left
out. Such a mapping has the written entries as its attributes, and reading the present attributes one
after the other skips the absent ones.

* `present` : the attributes of a mapping that are not left out.
* `Entry.attributes_string` : the attributes of a mapping with string keys.
* `foldlM_present`, `readPresent_map` : reading written attributes, of which some are left out.
-/

namespace StackTemplate

variable {α β γ : Type}

/-! ## Mappings with string keys -/

/-- The attributes that are not left out. -/
def present (attributes : List (String × Option Node)) : List (String × Node) :=
  attributes.filterMap fun e => e.2.map fun node => (e.1, node)

theorem attributesNode_eq (attributes : List (String × Option Node)) :
    attributesNode attributes = .map ((present attributes).map fun e => (.string e.1, e.2)) := by
  unfold attributesNode present
  rw [List.map_filterMap]
  refine congrArg (fun f => Node.map (attributes.filterMap f)) (funext fun e => ?_)
  rcases e with ⟨key, node⟩
  cases node <;> rfl

theorem namedNode_eq (write : α → Node) (entries : List (String × α)) :
    namedNode write entries =
      .map ((entries.map fun e => (e.1, write e.2)).map fun e => (.string e.1, e.2)) := by
  simp [namedNode]

theorem present_cons (key : String) (node : Option Node)
    (attributes : List (String × Option Node)) :
    present ((key, node) :: attributes) =
      (node.toList.map fun n => (key, n)) ++ present attributes := by
  cases node <;> rfl

theorem mem_present {attributes : List (String × Option Node)} {key : String} {node : Node} :
    (key, node) ∈ present attributes ↔ (key, some node) ∈ attributes := by
  simp [present]

namespace Entries

/-- Leaving out attributes keeps the order of their names. -/
theorem keys_present_sublist (attributes : List (String × Option Node)) :
    (keys (present attributes)).Sublist (keys attributes) := by
  induction attributes with
  | nil => exact .slnil
  | cons e attributes ih =>
    rcases e with ⟨key, node⟩
    rw [present_cons]
    cases node with
    | none => exact ih.cons key
    | some node => exact ih.cons_cons key

end Entries

section

variable {P : Node → Prop} {write : γ → Node} {node : Node}

/-- What an optional field is written as has a property if what is present has it. -/
theorem of_map_eq_some {x? : Option γ} (h : ∀ x, x? = some x → P (write x))
    (hnode : x?.map write = some node) : P node := by
  rcases Option.map_eq_some_iff.1 hnode with ⟨x, hx, rfl⟩
  exact h x hx

/-- A list that is written where it is not empty has the properties of a list. -/
theorem of_listNode?_eq_some {xs : List γ} (h : P (.seq (xs.map write)))
    (hnode : listNode? write xs = some node) : P node := by
  unfold listNode? at hnode
  split at hnode <;> cases hnode
  exact h

end

/-- A mapping with different string keys has its entries as attributes. -/
theorem Entry.attributes_string {path : String} {es : List (String × Node)}
    (h : (Entries.keys es).Nodup) :
    Entry.attributes path (.map (es.map fun e => (.string e.1, e.2))) = .ok es := by
  rw [attributes_map, keyTexts?_string]
  exact congrArg Except.ok (Entries.ofList_eq_self h)

namespace Node

variable {area : Section}

/-- Attributes with different names have different texts if their values do. -/
theorem textsDiffer_attributesNode {attributes : List (String × Option Node)}
    (hkeys : (Entries.keys attributes).Nodup)
    (h : ∀ e ∈ attributes, ∀ node, e.2 = some node → node.textsDiffer = true) :
    (attributesNode attributes).textsDiffer = true := by
  rw [attributesNode_eq, textsDiffer_map]
  refine ⟨hkeys.sublist (Entries.keys_present_sublist attributes), fun x hx => ?_⟩
  -- A value that is present is the value of one of the attributes.
  rcases List.mem_map.1 hx with ⟨e, he, rfl⟩
  exact h _ (mem_present.1 he) e.2 rfl

theorem textsDiffer_namedNode {write : α → Node} {entries : List (String × α)}
    (hkeys : (Entries.keys entries).Nodup)
    (h : ∀ x ∈ Entries.values entries, (write x).textsDiffer = true) :
    (namedNode write entries).textsDiffer = true := by
  rw [namedNode_eq, textsDiffer_map, Entries.keys_map, Entries.values_map, List.forall_mem_map]
  exact ⟨hkeys, h⟩

/-! ### Optional attributes -/

theorem textsDiffer_of_map {write : α → Node} {x? : Option α} {node : Node}
    (h : ∀ x, x? = some x → (write x).textsDiffer = true) (hnode : x?.map write = some node) :
    node.textsDiffer = true :=
  of_map_eq_some (P := fun node => node.textsDiffer = true) h hnode

/-- A text has no keys at all. -/
theorem textsDiffer_of_text {text? : Option String} {node : Node}
    (hnode : text?.map string = some node) : node.textsDiffer = true :=
  textsDiffer_of_map (fun _ _ => rfl) hnode

theorem textsDiffer_of_listNode? {write : α → Node} {xs : List α} {node : Node}
    (h : ∀ x ∈ xs, (write x).textsDiffer = true) (hnode : listNode? write xs = some node) :
    node.textsDiffer = true := by
  refine of_listNode?_eq_some (P := fun node => node.textsDiffer = true) ?_ hnode
  rwa [textsDiffer_seq, List.forall_mem_map]

theorem textsDiffer_of_namedNode? {write : α → Node} {d : Dict α} {node : Node}
    (h : ∀ x ∈ d.values, (write x).textsDiffer = true) (hnode : namedNode? write d = some node) :
    node.textsDiffer = true := by
  unfold namedNode? at hnode
  split at hnode <;> cases hnode
  exact textsDiffer_namedNode d.nodup_keys h

/-! ### Literal attributes -/

/-- A mapping with string keys is literal where it is no call and its values are literal. -/
theorem literal_map {es : List (String × Node)}
    (hcall : ∀ key, Entries.keys es = [key] → area.readsCall none key = false)
    (h : ∀ x ∈ Entries.values es, x.Literal area) :
    (map (es.map fun e => (.string e.1, e.2))).Literal area := by
  -- With more than one key a mapping is no call.
  refine .map (fun path => call?_map_eq_none_iff.2 hcall) (keyTexts?_string es) fun x hx => h x ?_
  simpa [Entries.values] using hx

/-- Entries are literal where they are no call together and their values are literal. -/
theorem literal_namedNode {write : α → Node} {entries : List (String × α)}
    (hcall : ∀ key, Entries.keys entries = [key] → area.readsCall none key = false)
    (h : ∀ x ∈ Entries.values entries, (write x).Literal area) :
    (namedNode write entries).Literal area := by
  rw [namedNode_eq]
  refine literal_map ?_ ?_
  · rwa [Entries.keys_map]
  · rwa [Entries.values_map, List.forall_mem_map]

end Node

/-! ## Reading attributes one after the other -/

section

variable {m : Type → Type} [Monad m]

/-- An attribute read into a value, where it is present. -/
def readPresent (f : β → String × Node → m β) (b : β) (e : String × Option Node) : m β :=
  match e.2 with
  | none => pure b
  | some node => f b (e.1, node)

/-- Reading the present attributes skips those that are left out. -/
theorem foldlM_present [LawfulMonad m] (f : β → String × Node → m β)
    (attributes : List (String × Option Node)) (b : β) :
    (present attributes).foldlM f b = attributes.foldlM (readPresent f) b := by
  induction attributes generalizing b with
  | nil => rfl
  | cons e attributes ih =>
    rcases e with ⟨key, node⟩
    rw [present_cons, List.foldlM_cons]
    cases node with
    -- The step for an absent attribute returns what it was given.
    | none => simpa [readPresent] using ih b
    | some node => simp [readPresent, ih]

/-- Reading a field that was written where it is present puts the field in its place. -/
theorem readPresent_map {f : β → String × Node → m β} {b : β} {key : String} {x? : Option γ}
    {write : γ → Node} (result : Option γ → β) (habsent : result none = b)
    (hpresent : ∀ x, x? = some x → f b (key, write x) = pure (result (some x))) :
    readPresent f b (key, x?.map write) = pure (result x?) := by
  cases x? with
  | none => exact congrArg pure habsent.symm
  | some x => exact hpresent x rfl

end

/-- Two steps succeed if the first one does and the second one does with its result. -/
theorem bind_eq_ok {ε : Type} {x : Except ε α} {f : α → Except ε β} {b : β} :
    (x >>= f) = .ok b ↔ ∃ a, x = .ok a ∧ f a = .ok b := by
  cases x with
  | error e =>
    constructor
    · rintro ⟨⟩
    · rintro ⟨_, ⟨⟩, _⟩
  | ok a =>
    constructor
    · exact fun h => ⟨a, rfl, h⟩
    · rintro ⟨_, ⟨⟩, h⟩
      exact h

/-- What every step of a fold preserves holds at its end. -/
theorem of_foldlM_eq_ok {ε : Type} {f : β → α → Except ε β} {P : β → Prop} {xs : List α} {b r : β}
    (h : xs.foldlM f b = .ok r) (hb : P b)
    (hstep : ∀ x ∈ xs, ∀ b b', P b → f b x = .ok b' → P b') : P r := by
  induction xs generalizing b with
  | nil =>
    cases h
    exact hb
  | cons x xs ih =>
    rw [List.foldlM_cons] at h
    rcases bind_eq_ok.1 h with ⟨b', hb', h⟩
    exact ih h (hstep x List.mem_cons_self b b' hb hb')
      fun y hy => hstep y (List.mem_cons_of_mem x hy)

/-- The same for steps with a state. -/
theorem Attempt.of_foldlM_eq_some {σ : Type} {f : β → α → Attempt σ β} {P : β → Prop}
    {xs : List α} {b r : β} {st st' : σ} (h : xs.foldlM f b st = some (r, st')) (hb : P b)
    (hstep : ∀ x ∈ xs, ∀ b b' st st', P b → f b x st = some (b', st') → P b') : P r := by
  induction xs generalizing b st with
  | nil =>
    cases h
    exact hb
  | cons x xs ih =>
    rw [List.foldlM_cons] at h
    rcases Attempt.bind_eq_some.1 h with ⟨b', st₁, hb', h⟩
    exact ih h (hstep x List.mem_cons_self b b' _ _ hb hb')
      fun y hy => hstep y (List.mem_cons_of_mem x hy)

/-! ## Lists of items -/

namespace Entry

/-- Items that are read from what they are written as. -/
theorem readItems_map (read : String → Node → Except Fault α) (write : α → Node) (path : String)
    (i : Nat) (xs : List α) (h : ∀ x ∈ xs, ∀ path, read path (write x) = .ok x) :
    readItems read path i (xs.map write) = .ok xs := by
  induction xs generalizing i with
  | nil => rfl
  | cons x xs ih =>
    -- The paths of the items differ, and none of them is in what is read.
    rw [List.map_cons, readItems, h x List.mem_cons_self,
      ih (i + 1) fun y hy => h y (List.mem_cons_of_mem x hy)]
    rfl

/-- Each item has been read from some node. -/
theorem exists_of_mem_readItems {read : String → Node → Except Fault α} {path : String} {i : Nat}
    {items : List Node} {xs : List α} (h : readItems read path i items = .ok xs) {x : α}
    (hx : x ∈ xs) : ∃ path node, read path node = .ok x := by
  induction items generalizing i xs with
  | nil =>
    cases h
    cases hx
  | cons item items ih =>
    rw [readItems] at h
    cases hitem : read (path ++ (Slot.index i).segment) item with
    | error e =>
      rw [hitem] at h
      cases h
    | ok y =>
      cases hrest : readItems read path (i + 1) items with
      | error e =>
        rw [hitem, hrest] at h
        cases h
      -- The item is the first one or among those read behind it.
      | ok ys =>
        rw [hitem, hrest] at h
        cases h
        rcases List.mem_cons.1 hx with rfl | hx
        · exact ⟨_, item, hitem⟩
        · exact ih hrest hx

end Entry

end StackTemplate
