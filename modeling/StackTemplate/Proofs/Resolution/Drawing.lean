import StackTemplate.Proofs.Resolution.Staging

/-!
# Collections that are staged

Resolving a node while operands are staged records placeholders for collections that lie within the
node. No collection is recorded twice, and none that lies in another one that is recorded: a staged
collection is left as it is, and everything in it is left to the resolution of its placeholder. This
holds whether the resolution succeeds or stops at a fault.

* `Node.everyCollection` : the sequences and mappings in a tree, in document order.
* `Placeholders.Drawn` : placeholders for different ones of some collections, with all that is in
  them.
* `Resolution.Draws` : a resolution that records such placeholders only.
* `Node.draws_resolve` : resolving a node draws from the collections within the node.
-/

namespace StackTemplate

variable {α β ι : Type}

/-! ## The collections in a tree -/

namespace Node

mutual

/-- The sequences and mappings in a tree, in document order; those in keys count as well. -/
def everyCollection : Node → List Node
  | .seq items => .seq items :: everyCollectionOfItems items
  | .map entries => .map entries :: everyCollectionOfEntries entries
  | .tagged _ content => content.everyCollection
  | _ => []

def everyCollectionOfItems : List Node → List Node
  | [] => []
  | item :: items => item.everyCollection ++ everyCollectionOfItems items

def everyCollectionOfEntries : List (Node × Node) → List Node
  | [] => []
  | (key, value) :: entries =>
    key.everyCollection ++ value.everyCollection ++ everyCollectionOfEntries entries

end

/-- The sequences and mappings that lie strictly within a node. -/
def collectionsWithin : Node → List Node
  | .seq items => everyCollectionOfItems items
  | .map entries => everyCollectionOfEntries entries
  | .tagged _ content => content.everyCollection
  | _ => []

mutual

/-- The collections in a tree are as many as are counted. -/
theorem length_everyCollection (node : Node) : node.everyCollection.length = node.collections := by
  cases node with
  | seq items => simp [everyCollection, collections, length_everyCollectionOfItems items]
  | map entries => simp [everyCollection, collections, length_everyCollectionOfEntries entries]
  | tagged name content => simp [everyCollection, collections, length_everyCollection content]
  | _ => simp [everyCollection, collections]

theorem length_everyCollectionOfItems (items : List Node) :
    (everyCollectionOfItems items).length = collectionsOfItems items := by
  match items with
  | [] => simp [everyCollectionOfItems, collectionsOfItems]
  | item :: items =>
    simp [everyCollectionOfItems, collectionsOfItems, length_everyCollection item,
      length_everyCollectionOfItems items]

theorem length_everyCollectionOfEntries (entries : List (Node × Node)) :
    (everyCollectionOfEntries entries).length = collectionsOfEntries entries := by
  match entries with
  | [] => simp [everyCollectionOfEntries, collectionsOfEntries]
  | (key, value) :: entries =>
    simp [everyCollectionOfEntries, collectionsOfEntries, length_everyCollection key,
      length_everyCollection value, length_everyCollectionOfEntries entries, Nat.add_assoc]

end

/-- The collections in a sequence of items are those in each, one after the other. -/
theorem everyCollectionOfItems_eq (items : List Node) :
    everyCollectionOfItems items = items.flatMap everyCollection := by
  induction items with
  | nil => simp [everyCollectionOfItems]
  | cons item items ih => simp [everyCollectionOfItems, ih]

/-- The collections in the values of a mapping are among those in its entries. -/
theorem remains_entries (entries : List (Node × Node)) :
    Remains False ((entries.map Prod.snd).flatMap everyCollection)
      (everyCollectionOfEntries entries) := by
  induction entries with
  | nil => exact .of_sublist (List.nil_sublist _)
  | cons e entries ih =>
    obtain ⟨key, value⟩ := e
    rw [everyCollectionOfEntries, List.map_cons, List.flatMap_cons]
    -- What is in the key is dropped.
    exact (Remains.of_sublist (List.sublist_append_right _ _)).append ih

/-- A collection comes first among the collections in it. -/
theorem everyCollection_eq {node : Node} (h : node.isCollection = true) :
    node.everyCollection = node :: node.collectionsWithin := by
  cases node with
  | seq items => rw [everyCollection, collectionsWithin]
  | map entries => rw [everyCollection, collectionsWithin]
  | _ => simp [isCollection] at h

/-- What lies strictly within a node lies in it. -/
theorem remains_within (node : Node) :
    Remains False node.collectionsWithin node.everyCollection := by
  cases node with
  | seq items =>
    rw [everyCollection, collectionsWithin]
    exact .of_sublist (List.sublist_cons_self _ _)
  | map entries =>
    rw [everyCollection, collectionsWithin]
    exact .of_sublist (List.sublist_cons_self _ _)
  | _ =>
    simp only [everyCollection, collectionsWithin]
    exact .refl _

/-- The collections in the members of a node lie within the node. -/
theorem remains_members (node : Node) :
    Remains False (node.members.flatMap everyCollection) node.collectionsWithin := by
  cases node with
  | seq items =>
    rw [members, collectionsWithin, everyCollectionOfItems_eq]
    exact .refl _
  | map entries =>
    rw [members, collectionsWithin]
    exact remains_entries entries
  | tagged name content =>
    rw [members, collectionsWithin, List.flatMap_singleton]
    exact .refl _
  | _ => exact .of_sublist (List.nil_sublist _)

theorem remains_of_sublist_members {xs : List Node} {node : Node} (h : xs.Sublist node.members) :
    Remains False (xs.flatMap everyCollection) node.collectionsWithin :=
  ((Remains.of_sublist h).flatMap everyCollection).trans node.remains_members

/-- The collections in a member of a node lie within the node. -/
theorem remains_of_mem_members {x node : Node} (h : x ∈ node.members) :
    Remains False x.everyCollection node.collectionsWithin := by
  have hmember := remains_of_sublist_members (List.singleton_sublist.2 h)
  rwa [List.flatMap_singleton] at hmember

end Node

/-! ## Operands of calls -/

namespace Arguments

/-- The operands of a call are the argument node or some of its items, in their order. -/
theorem operands_sublist_of_ofNode {f : Intrinsic} {args : Node} {c : Call Node}
    (h : ofNode f args = .ok (.call c)) :
    c.operands.Sublist [args] ∨ c.operands.Sublist args.members := by
  have hmembers {least most : Nat} {xs : List Node} (hxs : items least most args = .ok xs) :
      args.members = xs := by
    rw [eq_seq_of_items hxs]
    rfl
  cases f <;>
    simp only [ofNode, one, two, three, ofSubstitution, attributePath, bind, Except.bind, pure,
      Except.pure] at h <;>
    grind [Call.operands]

/-- The collections in the operands of a call are among those in its arguments. -/
theorem remains_operands {f : Intrinsic} {args : Node} {c : Call Node}
    (h : ofNode f args = .ok (.call c)) :
    Remains False (c.operands.flatMap Node.everyCollection) args.everyCollection := by
  rcases operands_sublist_of_ofNode h with hself | hitems
  · have hoperands := (Remains.of_sublist hself).flatMap Node.everyCollection
    rwa [List.flatMap_singleton] at hoperands
  · exact (Node.remains_of_sublist_members hitems).trans args.remains_within

/-- The collections in the variables of a substitution are among those in its arguments. -/
theorem remains_variables {args : Node} {template : String} {bindings : List (Node × Node)}
    (h : ofNode .sub args = .ok (.substitution template bindings)) :
    Remains False ((bindings.map Prod.snd).flatMap Node.everyCollection) args.everyCollection := by
  rcases variables_mem_members h with rfl | hmem
  · exact .of_sublist (List.nil_sublist _)
  · -- The variables are the values of a mapping that is an item of the arguments.
    have hvalues := (Node.map bindings).remains_members.trans (Node.map bindings).remains_within
    exact (hvalues.trans (Node.remains_of_mem_members hmem)).trans args.remains_within

end Arguments

/-! ## Placeholders that are drawn -/

namespace Placeholders

/-- Placeholders that were just recorded, for different ones of some collections; what lies in one
of these is the node of no other. -/
structure Drawn (nodes : List Node) (new : Placeholders) : Prop where
  waiting : ∀ p ∈ new, p.resolved = false
  collection : ∀ p ∈ new, p.node.isCollection = true
  apart : Remains False (new.flatMap fun p => p.node.everyCollection) nodes

namespace Drawn

variable {nodes nodes' : List Node} {new new' : Placeholders}

theorem nil (nodes : List Node) : Drawn nodes [] :=
  ⟨by simp, by simp, .of_sublist (List.nil_sublist _)⟩

theorem append (h : Drawn nodes new) (h' : Drawn nodes' new') :
    Drawn (nodes ++ nodes') (new ++ new') := by
  refine ⟨?_, ?_, ?_⟩
  · exact List.forall_mem_append.2 ⟨h.waiting, h'.waiting⟩
  · exact List.forall_mem_append.2 ⟨h.collection, h'.collection⟩
  · rw [List.flatMap_append]
    exact h.apart.append h'.apart

theorem mono (h : Drawn nodes new) (hnodes : Remains False nodes nodes') : Drawn nodes' new :=
  ⟨h.waiting, h.collection, h.apart.trans hnodes⟩

end Drawn

/-- Behind the placeholders of a table, others are recorded that are drawn from some collections. -/
def DrawsFrom (nodes : List Node) (before after : Placeholders) : Prop :=
  ∃ new, after = before ++ new ∧ Drawn nodes new

namespace DrawsFrom

variable {nodes nodes' : List Node} {first second third : Placeholders}

theorem refl (nodes : List Node) (table : Placeholders) : DrawsFrom nodes table table :=
  ⟨[], (List.append_nil table).symm, .nil nodes⟩

theorem append (h : DrawsFrom nodes first second) (h' : DrawsFrom nodes' second third) :
    DrawsFrom (nodes ++ nodes') first third := by
  obtain ⟨new, rfl, hnew⟩ := h
  obtain ⟨new', rfl, hnew'⟩ := h'
  exact ⟨new ++ new', List.append_assoc first new new', hnew.append hnew'⟩

theorem mono (h : DrawsFrom nodes first second) (hnodes : Remains False nodes nodes') :
    DrawsFrom nodes' first second := by
  obtain ⟨new, hsecond, hnew⟩ := h
  exact ⟨new, hsecond, hnew.mono hnodes⟩

end DrawsFrom

end Placeholders

/-! ## Resolutions that draw -/

namespace Resolution

/-- A resolution that draws placeholders from some collections and does nothing else to the table,
whether it succeeds or not. -/
def Draws (nodes : List Node) (x : Resolution Placeholders α) : Prop :=
  ∀ table, Placeholders.DrawsFrom nodes table (x.run table).2

namespace Draws

variable {nodes nodes' : List Node} {x : Resolution Placeholders α}

theorem pure (nodes : List Node) (a : α) : Draws nodes (pure a) := fun table => .refl nodes table

theorem throw (nodes : List Node) (e : Fault) :
    Draws nodes (throw e : Resolution Placeholders α) := fun table => .refl nodes table

theorem mono (h : x.Draws nodes) (hnodes : Remains False nodes nodes') : x.Draws nodes' :=
  fun table => (h table).mono hnodes

/-- A sequence draws from what its parts draw from. -/
theorem bind {f : α → Resolution Placeholders β} (hx : x.Draws nodes)
    (hf : ∀ a, (f a).Draws nodes') : (x >>= f).Draws (nodes ++ nodes') := by
  intro table
  have hfirst := hx table
  rw [run_bind]
  rcases hrun : x.run table with ⟨e | a, after⟩ <;> rw [hrun] at hfirst
  · -- Behind a fault nothing more is recorded.
    exact hfirst.mono (.of_sublist (List.sublist_append_left nodes nodes'))
  · exact hfirst.append (hf a after)

theorem bind_pure {f : α → β} (hx : x.Draws nodes) :
    (x >>= fun a => Pure.pure (f a)).Draws nodes := by
  have hboth := hx.bind fun a => Draws.pure [] (f a)
  rwa [List.append_nil] at hboth

theorem ite {c : Prop} [Decidable c] {y : Resolution Placeholders α} (hx : c → x.Draws nodes)
    (hy : ¬c → y.Draws nodes) : (if c then x else y).Draws nodes := by
  split
  · next h => exact hx h
  · next h => exact hy h

/-- Resolving a list draws from what resolving its members draws from. -/
theorem mapM {nodes : ι → List Node} {f : ι → Resolution Placeholders α} {xs : List ι}
    (h : ∀ x ∈ xs, (f x).Draws (nodes x)) : (xs.mapM f).Draws (xs.flatMap nodes) := by
  induction xs with
  | nil => exact .pure _ []
  | cons x xs ih =>
    rw [List.mapM_cons, List.flatMap_cons]
    have hrest := ih fun y hy => h y (List.mem_cons_of_mem x hy)
    exact (h x List.mem_cons_self).bind fun a => hrest.bind_pure

/-- Folding a list draws from what its steps draw from. -/
theorem foldlM {nodes : ι → List Node} {f : β → ι → Resolution Placeholders β} {xs : List ι}
    (h : ∀ b, ∀ x ∈ xs, (f b x).Draws (nodes x)) (b : β) :
    (xs.foldlM f b).Draws (xs.flatMap nodes) := by
  induction xs generalizing b with
  | nil => exact .pure _ b
  | cons x xs ih =>
    rw [List.foldlM_cons, List.flatMap_cons]
    exact (h b x List.mem_cons_self).bind fun b' =>
      ih (fun b y hy => h b y (List.mem_cons_of_mem x hy)) b'

theorem traverse {nodes : ι → List Node} {c : Call ι}
    {f : Slot → ι → Resolution Placeholders Operand}
    (h : ∀ e ∈ c.children, (f e.1 e.2).Draws (nodes e.2)) :
    (c.traverse fun slot x _ => f slot x).Draws (c.operands.flatMap nodes) := by
  rw [Call.traverse_eq, ← bind_pure_comp, ← Call.map_snd_children, List.flatMap_map]
  exact (mapM h).bind_pure

theorem traverseItems {nodes : ι → List Node} {xs : List ι}
    {f : Nat → (x : ι) → x ∈ xs → Resolution Placeholders β}
    (h : ∀ i x hx, (f i x hx).Draws (nodes x)) (i : Nat) :
    (StackTemplate.traverseItems i xs f).Draws (xs.flatMap nodes) := by
  induction xs generalizing i with
  | nil => exact .pure _ []
  | cons x xs ih =>
    rw [List.flatMap_cons]
    exact (h i x _).bind fun y => (ih (fun j z hz => h j z _) (i + 1)).bind_pure

theorem traverseMapping {nodes : Node → List Node} {ctx : Context} {es : List (Node × Node)}
    {f : String → (x : Node) → x ∈ es.map Prod.snd → Resolution Placeholders β}
    (h : ∀ k x hx, (f k x hx).Draws (nodes x)) :
    (StackTemplate.traverseMapping ctx es f).Draws ((es.map Prod.snd).flatMap nodes) := by
  induction es with
  | nil => exact .pure _ []
  | cons e es ih =>
    obtain ⟨key, x⟩ := e
    unfold StackTemplate.traverseMapping
    split
    · exact .throw _ _
    · next k _ =>
      rw [List.map_cons, List.flatMap_cons]
      exact (h k x _).bind fun y => (ih fun l z hz => h l z _).bind_pure

end Draws

end Resolution

/-! ## Nodes -/

namespace Node

open Resolution (Draws)

/-- Recording a placeholder draws the node itself, with all that is in it. -/
theorem draws_record {node : Node} (hnode : node.dependsOnOwner = true) (ctx : Context)
    (owner : Intrinsic) (slot : Slot) :
    Draws node.everyCollection
      (Placeholder.record (Placeholder.waiting ctx owner slot node)) := by
  intro table
  refine ⟨[Placeholder.waiting ctx owner slot node], rfl, ?_, ?_, ?_⟩
  · simp [Placeholder.waiting]
  · simpa [Placeholder.waiting] using isCollection_of_dependsOnOwner hnode
  · rw [List.flatMap_singleton]
    exact .refl _

/-- An operand that is staged is recorded with all that is in it; any other one is resolved. -/
theorem draws_answer {node : Node} {ctx : Context}
    (h : Draws node.collectionsWithin (node.resolve Placeholder.staging ctx)) (slot : Slot) :
    Draws node.everyCollection (Placeholder.staging.answer ctx slot node) := by
  rcases Placeholder.answer_staging ctx slot node with ⟨owner, -, hdepends, hrecord⟩ | hresolve
  · rw [hrecord]
    exact draws_record hdepends ctx owner slot
  · rw [hresolve]
    exact h.mono node.remains_within

/-- Resolving a node draws from the collections within the node. -/
theorem draws_resolve (node : Node) (ctx : Context) :
    Draws node.collectionsWithin (node.resolve Placeholder.staging ctx) := by
  induction node using Node.induction generalizing ctx with
  | step node ih =>
    -- The cases are those of the resolution: what the node calls, whether it may, with what
    -- arguments.
    rw [resolve]
    split
    · exact .throw _ _
    · next f args hcall =>
      -- Whatever a call resolves is in its argument node, which is a member of the call.
      have hargs := remains_of_mem_members (arguments_mem_members hcall)
      split
      · exact .throw _ _
      · split
        · exact .throw _ _
        · exact .pure _ _
        · next c harguments =>
          have hoperands : ∀ e ∈ c.children, Draws e.2.everyCollection
              (Placeholder.staging.answer ((ctx.within f).child e.1.segment) e.1 e.2) := by
            intro e he
            have hwithin := within_of_mem_operands hcall harguments
              (Layer.mem_operands_of_mem_children he)
            exact draws_answer (ih e.2 hwithin _) e.1
          exact (Draws.traverse hoperands).bind_pure.mono
            ((Arguments.remains_operands harguments).trans hargs)
        · next template bindings harguments =>
          obtain rfl := Arguments.eq_sub_of_ofNode harguments
          have hvariables (k : String) (x : Node) (hx : x ∈ bindings.map Prod.snd) :
              Draws x.everyCollection (Placeholder.staging.answer
                ((ctx.within .sub).child (Slot.key k).segment) (.key k) x) := by
            have hwithin := within_of_mem_variables hcall harguments hx
            exact draws_answer (ih x hwithin _) (.key k)
          exact (Draws.traverseMapping hvariables).bind_pure.mono
            ((Arguments.remains_variables harguments).trans hargs)
    · -- The members of a plain collection are resolved at once, so what is within each counts.
      have hmember (x : Node) (hx : x ∈ node.members) (ctx : Context) :
          Draws x.everyCollection (x.resolve Placeholder.staging ctx) :=
        (ih x (.member hx) ctx).mono x.remains_within
      cases node with
      | seq items =>
        exact (Draws.traverseItems (fun i x hx => hmember x hx _) 0).bind_pure.mono
          (seq items).remains_members
      | map entries =>
        exact (Draws.traverseMapping fun k x hx => hmember x hx _).bind_pure.mono
          (map entries).remains_members
      | _ => exact .pure _ _

end Node

end StackTemplate
