import StackTemplate.Proofs.Elaboration.Origins

/-!
# Written resources and outputs

The operands of a resource or an output that was read from a document can be written in the place
where they were read, and what the entity is written as is read as the entity again.

* `Resource.ofNode_toNode`, `Output.ofNode_toNode` : reading what is written.
* `Resource.writable_of_ofNode`, `Output.writable_of_ofNode` : what is read can be written.
-/

namespace StackTemplate

/-! ## Reading written attributes -/

section

variable {α : Type} {read : α → String × Node → Resolution Unit α} {a : α} {key : String}

/-- An attribute read into an entity, where it is present. -/
def readAttribute (read : α → String × Node → Resolution Unit α) :
    α → String × Option Node → Attempt Unit α :=
  readPresent fun a e => (read a e).attempt

/-- A text is read from the string that it is written as. -/
theorem readAttribute_text {text? : Option String} (result : Option String → α)
    (habsent : result none = a)
    (hread : ∀ text, read a (key, .string text) = pure (result (some text))) :
    readAttribute read a (key, text?.map .string) () = some (result text?, ()) := by
  refine congrFun (readPresent_map (m := Attempt Unit) result habsent fun text _ => ?_) ()
  rw [hread, Resolution.attempt_pure]

/-- An operand is read from what it is written as, if it can be written where it is read. -/
theorem readAttribute_operand (ctx : Context) {write : Operand → Node} {o? : Option Operand}
    (result : Option Operand → α) (habsent : result none = a)
    (h : ∀ o, o? = some o → o.Writable ctx.area ctx.owner)
    (hread : ∀ o, read a (key, write o) =
      o.toNode.resolve Staging.none ctx >>= fun o => pure (result (some o))) :
    readAttribute read a (key, o?.map write) () = some (result o?, ()) := by
  refine congrFun (readPresent_map (m := Attempt Unit) result habsent fun o ho => ?_) ()
  have hdenotes : (o.toNode.resolve Staging.none ctx : Resolution Unit Operand).attempt = pure o :=
    funext fun _ => (h o ho).denotes ctx.path
  rw [hread, Resolution.attempt_bind, hdenotes, pure_bind, Resolution.attempt_pure]

/-- Attributes are read one after the other. -/
theorem foldlM_readAttribute_cons {a b c : α} {e : String × Option Node}
    {es : List (String × Option Node)} (he : readAttribute read a e () = some (b, ()))
    (hes : es.foldlM (readAttribute read) b () = some (c, ())) :
    (e :: es).foldlM (readAttribute read) a () = some (c, ()) :=
  Attempt.bind_eq_some.2 ⟨b, (), he, hes⟩

end

/-- Where no mapping has the same key twice, nodes denote operands that can be written. -/
theorem Node.yields_writable (area : Section) :
    Yields area (fun node => node.keysDiffer = true) (Operand.Writable area none) :=
  ⟨fun hx hy => everyMapping_of_mem_members hy hx, fun hkeys h => writable_of_denotes hkeys h⟩

/-! ## Resources -/

namespace Resource

/-- The operands of a resource can be written where they stand. -/
structure Writable (r : Resource) : Prop where
  properties : ∀ o ∈ r.properties.values, o.Writable .resources none
  metadata : ∀ o, r.metadata = some o → o.Writable .resources none
  creationPolicy : ∀ o, r.creationPolicy = some o → o.Writable .resources none
  updatePolicy : ∀ o, r.updatePolicy = some o → o.Writable .resources none

variable {r : Resource} {name path : String} {node body : Node}

/-- A resource that was read is writable, where no mapping in its body has the same key twice. -/
theorem writable_of_ofNode (hkeys : body.keysDiffer = true)
    (h : (ofNode Staging.none name body).attempt () = some (r, ())) : r.Writable := by
  have hevery := every_of_ofNode (Node.yields_writable .resources) hkeys h
  exact ⟨hevery.properties, hevery.metadata, hevery.creationPolicy, hevery.updatePolicy⟩

/-! ### Reading a written resource -/

/-- The attributes that a resource is written with. -/
def attributes (r : Resource) : List (String × Option Node) :=
  [("Type", some (.string r.type)),
    ("Condition", r.condition.map .string),
    ("DependsOn", listNode? .string r.dependsOn),
    ("Properties", namedNode? Operand.toNode r.properties),
    ("DeletionPolicy", r.deletionPolicy.map .string),
    ("UpdateReplacePolicy", r.updateReplacePolicy.map .string),
    ("Metadata", r.metadata.map Operand.toNode),
    ("CreationPolicy", r.creationPolicy.map Operand.toNode),
    ("UpdatePolicy", r.updatePolicy.map Operand.toNode)]

theorem nodup_keys_attributes (r : Resource) : (Entries.keys r.attributes).Nodup := by
  simp [attributes, Entries.keys]

theorem textsDiffer_toNode (h : r.Writable) : r.toNode.textsDiffer = true := by
  have hoperand {o? : Option Operand} (ho : ∀ o, o? = some o → o.Writable .resources none)
      (node : Node) : o?.map Operand.toNode = some node → node.textsDiffer = true :=
    Node.textsDiffer_of_map fun o hsome => (ho o hsome).texts
  have hproperties (node : Node) :
      namedNode? Operand.toNode r.properties = some node → node.textsDiffer = true :=
    Node.textsDiffer_of_namedNode? fun o ho => (h.properties o ho).texts
  refine Node.textsDiffer_attributesNode r.nodup_keys_attributes ?_
  refine List.forall_mem_cons.2 ⟨fun _ hnode => by cases hnode; rfl, ?_⟩
  refine List.forall_mem_cons.2 ⟨fun _ => Node.textsDiffer_of_text, ?_⟩
  refine List.forall_mem_cons.2 ⟨fun _ => Node.textsDiffer_of_listNode? fun _ _ => rfl, ?_⟩
  refine List.forall_mem_cons.2 ⟨hproperties, ?_⟩
  refine List.forall_mem_cons.2 ⟨fun _ => Node.textsDiffer_of_text, ?_⟩
  refine List.forall_mem_cons.2 ⟨fun _ => Node.textsDiffer_of_text, ?_⟩
  refine List.forall_mem_cons.2 ⟨hoperand h.metadata, ?_⟩
  refine List.forall_mem_cons.2 ⟨hoperand h.creationPolicy, ?_⟩
  exact List.forall_mem_singleton.2 (hoperand h.updatePolicy)

/-- An attribute of a written resource, read when nothing is staged. -/
def readWritten (path : String) (r : Resource) (e : String × Node) : Resolution Unit Resource :=
  r.withAttribute Staging.none path e.1 e.2

/-- The explicit entries are read from what they are written as. -/
theorem readAttribute_dependsOn (hr : r.dependsOn = []) {dependsOn : List String} :
    readAttribute (readWritten path) r ("DependsOn", listNode? .string dependsOn) () =
      some ({ r with dependsOn }, ()) := by
  cases dependsOn with
  | nil => exact congrArg (fun r => some (r, ())) (by rw [← hr])
  -- What is not empty is written as a list of strings.
  | cons n ns =>
    have hitems := Entry.readItems_map Entry.listedName Node.string (path ++ "." ++ "DependsOn") 0
      (n :: ns) fun _ _ _ => rfl
    change (Resolution.ofExcept (Entry.readItems Entry.listedName _ 0 _) >>= fun dependsOn =>
      pure { r with dependsOn }).attempt () = _
    rw [hitems]
    rfl

/-- The properties are read from what they are written as. -/
theorem readAttribute_properties (hr : r.properties = ∅) {properties : Dict Operand}
    (h : ∀ o ∈ properties.values, o.Writable .resources none) :
    readAttribute (readWritten path) r ("Properties", namedNode? Operand.toNode properties) () =
      some ({ r with properties }, ()) := by
  unfold namedNode?
  split
  · -- Properties are not written where there are none, and there were none before.
    next hempty =>
    obtain rfl : properties = ∅ := Dict.ext (List.isEmpty_iff.1 hempty)
    exact congrArg (fun r => some (r, ())) (by rw [← hr])
  · have hattributes : Entry.attributes (path ++ "." ++ "Properties")
        (namedNode Operand.toNode properties.entries) =
          .ok (properties.entries.map fun e => (e.1, e.2.toNode)) := by
      rw [namedNode_eq]
      exact Entry.attributes_string (by rw [Entries.keys_map]; exact properties.nodup_keys)
    -- Each property is read in the place where it was read before.
    have hoperands : (propertiesOfEntries Staging.none
        (.root .resources (path ++ "." ++ "Properties"))
        (properties.entries.map fun e => (e.1, e.2.toNode))).attempt () =
          some (properties.entries, ()) := by
      rw [attempt_propertiesOfEntries, Attempt.mapM_eq_some_iff, List.forall₂_map_left_iff,
        List.forall₂_same]
      intro e he
      have hoperand := h e.2 (List.mem_map.2 ⟨e, he, rfl⟩)
      exact Attempt.map_eq_some.2 ⟨e.2, hoperand.denotes _, rfl⟩
    change (Resolution.ofExcept (Entry.attributes _ _) >>= fun entries =>
      propertiesOfEntries Staging.none _ entries >>= fun properties =>
        pure { r with properties := Dict.ofList properties }).attempt () = _
    rw [hattributes, Resolution.attempt_bind, Resolution.attempt_ofExcept_ok, pure_bind,
      Resolution.attempt_bind]
    refine Attempt.bind_eq_some.2 ⟨_, (), hoperands, ?_⟩
    rw [Dict.ofList_entries]
    rfl

/-- A resource is read from what it is written as. -/
theorem ofNode_toNode (h : r.Writable) :
    (ofNode Staging.none name r.toNode).attempt () = some (r, ()) := by
  have hattributes : Entry.attributes (Section.resources.key ++ "." ++ name) r.toNode =
      .ok (present r.attributes) := by
    change Entry.attributes _ (attributesNode r.attributes) = _
    rw [attributesNode_eq]
    exact Entry.attributes_string
      (r.nodup_keys_attributes.sublist (Entries.keys_present_sublist r.attributes))
  rw [attempt_ofNode]
  refine Attempt.bind_eq_some.2 ⟨_, (), Resolution.attempt_ofExcept_eq_some.2 ⟨hattributes, rfl⟩, ?_⟩
  refine Attempt.bind_eq_some.2 ⟨r.type, (), rfl, ?_⟩
  rw [foldlM_present]
  -- The attributes are read in the order in which they are written.
  generalize Section.resources.key ++ "." ++ name = path
  change r.attributes.foldlM (readAttribute (readWritten path)) (ofType r.type) () = _
  refine foldlM_readAttribute_cons (b := ofType r.type) rfl ?_
  refine foldlM_readAttribute_cons (readAttribute_text
    (fun condition => ⟨r.type, ∅, condition, [], none, none, none, none, none⟩) rfl fun _ => rfl) ?_
  refine foldlM_readAttribute_cons (readAttribute_dependsOn rfl) ?_
  refine foldlM_readAttribute_cons (readAttribute_properties rfl h.properties) ?_
  refine foldlM_readAttribute_cons (readAttribute_text (fun policy =>
    ⟨r.type, r.properties, r.condition, r.dependsOn, policy, none, none, none, none⟩) rfl
      fun _ => rfl) ?_
  refine foldlM_readAttribute_cons (readAttribute_text (fun policy =>
    ⟨r.type, r.properties, r.condition, r.dependsOn, r.deletionPolicy, policy, none, none, none⟩) rfl
      fun _ => rfl) ?_
  refine foldlM_readAttribute_cons (readAttribute_operand
    (.root .resources (path ++ "." ++ "Metadata")) (fun metadata =>
    ⟨r.type, r.properties, r.condition, r.dependsOn, r.deletionPolicy, r.updateReplacePolicy,
      metadata, none, none⟩) rfl h.metadata fun _ => rfl) ?_
  refine foldlM_readAttribute_cons (readAttribute_operand
    (.root .resources (path ++ "." ++ "CreationPolicy")) (fun policy =>
    ⟨r.type, r.properties, r.condition, r.dependsOn, r.deletionPolicy, r.updateReplacePolicy,
      r.metadata, policy, none⟩) rfl h.creationPolicy fun _ => rfl) ?_
  refine foldlM_readAttribute_cons (readAttribute_operand
    (.root .resources (path ++ "." ++ "UpdatePolicy")) (fun policy =>
    ⟨r.type, r.properties, r.condition, r.dependsOn, r.deletionPolicy, r.updateReplacePolicy,
      r.metadata, r.creationPolicy, policy⟩) rfl h.updatePolicy fun _ => rfl) ?_
  rfl

end Resource

/-! ## Outputs -/

namespace Output

/-- The operands of an output can be written where they stand. -/
structure Writable (out : Output) : Prop where
  value : out.value.Writable .outputs none
  exportName : ∀ o, out.exportName = some o → o.Writable .outputs none

variable {out : Output} {name path : String} {node body : Node}

/-- An output that was read is writable, where no mapping in its body has the same key twice. -/
theorem writable_of_ofNode (hkeys : body.keysDiffer = true)
    (h : (ofNode Staging.none name body).attempt () = some (out, ())) : out.Writable := by
  have hevery := every_of_ofNode (Node.yields_writable .outputs) hkeys h
  exact ⟨hevery.value, hevery.exportName⟩

/-! ### Reading a written output -/

def exportNode (o : Operand) : Node := attributesNode [("Name", some o.toNode)]

/-- The attributes that an output is written with. -/
def attributes (out : Output) : List (String × Option Node) :=
  [("Description", out.description.map .string),
    ("Condition", out.condition.map .string),
    ("Value", some out.value.toNode),
    ("Export", out.exportName.map exportNode)]

theorem nodup_keys_attributes (out : Output) : (Entries.keys out.attributes).Nodup := by
  simp [attributes, Entries.keys]

theorem textsDiffer_toNode (h : out.Writable) : out.toNode.textsDiffer = true := by
  have hexport : ∀ o, out.exportName = some o → (exportNode o).textsDiffer = true := by
    intro o ho
    refine Node.textsDiffer_attributesNode (by simp [Entries.keys]) ?_
    refine List.forall_mem_singleton.2 fun _ hnode => ?_
    cases hnode
    exact (h.exportName o ho).texts
  refine Node.textsDiffer_attributesNode out.nodup_keys_attributes ?_
  refine List.forall_mem_cons.2 ⟨fun _ => Node.textsDiffer_of_text, ?_⟩
  refine List.forall_mem_cons.2 ⟨fun _ => Node.textsDiffer_of_text, ?_⟩
  refine List.forall_mem_cons.2 ⟨fun _ hnode => by cases hnode; exact h.value.texts, ?_⟩
  exact List.forall_mem_singleton.2 fun _ => Node.textsDiffer_of_map hexport

/-- An attribute of a written output, read when nothing is staged. -/
def readWritten (path : String) (out : Output) (e : String × Node) : Resolution Unit Output :=
  out.withAttribute Staging.none path e.1 e.2

/-- An output is read from what it is written as. -/
theorem ofNode_toNode (h : out.Writable) :
    (ofNode Staging.none name out.toNode).attempt () = some (out, ()) := by
  have hnodup := out.nodup_keys_attributes.sublist (Entries.keys_present_sublist out.attributes)
  have hattributes : Entry.attributes (Section.outputs.key ++ "." ++ name) out.toNode =
      .ok (present out.attributes) := by
    change Entry.attributes _ (attributesNode out.attributes) = _
    rw [attributesNode_eq]
    exact Entry.attributes_string hnodup
  -- The value is looked up among the attributes before these are read.
  have hfind : Entries.find? (present out.attributes) "Value" = some out.value.toNode :=
    Entries.find?_eq_some_of_mem hnodup (mem_present.2 (by simp [attributes]))
  have hvalue : Entry.required (Section.outputs.key ++ "." ++ name) "Value"
      (present out.attributes) = .ok out.value.toNode := by
    rw [Entry.required, hfind]
  rw [attempt_ofNode]
  refine Attempt.bind_eq_some.2 ⟨_, (), Resolution.attempt_ofExcept_eq_some.2 ⟨hattributes, rfl⟩, ?_⟩
  refine Attempt.bind_eq_some.2 ⟨_, (), Resolution.attempt_ofExcept_eq_some.2 ⟨hvalue, rfl⟩, ?_⟩
  refine Attempt.bind_eq_some.2 ⟨out.value, (), h.value.denotes _, ?_⟩
  rw [foldlM_present]
  generalize Section.outputs.key ++ "." ++ name = path
  change out.attributes.foldlM (readAttribute (readWritten path)) (ofValue out.value) () = _
  -- The attributes are read in the order in which they are written.
  refine foldlM_readAttribute_cons (readAttribute_text
    (fun description => ⟨out.value, description, none, none⟩) rfl fun _ => rfl) ?_
  refine foldlM_readAttribute_cons (readAttribute_text
    (fun condition => ⟨out.value, out.description, none, condition⟩) rfl fun _ => rfl) ?_
  refine foldlM_readAttribute_cons
    (b := ⟨out.value, out.description, none, out.condition⟩) rfl ?_
  refine foldlM_readAttribute_cons (readAttribute_operand
    (.root .outputs (path ++ "." ++ "Export" ++ ".Name"))
    (fun exportName => ⟨out.value, out.description, exportName, out.condition⟩) rfl h.exportName
      fun _ => rfl) ?_
  rfl

end Output

end StackTemplate
