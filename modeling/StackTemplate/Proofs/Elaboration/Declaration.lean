import StackTemplate.Proofs.Elaboration.Genuine
import StackTemplate.Proofs.Elaboration.Staging
import StackTemplate.Proofs.Template.Related

/-!
# Staged declarations

Reading a resource or an output while operands are staged records the placeholders that its operands
hold, and mirrors reading it directly. No attribute is read twice, so no operand replaces another.

* `Resource.leaves_ofNode`, `Output.leaves_ofNode` : what is recorded for the operands.
* `Resource.mirrors_ofNode`, `Output.mirrors_ofNode` : staged and direct reading side by side.
-/

namespace StackTemplate

variable {kept : Prop} {table : Placeholders}

/-- A staged operand that stands for a direct one. -/
abbrev Operand.Expands (table : Placeholders) (staged direct : Operand) : Prop :=
  staged.expand table = some direct

/-- What is added under a name that had nothing is added to the whole. -/
theorem perm_flatMap_of_other {α ι : Type} [DecidableEq ι] {f g : ι → List α} {n : ι}
    (hfree : f n = []) (hother : ∀ m, m ≠ n → g m = f m) {ns : List ι} (hnodup : ns.Nodup)
    (habsent : n ∉ ns → g n = []) : (ns.flatMap g).Perm (ns.flatMap f ++ g n) := by
  induction ns with
  | nil =>
    rw [habsent (by simp)]
    exact .nil
  | cons m ns ih =>
    obtain ⟨hm, hrest⟩ := List.nodup_cons.1 hnodup
    rw [List.flatMap_cons, List.flatMap_cons]
    by_cases hmn : m = n
    · -- This is the name, and it does not occur again.
      subst hmn
      have hsame : ns.flatMap g = ns.flatMap f := by
        refine List.flatMap_congr fun k hk => hother k ?_
        rintro rfl
        exact hm hk
      rw [hfree, List.nil_append, hsame]
      exact List.perm_append_comm
    · rw [hother m hmn, List.append_assoc]
      refine (ih hrest fun hn => habsent ?_).append_left _
      simp [Ne.symm hmn, hn]

namespace Resource

/-! ## Resources -/

/-- The attributes of a resource that hold operands, in the order of its operands. -/
def operandAttributes : List String := ["Properties", "Metadata", "CreationPolicy", "UpdatePolicy"]

/-- The operands under an attribute of a resource. -/
def under (r : Resource) (name : String) : List Operand :=
  if name = "Properties" then r.properties.values
  else if name = "Metadata" then r.metadata.toList
  else if name = "CreationPolicy" then r.creationPolicy.toList
  else if name = "UpdatePolicy" then r.updatePolicy.toList
  else []

theorem operands_eq (r : Resource) :
    r.operands.map Prod.snd = operandAttributes.flatMap r.under := by
  simp [operands, operandAttributes, under, Dict.values, Entries.values, Function.comp_def]

/-- Only four attributes hold operands. -/
theorem under_of_not_mem {name : String} (h : name ∉ operandAttributes) (r : Resource) :
    r.under name = [] := by
  simp only [operandAttributes, List.mem_cons, List.not_mem_nil, or_false, not_or] at h
  simp [under, h]

theorem under_ofType (type name : String) : (ofType type).under name = [] := by
  unfold under
  split_ifs <;> rfl

/-- Operands under an attribute that had none are added to those of the resource. -/
theorem perm_operands {r r' : Resource} {name : String} (hfree : r.under name = [])
    (hother : ∀ other, other ≠ name → r'.under other = r.under other) :
    (r'.operands.map Prod.snd).Perm (r.operands.map Prod.snd ++ r'.under name) := by
  rw [operands_eq, operands_eq]
  exact perm_flatMap_of_other hfree hother (by decide) fun hname => under_of_not_mem hname r'

/-- Properties are resolved one after the other. -/
theorem attempt_propertiesOfEntries {σ : Type} (staging : Staging σ) (ctx : Context)
    (es : List (String × Node)) :
    (propertiesOfEntries staging ctx es).attempt = es.mapM fun e =>
      (fun o => (e.1, o)) <$> (e.2.resolve staging (ctx.plain (Slot.key e.1).segment)).attempt := by
  induction es with
  | nil => rfl
  | cons e es ih =>
    obtain ⟨name, node⟩ := e
    rw [propertiesOfEntries, Resolution.attempt_bind, List.mapM_cons, bind_map_left]
    simp only [Resolution.attempt_bind, Resolution.attempt_pure, ih]

/-- One more attribute of a resource, read up to the first fault. -/
theorem attempt_withAttribute {σ : Type} (staging : Staging σ) (path : String) (r : Resource)
    (name : String) (node : Node) :
    (r.withAttribute staging path name node).attempt =
      if name = "Type" then pure r
      else if name = "Properties" then
        if node.isNull then pure r
        else do
          let entries ← (Resolution.ofExcept (Entry.attributes (path ++ "." ++ name) node)).attempt
          let properties ← (propertiesOfEntries staging
            (.root .resources (path ++ "." ++ name)) entries).attempt
          return { r with properties := Dict.ofList properties }
      else if name = "Condition" then do
        let condition ← (Resolution.ofExcept (Entry.text (path ++ "." ++ name) node)).attempt
        return { r with condition := some condition }
      else if name = "DependsOn" then do
        let dependsOn ← (Resolution.ofExcept (Entry.names (path ++ "." ++ name) node)).attempt
        return { r with dependsOn }
      else if name = "DeletionPolicy" then do
        let policy ← (Resolution.ofExcept (Entry.text (path ++ "." ++ name) node)).attempt
        return { r with deletionPolicy := some policy }
      else if name = "UpdateReplacePolicy" then do
        let policy ← (Resolution.ofExcept (Entry.text (path ++ "." ++ name) node)).attempt
        return { r with updateReplacePolicy := some policy }
      else if name = "Metadata" then do
        let metadata ← (node.resolve staging (.root .resources (path ++ "." ++ name))).attempt
        return { r with metadata := some metadata }
      else if name = "CreationPolicy" then do
        let policy ← (node.resolve staging (.root .resources (path ++ "." ++ name))).attempt
        return { r with creationPolicy := some policy }
      else if name = "UpdatePolicy" then do
        let policy ← (node.resolve staging (.root .resources (path ++ "." ++ name))).attempt
        return { r with updatePolicy := some policy }
      else failure := by
  simp only [withAttribute, Resolution.attempt_ite, Resolution.attempt_bind,
    Resolution.attempt_pure, Resolution.attempt_throw]

/-- Resolving properties one by one records what they hold. -/
theorem leaves_properties {es : List (String × Node)}
    (hkept : kept → ∀ e ∈ es, e.2.textsDiffer = true) (ctx : Context) :
    Leaves (Placeholder.Recorded kept) (fun later ids xs => Entries.keys xs = Entries.keys es ∧
        Operand.Gathered kept later ids (Entries.values xs))
      (propertiesOfEntries Placeholder.staging ctx es).attempt := by
  rw [attempt_propertiesOfEntries]
  have hentries : ∀ e ∈ es, Leaves (Placeholder.Recorded kept)
      (fun later ids x => x.1 = e.1 ∧ Operand.Gathered kept later ids [x.2])
      ((fun o => (e.1, o)) <$>
        (e.2.resolve Placeholder.staging (ctx.plain (Slot.key e.1).segment)).attempt) :=
    fun e he =>
      (Node.leaves_operand (fun hk => hkept hk e he) _).map fun later ids o ho => ⟨rfl, ho⟩
  refine (Leaves.mapM hentries).mono (fun _ hp => hp) fun later ids xs hlinks => ?_
  -- Each property is one operand of those that are gathered.
  obtain ⟨hkeys, hgathered⟩ := hlinks.gathered fun o => [o]
  rw [← List.map_eq_flatMap] at hgathered
  exact ⟨hkeys, hgathered⟩

/-- Reading an attribute records what the operands under it hold. -/
theorem leaves_withAttribute {path name : String} {node : Node}
    (hkept : kept → node.textsDiffer = true) {r : Resource} (hfree : r.under name = []) :
    Leaves (Placeholder.Recorded kept) (fun later ids s =>
        Operand.Gathered kept later ids (s.under name) ∧
          ∀ other, other ≠ name → s.under other = r.under other)
      (r.withAttribute Placeholder.staging path name node).attempt := by
  -- An attribute without operands.
  have hliteral {s : Resource} (hunder : s.under = r.under) (later : Placeholders) :
      Operand.Gathered kept later [] (s.under name) ∧
        ∀ other, other ≠ name → s.under other = r.under other := by
    rw [hunder, hfree]
    exact ⟨.nil, fun _ _ => rfl⟩
  rw [attempt_withAttribute]
  split_ifs with htype hproperties hnull hcondition hdependsOn hdeletion hreplace hmetadata
    hcreation hupdate
  · exact .pure (hliteral rfl)
  · exact .pure (hliteral rfl)
  · subst hproperties
    refine Resolution.leaves_ofExcept fun entries hentries => ?_
    have hentriesKept : kept → ∀ e ∈ entries, e.2.textsDiffer = true := fun hk e he =>
      Node.everyMapping_of_mem_members (hkept hk) (Entry.mem_members_of_attributes hentries he)
    rw [bind_pure_comp]
    refine (leaves_properties hentriesKept _).map fun later ids xs hxs => ?_
    -- Properties with one name would replace each other; the names of attributes differ.
    have hnodup : (Entries.keys xs).Nodup := hxs.1 ▸ Entry.nodup_keys_attributes hentries
    refine ⟨?_, fun other hne => by simp [under, hne]⟩
    simpa [under, Dict.values, Dict.ofList, Entries.ofList_eq_self hnodup] using hxs.2
  · exact Resolution.leaves_ofExcept fun condition _ => .pure (hliteral rfl)
  · exact Resolution.leaves_ofExcept fun names _ => .pure (hliteral rfl)
  · exact Resolution.leaves_ofExcept fun policy _ => .pure (hliteral rfl)
  · exact Resolution.leaves_ofExcept fun policy _ => .pure (hliteral rfl)
  · subst hmetadata
    rw [bind_pure_comp]
    exact (Node.leaves_operand hkept _).map fun later ids o ho =>
      ⟨by simpa [under] using ho, fun other hne => by simp [under, hne]⟩
  · subst hcreation
    rw [bind_pure_comp]
    exact (Node.leaves_operand hkept _).map fun later ids o ho =>
      ⟨by simpa [under] using ho, fun other hne => by simp [under, hne]⟩
  · subst hupdate
    rw [bind_pure_comp]
    exact (Node.leaves_operand hkept _).map fun later ids o ho =>
      ⟨by simpa [under] using ho, fun other hne => by simp [under, hne]⟩
  · exact .failure

/-- The body of a resource, read attribute by attribute. -/
theorem attempt_ofNode {σ : Type} (staging : Staging σ) (name : String) (body : Node) :
    (ofNode staging name body).attempt = (do
      let path := Section.resources.key ++ "." ++ name
      let attributes ← (Resolution.ofExcept (Entry.attributes path body)).attempt
      let type ← (Resolution.ofExcept (Entry.required path "Type" attributes >>=
        Entry.text (path ++ ".Type"))).attempt
      attributes.foldlM (fun r e => (r.withAttribute staging path e.1 e.2).attempt)
        (ofType type)) := by
  unfold ofNode
  simp only [Resolution.attempt_bind, Resolution.attempt_foldlM]

/-- Reading a resource records what its operands hold. -/
theorem leaves_ofNode {name : String} {body : Node} (hkept : kept → body.textsDiffer = true) :
    Leaves (Placeholder.Recorded kept)
      (fun later ids r => Operand.Gathered kept later ids (r.operands.map Prod.snd))
      (ofNode Placeholder.staging name body).attempt := by
  rw [attempt_ofNode]
  refine Resolution.leaves_ofExcept fun attributes hattributes => ?_
  refine Resolution.leaves_ofExcept fun type _ => ?_
  have hattributesKept : kept → ∀ e ∈ attributes, e.2.textsDiffer = true := fun hk e he =>
    Node.everyMapping_of_mem_members (hkept hk) (Entry.mem_members_of_attributes hattributes he)
  have hempty (later : Placeholders) :
      Operand.Gathered kept later [] ((ofType type).operands.map Prod.snd) := .nil
  refine (Leaves.foldlM (V := fun later ids (r : Resource) =>
      Operand.Gathered kept later ids (r.operands.map Prod.snd)) (fun r name => r.under name = [])
    (Entry.nodup_keys_attributes hattributes) (fun e he r hfree => ?_)
    fun e _ => under_ofType type e.1).mono (fun _ hp => hp)
    fun later ids r hr => hr [] (hempty later)
  refine (leaves_withAttribute (fun hk => hattributesKept hk e he) hfree).mono (fun _ hp => hp)
    fun later ids s hs => ⟨fun prior hr => ?_, fun other hne hother => ?_⟩
  · -- The operands of the attribute may come between the others, so the order changes.
    exact (hr.append hs.1).of_remains (.of_perm (perm_operands hfree hs.2))
  · -- An attribute that is still to come is as empty as it was before.
    rw [hs.2 other hne, hother]

/-- Properties that are resolved one by one are related. -/
theorem mirrors_properties (ctx : Context) (es : List (String × Node)) (table : Placeholders) :
    Mirrors table (fun later => List.Forall₂ (Entries.Related (Operand.Expands later)))
      (propertiesOfEntries Placeholder.staging ctx es).attempt
      (propertiesOfEntries Staging.none ctx es).attempt := by
  rw [attempt_propertiesOfEntries, attempt_propertiesOfEntries]
  -- Each property leaves the table larger than it found it, so earlier relations stay.
  have hgrows : ∀ e ∈ es, Grows ((fun o => (e.1, o)) <$>
      (e.2.resolve Placeholder.staging (ctx.plain (Slot.key e.1).segment)).attempt) :=
    fun e _ => (e.2.genuine_resolve _).grows.map _
  have hentries : ∀ e ∈ es, ∀ table, Mirrors table
      (fun later => Entries.Related (Operand.Expands later))
      ((fun o => (e.1, o)) <$>
        (e.2.resolve Placeholder.staging (ctx.plain (Slot.key e.1).segment)).attempt)
      ((fun o => (e.1, o)) <$>
        (e.2.resolve Staging.none (ctx.plain (Slot.key e.1).segment)).attempt) :=
    fun e _ table => (Node.mirrors_resolve e.2 _ table).map fun later o b hob => ⟨rfl, hob⟩
  exact (Mirrors.mapM hgrows hentries table).mono fun later xs ys hxs => hxs.2

/-- Reading an attribute while operands are staged mirrors reading it directly. -/
theorem mirrors_withAttribute {path name : String} {node : Node} {r r' : Resource}
    (h : ∀ later : Placeholders, later.Extends table → Related (Operand.Expands later) r r') :
    Mirrors table (fun later => Related (Operand.Expands later))
      (r.withAttribute Placeholder.staging path name node).attempt
      (r'.withAttribute Staging.none path name node).attempt := by
  rw [attempt_withAttribute, attempt_withAttribute]
  split_ifs
  · exact .pure h
  · exact .pure h
  · refine Resolution.mirrors_ofExcept fun entries _ => ?_
    refine (mirrors_properties _ entries table).bind (fun _ => Grows.pure _)
      fun xs ys table' hxs hextends => .pure fun later hlater => ?_
    exact { h later (hlater.trans hextends) with
      properties := Entries.forall₂_ofList (hxs later hlater) }
  · exact Resolution.mirrors_ofExcept fun condition _ => .pure fun later hlater =>
      { h later hlater with condition := rfl }
  · exact Resolution.mirrors_ofExcept fun names _ => .pure fun later hlater =>
      { h later hlater with dependsOn := rfl }
  · exact Resolution.mirrors_ofExcept fun policy _ => .pure fun later hlater =>
      { h later hlater with deletionPolicy := rfl }
  · exact Resolution.mirrors_ofExcept fun policy _ => .pure fun later hlater =>
      { h later hlater with updateReplacePolicy := rfl }
  · exact (Node.mirrors_resolve node _ table).bind (fun _ => Grows.pure _)
      fun o b table' hob hextends => .pure fun later hlater =>
        { h later (hlater.trans hextends) with metadata := .some (hob later hlater) }
  · exact (Node.mirrors_resolve node _ table).bind (fun _ => Grows.pure _)
      fun o b table' hob hextends => .pure fun later hlater =>
        { h later (hlater.trans hextends) with creationPolicy := .some (hob later hlater) }
  · exact (Node.mirrors_resolve node _ table).bind (fun _ => Grows.pure _)
      fun o b table' hob hextends => .pure fun later hlater =>
        { h later (hlater.trans hextends) with updatePolicy := .some (hob later hlater) }
  · exact .failure

/-- Reading a resource while operands are staged mirrors reading it directly. -/
theorem mirrors_ofNode (name : String) (body : Node) (table : Placeholders) :
    Mirrors table (fun later => Related (Operand.Expands later))
      (ofNode Placeholder.staging name body).attempt (ofNode Staging.none name body).attempt := by
  rw [attempt_ofNode, attempt_ofNode]
  refine Resolution.mirrors_ofExcept fun attributes _ => ?_
  refine Resolution.mirrors_ofExcept fun type _ => ?_
  -- Both readings begin with the type and nothing else.
  have hempty (later : Placeholders) :
      Related (Operand.Expands later) (ofType type) (ofType type) :=
    ⟨rfl, .nil, rfl, rfl, rfl, rfl, .none, .none, .none⟩
  exact Mirrors.foldlM (fun r (e : String × Node) _ => (genuine_withAttribute _ r e.1 e.2).grows)
    (fun e _ table r r' h => mirrors_withAttribute h) fun later _ => hempty later

end Resource

namespace Output

/-! ## Outputs -/

/-- The node of an exported name is the one under its key. -/
theorem required_mem_members {path field : String} {node x : Node}
    (h : (Entry.attributes path node >>= Entry.required path field) = .ok x) :
    x ∈ node.members := by
  cases hattributes : Entry.attributes path node with
  | error e =>
    rw [hattributes] at h
    cases h
  | ok attributes =>
    rw [hattributes] at h
    have hmem := Entries.mem_of_find?_eq_some (Entry.find?_of_required h)
    exact Entry.mem_members_of_attributes hattributes hmem

/-- One more attribute of an output, read up to the first fault. -/
theorem attempt_withAttribute {σ : Type} (staging : Staging σ) (path : String) (out : Output)
    (name : String) (node : Node) :
    (out.withAttribute staging path name node).attempt =
      if name = "Value" then pure out
      else if name = "Description" then do
        let description ← (Resolution.ofExcept (Entry.text (path ++ "." ++ name) node)).attempt
        return { out with description := some description }
      else if name = "Condition" then do
        let condition ← (Resolution.ofExcept (Entry.text (path ++ "." ++ name) node)).attempt
        return { out with condition := some condition }
      else if name = "Export" then do
        let exportNode ← (Resolution.ofExcept (Entry.attributes (path ++ "." ++ name) node >>=
          Entry.required (path ++ "." ++ name) "Name")).attempt
        let exportName ← (exportNode.resolve staging
          (.root .outputs (path ++ "." ++ name ++ ".Name"))).attempt
        return { out with exportName := some exportName }
      else failure := by
  simp only [withAttribute, Resolution.attempt_ite, Resolution.attempt_bind,
    Resolution.attempt_pure, Resolution.attempt_throw]

/-- Reading an attribute records what the operand under it holds. -/
theorem leaves_withAttribute {path name : String} {node : Node}
    (hkept : kept → node.textsDiffer = true) {out : Output}
    (hfree : name = "Export" → out.exportName = none) :
    Leaves (Placeholder.Recorded kept) (fun later ids s =>
        (∀ prior, Operand.Gathered kept later prior (out.operands.map Prod.snd) →
            Operand.Gathered kept later (prior ++ ids) (s.operands.map Prod.snd)) ∧
          ∀ other, other ≠ name → (other = "Export" → out.exportName = none) →
            other = "Export" → s.exportName = none)
      (out.withAttribute Placeholder.staging path name node).attempt := by
  -- An attribute without operands.
  have hliteral {s : Output} (hoperands : s.operands = out.operands)
      (hname : s.exportName = out.exportName) (later : Placeholders) :
      (∀ prior, Operand.Gathered kept later prior (out.operands.map Prod.snd) →
          Operand.Gathered kept later (prior ++ []) (s.operands.map Prod.snd)) ∧
        ∀ other, other ≠ name → (other = "Export" → out.exportName = none) →
          other = "Export" → s.exportName = none := by
    refine ⟨fun prior hprior => ?_, fun other _ hother => hname ▸ hother⟩
    rwa [List.append_nil, hoperands]
  rw [attempt_withAttribute]
  split_ifs with hvalue hdescription hcondition hexport
  · exact .pure (hliteral rfl rfl)
  · exact Resolution.leaves_ofExcept fun text _ => .pure (hliteral rfl rfl)
  · exact Resolution.leaves_ofExcept fun text _ => .pure (hliteral rfl rfl)
  · subst hexport
    refine Resolution.leaves_ofExcept fun exportNode hnode => ?_
    -- The name of an export is the member of a member of the body.
    have hexportKept (hk : kept) : exportNode.textsDiffer = true :=
      Node.everyMapping_of_mem_members (hkept hk) (required_mem_members hnode)
    rw [bind_pure_comp]
    refine (Node.leaves_operand hexportKept _).map fun later ids o ho =>
      ⟨fun prior hprior => ?_, fun other hne _ hother => absurd hother hne⟩
    simpa [operands, hfree rfl] using hprior.append ho
  · exact .failure

/-- The body of an output, read attribute by attribute. -/
theorem attempt_ofNode {σ : Type} (staging : Staging σ) (name : String) (body : Node) :
    (ofNode staging name body).attempt = (do
      let path := Section.outputs.key ++ "." ++ name
      let attributes ← (Resolution.ofExcept (Entry.attributes path body)).attempt
      let valueNode ← (Resolution.ofExcept (Entry.required path "Value" attributes)).attempt
      let value ← (valueNode.resolve staging (.root .outputs (path ++ ".Value"))).attempt
      attributes.foldlM (fun out e => (out.withAttribute staging path e.1 e.2).attempt)
        (ofValue value)) := by
  unfold ofNode
  simp only [Resolution.attempt_bind, Resolution.attempt_foldlM]

/-- Reading an output records what its operands hold. -/
theorem leaves_ofNode {name : String} {body : Node} (hkept : kept → body.textsDiffer = true) :
    Leaves (Placeholder.Recorded kept)
      (fun later ids out => Operand.Gathered kept later ids (out.operands.map Prod.snd))
      (ofNode Placeholder.staging name body).attempt := by
  rw [attempt_ofNode]
  refine Resolution.leaves_ofExcept fun attributes hattributes => ?_
  refine Resolution.leaves_ofExcept fun valueNode hvalueNode => ?_
  have hattributesKept : kept → ∀ e ∈ attributes, e.2.textsDiffer = true := fun hk e he =>
    Node.everyMapping_of_mem_members (hkept hk) (Entry.mem_members_of_attributes hattributes he)
  -- The value is one of the attributes, though it is resolved before them.
  have hvalueKept (hk : kept) : valueNode.textsDiffer = true :=
    hattributesKept hk _ (Entries.mem_of_find?_eq_some (Entry.find?_of_required hvalueNode))
  refine (Node.leaves_operand hvalueKept _).bind fun o => ?_
  exact (Leaves.foldlM (V := fun later ids (out : Output) =>
      Operand.Gathered kept later ids (out.operands.map Prod.snd))
    (fun out name => name = "Export" → out.exportName = none)
    (Entry.nodup_keys_attributes hattributes)
    (fun e he out hfree => leaves_withAttribute (fun hk => hattributesKept hk e he) hfree)
    fun _ _ _ => rfl).mono (fun _ hp => hp) fun later ids out hout prior ho => hout prior ho

/-- Reading an attribute while operands are staged mirrors reading it directly. -/
theorem mirrors_withAttribute {path name : String} {node : Node} {out out' : Output}
    (h : ∀ later : Placeholders, later.Extends table → Related (Operand.Expands later) out out') :
    Mirrors table (fun later => Related (Operand.Expands later))
      (out.withAttribute Placeholder.staging path name node).attempt
      (out'.withAttribute Staging.none path name node).attempt := by
  rw [attempt_withAttribute, attempt_withAttribute]
  split_ifs
  · exact .pure h
  · exact Resolution.mirrors_ofExcept fun text _ => .pure fun later hlater =>
      { h later hlater with description := rfl }
  · exact Resolution.mirrors_ofExcept fun text _ => .pure fun later hlater =>
      { h later hlater with condition := rfl }
  · refine Resolution.mirrors_ofExcept fun exportNode _ => ?_
    exact (Node.mirrors_resolve exportNode _ table).bind (fun _ => Grows.pure _)
      fun o b table' hob hextends => .pure fun later hlater =>
        { h later (hlater.trans hextends) with exportName := .some (hob later hlater) }
  · exact .failure

/-- Reading an output while operands are staged mirrors reading it directly. -/
theorem mirrors_ofNode (name : String) (body : Node) (table : Placeholders) :
    Mirrors table (fun later => Related (Operand.Expands later))
      (ofNode Placeholder.staging name body).attempt (ofNode Staging.none name body).attempt := by
  rw [attempt_ofNode, attempt_ofNode]
  refine Resolution.mirrors_ofExcept fun attributes _ => ?_
  refine Resolution.mirrors_ofExcept fun valueNode _ => ?_
  refine (Node.mirrors_resolve valueNode _ table).bind
    (fun o => Grows.foldlM fun out e _ => (genuine_withAttribute _ out e.1 e.2).grows)
    fun o b table' hob _ => ?_
  have hvalue : ∀ later : Placeholders, later.Extends table' →
      Related (Operand.Expands later) (ofValue o) (ofValue b) :=
    fun later hlater => ⟨hob later hlater, rfl, .none, rfl⟩
  exact Mirrors.foldlM
    (fun out (e : String × Node) _ => (genuine_withAttribute _ out e.1 e.2).grows)
    (fun e _ table out out' h => mirrors_withAttribute h) hvalue

end Output

end StackTemplate
