import StackTemplate.Proofs.Elaboration.Attempt
import StackTemplate.Proofs.Resolution.Congruence

/-!
# Genuine faults of elaboration

Elaboration reports what is wrong with the entries of a document. No such fault is one of the
bookkeeping of placeholders, each lies inside of the entry that is wrong, and whatever is wrong, the
placeholders that were there are left alone.

* `Parameter.failsIn_ofNode`, `Mapping.failsIn_ofNode` : the faults of literal entities.
* `Resource.ofNode_congr`, `Output.ofNode_congr` : a congruence relates reading an entity with
  operands to itself; so their faults are genuine.
* `Fault.OfLayout` : the faults of a document that are about none of its sections.
* `Template.faults_of_elaborate` : the faults of a document that is elaborated.
-/

namespace StackTemplate

variable {α : Type}

open Resolution (Genuine ReportsIn)

/-! ## Checks within resolutions -/

namespace Resolution.Congruence

variable (C : Resolution.Congruence)

/-- A check is related to itself if it fails on the paths of the congruence only. -/
theorem rel_ofExcept {x : Except Fault α} (h : Except.FailsIn C.paths x) :
    C.rel (Resolution.ofExcept x) (Resolution.ofExcept x) := by
  cases x with
  | error e => exact C.fail e (h e rfl)
  | ok a => exact C.ret a a

/-- After a check only its own value is to be considered. -/
theorem rel_check {β : Type} {x : Except Fault α} (h : Except.FailsIn C.paths x)
    {f g : α → Resolution Placeholders β} (hf : ∀ a, C.rel (f a) (g a)) :
    C.rel (Resolution.ofExcept x >>= f) (Resolution.ofExcept x >>= g) := by
  cases x with
  | error e => exact C.fail e (h e rfl)
  | ok a => exact hf a

end Resolution.Congruence

theorem Resolution.ReportsIn.ofExcept {P : Paths} {x : Except Fault α} (h : Except.FailsIn P x) :
    ReportsIn P (Resolution.ofExcept x : Resolution Placeholders α) :=
  (Congruence.reporting P).rel_ofExcept h

namespace Resolution.Genuine

theorem ofExcept {x : Except Fault α} (h : Except.Genuine x) :
    Genuine (Resolution.ofExcept x : Resolution Placeholders α) :=
  (ReportsIn.ofExcept (.of_genuine h)).genuine

/-- What succeeds only records placeholders. -/
theorem grows {x : Resolution Placeholders α} (h : Genuine x) : Grows x.attempt := by
  intro table a after ha
  -- Growth is part of what is said about every run, also about one that fails.
  have hearlier := (h table).1
  rwa [Resolution.attempt_eq_some.1 ha] at hearlier

end Resolution.Genuine

/-! ## Entries -/

section Checks

variable {P : Paths} {path : String} (hpath : P.holds path)

include hpath

namespace Entry

theorem failsIn_malformed (fault : EntryFault) :
    Except.FailsIn P (malformed path fault : Except Fault α) := .error (.of_label rfl rfl hpath)

/-- A body that is no mapping, or has a key without a text, is reported where it stands. -/
theorem failsIn_attributes (node : Node) : Except.FailsIn P (Entry.attributes path node) := by
  cases node with
  | map entries =>
    rw [attributes_map]
    split
    · exact .ok _
    · exact failsIn_malformed hpath _
  | _ => exact failsIn_malformed hpath _

theorem failsIn_text (node : Node) : Except.FailsIn P (text path node) := by
  unfold text
  split
  · exact .ok _
  · exact failsIn_malformed hpath _

theorem failsIn_scalar (node : Node) : Except.FailsIn P (scalar path node) := by
  unfold scalar
  split
  · exact .ok _
  · exact failsIn_malformed hpath _

theorem failsIn_flag (node : Node) : Except.FailsIn P (flag path node) := by
  unfold flag
  refine (failsIn_scalar hpath node).bind fun s => ?_
  split
  · exact .ok _
  · exact failsIn_malformed hpath _

/-- An item is reported inside of its list. -/
theorem failsIn_readItems {read : String → Node → Except Fault α}
    (h : ∀ {path}, P.holds path → ∀ node, Except.FailsIn P (read path node)) (i : Nat)
    (items : List Node) : Except.FailsIn P (readItems read path i items) := by
  induction items generalizing i with
  | nil => exact .ok []
  | cons item items ih =>
    have hitem := h (P.inside (Slot.index i).segment hpath) item
    exact hitem.bind fun x => (ih (i + 1)).bind fun xs => .ok (x :: xs)

theorem failsIn_scalars (node : Node) : Except.FailsIn P (scalars path node) := by
  cases node with
  | seq items => exact failsIn_readItems hpath failsIn_scalar 0 items
  | _ => exact failsIn_malformed hpath _

theorem failsIn_listedName (node : Node) : Except.FailsIn P (listedName path node) := by
  cases node with
  | string name => exact .ok name
  | _ => exact failsIn_malformed hpath _

theorem failsIn_names (node : Node) : Except.FailsIn P (names path node) := by
  cases node with
  | string name => exact .ok [name]
  | seq items => exact failsIn_readItems hpath failsIn_listedName 0 items
  | _ => exact failsIn_malformed hpath _

theorem failsIn_required (field : String) (attributes : List (String × Node)) :
    Except.FailsIn P (required path field attributes) := by
  unfold required
  split
  · exact .ok _
  · exact .error (.of_label rfl rfl hpath)

end Entry

/-! ## Literal entities -/

/-- An attribute of a parameter is reported inside of the parameter. -/
theorem Parameter.failsIn_withAttribute (p : Parameter) (name : String) (node : Node) :
    Except.FailsIn P (p.withAttribute path name node) := by
  have hattribute : P.holds (path ++ "." ++ name) := P.inside name (P.inside "." hpath)
  unfold withAttribute
  dsimp only
  split_ifs
  · exact .ok p
  · exact (Entry.failsIn_scalar hattribute node).bind fun _ => .ok _
  · exact (Entry.failsIn_text hattribute node).bind fun _ => .ok _
  · exact (Entry.failsIn_scalars hattribute node).bind fun _ => .ok _
  · exact (Entry.failsIn_flag hattribute node).bind fun _ => .ok _
  · exact .ok p
  · exact .error (.of_label rfl rfl hattribute)

/-- A level of a mapping is reported inside of the mapping. -/
theorem Mapping.failsIn_withLevel (m : Mapping) (topKey : String) (node : Node) :
    Except.FailsIn P (withLevel path m topKey node) := by
  have hlevel : P.holds (path ++ "." ++ topKey) := P.inside topKey (P.inside "." hpath)
  unfold withLevel
  refine (Entry.failsIn_attributes hlevel node).bind fun entries => .foldlM (fun m e => ?_) entries m
  dsimp only
  -- A value that is not literal is reported under its own key.
  split
  · exact .ok _
  · exact Entry.failsIn_malformed (P.inside e.1 (P.inside "." hlevel)) _

end Checks

section Entities

variable {P : Paths} (hsections : ∀ area : Section, P.holds area.key)

include hsections

theorem Paths.holds_entity (area : Section) (name : String) :
    P.holds (area.key ++ "." ++ name) := P.inside name (P.inside "." (hsections area))

/-- A parameter is reported inside of its section. -/
theorem Parameter.failsIn_ofNode (name : String) (body : Node) :
    Except.FailsIn P (Parameter.ofNode name body) := by
  have hpath := Paths.holds_entity hsections .parameters name
  unfold ofNode
  refine (body.failsIn_checkLiteral hpath).bind fun _ => ?_
  refine (Entry.failsIn_attributes hpath body).bind fun attributes => ?_
  refine (Entry.failsIn_required hpath _ attributes).bind fun typeNode => ?_
  refine (Entry.failsIn_text (P.inside _ hpath) typeNode).bind fun type => ?_
  exact .foldlM (fun p e => failsIn_withAttribute hpath p e.1 e.2) attributes (ofType type)

/-- A mapping is reported inside of its section. -/
theorem Mapping.failsIn_ofNode (name : String) (body : Node) :
    Except.FailsIn P (Mapping.ofNode name body) := by
  have hpath := Paths.holds_entity hsections .mappings name
  unfold ofNode
  refine (body.failsIn_checkLiteral hpath).bind fun _ => ?_
  refine (Entry.failsIn_attributes hpath body).bind fun levels => ?_
  exact .foldlM (fun m e => failsIn_withLevel hpath m e.1 e.2) levels ∅

end Entities

theorem Parameter.genuine_ofNode (name : String) (body : Node) :
    Except.Genuine (Parameter.ofNode name body) :=
  (failsIn_ofNode (P := .all) (fun _ => trivial) name body).genuine

theorem Mapping.genuine_ofNode (name : String) (body : Node) :
    Except.Genuine (Mapping.ofNode name body) :=
  (failsIn_ofNode (P := .all) (fun _ => trivial) name body).genuine

/-! ## Entities with operands -/

section Congruence

variable (C : Resolution.Congruence)

namespace Resource

/-- Properties are resolved alike one after the other. -/
theorem propertiesOfEntries_congr {ctx : Context} (hctx : C.paths.holds ctx.path)
    (es : List (String × Node)) :
    C.rel (propertiesOfEntries Placeholder.staging ctx es)
      (propertiesOfEntries Placeholder.staging ctx es) := by
  induction es with
  | nil => exact C.ret [] []
  | cons e es ih =>
    obtain ⟨name, node⟩ := e
    exact C.seq (node.resolve_congr C (C.paths.inside _ hctx)) fun o o' => C.seq ih fun os os' =>
      C.ret ((name, o) :: os) ((name, o') :: os')

/-- An attribute of a resource is read alike, whatever resource it is added to. -/
theorem withAttribute_congr {path : String} (hpath : C.paths.holds path) (r r' : Resource)
    (name : String) (node : Node) :
    C.rel (r.withAttribute Placeholder.staging path name node)
      (r'.withAttribute Placeholder.staging path name node) := by
  have hattribute : C.paths.holds (path ++ "." ++ name) :=
    C.paths.inside name (C.paths.inside "." hpath)
  unfold withAttribute
  dsimp only
  -- Attributes that hold a text.
  have htext (f f' : String → Resource) :
      C.rel (Resolution.ofExcept (Entry.text (path ++ "." ++ name) node) >>= fun t => pure (f t))
        (Resolution.ofExcept (Entry.text (path ++ "." ++ name) node) >>= fun t => pure (f' t)) :=
    C.rel_check (Entry.failsIn_text hattribute node) fun _ => C.ret _ _
  -- Attributes that hold an operand.
  have hoperand (f f' : Operand → Resource) :
      C.rel (node.resolve Placeholder.staging (.root .resources (path ++ "." ++ name)) >>=
          fun o => pure (f o))
        (node.resolve Placeholder.staging (.root .resources (path ++ "." ++ name)) >>=
          fun o => pure (f' o)) :=
    C.seq (node.resolve_congr C hattribute) fun _ _ => C.ret _ _
  -- The attributes are distinguished in the order in which reading asks for them.
  refine C.rel_ite (C.ret r r') ?_
  refine C.rel_ite (C.rel_ite (C.ret r r') ?_) ?_
  · exact C.rel_check (Entry.failsIn_attributes hattribute node) fun entries =>
      C.seq (propertiesOfEntries_congr C hattribute entries) fun _ _ => C.ret _ _
  refine C.rel_ite (htext _ _) ?_
  refine C.rel_ite (C.rel_check (Entry.failsIn_names hattribute node) fun _ => C.ret _ _) ?_
  refine C.rel_ite (htext _ _) (C.rel_ite (htext _ _) ?_)
  refine C.rel_ite (hoperand _ _) (C.rel_ite (hoperand _ _) (C.rel_ite (hoperand _ _) ?_))
  exact C.fail _ (.of_label rfl rfl hattribute)

end Resource

namespace Output

/-- An attribute of an output is read alike, whatever output it is added to. -/
theorem withAttribute_congr {path : String} (hpath : C.paths.holds path) (out out' : Output)
    (name : String) (node : Node) :
    C.rel (out.withAttribute Placeholder.staging path name node)
      (out'.withAttribute Placeholder.staging path name node) := by
  have hattribute : C.paths.holds (path ++ "." ++ name) :=
    C.paths.inside name (C.paths.inside "." hpath)
  unfold withAttribute
  dsimp only
  refine C.rel_ite (C.ret out out') ?_
  refine C.rel_ite (C.rel_check (Entry.failsIn_text hattribute node) fun _ => C.ret _ _) ?_
  refine C.rel_ite (C.rel_check (Entry.failsIn_text hattribute node) fun _ => C.ret _ _) ?_
  refine C.rel_ite ?_ (C.fail _ (.of_label rfl rfl hattribute))
  -- The name of an export is checked for before it is resolved.
  have hexport := (Entry.failsIn_attributes hattribute node).bind
    (Entry.failsIn_required hattribute "Name")
  refine C.rel_check hexport fun exportNode => ?_
  exact C.seq (exportNode.resolve_congr C (C.paths.inside _ hattribute)) fun _ _ => C.ret _ _

end Output

variable (hsections : ∀ area : Section, C.paths.holds area.key) (name : String) (body : Node)

include hsections

theorem conditionOfNode_congr :
    C.rel (conditionOfNode Placeholder.staging name body)
      (conditionOfNode Placeholder.staging name body) :=
  body.resolve_congr C (Paths.holds_entity hsections .conditions name)

/-- A resource is read alike. -/
theorem Resource.ofNode_congr :
    C.rel (ofNode Placeholder.staging name body) (ofNode Placeholder.staging name body) := by
  have hpath := Paths.holds_entity hsections .resources name
  unfold ofNode
  refine C.rel_check (Entry.failsIn_attributes hpath body) fun attributes => ?_
  -- The type is read before the attributes, and is the only one that is required.
  have htype := (Entry.failsIn_required hpath "Type" attributes).bind
    (Entry.failsIn_text (C.paths.inside ".Type" hpath))
  refine C.rel_check htype fun type => ?_
  exact C.rel_foldlM (fun r r' e => withAttribute_congr C hpath r r' e.1 e.2) attributes _ _

/-- An output is read alike. -/
theorem Output.ofNode_congr :
    C.rel (ofNode Placeholder.staging name body) (ofNode Placeholder.staging name body) := by
  have hpath := Paths.holds_entity hsections .outputs name
  unfold ofNode
  refine C.rel_check (Entry.failsIn_attributes hpath body) fun attributes => ?_
  refine C.rel_check (Entry.failsIn_required hpath _ attributes) fun valueNode => ?_
  -- The two values may differ, so the attributes are added to two outputs.
  refine C.seq (valueNode.resolve_congr C (C.paths.inside _ hpath)) fun value value' => ?_
  exact C.rel_foldlM (fun out out' e => withAttribute_congr C hpath out out' e.1 e.2) attributes _ _

end Congruence

theorem genuine_conditionOfNode (name : String) (body : Node) :
    Genuine (conditionOfNode Placeholder.staging name body) :=
  ReportsIn.genuine (conditionOfNode_congr (.reporting .all) (fun _ => trivial) name body)

namespace Resource

theorem genuine_withAttribute (path : String) (r : Resource) (name : String) (node : Node) :
    Genuine (r.withAttribute Placeholder.staging path name node) :=
  ReportsIn.genuine (withAttribute_congr (.reporting .all) trivial r r name node)

theorem genuine_ofNode (name : String) (body : Node) :
    Genuine (ofNode Placeholder.staging name body) :=
  ReportsIn.genuine (ofNode_congr (.reporting .all) (fun _ => trivial) name body)

end Resource

namespace Output

theorem genuine_withAttribute (path : String) (out : Output) (name : String) (node : Node) :
    Genuine (out.withAttribute Placeholder.staging path name node) :=
  ReportsIn.genuine (withAttribute_congr (.reporting .all) trivial out out name node)

theorem genuine_ofNode (name : String) (body : Node) :
    Genuine (ofNode Placeholder.staging name body) :=
  ReportsIn.genuine (ofNode_congr (.reporting .all) (fun _ => trivial) name body)

end Output

/-! ## Sections -/

namespace Document

variable {P : Paths} (hsections : ∀ area : Section, P.holds area.key)

include hsections

/-- A name that is no string is reported on the section, a malformed one on the entity. -/
theorem failsIn_logicalName (area : Section) (key : Node) :
    Except.FailsIn P (logicalName area key) := by
  unfold logicalName
  repeat' split
  · exact .error (.of_label rfl rfl (hsections area))
  · exact .ok _
  · -- The name is a string, so the entity has a path.
    exact .error (.of_label rfl rfl (Paths.holds_entity hsections area _))

/-- The faults of a section as a whole lie in the section. -/
theorem liesIn_of_mem_sectionFaults {area : Section} {content : Option Node} {e : Fault}
    (h : e ∈ sectionFaults area content) : e.LiesIn P := by
  unfold sectionFaults at h
  split at h
  · cases h
  · -- The section is a mapping, and one of its names is wrong.
    obtain ⟨⟨key, body⟩, -, hfault⟩ := List.mem_filterMap.1 h
    dsimp only at hfault
    split at hfault
    · cases hfault
    · next e' he' =>
      cases hfault
      exact failsIn_logicalName hsections area key e he'
  · split at h
    · cases h
    · obtain rfl := List.mem_singleton.1 h
      exact .of_label rfl rfl (hsections area)

/-- The fault of a section with a text lies in the section. -/
theorem liesIn_of_mem_readText {root : List (Node × Node)} {area : Section} {e : Fault}
    (h : e ∈ (readText root area).1) : e.LiesIn P := by
  unfold readText at h
  split at h
  · cases h
  · next node _ =>
    split at h
    · cases h
    · next e' he' =>
      obtain rfl := List.mem_singleton.1 h
      exact Entry.failsIn_text (hsections area) node e he'

/-- The faults of the metadata lie in their section. -/
theorem liesIn_of_mem_metadataFaults {root : List (Node × Node)} {e : Fault}
    (h : e ∈ metadataFaults root) : e.LiesIn P := by
  unfold metadataFaults at h
  split at h
  · cases h
  · next node _ =>
    split at h
    · cases h
    · next e' he' =>
      obtain rfl := List.mem_singleton.1 h
      exact node.failsIn_checkLiteral (hsections .metadata) e he'

omit hsections in
/-- Reading entities one after the other reports on the paths on which each of them does. -/
theorem reportsIn_readEntities {read : String → Node → Resolution Placeholders α}
    (h : ∀ name body, ReportsIn P (read name body)) {es : List (String × Node)}
    {table : Placeholders} {e : Fault} (he : e ∈ (readEntities read es table).1.1) : e.LiesIn P := by
  induction es generalizing table with
  | nil => cases he
  | cons entry es ih =>
    obtain ⟨name, body⟩ := entry
    rcases hread : (read name body).run table with ⟨e' | x, after⟩
    · -- The fault is the one of this entity, or of one that is read after it.
      rw [readEntities_cons_error hread] at he
      rcases List.mem_cons.1 he with rfl | he
      · exact (h name body table).2 e (congrArg Prod.fst hread)
      · exact ih he
    · rw [readEntities_cons_ok hread] at he
      exact ih he

/-- The faults of a section with entities lie in the section. -/
theorem liesIn_of_mem_readSection {read : String → Node → Resolution Placeholders α}
    (h : ∀ name body, ReportsIn P (read name body)) {root : List (Node × Node)} {area : Section}
    {table after : Placeholders} {faults : List Fault} {d : Dict α}
    (hread : readSection root area read table = ((faults, d), after)) {e : Fault}
    (he : e ∈ faults) : e.LiesIn P := by
  -- The faults of the section come first, those of its entities after them.
  have hfaults : sectionFaults area (section? root area) ++
      (readEntities read (entities area (section? root area)) table).1.1 = faults :=
    congrArg (fun r => r.1.1) hread
  rw [← hfaults] at he
  rcases List.mem_append.1 he with he | he
  · exact liesIn_of_mem_sectionFaults hsections he
  · exact reportsIn_readEntities h he

end Document

/-! ## Documents -/

/-- The faults of a document that are about none of its sections. An unknown section is reported
under its key as it is written, and the others under a key that is known, or none. -/
inductive Fault.OfLayout (document : Node) : Fault → Prop
  | rootNotMapping : OfLayout document .rootNotMapping
  | sectionKeyNotString : OfLayout document .sectionKeyNotString
  | noResources : OfLayout document .noResources
  | transformSection : OfLayout document (.transformSection Section.transform.key)
  | unknownSection {root : List (Node × Node)} {entry : Node × Node} {name : String}
      (hroot : document = .map root) (hentry : entry ∈ root) (hname : entry.1.string? = some name)
      (hunknown : Section.ofKey? name = none) : OfLayout document (.unknownSection name)

/-- No fault of the layout is one of the bookkeeping. -/
theorem Fault.OfLayout.genuine {document : Node} {e : Fault} (h : e.OfLayout document) :
    e.isBookkeeping = false := by
  cases h <;> rfl

/-- The key under which a section is found is the key of the section. -/
theorem Section.key_of_ofKey? {key : String} {area : Section} (h : ofKey? key = some area) :
    area.key = key := by
  simpa using List.find?_some h

namespace Template

open Document

/-- A top-level key that is wrong is a fault of the layout. -/
theorem ofLayout_of_keyFault? {root : List (Node × Node)} {entry : Node × Node} {e : Fault}
    (hentry : entry ∈ root) (h : keyFault? entry.1 = some e) : e.OfLayout (.map root) := by
  unfold keyFault? at h
  split at h
  · cases h
    exact .sectionKeyNotString
  · next name hname =>
    split at h
    · -- The section is known and not supported; its key is the one that is written.
      next harea =>
      cases h
      rw [← Section.key_of_ofKey? harea]
      exact .transformSection
    · cases h
    · next hunknown =>
      cases h
      exact .unknownSection rfl hentry hname hunknown

section Faults

variable {P : Paths} (hsections : ∀ area : Section, P.holds area.key)

include hsections

/-- The faults of a document lie in its sections where those of its entities do. -/
theorem liesIn_of_mem_faultsOf {root : List (Node × Node)} {f₁ f₂ f₃ f₄ f₅ : List Fault}
    (h₁ : ∀ e ∈ f₁, e.LiesIn P) (h₂ : ∀ e ∈ f₂, e.LiesIn P) (h₃ : ∀ e ∈ f₃, e.LiesIn P)
    (h₄ : ∀ e ∈ f₄, e.LiesIn P) (h₅ : ∀ e ∈ f₅, e.LiesIn P) {e : Fault}
    (he : e ∈ faultsOf root f₁ f₂ f₃ f₄ f₅) : e.LiesIn P ∨ e.OfLayout (.map root) := by
  simp only [faultsOf, List.mem_append] at he
  rcases he with (((((((he | he) | he) | he) | he) | he) | he) | he) | he
  · exact .inl (liesIn_of_mem_readText hsections he)
  · exact .inl (liesIn_of_mem_readText hsections he)
  · exact .inl (liesIn_of_mem_metadataFaults hsections he)
  · exact .inl (h₁ e he)
  · exact .inl (h₂ e he)
  · exact .inl (h₃ e he)
  · -- Missing resources are a fault of the layout.
    split at he
    · obtain rfl := List.mem_singleton.1 he
      exact .inr .noResources
    · cases he
  · exact .inl (h₄ e he)
  · exact .inl (h₅ e he)

/-- The faults of a document that cannot be elaborated: there are some, and each lies in a section
or is one of the layout. -/
theorem faults_of_elaborate {document : Node} {table after : Placeholders} {faults : List Fault}
    (h : elaborate Placeholder.staging document table = (.error faults, after)) :
    faults ≠ [] ∧ ∀ e ∈ faults, e.LiesIn P ∨ e.OfLayout document := by
  cases document with
  | map root =>
    rcases exists_sections Placeholder.staging root table with ⟨f₁, d₁, t₁, hparameters, f₂, d₂, t₂,
      hmappings, f₃, d₃, t₃, hconditions, f₄, d₄, t₄, hresources, f₅, d₅, t₅, houtputs⟩
    -- The faults are those of the layout, or else those of the sections.
    rw [elaborate_of_sections hparameters hmappings hconditions hresources houtputs] at h
    split_ifs at h with hlayout hfaults
    · cases (Prod.mk.inj h).1
    · obtain rfl := Except.error.inj (Prod.mk.inj h).1
      refine ⟨hfaults, fun e => liesIn_of_mem_faultsOf hsections (fun e => ?_) (fun e => ?_)
        (fun e => ?_) (fun e => ?_) fun e => ?_⟩
      · exact liesIn_of_mem_readSection hsections
          (fun name body => .ofExcept (Parameter.failsIn_ofNode hsections name body)) hparameters
      · exact liesIn_of_mem_readSection hsections
          (fun name body => .ofExcept (Mapping.failsIn_ofNode hsections name body)) hmappings
      · exact liesIn_of_mem_readSection hsections
          (conditionOfNode_congr (.reporting P) hsections) hconditions
      · exact liesIn_of_mem_readSection hsections
          (Resource.ofNode_congr (.reporting P) hsections) hresources
      · exact liesIn_of_mem_readSection hsections
          (Output.ofNode_congr (.reporting P) hsections) houtputs
    · obtain rfl := Except.error.inj (Prod.mk.inj h).1
      refine ⟨hlayout, fun e he => .inr ?_⟩
      obtain ⟨entry, hentry, he⟩ := List.mem_filterMap.1 he
      exact ofLayout_of_keyFault? hentry he
  -- A document that is no mapping has no sections.
  | _ =>
    cases h
    refine ⟨List.cons_ne_nil _ [], fun e he => ?_⟩
    obtain rfl := List.mem_singleton.1 he
    exact .inr .rootNotMapping

end Faults

/-- The faults of a document that cannot be elaborated are genuine. -/
theorem genuine_of_elaborate {document : Node} {table after : Placeholders} {faults : List Fault}
    (h : elaborate Placeholder.staging document table = (.error faults, after)) :
    faults ≠ [] ∧ ∀ e ∈ faults, e.isBookkeeping = false := by
  rcases faults_of_elaborate (P := .all) (fun _ => trivial) h with ⟨hsome, hfaults⟩
  refine ⟨hsome, fun e he => ?_⟩
  rcases hfaults e he with hlies | hlayout
  · exact hlies.genuine
  · exact hlayout.genuine

end Template

end StackTemplate
