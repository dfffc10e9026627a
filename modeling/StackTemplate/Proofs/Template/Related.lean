import StackTemplate.Proofs.Entries
import StackTemplate.Template

/-!
# Related templates

Two templates are related when they agree in everything but their operands, and their operands are
related place by place. A function that threads a state is applied to the operands of a template
one after the other; what it does to each operand, it does to the template.

* `Template.Related` : the operands of two templates are related place by place.
* `Template.Related.determined` : what two relations determine of an operand, they determine of a
  template.
* `StateLaw.mapOperands` : the operands before and after a function is applied to each.
* `Template.mapOperands_state` : the state after a function is applied to each operand.
* `Lockstep.mapOperands` : two functions that agree on each operand, from related states, agree on a
  template.
-/

namespace StackTemplate

variable {α β γ δ σ τ : Type}

/-! ## Places of operands -/

/-- Two dictionaries with the same keys and related values. -/
def Dict.Related (R : α → β → Prop) (d : Dict α) (d' : Dict β) : Prop :=
  List.Forall₂ (Entries.Related R) d.entries d'.entries

/-- Two resources with related operands. -/
structure Resource.Related (R : Operand → Operand → Prop) (r r' : Resource) : Prop where
  type : r.type = r'.type
  properties : Dict.Related R r.properties r'.properties
  condition : r.condition = r'.condition
  dependsOn : r.dependsOn = r'.dependsOn
  deletionPolicy : r.deletionPolicy = r'.deletionPolicy
  updateReplacePolicy : r.updateReplacePolicy = r'.updateReplacePolicy
  metadata : Option.Rel R r.metadata r'.metadata
  creationPolicy : Option.Rel R r.creationPolicy r'.creationPolicy
  updatePolicy : Option.Rel R r.updatePolicy r'.updatePolicy

/-- Two outputs with related operands. -/
structure Output.Related (R : Operand → Operand → Prop) (o o' : Output) : Prop where
  value : R o.value o'.value
  description : o.description = o'.description
  exportName : Option.Rel R o.exportName o'.exportName
  condition : o.condition = o'.condition

/-- Two templates with related operands. -/
structure Template.Related (R : Operand → Operand → Prop) (t t' : Template) : Prop where
  formatVersion : t.formatVersion = t'.formatVersion
  description : t.description = t'.description
  parameters : t.parameters = t'.parameters
  mappings : t.mappings = t'.mappings
  conditions : Dict.Related R t.conditions t'.conditions
  resources : Dict.Related (Resource.Related R) t.resources t'.resources
  outputs : Dict.Related (Output.Related R) t.outputs t'.outputs

namespace Dict.Related

theorem refl {R : α → α → Prop} (h : ∀ a, R a a) (d : Dict α) : d.Related R d :=
  List.forall₂_same.2 fun e _ => ⟨rfl, h e.2⟩

theorem mono {R S : α → β → Prop} {d : Dict α} {d' : Dict β} (h : d.Related R d')
    (hRS : ∀ a b, R a b → S a b) : d.Related S d' :=
  List.Forall₂.imp (fun _ _ hef => ⟨hef.1, hRS _ _ hef.2⟩) h

end Dict.Related

theorem optionRel_refl {R : α → α → Prop} (h : ∀ a, R a a) : ∀ a : Option α, Option.Rel R a a
  | none => .none
  | some a => .some (h a)

theorem optionRel_mono {R S : α → β → Prop} {a : Option α} {b : Option β} (h : Option.Rel R a b)
    (hRS : ∀ a b, R a b → S a b) : Option.Rel S a b := by
  cases h with
  | some hab => exact .some (hRS _ _ hab)
  | none => exact .none

theorem Resource.Related.mono {R S : Operand → Operand → Prop} {r r' : Resource}
    (h : r.Related R r') (hRS : ∀ o x, R o x → S o x) : r.Related S r' :=
  { h with
    properties := h.properties.mono hRS
    metadata := optionRel_mono h.metadata hRS
    creationPolicy := optionRel_mono h.creationPolicy hRS
    updatePolicy := optionRel_mono h.updatePolicy hRS }

theorem Output.Related.mono {R S : Operand → Operand → Prop} {out out' : Output}
    (h : out.Related R out') (hRS : ∀ o x, R o x → S o x) : out.Related S out' :=
  { h with
    value := hRS _ _ h.value
    exportName := optionRel_mono h.exportName hRS }

namespace Template.Related

/-- A template is related to itself where every operand is. -/
theorem refl {R : Operand → Operand → Prop} (h : ∀ o, R o o) (t : Template) : t.Related R t := by
  have hresource (r : Resource) : r.Related R r :=
    ⟨rfl, .refl h _, rfl, rfl, rfl, rfl, optionRel_refl h _, optionRel_refl h _, optionRel_refl h _⟩
  have houtput (out : Output) : out.Related R out := ⟨h _, rfl, optionRel_refl h _, rfl⟩
  exact ⟨rfl, rfl, rfl, rfl, .refl h _, .refl hresource _, .refl houtput _⟩

theorem mono {R S : Operand → Operand → Prop} {t t' : Template} (h : t.Related R t')
    (hRS : ∀ o x, R o x → S o x) : t.Related S t' :=
  { h with
    conditions := h.conditions.mono hRS
    resources := h.resources.mono fun _ _ hr => hr.mono hRS
    outputs := h.outputs.mono fun _ _ hout => hout.mono hRS }

end Template.Related

/-! ## What relations determine -/

/-- What is related to the same in two ways is the same. -/
def Determined (R : α → β → Prop) (S : α → β → Prop) : Prop := ∀ a b c, R a b → S a c → b = c

namespace Determined

/-- What is determined of a value is determined of a dictionary, for related ones have the same
keys. -/
theorem dict {R S : α → β → Prop} (h : Determined R S) :
    Determined (Dict.Related R) (Dict.Related S) := by
  intro d d₁ d₂ h₁ h₂
  refine Dict.ext ?_
  unfold Dict.Related at h₁ h₂
  -- The keys of three dictionaries are compared one by one, so only their entries matter.
  generalize d.entries = es, d₁.entries = fs, d₂.entries = gs at h₁ h₂
  induction h₁ generalizing gs with
  | nil =>
    cases h₂
    rfl
  | @cons e f es fs hef _ ih =>
    cases h₂ with
    | @cons _ g _ gs heg hrest =>
      obtain ⟨k, a⟩ := e
      obtain ⟨l, b⟩ := f
      obtain ⟨m, c⟩ := g
      obtain ⟨rfl, hab⟩ : k = l ∧ R a b := hef
      obtain ⟨rfl, hac⟩ : k = m ∧ S a c := heg
      rw [h a b c hab hac, ih gs hrest]

theorem option {R S : α → β → Prop} (h : Determined R S) :
    Determined (Option.Rel R) (Option.Rel S) := by
  rintro a b c (hab | -) hac
  · cases hac with
    | some hac => rw [h _ _ _ hab hac]
  · cases hac
    rfl

variable {R S : Operand → Operand → Prop}

/-- What is determined of an operand is determined of a resource, place by place. -/
theorem resource (h : Determined R S) : Determined (Resource.Related R) (Resource.Related S) := by
  intro r r₁ r₂ h₁ h₂
  obtain ⟨type₁, properties₁, condition₁, dependsOn₁, deletion₁, replace₁, metadata₁, creation₁,
    update₁⟩ := r₁
  obtain ⟨type₂, properties₂, condition₂, dependsOn₂, deletion₂, replace₂, metadata₂, creation₂,
    update₂⟩ := r₂
  simp only [Resource.mk.injEq]
  exact ⟨h₁.type.symm.trans h₂.type, h.dict _ _ _ h₁.properties h₂.properties,
    h₁.condition.symm.trans h₂.condition, h₁.dependsOn.symm.trans h₂.dependsOn,
    h₁.deletionPolicy.symm.trans h₂.deletionPolicy,
    h₁.updateReplacePolicy.symm.trans h₂.updateReplacePolicy,
    h.option _ _ _ h₁.metadata h₂.metadata, h.option _ _ _ h₁.creationPolicy h₂.creationPolicy,
    h.option _ _ _ h₁.updatePolicy h₂.updatePolicy⟩

/-- What is determined of an operand is determined of an output, place by place. -/
theorem output (h : Determined R S) : Determined (Output.Related R) (Output.Related S) := by
  intro o o₁ o₂ h₁ h₂
  obtain ⟨value₁, description₁, exportName₁, condition₁⟩ := o₁
  obtain ⟨value₂, description₂, exportName₂, condition₂⟩ := o₂
  simp only [Output.mk.injEq]
  exact ⟨h _ _ _ h₁.value h₂.value, h₁.description.symm.trans h₂.description,
    h.option _ _ _ h₁.exportName h₂.exportName, h₁.condition.symm.trans h₂.condition⟩

/-- What two relations determine of an operand, they determine of a template. -/
theorem template (h : Determined R S) : Determined (Template.Related R) (Template.Related S) := by
  intro t t₁ t₂ h₁ h₂
  obtain ⟨version₁, description₁, parameters₁, mappings₁, conditions₁, resources₁, outputs₁⟩ := t₁
  obtain ⟨version₂, description₂, parameters₂, mappings₂, conditions₂, resources₂, outputs₂⟩ := t₂
  simp only [Template.mk.injEq]
  exact ⟨h₁.formatVersion.symm.trans h₂.formatVersion, h₁.description.symm.trans h₂.description,
    h₁.parameters.symm.trans h₂.parameters, h₁.mappings.symm.trans h₂.mappings,
    h.dict _ _ _ h₁.conditions h₂.conditions, h.resource.dict _ _ _ h₁.resources h₂.resources,
    h.output.dict _ _ _ h₁.outputs h₂.outputs⟩

end Determined

/-! ## Operands of related templates -/

/-- The operands of a template, section by section. -/
theorem Template.map_snd_operands (t : Template) : t.operands.map Prod.snd =
    t.conditions.values.flatMap (fun o => [o]) ++
      t.resources.values.flatMap (fun r => r.operands.map Prod.snd) ++
      t.outputs.values.flatMap (fun out => out.operands.map Prod.snd) := by
  rw [List.flatMap_singleton']
  simp [operands, Dict.values, Entries.values, List.map_flatMap, List.flatMap_map,
    Function.comp_def]

theorem Dict.Related.exists_of_mem {R : α → β → Prop} {d : Dict α} {d' : Dict β}
    (h : d.Related R d') {k : String} {b : β} (hb : (k, b) ∈ d'.entries) : ∃ a, R a b := by
  obtain ⟨e, -, he⟩ := exists_mem_of_forall₂ h hb
  exact ⟨e.2, he.2⟩

theorem exists_related_of_mem_toList {R : α → β → Prop} {a : Option α} {b : Option β}
    (h : Option.Rel R a b) {y : β} (hy : y ∈ b.toList) : ∃ x, R x y := by
  cases h with
  | some hxy =>
    obtain rfl := List.mem_singleton.1 hy
    exact ⟨_, hxy⟩
  | none => cases hy

/-- What holds of the values of a dictionary may be added to how they are related. -/
theorem Dict.Related.and_left {R : α → β → Prop} {P : α → Prop} {d : Dict α} {d' : Dict β}
    (h : d.Related R d') (hP : ∀ e ∈ d.entries, P e.2) : d.Related (fun a b => P a ∧ R a b) d' :=
  ((List.forall₂_and_left (p := fun e => P e.2) _ _).2 ⟨hP, h⟩).imp fun _ _ hef =>
    ⟨hef.2.1, hef.1, hef.2.2⟩

theorem optionRel_and_left {R : α → β → Prop} {P : α → Prop} {a : Option α} {b : Option β}
    (h : Option.Rel R a b) (hP : ∀ x ∈ a.toList, P x) :
    Option.Rel (fun x y => P x ∧ R x y) a b := by
  cases h with
  | some hxy => exact .some ⟨hP _ (List.mem_singleton_self _), hxy⟩
  | none => exact .none

section Operands

variable {R : Operand → Operand → Prop} {P : Operand → Prop}

/-- An operand of a resource is related to one of a related resource. -/
theorem Resource.Related.exists_of_mem {r r' : Resource} (h : r.Related R r') {path : String}
    {x : Operand} (hx : (path, x) ∈ r'.operands) : ∃ o, R o x := by
  simp only [operands, List.mem_append, List.mem_map, Prod.exists, Prod.mk.injEq] at hx
  -- A property, the metadata, or one of the two policies.
  rcases hx with ((⟨_, _, hx, -, rfl⟩ | ⟨_, hx, -, rfl⟩) | ⟨_, hx, -, rfl⟩) | ⟨_, hx, -, rfl⟩
  · exact h.properties.exists_of_mem hx
  · exact exists_related_of_mem_toList h.metadata hx
  · exact exists_related_of_mem_toList h.creationPolicy hx
  · exact exists_related_of_mem_toList h.updatePolicy hx

/-- An operand of an output is related to one of a related output. -/
theorem Output.Related.exists_of_mem {out out' : Output} (h : out.Related R out') {path : String}
    {x : Operand} (hx : (path, x) ∈ out'.operands) : ∃ o, R o x := by
  simp only [operands, List.mem_cons, List.mem_map, Prod.mk.injEq] at hx
  rcases hx with ⟨-, rfl⟩ | ⟨_, hx, -, rfl⟩
  · exact ⟨_, h.value⟩
  · exact exists_related_of_mem_toList h.exportName hx

/-- An operand of a template is related to one of a related template. -/
theorem Template.Related.exists_of_mem {t t' : Template} (h : t.Related R t') {path : String}
    {x : Operand} (hx : (path, x) ∈ t'.operands) : ∃ o, R o x := by
  simp only [operands, List.mem_append, List.mem_map, List.mem_flatMap, Prod.exists,
    Prod.mk.injEq] at hx
  -- A condition, or an operand of a resource or of an output.
  rcases hx with (⟨_, _, hx, -, rfl⟩ | ⟨_, _, hr, _, _, hx, -, rfl⟩) |
    ⟨_, _, hout, _, _, hx, -, rfl⟩
  · exact h.conditions.exists_of_mem hx
  · obtain ⟨_, hrelated⟩ := h.resources.exists_of_mem hr
    exact hrelated.exists_of_mem hx
  · obtain ⟨_, hrelated⟩ := h.outputs.exists_of_mem hout
    exact hrelated.exists_of_mem hx

/-- What holds of the operands of a resource may be added to how they are related. -/
theorem Resource.Related.and_left {r r' : Resource} (h : r.Related R r')
    (hP : ∀ o ∈ r.operands.map Prod.snd, P o) : r.Related (fun o x => P o ∧ R o x) r' := by
  simp only [operands, List.map_append, List.map_map, List.mem_append, or_imp, forall_and,
    List.mem_map, Function.comp_apply, forall_exists_index, and_imp, forall_apply_eq_imp_iff₂] at hP
  obtain ⟨⟨⟨hproperties, hmetadata⟩, hcreation⟩, hupdate⟩ := hP
  exact { h with
    properties := h.properties.and_left hproperties
    metadata := optionRel_and_left h.metadata hmetadata
    creationPolicy := optionRel_and_left h.creationPolicy hcreation
    updatePolicy := optionRel_and_left h.updatePolicy hupdate }

/-- What holds of the operands of an output may be added to how they are related. -/
theorem Output.Related.and_left {out out' : Output} (h : out.Related R out')
    (hP : ∀ o ∈ out.operands.map Prod.snd, P o) : out.Related (fun o x => P o ∧ R o x) out' := by
  simp only [operands, List.map_cons, List.map_map, List.mem_cons, forall_eq_or_imp,
    List.mem_map, Function.comp_apply, forall_exists_index, and_imp, forall_apply_eq_imp_iff₂] at hP
  exact { h with
    value := ⟨hP.1, h.value⟩
    exportName := optionRel_and_left h.exportName hP.2 }

/-- What holds of the operands of a template may be added to how they are related. -/
theorem Template.Related.and_left {t t' : Template} (h : t.Related R t')
    (hP : ∀ o ∈ t.operands.map Prod.snd, P o) : t.Related (fun o x => P o ∧ R o x) t' := by
  rw [map_snd_operands] at hP
  have hconditions : ∀ e ∈ t.conditions.entries, P e.2 := fun e he => by
    refine hP e.2 (List.mem_append_left _ (List.mem_append_left _ ?_))
    exact List.mem_flatMap.2 ⟨e.2, List.mem_map.2 ⟨e, he, rfl⟩, List.mem_singleton_self _⟩
  have hresources : ∀ e ∈ t.resources.entries, ∀ o ∈ e.2.operands.map Prod.snd, P o :=
    fun e he o ho => by
      refine hP o (List.mem_append_left _ (List.mem_append_right _ ?_))
      exact List.mem_flatMap.2 ⟨e.2, List.mem_map.2 ⟨e, he, rfl⟩, ho⟩
  have houtputs : ∀ e ∈ t.outputs.entries, ∀ o ∈ e.2.operands.map Prod.snd, P o :=
    fun e he o ho => by
      refine hP o (List.mem_append_right _ ?_)
      exact List.mem_flatMap.2 ⟨e.2, List.mem_map.2 ⟨e, he, rfl⟩, ho⟩
  exact { h with
    conditions := h.conditions.and_left hconditions
    resources := (h.resources.and_left hresources).mono fun _ _ hr => hr.2.and_left hr.1
    outputs := (h.outputs.and_left houtputs).mono fun _ _ hout => hout.2.and_left hout.1 }

end Operands

/-! ## Functions that thread a state -/

/-- How states may follow each other, and which results a value has in a state; it has them in the
states that follow as well. -/
structure StateLaw (follows : σ → σ → Prop) (R : σ → α → β → Prop) : Prop where
  refl : ∀ s, follows s s
  trans : ∀ s₁ s₂ s₃, follows s₁ s₂ → follows s₂ s₃ → follows s₁ s₃
  mono : ∀ s s' a b, R s a b → follows s s' → R s' a b

/-- A computation for a value keeps to a law in a state. -/
def Keeps (follows : σ → σ → Prop) (R : σ → α → β → Prop) (a : α) (x : StateM σ β) (s : σ) : Prop :=
  follows s (x s).2 ∧ R (x s).2 a (x s).1

namespace StateLaw

variable {follows : σ → σ → Prop} {R : σ → α → β → Prop}

/-- A law for values is a law for dictionaries. -/
theorem dict (law : StateLaw follows R) : StateLaw follows fun s => Dict.Related (R s) :=
  ⟨law.refl, law.trans, fun _ _ _ _ h hs => h.mono fun _ _ hab => law.mono _ _ _ _ hab hs⟩

theorem option (law : StateLaw follows R) : StateLaw follows fun s => Option.Rel (R s) :=
  ⟨law.refl, law.trans, fun _ _ _ _ h hs => optionRel_mono h fun _ _ hab => law.mono _ _ _ _ hab hs⟩

theorem resource {R : σ → Operand → Operand → Prop} (law : StateLaw follows R) :
    StateLaw follows fun s => Resource.Related (R s) :=
  ⟨law.refl, law.trans, fun _ _ _ _ h hs => h.mono fun _ _ hab => law.mono _ _ _ _ hab hs⟩

theorem output {R : σ → Operand → Operand → Prop} (law : StateLaw follows R) :
    StateLaw follows fun s => Output.Related (R s) :=
  ⟨law.refl, law.trans, fun _ _ _ _ h hs => h.mono fun _ _ hab => law.mono _ _ _ _ hab hs⟩

/-- A sequence of computations, the second of which starts in the state that the first leaves. -/
theorem bind {S : σ → γ → δ → Prop} (law : StateLaw follows R) {a : α} {c : γ} {x : StateM σ β}
    {f : β → StateM σ δ} {s : σ} (hx : Keeps follows R a x s)
    (hf : ∀ b s', follows s s' → R s' a b → Keeps follows S c (f b) s') :
    Keeps follows S c (x >>= f) s := by
  obtain ⟨hfollows, hb⟩ := hx
  obtain ⟨hfollows', hd⟩ := hf _ _ hfollows hb
  exact ⟨law.trans _ _ _ hfollows hfollows', hd⟩

/-- A function that keeps to a law at every value keeps to it at the values of a dictionary. -/
theorem mapDict (law : StateLaw follows R) {f : String → α → StateM σ β}
    (h : ∀ k a s, Keeps follows R a (f k a) s) (d : Dict α) (s : σ) :
    Keeps follows (fun s => Dict.Related (R s)) d (d.mapState f) s := by
  -- The law carries what holds of an entry on to the states behind it.
  have hentries (es : List (String × α)) (s : σ) : follows s (Entries.mapState f es s).2 ∧
      List.Forall₂ (Entries.Related (R (Entries.mapState f es s).2)) es
        (Entries.mapState f es s).1 := by
    induction es generalizing s with
    | nil => exact ⟨law.refl s, .nil⟩
    | cons e es ih =>
      obtain ⟨k, a⟩ := e
      obtain ⟨hfirst, hab⟩ := h k a s
      obtain ⟨hrest, hes⟩ := ih (f k a s).2
      exact ⟨law.trans _ _ _ hfirst hrest, .cons ⟨rfl, law.mono _ _ _ _ hab hrest⟩ hes⟩
  exact hentries d.entries s

theorem mapStateOption (law : StateLaw follows R) {f : α → StateM σ β}
    (h : ∀ a s, Keeps follows R a (f a) s) (a : Option α) (s : σ) :
    Keeps follows (fun s => Option.Rel (R s)) a (mapStateOption f a) s := by
  cases a with
  | none => exact ⟨law.refl s, .none⟩
  | some a => exact ⟨(h a s).1, .some (h a s).2⟩

section Operands

variable {R : σ → Operand → Operand → Prop} {f : String → Operand → StateM σ Operand}

theorem mapResource (law : StateLaw follows R) (h : ∀ path o s, Keeps follows R o (f path o) s)
    (r : Resource) (s : σ) :
    Keeps follows (fun s => Resource.Related (R s)) r (r.mapOperands f) s := by
  -- The operands in their order: properties, metadata, then the policies.
  refine law.dict.bind (law.mapDict (fun k => h ("Properties." ++ k)) r.properties s)
    fun properties s₁ _ hproperties => ?_
  refine law.option.bind (law.mapStateOption (h "Metadata") r.metadata s₁)
    fun metadata s₂ h₂ hmetadata => ?_
  refine law.option.bind (law.mapStateOption (h "CreationPolicy") r.creationPolicy s₂)
    fun creationPolicy s₃ h₃ hcreationPolicy => ?_
  refine law.option.bind (law.mapStateOption (h "UpdatePolicy") r.updatePolicy s₃)
    fun updatePolicy s₄ h₄ hupdatePolicy => ?_
  have h₃₄ := law.trans _ _ _ h₃ h₄
  exact ⟨law.refl s₄, rfl, law.dict.mono _ _ _ _ hproperties (law.trans _ _ _ h₂ h₃₄), rfl, rfl, rfl,
    rfl, law.option.mono _ _ _ _ hmetadata h₃₄, law.option.mono _ _ _ _ hcreationPolicy h₄,
    hupdatePolicy⟩

theorem mapOutput (law : StateLaw follows R) (h : ∀ path o s, Keeps follows R o (f path o) s)
    (out : Output) (s : σ) :
    Keeps follows (fun s => Output.Related (R s)) out (out.mapOperands f) s := by
  refine law.bind (h "Value" out.value s) fun value s₁ _ hvalue => ?_
  refine law.option.bind (law.mapStateOption (h "Export.Name") out.exportName s₁)
    fun exportName s₂ h₂ hexportName => ?_
  exact ⟨law.refl s₂, law.mono _ _ _ _ hvalue h₂, rfl, hexportName, rfl⟩

/-- A function that keeps to a law at every operand keeps to it at a template. -/
theorem mapOperands (law : StateLaw follows R) (h : ∀ path o s, Keeps follows R o (f path o) s)
    (t : Template) (s : σ) :
    Keeps follows (fun s => Template.Related (R s)) t (t.mapOperands f) s := by
  -- Conditions, then resources, then outputs; each result is carried to the last state.
  refine law.dict.bind (law.mapDict (fun k => h ("Conditions." ++ k)) t.conditions s)
    fun conditions s₁ _ hconditions => ?_
  refine law.resource.dict.bind (law.resource.mapDict (fun k r => law.mapResource
    (fun path => h ("Resources." ++ k ++ "." ++ path)) r) t.resources s₁)
    fun resources s₂ h₂ hresources => ?_
  refine law.output.dict.bind (law.output.mapDict (fun k out => law.mapOutput
    (fun path => h ("Outputs." ++ k ++ "." ++ path)) out) t.outputs s₂)
    fun outputs s₃ h₃ houtputs => ?_
  exact ⟨law.refl s₃, rfl, rfl, rfl, rfl,
    law.dict.mono _ _ _ _ hconditions (law.trans _ _ _ h₂ h₃),
    law.resource.dict.mono _ _ _ _ hresources h₃, houtputs⟩

end Operands

end StateLaw

/-! ## The state after all operands -/

/-- A function that threads a state through a dictionary visits the entries in order. -/
theorem Dict.mapState_state (f : String → α → StateM σ β) (d : Dict α) (s : σ) :
    (d.mapState f s).2 = d.entries.foldl (fun s e => (f e.1 e.2 s).2) s := by
  have hentries (es : List (String × α)) (s : σ) :
      (Entries.mapState f es s).2 = es.foldl (fun s e => (f e.1 e.2 s).2) s := by
    induction es generalizing s with
    | nil => rfl
    | cons e es ih => exact ih _
  exact hentries d.entries s

theorem mapStateOption_state (f : α → StateM σ β) (a : Option α) (s : σ) :
    (mapStateOption f a s).2 = a.toList.foldl (fun s x => (f x s).2) s := by
  cases a <;> rfl

/-- A function is applied to the operands of a resource in their order. -/
theorem Resource.mapOperands_state (f : String → Operand → StateM σ Operand) (r : Resource)
    (s : σ) :
    (r.mapOperands f s).2 = r.operands.foldl (fun s e => (f e.1 e.2 s).2) s := by
  simp only [operands, List.foldl_append, List.foldl_map]
  rw [← Dict.mapState_state (fun name o => f ("Properties." ++ name) o),
    ← mapStateOption_state (f "Metadata"), ← mapStateOption_state (f "CreationPolicy"),
    ← mapStateOption_state (f "UpdatePolicy")]
  rfl

/-- A function is applied to the operands of an output in their order. -/
theorem Output.mapOperands_state (f : String → Operand → StateM σ Operand) (out : Output) (s : σ) :
    (out.mapOperands f s).2 = out.operands.foldl (fun s e => (f e.1 e.2 s).2) s := by
  simp only [operands, List.foldl_cons, List.foldl_map]
  rw [← mapStateOption_state (f "Export.Name")]
  rfl

/-- A function is applied to the operands in their order. -/
theorem Template.mapOperands_state (f : String → Operand → StateM σ Operand) (t : Template)
    (s : σ) :
    (t.mapOperands f s).2 = t.operands.foldl (fun s e => (f e.1 e.2 s).2) s := by
  simp only [operands, List.foldl_append, List.foldl_map, List.foldl_flatMap]
  -- An entity is folded over as a whole, which is one step of the fold over its section.
  have hresource (k : String) (r : Resource) (s : σ) :
      r.operands.foldl (fun s e => (f ("Resources." ++ k ++ "." ++ e.1) e.2 s).2) s =
        (r.mapOperands (fun path => f ("Resources." ++ k ++ "." ++ path)) s).2 :=
    (Resource.mapOperands_state (fun path => f ("Resources." ++ k ++ "." ++ path)) r s).symm
  have houtput (k : String) (out : Output) (s : σ) :
      out.operands.foldl (fun s e => (f ("Outputs." ++ k ++ "." ++ e.1) e.2 s).2) s =
        (out.mapOperands (fun path => f ("Outputs." ++ k ++ "." ++ path)) s).2 :=
    (Output.mapOperands_state (fun path => f ("Outputs." ++ k ++ "." ++ path)) out s).symm
  simp only [hresource, houtput]
  rw [← Dict.mapState_state (fun name o => f ("Conditions." ++ name) o),
    ← Dict.mapState_state (fun name (r : Resource) =>
      r.mapOperands fun path => f ("Resources." ++ name ++ "." ++ path)),
    ← Dict.mapState_state (fun name (out : Output) =>
      out.mapOperands fun path => f ("Outputs." ++ name ++ "." ++ path))]
  rfl

/-! ## Functions side by side -/

/-- Computations that give the same value from related states, and leave related states behind. -/
def Lockstep (I : σ → τ → Prop) (x : StateM σ α) (y : StateM τ α) : Prop :=
  ∀ s s', I s s' → (x s).1 = (y s').1 ∧ I (x s).2 (y s').2

namespace Lockstep

variable {I : σ → τ → Prop}

theorem pure (a : α) : Lockstep I (pure a) (pure a) := fun _ _ h => ⟨rfl, h⟩

/-- Computations in step, one after the other, are in step. -/
theorem bind {x : StateM σ α} {y : StateM τ α} {f : α → StateM σ β} {g : α → StateM τ β}
    (hx : Lockstep I x y) (hf : ∀ a, Lockstep I (f a) (g a)) :
    Lockstep I (x >>= f) (y >>= g) := by
  intro s s' h
  obtain ⟨hvalue, hstate⟩ := hx s s' h
  -- The second computations start from related states, with the same value.
  have hrest := hf (x s).1 _ _ hstate
  change (f (x s).1 (x s).2).1 = (g (y s').1 (y s').2).1 ∧
    I (f (x s).1 (x s).2).2 (g (y s').1 (y s').2).2
  rwa [← hvalue]

/-- Two functions that agree on the entries of a dictionary agree on the dictionary. -/
theorem mapDict {f : String → α → StateM σ β} {g : String → α → StateM τ β} {d : Dict α}
    (h : ∀ e ∈ d.entries, Lockstep I (f e.1 e.2) (g e.1 e.2)) :
    Lockstep I (d.mapState f) (d.mapState g) := by
  -- By induction on the entries; a dictionary differs from them only by its invariant.
  have hentries (es : List (String × α)) (hes : ∀ e ∈ es, Lockstep I (f e.1 e.2) (g e.1 e.2)) :
      Lockstep I (Entries.mapState f es) (Entries.mapState g es) := by
    induction es with
    | nil => exact .pure []
    | cons e es ih =>
      exact (hes e List.mem_cons_self).bind fun b =>
        (ih fun e he => hes e (List.mem_cons_of_mem _ he)).bind fun bs => .pure ((e.1, b) :: bs)
  intro s s' hs
  obtain ⟨hvalue, hstate⟩ := hentries d.entries h s s' hs
  exact ⟨Dict.ext hvalue, hstate⟩

theorem mapStateOption {f : α → StateM σ β} {g : α → StateM τ β} {a : Option α}
    (h : ∀ x ∈ a.toList, Lockstep I (f x) (g x)) :
    Lockstep I (mapStateOption f a) (mapStateOption g a) := by
  cases a with
  | none => exact .pure none
  | some x => exact (h x (List.mem_singleton_self x)).bind fun b => .pure (some b)

variable {f : String → Operand → StateM σ Operand} {g : String → Operand → StateM τ Operand}

theorem mapResource {r : Resource} (h : ∀ e ∈ r.operands, Lockstep I (f e.1 e.2) (g e.1 e.2)) :
    Lockstep I (r.mapOperands f) (r.mapOperands g) := by
  simp only [Resource.operands, List.forall_mem_append, List.forall_mem_map] at h
  obtain ⟨⟨⟨hproperties, hmetadata⟩, hcreation⟩, hupdate⟩ := h
  exact (mapDict hproperties).bind fun _ => (mapStateOption hmetadata).bind fun _ =>
    (mapStateOption hcreation).bind fun _ => (mapStateOption hupdate).bind fun _ => .pure _

theorem mapOutput {out : Output} (h : ∀ e ∈ out.operands, Lockstep I (f e.1 e.2) (g e.1 e.2)) :
    Lockstep I (out.mapOperands f) (out.mapOperands g) := by
  simp only [Output.operands, List.forall_mem_cons, List.forall_mem_map] at h
  exact h.1.bind fun _ => (mapStateOption h.2).bind fun _ => .pure _

/-- Two functions that agree on the operands of a template agree on the template. -/
theorem mapOperands {t : Template} (h : ∀ e ∈ t.operands, Lockstep I (f e.1 e.2) (g e.1 e.2)) :
    Lockstep I (t.mapOperands f) (t.mapOperands g) := by
  simp only [Template.operands, List.forall_mem_append, List.forall_mem_map,
    List.forall_mem_flatMap] at h
  obtain ⟨⟨hconditions, hresources⟩, houtputs⟩ := h
  exact (mapDict hconditions).bind fun _ =>
    (mapDict fun e he => mapResource (hresources e he)).bind fun _ =>
      (mapDict fun e he => mapOutput (houtputs e he)).bind fun _ => .pure _

end Lockstep

end StackTemplate
