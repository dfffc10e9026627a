import StackTemplate.Proofs.Elaboration.Precedence
import StackTemplate.Pruning

/-!
# Templates without some entities

A template without some resources and outputs has the other entries of these sections, in their
order, and the dependencies of the other entities. A dependency on a resource that is gone resolves
to nothing. In particular a `Ref` to it does not find anything else under its name: a resource that
was read from a document has a name of letters and digits, which no pseudo-parameter has.

* `Pruning.prune_eq_ok` : the template and the graph that pruning leaves.
* `Template.resources_apart` : a resource that was read is no namesake of a pseudo-parameter.
* `Template.resolve_exclude` : what dependencies resolve to where some entities are gone.
* `Template.filterMap_edge?_exclude` : the edges of the dependencies that remain.
-/

namespace StackTemplate

/-! ## What is gone -/

/-- The vertices of some resources and outputs. -/
def excludedVertices (resources outputs : List String) : List Vertex :=
  resources.map (⟨.resource, ·⟩) ++ outputs.map (⟨.output, ·⟩)

section Excluded

variable {resources outputs : List String} {name : String}

@[simp] theorem resource_mem_excludedVertices :
    (⟨.resource, name⟩ : Vertex) ∈ excludedVertices resources outputs ↔ name ∈ resources := by
  simp [excludedVertices]

@[simp] theorem output_mem_excludedVertices :
    (⟨.output, name⟩ : Vertex) ∈ excludedVertices resources outputs ↔ name ∈ outputs := by
  simp [excludedVertices]

/-- Vertices of other kinds than resources and outputs are never excluded. -/
theorem not_mem_excludedVertices {v : Vertex} (hresource : v.kind ≠ .resource)
    (houtput : v.kind ≠ .output) : v ∉ excludedVertices resources outputs := by
  intro hv
  rcases List.mem_append.1 hv with hv | hv <;> obtain ⟨name, -, rfl⟩ := List.mem_map.1 hv
  · exact hresource rfl
  · exact houtput rfl

end Excluded

/-! ## Graphs without some vertices -/

namespace DependencyGraph

/-- The edges of a graph lead from vertices of the graph to vertices of the graph. -/
def Joined (g : DependencyGraph) : Prop :=
  ∀ e ∈ g.edges, e.source ∈ g.vertices ∧ e.target ∈ g.vertices

variable {g : DependencyGraph}

theorem WellFormed.joined (h : g.WellFormed) : g.Joined := fun e he =>
  ⟨h.source_mem e he, h.target_mem e he⟩

/-- Edges that lost an end are removed too, so the graph that is left is joined again. -/
theorem joined_removeVertices (g : DependencyGraph) (vs : List Vertex) :
    (g.removeVertices vs).Joined := by
  intro e he
  have hends := (List.mem_filter.1 he).2
  rw [Bool.and_eq_true, decide_eq_true_iff, decide_eq_true_iff] at hends
  exact hends

/-- The edges that remain are those that touch none of the vertices that are gone. -/
theorem edges_removeVertices (h : g.Joined) (vs : List Vertex) :
    (g.removeVertices vs).edges = g.edges.filter fun e => e.source ∉ vs ∧ e.target ∉ vs := by
  apply List.filter_congr
  intro e he
  rcases h e he with ⟨hsource, htarget⟩
  simp [List.mem_filter, hsource, htarget]

theorem removeVertices_nil (h : g.Joined) : g.removeVertices [] = g := by
  have hvertices : (g.removeVertices []).vertices = g.vertices :=
    List.filter_eq_self.2 fun _ _ => rfl
  have hedges : (g.removeVertices []).edges = g.edges := by
    rw [edges_removeVertices h]
    exact List.filter_eq_self.2 fun _ _ => rfl
  exact congrArg₂ Digraph.mk hvertices hedges

end DependencyGraph

/-- Pruning excludes the same entities from the template and from the graph. -/
theorem Pruning.prune_eq_ok {t : Template} {g : DependencyGraph} {table : ConditionTable}
    {p : Pruning} (h : Pruning.prune t g table = .ok p) :
    p.template = t.exclude p.resources p.outputs ∧
      p.graph = g.removeVertices (excludedVertices p.resources p.outputs) := by
  unfold Pruning.prune at h
  cases hresources : removed table (t.resources.entries.map fun e => (e.1, e.2.condition)) with
  | error e =>
    rw [hresources] at h
    cases h
  | ok resources =>
    cases houtputs : removed table (t.outputs.entries.map fun e => (e.1, e.2.condition)) with
    | error e =>
      rw [hresources, houtputs] at h
      cases h
    | ok outputs =>
      rw [hresources, houtputs] at h
      cases h
      exact ⟨rfl, rfl⟩

/-! ## Names of resources -/

/-- A name of letters and digits is that of no pseudo-parameter. -/
theorem PseudoParameter.ofName?_eq_none {name : String} (h : name.toList.all Char.isAlphanum = true) :
    ofName? name = none := by
  unfold ofName?
  rw [List.find?_eq_none]
  intro p _ hp
  obtain rfl : p.name = name := of_decide_eq_true hp
  -- Every one of these names has colons.
  cases p <;> revert h <;> decide

namespace Template

open Document

variable {document : Node} {t : Template} {name : String}

/-- No resource of a template that was read has the name of a pseudo-parameter. -/
theorem resources_apart (hparse : parseDocument document = .ok t) (hname : name ∈ t.resources.keys) :
    PseudoParameter.ofName? name = none := by
  have hdirect := ofDocumentDirectly_of_ofDocument (parseDocument_eq_ok.1 hparse)
  obtain ⟨root, -, hread⟩ := exists_readDirectly hdirect
  -- Nothing is asked of the resources themselves here, only of their names.
  have hsection : SectionWritable .resources (fun _ => True) t.resources :=
    sectionWritable_of_attemptSection hread.resources fun _ _ _ _ => trivial
  have hlogical := hsection.names name hname
  apply PseudoParameter.ofName?_eq_none
  unfold logicalName at hlogical
  split at hlogical
  · cases hlogical
  · next text htext =>
    obtain rfl : name = text := by simpa [Node.string?, Node.untagged] using htext
    split at hlogical
    · next hall => exact hall.2
    · cases hlogical

/-! ## What remains -/

variable (resources outputs : List String)

theorem keys_resources_exclude :
    (t.exclude resources outputs).resources.keys = t.resources.keys.filter (· ∉ resources) :=
  Dict.keys_foldl_erase t.resources resources

theorem keys_outputs_exclude :
    (t.exclude resources outputs).outputs.keys = t.outputs.keys.filter (· ∉ outputs) :=
  Dict.keys_foldl_erase t.outputs outputs

/-- The operands of the entities that remain are operands of the template. -/
theorem mem_operands_of_exclude {e : String × Operand}
    (h : e ∈ (t.exclude resources outputs).operands) : e ∈ t.operands := by
  simp only [operands, exclude, Dict.entries_foldl_erase, List.mem_append, List.mem_flatMap,
    List.mem_filter] at h ⊢
  rcases h with (h | ⟨x, ⟨hx, -⟩, he⟩) | ⟨x, ⟨hx, -⟩, he⟩
  · exact .inl (.inl h)
  · exact .inl (.inr ⟨x, hx, he⟩)
  · exact .inr ⟨x, hx, he⟩

/-- What a template declares without some entities, in the order of before. -/
theorem declaredVertices_exclude : (t.exclude resources outputs).declaredVertices =
    t.declaredVertices.filter (· ∉ excludedVertices resources outputs) := by
  have hkept (kind : EntityKind) (keys : List String) (hresource : kind ≠ .resource)
      (houtput : kind ≠ .output) :
      (keys.map (Vertex.mk kind)).filter (· ∉ excludedVertices resources outputs) =
        keys.map (Vertex.mk kind) := by
    rw [List.filter_eq_self]
    intro v hv
    obtain ⟨name, -, rfl⟩ := List.mem_map.1 hv
    exact decide_eq_true (not_mem_excludedVertices hresource houtput)
  unfold declaredVertices
  rw [keys_resources_exclude, keys_outputs_exclude]
  simp only [List.filter_append, hkept _ _ (show EntityKind.parameter ≠ .resource by decide)
    (by decide), hkept _ _ (show EntityKind.condition ≠ .resource by decide) (by decide),
    List.filter_map, exclude, Function.comp_def, resource_mem_excludedVertices,
    output_mem_excludedVertices]

/-- Members that come from the parts that are kept. -/
theorem filter_flatMap_eq {α β : Type} {xs : List α} {f : α → List β} {keep : α → Bool}
    {keep' : β → Bool} (h : ∀ x ∈ xs, ∀ y ∈ f x, keep' y = keep x) :
    (xs.flatMap f).filter keep' = (xs.filter keep).flatMap f := by
  induction xs with
  | nil => rfl
  | cons x xs ih =>
    have hx := h x List.mem_cons_self
    rw [List.flatMap_cons, List.filter_append, ih fun z hz => h z (List.mem_cons_of_mem x hz)]
    cases hkeep : keep x with
    | true =>
      rw [List.filter_cons_of_pos hkeep, List.flatMap_cons, List.filter_eq_self.2]
      intro y hy
      rw [hx y hy, hkeep]
    | false =>
      rw [List.filter_cons_of_neg (by simp [hkeep]), List.filter_eq_nil_iff.2, List.nil_append]
      intro y hy
      simp [hx y hy, hkeep]

/-- The dependencies that remain are those of the entities that remain. -/
theorem dependencies_exclude : (t.exclude resources outputs).dependencies =
    t.dependencies.filter fun x => x.1 ∉ excludedVertices resources outputs := by
  unfold dependencies
  simp only [exclude, Dict.entries_foldl_erase, List.filter_append]
  congr 1
  · congr 1
    · symm
      rw [List.filter_eq_self]
      intro x hx
      -- What depends here is a condition, and none of these goes.
      obtain ⟨e, -, hx⟩ := List.mem_flatMap.1 hx
      obtain ⟨r, -, rfl⟩ := List.mem_map.1 hx
      exact decide_eq_true (not_mem_excludedVertices (by simp) (by simp))
    · -- All dependencies of an entity have it as their source, so they stay or go together.
      symm
      apply filter_flatMap_eq
      intro e _ x hx
      obtain ⟨d, -, rfl⟩ := List.mem_map.1 hx
      simp
  · symm
    apply filter_flatMap_eq
    intro e _ x hx
    obtain ⟨d, -, rfl⟩ := List.mem_map.1 hx
    simp

/-! ## What dependencies lead to -/

/-- A resource that is gone is found under its name no more. -/
theorem resource?_exclude : Dependency.resource? (t.exclude resources outputs) name =
    (Dependency.resource? t name).filter (· ∉ excludedVertices resources outputs) := by
  unfold Dependency.resource?
  simp only [Dict.contains_iff, keys_resources_exclude, List.mem_filter]
  by_cases hdeclared : name ∈ t.resources.keys
  · by_cases hgone : name ∈ resources <;> simp [hdeclared, hgone, Option.filter_some]
  · simp [hdeclared]

/-- Every condition is still found. -/
theorem condition?_exclude : Dependency.condition? (t.exclude resources outputs) name =
    (Dependency.condition? t name).filter (· ∉ excludedVertices resources outputs) := by
  have hcondition : (⟨.condition, name⟩ : Vertex) ∉ excludedVertices resources outputs :=
    not_mem_excludedVertices nofun nofun
  have hsame : Dependency.condition? (t.exclude resources outputs) name =
      Dependency.condition? t name := rfl
  rw [hsame]
  unfold Dependency.condition?
  split
  · simp [hcondition, Option.filter_some]
  · rfl

variable (hapart : ∀ name ∈ t.resources.keys, PseudoParameter.ofName? name = none)
include hapart

/-- A name means what it meant, or nothing if it was that of a resource that is gone. -/
theorem resolveName_exclude_eq : (t.exclude resources outputs).resolveName name =
    if t.resolveName name = some .resource ∧ name ∈ resources then none else t.resolveName name := by
  have hparameters : (t.exclude resources outputs).parameters = t.parameters := rfl
  simp only [resolveName, hparameters, Dict.contains_iff, keys_resources_exclude, List.mem_filter]
  by_cases hparameter : name ∈ t.parameters.keys
  · simp [hparameter]
  · by_cases hresource : name ∈ t.resources.keys
    · by_cases hgone : name ∈ resources <;> simp [hparameter, hresource, hgone, hapart name hresource]
    · by_cases hpseudo : (PseudoParameter.ofName? name).isSome = true <;>
        simp [hparameter, hresource, hpseudo]

/-- A dependency leads to what it led to, unless that is gone. -/
theorem resolve_exclude (d : Dependency) : d.resolve (t.exclude resources outputs) =
    (d.resolve t).filter fun y => y.1 ∉ excludedVertices resources outputs := by
  cases d with
  | reference r =>
    cases r with
    | ref name =>
      have hparameter : (⟨.parameter, name⟩ : Vertex) ∉ excludedVertices resources outputs :=
        not_mem_excludedVertices nofun nofun
      have hpseudo : (⟨.pseudoParameter, name⟩ : Vertex) ∉ excludedVertices resources outputs :=
        not_mem_excludedVertices nofun nofun
      simp only [Dependency.resolve, resolveName_exclude_eq resources outputs hapart]
      cases hkind : t.resolveName name with
      | none => simp
      | some kind =>
        cases kind with
        -- Of the kinds that a name can have, only this one is ever excluded.
        | resource =>
          by_cases hgone : name ∈ resources <;> simp [hgone, Option.filter_some]
        | _ => simp [hparameter, hpseudo, Option.filter_some]
    | getAtt name attributeName =>
      simp only [Dependency.resolve, resource?_exclude, Option.filter_map]
      rfl
    | condition name =>
      simp only [Dependency.resolve, condition?_exclude, Option.filter_map]
      rfl
  | dependsOn name =>
    simp only [Dependency.resolve, resource?_exclude, Option.filter_map]
    rfl
  | governing name =>
    simp only [Dependency.resolve, condition?_exclude, Option.filter_map]
    rfl

/-- The edge of a dependency is there unless what it leads to is gone. -/
theorem edge?_exclude (x : Vertex × Dependency) : (t.exclude resources outputs).edge? x =
    (t.edge? x).filter fun e => e.target ∉ excludedVertices resources outputs := by
  unfold edge?
  rw [resolve_exclude resources outputs hapart, Option.filter_map]
  rfl

/-- The edges of the dependencies that remain are those between entities that remain. -/
theorem filterMap_edge?_exclude :
    (t.exclude resources outputs).dependencies.filterMap (t.exclude resources outputs).edge? =
      (t.dependencies.filterMap t.edge?).filter fun e =>
        e.source ∉ excludedVertices resources outputs ∧
          e.target ∉ excludedVertices resources outputs := by
  rw [dependencies_exclude, List.filterMap_filter, List.filter_filterMap]
  apply List.filterMap_congr
  intro x _
  rw [edge?_exclude resources outputs hapart]
  cases hedge : t.edge? x with
  | none => simp
  | some e =>
    -- An edge leaves the entity that has the dependency, so either end is tested on its own.
    have hsource : e.source = x.1 := (edge?_eq_some_iff.1 hedge).1
    by_cases hgone : x.1 ∈ excludedVertices resources outputs <;>
      simp [hgone, hsource, Option.filter_some]

end Template

end StackTemplate
