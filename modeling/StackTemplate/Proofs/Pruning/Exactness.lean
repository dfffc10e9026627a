import StackTemplate.Analysis
import StackTemplate.Proofs.Pruning.Deciding
import StackTemplate.Proofs.Pruning.Excluding

/-!
# Pruning, exactly or not at all

Pruning looks up every governing condition before it removes anything. Where one of them is absent
from the table it fails, and a template and a graph that are changed in place stay as they are.
Otherwise it removes what is governed by a false condition, and nothing else; then no condition that
governs what remains is false, so pruning again finds nothing to remove. The table of an analysis
has every condition of its template, which declares all its governing conditions, or it would have
no graph.

* `Pruning.removed_eq_ok_iff` : the look-ups, and the names that they find.
* `Pruning.inPlace` : pruning of a template and a graph that are a state.
* `Pruning.Exact` : what is removed, and what remains.
* `Pruning.prune_allOrNothing` : pruning fails and changes nothing, or is exact.
-/

namespace StackTemplate

/-! ## Look-ups -/

namespace Pruning

variable {table : ConditionTable}

/-- A table says that a governing condition is false. -/
def excludes (table : ConditionTable) (condition? : Option String) : Bool :=
  condition?.any fun condition => Entries.find? table condition = some false

/-- A table has a governing condition, where there is one. -/
def Covers (table : ConditionTable) (condition? : Option String) : Prop :=
  ∀ condition, condition? = some condition → Entries.find? table condition ≠ none

variable {name : String} {condition? : Option String} {es : List (String × Option String)}

/-- A governing condition that is absent ends the pass. -/
theorem removed_of_not_covers (h : ¬ Covers table condition?) :
    ∃ e, removed table ((name, condition?) :: es) = .error e := by
  simp only [Covers, not_forall, not_not, exists_prop] at h
  rcases h with ⟨condition, rfl, hfind⟩
  exact ⟨_, by rw [removed, hfind]⟩

/-- A false governing condition lists the name. -/
theorem removed_of_excludes (h : excludes table condition? = true) :
    removed table ((name, condition?) :: es) = (removed table es).map (name :: ·) := by
  cases condition? with
  | none => cases h
  | some condition =>
    have hfalse : Entries.find? table condition = some false := by simpa [excludes] using h
    rw [removed, hfalse]

/-- Any other answer passes the name over. -/
theorem removed_of_covers (hcovers : Covers table condition?)
    (h : excludes table condition? = false) :
    removed table ((name, condition?) :: es) = removed table es := by
  cases condition? with
  | none => rw [removed]
  | some condition =>
    rw [removed]
    cases hfind : Entries.find? table condition with
    | none => exact absurd hfind (hcovers condition rfl)
    | some b =>
      cases b with
      | true => rfl
      | false => simp [excludes, hfind] at h

/-- The names whose governing conditions are false are found, in their order, exactly if the table
has all governing conditions. -/
theorem removed_eq_ok_iff {names : List String} :
    removed table es = .ok names ↔
      (∀ e ∈ es, Covers table e.2) ∧
        names = (es.filter fun e => excludes table e.2).map Prod.fst := by
  induction es generalizing names with
  | nil => simp [removed, eq_comm]
  | cons e es ih =>
    rcases e with ⟨name, condition?⟩
    rw [List.forall_mem_cons]
    -- The first entry without an answer ends the pass; before it, only what is excluded is listed.
    by_cases hcovers : Covers table condition?
    · cases hexcludes : excludes table condition? with
      | false =>
        rw [removed_of_covers hcovers hexcludes, ih, List.filter_cons_of_neg (by simp [hexcludes])]
        simp only [hcovers, true_and]
      | true =>
        rw [removed_of_excludes hexcludes, List.filter_cons_of_pos (by simp [hexcludes]),
          List.map_cons]
        simp only [hcovers, true_and]
        constructor
        · intro h
          cases hrest : removed table es with
          | error e =>
            rw [hrest] at h
            cases h
          | ok rest =>
            rw [hrest] at h
            cases h
            rcases ih.1 hrest with ⟨hcovered, rfl⟩
            exact ⟨hcovered, rfl⟩
        · rintro ⟨hcovered, rfl⟩
          rw [ih.2 ⟨hcovered, rfl⟩]
          rfl
    · obtain ⟨e, he⟩ : ∃ e, removed table ((name, condition?) :: es) = .error e :=
        removed_of_not_covers hcovers
      simp [he, hcovers]

end Pruning

namespace Template

/-- A table has the governing conditions of all resources and outputs. -/
def Governed (t : Template) (table : ConditionTable) : Prop :=
  (∀ e ∈ t.resources.entries, Pruning.Covers table e.2.condition) ∧
    ∀ e ∈ t.outputs.entries, Pruning.Covers table e.2.condition

/-- A table has the governing conditions of all entities. -/
theorem governed_iff {t : Template} {table : ConditionTable} : t.Governed table ↔
    ∀ v condition, t.governingAt v = some condition → Entries.find? table condition ≠ none := by
  constructor
  · rintro ⟨hresources, houtputs⟩ ⟨kind, name⟩ condition hgoverning
    cases kind with
    | resource =>
      rcases Option.bind_eq_some_iff.1 hgoverning with ⟨r, hr, hcondition⟩
      exact hresources (name, r) (Dict.find?_eq_some_iff.1 hr) condition hcondition
    | output =>
      rcases Option.bind_eq_some_iff.1 hgoverning with ⟨out, hout, hcondition⟩
      exact houtputs (name, out) (Dict.find?_eq_some_iff.1 hout) condition hcondition
    | _ => cases hgoverning
  · intro h
    constructor
    · intro e he condition hcondition
      apply h ⟨.resource, e.1⟩ condition
      exact Option.bind_eq_some_iff.2 ⟨e.2, Dict.find?_eq_some_iff.2 he, hcondition⟩
    · intro e he condition hcondition
      apply h ⟨.output, e.1⟩ condition
      exact Option.bind_eq_some_iff.2 ⟨e.2, Dict.find?_eq_some_iff.2 he, hcondition⟩

end Template

/-! ## Pruning -/

namespace Pruning

variable {t : Template} {g : DependencyGraph} {table : ConditionTable} {p : Pruning}

/-- The resources that pruning removes. -/
def falseResources (t : Template) (table : ConditionTable) : List String :=
  (t.resources.entries.filter fun e => excludes table e.2.condition).map Prod.fst

/-- The outputs that pruning removes. -/
def falseOutputs (t : Template) (table : ConditionTable) : List String :=
  (t.outputs.entries.filter fun e => excludes table e.2.condition).map Prod.fst

/-- The look-ups among the entities of one kind. -/
theorem removed_entries_eq_ok_iff {α : Type} {es : List (String × α)}
    {condition : α → Option String} {names : List String} :
    removed table (es.map fun e => (e.1, condition e.2)) = .ok names ↔
      (∀ e ∈ es, Covers table (condition e.2)) ∧
        names = (es.filter fun e => excludes table (condition e.2)).map Prod.fst := by
  rw [removed_eq_ok_iff, List.forall_mem_map, List.filter_map, List.map_map]
  rfl

/-- Pruning succeeds exactly if the table has all governing conditions. -/
theorem prune_eq_ok_iff : prune t g table = .ok p ↔
    t.Governed table ∧ p =
      ⟨t.exclude (falseResources t table) (falseOutputs t table),
        g.removeVertices (excludedVertices (falseResources t table) (falseOutputs t table)),
        falseResources t table, falseOutputs t table⟩ := by
  unfold prune Template.Governed
  constructor
  · intro h
    cases hresources : removed table (t.resources.entries.map fun e => (e.1, e.2.condition)) with
    | error e =>
      rw [hresources] at h
      cases h
    | ok resources =>
      cases houtputs : removed table (t.outputs.entries.map fun e => (e.1, e.2.condition)) with
      | error e =>
        rw [hresources, houtputs] at h
        cases h
      | ok outputs =>
        rw [hresources, houtputs] at h
        rcases removed_entries_eq_ok_iff.1 hresources with ⟨hcovers, rfl⟩
        rcases removed_entries_eq_ok_iff.1 houtputs with ⟨hcovers', rfl⟩
        cases h
        exact ⟨⟨hcovers, hcovers'⟩, rfl⟩
  · rintro ⟨⟨hresources, houtputs⟩, rfl⟩
    rw [removed_entries_eq_ok_iff.2 ⟨hresources, rfl⟩, removed_entries_eq_ok_iff.2 ⟨houtputs, rfl⟩]
    rfl

/-- Pruning succeeds for some outcome exactly if the table has all governing conditions. -/
theorem exists_prune_iff : (∃ p, prune t g table = .ok p) ↔ t.Governed table := by
  simp only [prune_eq_ok_iff, exists_and_left, exists_eq, and_true]

/-! ## Pruning in place -/

/-- Pruning of a template and a graph that are a state: every governing condition is looked up
before anything is removed, and nothing is touched where there is nothing to remove. -/
def inPlace (table : ConditionTable) :
    Eval (Template × DependencyGraph) (List String × List String) := do
  let (t, _) ← get
  let resources ← Eval.ofExcept
    (removed table (t.resources.entries.map fun (name, r) => (name, r.condition)))
  let outputs ← Eval.ofExcept
    (removed table (t.outputs.entries.map fun (name, o) => (name, o.condition)))
  if resources.isEmpty && outputs.isEmpty then return (resources, outputs)
  modify fun (t, g) => (t.exclude resources outputs, g)
  modify fun (t, g) => (t, g.removeVertices (excludedVertices resources outputs))
  return (resources, outputs)

/-- Pruning in place leaves the template and the graph that pruning gives, and those that were there
where pruning fails. -/
theorem answer_inPlace (hjoined : g.Joined) : (inPlace table).answer (t, g) =
    match prune t g table with
    | .ok p => (.ok (p.resources, p.outputs), (p.template, p.graph))
    | .error e => (.error e, (t, g)) := by
  unfold inPlace prune
  simp only [Eval.answer_bind, Eval.answer_get, Eval.answer_ofExcept]
  cases removed table (t.resources.entries.map fun e => (e.1, e.2.condition)) with
  | error e => rfl
  | ok resources =>
    cases removed table (t.outputs.entries.map fun e => (e.1, e.2.condition)) with
    | error e => rfl
    | ok outputs =>
      by_cases hempty : (resources.isEmpty && outputs.isEmpty) = true
      · -- Nothing is removed: the graph on all its vertices is the graph.
        obtain ⟨rfl, rfl⟩ : resources = [] ∧ outputs = [] := by simpa using hempty
        exact congrArg (fun g => (Except.ok ([], []), (t, g)))
          (DependencyGraph.removeVertices_nil hjoined).symm
      · simp only [if_neg hempty]
        rfl

/-! ## Exactness -/

/-- What a table says is removed, in the order of declaration, and everything else remains in its
order. -/
structure Exact (t : Template) (g : DependencyGraph) (table : ConditionTable) (p : Pruning) :
    Prop where
  resources : p.resources = falseResources t table
  outputs : p.outputs = falseOutputs t table
  resources_left : p.template.resources.entries =
    t.resources.entries.filter fun e => !excludes table e.2.condition
  outputs_left : p.template.outputs.entries =
    t.outputs.entries.filter fun e => !excludes table e.2.condition
  others_left : p.template =
    { t with resources := p.template.resources, outputs := p.template.outputs }
  vertices_left : p.graph.vertices =
    g.vertices.filter (· ∉ excludedVertices p.resources p.outputs)
  edges_left : p.graph.edges = g.edges.filter fun e =>
    e.source ∉ excludedVertices p.resources p.outputs ∧
      e.target ∉ excludedVertices p.resources p.outputs

/-- An entry goes by its name exactly if it is selected: names are distinct. -/
theorem filter_not_mem_names {α : Type} (d : Dict α) (selected : α → Bool) :
    (d.entries.filter fun e => e.1 ∉ (d.entries.filter fun e => selected e.2).map Prod.fst) =
      d.entries.filter fun e => !selected e.2 := by
  apply List.filter_congr
  intro e he
  have hmem : e.1 ∈ (d.entries.filter fun e => selected e.2).map Prod.fst ↔
      selected e.2 = true := by
    constructor
    · -- The name is that of a selected entry, which is the only one with this name.
      intro hin
      rcases List.mem_map.1 hin with ⟨e', he', hname⟩
      rcases List.mem_filter.1 he' with ⟨hentry, hselected⟩
      have hfind := Dict.find?_eq_some_iff.2 (show (e.1, e'.2) ∈ d.entries from hname ▸ hentry)
      rw [Dict.find?_eq_some_iff.2 he] at hfind
      rwa [Option.some.inj hfind]
    · intro hselected
      exact List.mem_map_of_mem (List.mem_filter.2 ⟨he, hselected⟩)
  simp [hmem]

/-- What pruning leaves is exact. -/
theorem exact_of_prune (hjoined : g.Joined) (h : prune t g table = .ok p) : p.Exact t g table := by
  rcases prune_eq_ok_iff.1 h with ⟨-, rfl⟩
  have hresources := filter_not_mem_names t.resources fun r => excludes table r.condition
  have houtputs := filter_not_mem_names t.outputs fun out => excludes table out.condition
  exact
    { resources := rfl
      outputs := rfl
      resources_left := (Dict.entries_foldl_erase t.resources _).trans hresources
      outputs_left := (Dict.entries_foldl_erase t.outputs _).trans houtputs
      others_left := rfl
      vertices_left := rfl
      edges_left := DependencyGraph.edges_removeVertices hjoined _ }

/-- No condition that governs what remains is false, so pruning again removes nothing. -/
theorem prune_again (h : prune t g table = .ok p) (hexact : p.Exact t g table) :
    prune p.template p.graph table = .ok (keepAll p.template p.graph) := by
  rcases prune_eq_ok_iff.1 h with ⟨⟨hresources, houtputs⟩, hp⟩
  -- What remains is governed by conditions that were there before.
  have hgoverned : p.template.Governed table := by
    constructor
    · intro e he
      rw [hexact.resources_left] at he
      exact hresources e (List.mem_of_mem_filter he)
    · intro e he
      rw [hexact.outputs_left] at he
      exact houtputs e (List.mem_of_mem_filter he)
  -- What is left was selected by a condition that is not false, so nothing is selected again.
  have hnoResources : falseResources p.template table = [] := by
    rw [falseResources, hexact.resources_left, List.filter_filter]
    simp
  have hnoOutputs : falseOutputs p.template table = [] := by
    rw [falseOutputs, hexact.outputs_left, List.filter_filter]
    simp
  have hgraph : p.graph.Joined := by
    rw [hp]
    exact DependencyGraph.joined_removeVertices g _
  apply prune_eq_ok_iff.2
  refine ⟨hgoverned, ?_⟩
  rw [hnoResources, hnoOutputs]
  exact congrArg (fun g => Pruning.mk p.template g [] [])
    (DependencyGraph.removeVertices_nil hgraph).symm

end Pruning

/-! ## Analyses -/

namespace Template

variable {t : Template} {g : DependencyGraph} {table : ConditionTable}

/-- The table of a template has the conditions that the template declares. -/
theorem mem_keys_of_evaluateConditions (hgraph : t.dependencyGraph = .ok g) {settings : Settings}
    (h : (evaluateConditions g ⟨t, settings⟩ []).1 = .ok table) {name : String} :
    name ∈ Entries.keys table ↔ name ∈ t.conditions.keys := by
  -- There is a table, so there was an order.
  have hcircular : ¬ t.Circular := by
    intro hcircular
    rcases conditionOrder_of_circular hgraph hcircular with ⟨cycle, hcycle⟩
    have hrun := congrArg Prod.fst (evaluateConditions_of_cycle hcycle ⟨t, settings⟩ [])
    cases h.symm.trans hrun
  rcases conditionOrder_of_not_circular hgraph hcircular with ⟨names, hnames, -, hmem, -⟩
  have hvalid : Memo.Valid ⟨t, settings⟩ [] [] := ⟨.empty, by simp⟩
  have hrun := h.symm.trans (evaluateConditions_of_order hnames ⟨t, settings⟩ hvalid)
  cases htable : Scope.freshTable ⟨t, settings⟩ names with
  | error e =>
    rw [htable] at hrun
    cases hrun
  | ok table' =>
    rw [htable] at hrun
    cases hrun
    rw [(Scope.freshTable_eq_ok htable).1, hmem]

/-- Every governing condition of a template that has a graph is decided. -/
theorem governed_of_evaluateConditions (hgraph : t.dependencyGraph = .ok g) {settings : Settings}
    (h : (evaluateConditions g ⟨t, settings⟩ []).1 = .ok table) : t.Governed table := by
  rw [governed_iff]
  intro v condition hgoverning hfind
  rcases dependencyGraph_eq_ok.1 hgraph with ⟨hnames, hconnects, -⟩
  -- A template with a graph declares its governing conditions.
  have hdeclared := (admissible_iff.2 ⟨hnames, hconnects⟩).governing v condition hgoverning
  rw [← mem_keys_of_evaluateConditions hgraph h, ← Entries.find?_isSome_iff, hfind] at hdeclared
  cases hdeclared

end Template

namespace Pruning

variable {t : Template} {g : DependencyGraph} {table : ConditionTable}

/-- An analysis prunes with the table of all declared conditions, so pruning does not fail. -/
theorem exists_analyse {configuration : Configuration} {scope : Scope}
    (hexcludes : configuration.excludesConditional = true) (hgraph : t.dependencyGraph = .ok g)
    (hscope : t.scope configuration = .ok scope)
    (htable : (evaluateConditions g scope []).1 = .ok table) :
    ∃ p, prune t g table = .ok p ∧ t.analyse configuration = .ok ⟨table, p⟩ := by
  obtain ⟨settings, rfl⟩ : ∃ settings, scope = ⟨t, settings⟩ := by
    unfold Template.scope at hscope
    split at hscope
    · next settings _ =>
      cases hscope
      exact ⟨settings, rfl⟩
    · cases hscope
  -- The table of an analysis has every condition that governs something.
  have hgoverned := Template.governed_of_evaluateConditions hgraph htable
  rcases (exists_prune_iff (g := g)).2 hgoverned with ⟨p, hp⟩
  refine ⟨p, hp, ?_⟩
  unfold Template.analyse
  simp only [hgraph, hscope, htable, hexcludes, hp, Except.mapError, bind, Except.bind, if_true]
  rfl

/-- Pruning fails exactly if the governing condition of some resource or output is absent from the
table, and then changes nothing. Otherwise it removes exactly what is governed by a false condition,
and nothing when it is repeated. In an analysis it does not fail. -/
theorem prune_allOrNothing (hjoined : g.Joined) :
    ((∃ e, prune t g table = .error e) ↔
      ∃ v condition, t.governingAt v = some condition ∧ Entries.find? table condition = none) ∧
    (∀ e, prune t g table = .error e → (inPlace table).answer (t, g) = (.error e, (t, g))) ∧
    (∀ p, prune t g table = .ok p →
      (inPlace table).answer (t, g) = (.ok (p.resources, p.outputs), (p.template, p.graph)) ∧
      p.Exact t g table ∧
      prune p.template p.graph table = .ok (keepAll p.template p.graph)) ∧
    ∀ configuration scope, configuration.excludesConditional = true →
      t.dependencyGraph = .ok g → t.scope configuration = .ok scope →
      (evaluateConditions g scope []).1 = .ok table →
      ∃ p, prune t g table = .ok p ∧ t.analyse configuration = .ok ⟨table, p⟩ := by
  refine ⟨?_, ?_, ?_, fun _ _ => exists_analyse⟩
  · -- Pruning fails where the table is not complete, and only there.
    have hfails : (∃ e, prune t g table = .error e) ↔ ¬ t.Governed table := by
      rw [← exists_prune_iff (g := g)]
      cases prune t g table <;> simp
    rw [hfails, Template.governed_iff]
    simp only [not_forall, not_not, exists_prop]
  · intro e he
    rw [answer_inPlace hjoined, he]
  · intro p hp
    have hexact := exact_of_prune hjoined hp
    refine ⟨?_, hexact, prune_again hp hexact⟩
    rw [answer_inPlace hjoined, hp]

/-- A template in which a resource and an output are governed by one condition, and another resource
by none. -/
def governedQueue : Template :=
  { Template.empty with
    conditions := .ofList [("Live", .call (.equals (.string "a") (.string "b")))]
    resources :=
      ⟨[("Queue", { Resource.ofType "Service::Queue" with condition := some "Live" }),
        ("Topic", Resource.ofType "Service::Topic")], by decide⟩
    outputs :=
      ⟨[("Address",
        { Output.ofValue (.call (.ref "Queue")) with condition := some "Live" })], by decide⟩ }

/-- Where the condition is false, the resource and the output go and nothing is left to be removed;
where it is absent from the table, nothing is touched. -/
theorem governedQueue_allOrNothing : ∃ g, governedQueue.dependencyGraph = .ok g ∧ g.Joined ∧
    (∃ p, prune governedQueue g [("Live", false)] = .ok p ∧ p.resources = ["Queue"] ∧
      p.outputs = ["Address"] ∧ p.Exact governedQueue g [("Live", false)] ∧
      prune p.template p.graph [("Live", false)] = .ok (keepAll p.template p.graph)) ∧
    ∃ e, prune governedQueue g [] = .error e ∧
      (inPlace []).answer (governedQueue, g) = (.error e, (governedQueue, g)) := by
  obtain ⟨g, hgraph⟩ : ∃ g, governedQueue.dependencyGraph = .ok g := ⟨_, rfl⟩
  have hjoined := (DependencyGraph.wellFormed_of_dependencyGraph hgraph).joined
  refine ⟨g, hgraph, hjoined, ?_, ?_⟩
  · obtain ⟨p, hp, hresources, houtputs⟩ : ∃ p, prune governedQueue g [("Live", false)] = .ok p ∧
        p.resources = ["Queue"] ∧ p.outputs = ["Address"] := ⟨_, rfl, rfl, rfl⟩
    have hexact := ((prune_allOrNothing hjoined).2.2.1 p hp).2
    exact ⟨p, hp, hresources, houtputs, hexact⟩
  · have habsent : ∃ v condition, governedQueue.governingAt v = some condition ∧
        Entries.find? ([] : ConditionTable) condition = none :=
      ⟨⟨.resource, "Queue"⟩, "Live", rfl, rfl⟩
    rcases (prune_allOrNothing hjoined).1.2 habsent with ⟨e, he⟩
    exact ⟨e, he, (prune_allOrNothing hjoined).2.1 e he⟩

end Pruning

end StackTemplate
