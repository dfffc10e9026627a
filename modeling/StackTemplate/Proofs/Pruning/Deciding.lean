import StackTemplate.Proofs.Dependency.Influence
import StackTemplate.Pruning

/-!
# Deciding all conditions

All conditions of a template are decided in dependency order, by one evaluator. A condition that an
expression mentions is the target of an edge, also where evaluation would not come to it. So where
the graph has an order of the conditions, no decision comes back to a condition in progress, and
since remembered truth values are those that are found afresh, neither the order nor the memo shows
in the table.

* `Template.Mentions` : the expression of one condition mentions another condition.
* `Scope.avoids_circular` : where conditions do not mention each other in a circle, none is
  circular.
* `evaluateConditions_of_order` : the table has what deciding each condition afresh gives.
* `Template.evaluateConditions_complete` : when there is a table, and what it lists.
-/

namespace StackTemplate

open Relation

/-! ## Mentions between conditions -/

namespace Template

/-- The expression of a condition mentions another condition, be it in a branch that is not
taken. -/
def Mentions (t : Template) (name other : String) : Prop :=
  ∃ o, t.conditions.find? name = some o ∧ .condition other ∈ o.mentions

/-- Some condition mentions itself, directly or through others. -/
def Circular (t : Template) : Prop := ∃ name, TransGen t.Mentions name name

variable {t : Template} {g : DependencyGraph}

/-- Between conditions, the edges of the graph are the mentions. -/
theorem points_iff_mentions (hgraph : t.dependencyGraph = .ok g) {name other : String} :
    g.Points ⟨.condition, name⟩ ⟨.condition, other⟩ ↔ t.Mentions name other := by
  constructor
  · intro hpoints
    obtain ⟨detail, hdepends⟩ := (exact_of_dependencyGraph hgraph).points_iff.1 hpoints
    cases hdepends with
    | condition ho hr hname =>
      exact ⟨_, mem_operandsAt_condition.1 ho, Operand.mem_references.1 hr⟩
    -- Conditions are not governed by conditions.
    | governing hc hname => simp [governingAt] at hc
  · rintro ⟨o, hfind, hmention⟩
    exact points_of_condition_mention hgraph (mem_operandsAt_condition.2 hfind) hmention

/-- The conditions can be ordered exactly if they do not mention each other in a circle. -/
theorem acyclic_iff_not_circular (hgraph : t.dependencyGraph = .ok g) :
    g.Acyclic (fun v => v.kind = .condition) ↔ ¬ t.Circular := by
  have hvertices := (exact_of_dependencyGraph hgraph).mem_vertices
  constructor
  · rintro hacyclic ⟨name, hreach⟩
    refine hacyclic ⟨.condition, name⟩ (hreach.lift (Vertex.mk .condition) ?_)
    -- A mention is an edge of the graph, hence one of the sub-graph of conditions.
    intro c c' hmentions
    have hpoints := (points_iff_mentions hgraph).2 hmentions
    have hwell := DependencyGraph.wellFormed_of_dependencyGraph hgraph
    obtain ⟨e, he, hsource, htarget⟩ := hpoints
    refine ⟨⟨?_, by simp⟩, ⟨?_, by simp⟩, e, he, hsource, htarget⟩
    · exact hsource ▸ hwell.source_mem e he
    · exact htarget ▸ hwell.target_mem e he
  · intro hcircular v hreach
    apply hcircular
    refine ⟨v.name, hreach.lift Vertex.name ?_⟩
    rintro ⟨kind, c⟩ ⟨kind', c'⟩ ⟨⟨-, hkind⟩, ⟨-, hkind'⟩, hpoints⟩
    obtain rfl : kind = .condition := of_decide_eq_true hkind
    obtain rfl : kind' = .condition := of_decide_eq_true hkind'
    exact (points_iff_mentions hgraph).1 hpoints

theorem conditionOrder_correct (hgraph : t.dependencyGraph = .ok g) :
    g.OrderCorrect .condition .circularCondition g.conditionOrder :=
  (DependencyGraph.wellFormed_of_dependencyGraph hgraph).orderCorrect (.inr rfl) _

/-- Conditions that mention each other in a circle have no order. -/
theorem conditionOrder_of_circular (hgraph : t.dependencyGraph = .ok g) (h : t.Circular) :
    ∃ cycle, g.conditionOrder = .error (.circularCondition cycle) := by
  have hcyclic : ¬ g.Acyclic fun v => v.kind = .condition := by
    intro hacyclic
    exact (acyclic_iff_not_circular hgraph).1 hacyclic h
  obtain ⟨cycle, hcycle, -⟩ := (conditionOrder_correct hgraph).cyclic hcyclic
  exact ⟨cycle, hcycle⟩

/-- An order of the conditions has each of them once, after those that it mentions. -/
theorem conditionOrder_of_not_circular (hgraph : t.dependencyGraph = .ok g) (h : ¬ t.Circular) :
    ∃ names, g.conditionOrder = .ok names ∧ names.Nodup ∧
      (∀ name, name ∈ names ↔ name ∈ t.conditions.keys) ∧
      ∀ before name after, names = before ++ name :: after →
        ∀ other, t.Mentions name other → other ∈ before := by
  have hacyclic := (acyclic_iff_not_circular hgraph).2 h
  obtain ⟨names, hnames, hnodup, hmem, hreach⟩ := (conditionOrder_correct hgraph).acyclic hacyclic
  refine ⟨names, hnames, hnodup, ?_, ?_⟩
  · intro name
    rw [hmem, (exact_of_dependencyGraph hgraph).mem_vertices]
    rfl
  · intro before name after hsplit other hmentions
    have hpoints := (points_iff_mentions hgraph).2 hmentions
    exact hreach before name after hsplit other (.single hpoints)

end Template

/-! ## No decision is circular -/

namespace Scope

variable {s : Scope}

/-- Looking up a parameter does not fail for a cycle. -/
theorem parameter_not_circular {name : String} {e : EvalError} (h : s.parameter name = .error e) :
    e.isCircular = false := by
  unfold parameter at h
  repeat' split at h
  all_goals
    cases h
    try rfl

/-- Looking up a name does not fail for a cycle. -/
theorem ref_not_circular {name : String} {e : EvalError} (h : s.ref name = .error e) :
    e.isCircular = false := by
  unfold ref at h
  split at h
  · exact parameter_not_circular h
  · cases h
  · split at h <;> cases h
    rfl
  · cases h
    rfl

/-- Looking up an attribute does not fail for a cycle. -/
theorem attributeValue_not_circular {resource name : String} {e : EvalError}
    (h : s.attributeValue resource name = .error e) : e.isCircular = false := by
  rw [attributeValue_eq] at h
  split at h <;> cases h
  rfl

/-- An expression fails with a circular condition of some sort only if the decision of a condition
that it mentions does. -/
theorem avoids_evaluate {σ : Type} {sort : EvalError → Bool}
    (hsort : ∀ e, e.isCircular = false → sort e = false) {decide : String → Eval σ Bool}
    {o : Operand} (h : ∀ name, .condition name ∈ o.mentions → (decide name).Avoids sort) :
    (o.evaluate s decide).Avoids sort := by
  have hordinary (e : EvalError) (he : e.isOfNames = false) : sort e = false :=
    hsort e (EvalError.isCircular_of_isOfNames he)
  let C := Eval.Congruence.avoiding σ hordinary
  have hlookups : LookupsRelated C s s o.mentions :=
    { ref := fun _ _ => Eval.avoids_ofExcept fun e he => hsort e (ref_not_circular he)
      attributeValue := fun _ _ _ _ =>
        Eval.avoids_ofExcept fun e he => hsort e (attributeValue_not_circular he)
      imports := rfl
      maps := rfl
      zones := rfl }
  have hrel : C.rel (o.evaluate s decide) (o.evaluate s decide) := o.evaluate_congr C hlookups h
  exact hrel

/-- Where conditions do not mention each other in a circle, a decision does not come back to a
condition in progress: each of these leads to the condition that is decided. -/
theorem avoids_circular (hcircular : ¬ s.template.Circular) (inProgress : List String)
    {name : String} (hreach : ∀ p ∈ inProgress, TransGen s.template.Mentions p name) :
    (s.decideAfresh inProgress name).Avoids EvalError.isCircular := by
  induction inProgress using s.inProgress_induction generalizing name with
  | enter inProgress ih =>
    -- Otherwise the condition would lead to itself.
    have hnew : name ∉ inProgress := fun hin => hcircular ⟨name, hreach name hin⟩
    cases hfind : s.template.conditions.find? name with
    | none =>
      rw [decideAfresh_undeclared hnew hfind]
      intro st e he
      cases he
      rfl
    | some o =>
      have hexpression :
          (o.evaluate s (s.decideAfresh (name :: inProgress))).Avoids EvalError.isCircular := by
        apply avoids_evaluate fun _ h => h
        intro other hother
        have hstep : s.template.Mentions name other := ⟨o, hfind, hother⟩
        refine ih name o hfind hnew ?_
        -- What leads to this condition leads on to those that it mentions.
        intro p hp
        rcases List.mem_cons.1 hp with rfl | hp
        · exact .single hstep
        · exact (hreach p hp).tail hstep
      rw [decideAfresh_declared hnew hfind]
      refine (Eval.Congruence.avoiding Unit fun _ => EvalError.isCircular_of_isOfNames).seq
        (y := o.evaluate s (s.decideAfresh (name :: inProgress)))
        (g := fun _ => pure true) hexpression fun v => ?_
      intro st e he
      cases hbool : v.bool? <;> rw [hbool] at he <;> cases he
      rfl

/-! ## Deciding one by one -/

/-- The truth values of conditions that are decided afresh one by one, up to the first failure. -/
def freshTable (s : Scope) : List String → Except EvalError ConditionTable
  | [] => .ok []
  | name :: names => do
    let b ← s.freshDecision name
    let table ← s.freshTable names
    return (name, b) :: table

theorem answer_condition (s : Scope) (name : String) :
    ((s.condition name).answer []).1 = s.freshDecision name :=
  (s.decideCondition_sound [] name ⟨.empty, by simp⟩).fresh

/-- Decisions that share a memo give what decisions afresh give. -/
theorem answer_decideAll (s : Scope) (names : List String) {memo : Memo}
    (hmemo : Memo.Valid s [] memo) :
    ((s.decideAll names).answer memo).1 = s.freshTable names := by
  induction names generalizing memo with
  | nil => rfl
  | cons name names ih =>
    have hdecides := s.decideCondition_sound [] name hmemo
    have hfresh : ((s.condition name).answer memo).1 = s.freshDecision name := hdecides.fresh
    -- The memo that a decision leaves is valid for the next one, also after a failure.
    have hvalid : Memo.Valid s [] ((s.condition name).answer memo).2 := hdecides.valid
    rw [decideAll, freshTable, Eval.answer_bind, ← hfresh]
    generalize (s.condition name).answer memo = run at hvalid
    obtain ⟨e | b, memo'⟩ := run
    · rfl
    · simp only [Eval.answer_bind, ← ih hvalid]
      rcases (s.decideAll names).answer memo' with ⟨e | table, memo''⟩ <;> rfl

/-- A table has the conditions that were asked for, in that order, each with its truth value. -/
theorem freshTable_eq_ok {names : List String} {table : ConditionTable}
    (h : s.freshTable names = .ok table) :
    Entries.keys table = names ∧ ∀ e ∈ table, s.freshDecision e.1 = .ok e.2 := by
  induction names generalizing table with
  | nil =>
    cases h
    simp
  | cons name names ih =>
    unfold freshTable at h
    cases hdecision : s.freshDecision name with
    | error e =>
      rw [hdecision] at h
      cases h
    | ok b =>
      cases hrest : s.freshTable names with
      | error e =>
        rw [hdecision, hrest] at h
        cases h
      | ok rest =>
        rw [hdecision, hrest] at h
        cases h
        obtain ⟨hkeys, hvalues⟩ := ih hrest
        refine ⟨congrArg (name :: ·) hkeys, ?_⟩
        intro e he
        rcases List.mem_cons.1 he with rfl | he
        · exact hdecision
        · exact hvalues e he

/-- There is no table exactly because some condition fails afresh. -/
theorem freshTable_eq_error {names : List String} {e : EvalError}
    (h : s.freshTable names = .error e) : ∃ name ∈ names, s.freshDecision name = .error e := by
  induction names with
  | nil => cases h
  | cons name names ih =>
    unfold freshTable at h
    cases hdecision : s.freshDecision name with
    | error e' =>
      rw [hdecision] at h
      cases h
      exact ⟨name, List.mem_cons_self, hdecision⟩
    | ok b =>
      cases hrest : s.freshTable names with
      | error e' =>
        rw [hdecision, hrest] at h
        cases h
        obtain ⟨other, hmem, hother⟩ := ih hrest
        exact ⟨other, List.mem_cons_of_mem _ hmem, hother⟩
      | ok rest =>
        rw [hdecision, hrest] at h
        cases h

end Scope

/-! ## The table -/

/-- A computation whose failure is looked at goes on with its outcome and the state that it
leaves. -/
theorem Eval.run_bind {σ α β : Type} (x : Eval σ α) (f : Except EvalError α → StateM σ β) (st : σ) :
    StateT.run (bind (m := StateM σ) x f) st = f (x.answer st).1 (x.answer st).2 := rfl

variable {g : DependencyGraph}

/-- Conditions without an order are not decided. -/
theorem evaluateConditions_of_cycle {e : GraphError} (h : g.conditionOrder = .error e) (s : Scope)
    (memo : Memo) : (evaluateConditions g s).run memo = (.error (.graph e), memo) := by
  unfold evaluateConditions
  rw [h]
  rfl

/-- Conditions with an order are decided as they are afresh. -/
theorem evaluateConditions_of_order {names : List String} (h : g.conditionOrder = .ok names)
    (s : Scope) {memo : Memo} (hmemo : Memo.Valid s [] memo) :
    ((evaluateConditions g s).run memo).1 = (s.freshTable names).mapError .evaluation := by
  rw [← s.answer_decideAll names hmemo]
  unfold evaluateConditions
  rw [h]
  change (StateT.run (bind (m := StateM Memo) (s.decideAll names) _) memo).1 = _
  rw [Eval.run_bind]
  rcases (s.decideAll names).answer memo with ⟨e | table, memo'⟩ <;> rfl

/-- A table lists every condition of a template once, after all conditions that it mentions, and
with the truth value that a fresh evaluator finds. -/
structure ConditionTable.Complete (s : Scope) (table : ConditionTable) : Prop where
  nodup_keys : (Entries.keys table).Nodup
  mem_keys : ∀ name, name ∈ Entries.keys table ↔ name ∈ s.template.conditions.keys
  mentioned_before : ∀ earlier name b later, table = earlier ++ (name, b) :: later →
    ∀ other, s.template.Mentions name other → other ∈ Entries.keys earlier
  fresh : ∀ name b, (name, b) ∈ table → ((s.condition name).answer []).1 = .ok b

/-- Where conditions do not mention each other in a circle, a failure to fill a table is that of
some condition by itself, and none that says that a condition is circular. -/
theorem Scope.fails_of_freshTable {s : Scope} {names : List String} {cause : EvalError}
    (hcircular : ¬ s.template.Circular) (h : s.freshTable names = .error cause) :
    (∀ name, cause ≠ .circularCondition name) ∧
      ∃ name ∈ names, ((s.condition name).answer []).1 = .error cause := by
  obtain ⟨name, hname, hfails⟩ := freshTable_eq_error h
  refine ⟨?_, name, hname, by rw [answer_condition, hfails]⟩
  rintro c rfl
  -- The condition fails by itself, with nothing in progress.
  have havoids : (s.decideAfresh [] name).Avoids EvalError.isCircular :=
    avoids_circular hcircular [] (by simp)
  have := havoids () (.circularCondition c) hfails
  cases this

/-- A table that is filled in an order in which conditions come after those that they mention is
complete. -/
theorem ConditionTable.complete_of_freshTable {s : Scope} {names : List String}
    {table : ConditionTable} (hnodup : names.Nodup)
    (hmem : ∀ name, name ∈ names ↔ name ∈ s.template.conditions.keys)
    (hbefore : ∀ before name after, names = before ++ name :: after →
      ∀ other, s.template.Mentions name other → other ∈ before)
    (h : s.freshTable names = .ok table) : ConditionTable.Complete s table := by
  obtain ⟨rfl, hvalues⟩ := Scope.freshTable_eq_ok h
  refine ⟨hnodup, hmem, ?_, ?_⟩
  · intro earlier name b later hsplit other hmentions
    -- The keys of the table are the order, so what is before an entry was before its name.
    apply hbefore (Entries.keys earlier) name (Entries.keys later) ?_ other hmentions
    rw [hsplit]
    simp [Entries.keys]
  · intro name b hb
    rw [Scope.answer_condition]
    exact hvalues (name, b) hb

namespace Template

/-- Conditions that mention each other in a circle are all left undecided. Other conditions are
never found circular: the table is complete, and without a table some condition has no truth value
by itself. -/
theorem evaluateConditions_complete {t : Template} {g : DependencyGraph}
    (hgraph : t.dependencyGraph = .ok g) (settings : Settings) :
    (t.Circular → ∀ memo, ∃ cycle, (evaluateConditions g ⟨t, settings⟩).run memo =
      (.error (.graph (.circularCondition cycle)), memo)) ∧
    (¬ t.Circular →
      (∀ e, ((evaluateConditions g ⟨t, settings⟩).run []).1 = .error e →
        ∃ cause, e = .evaluation cause ∧ (∀ name, cause ≠ .circularCondition name) ∧
          ∃ name ∈ t.conditions.keys,
            ((Scope.condition ⟨t, settings⟩ name).answer []).1 = .error cause) ∧
      ∀ table, ((evaluateConditions g ⟨t, settings⟩).run []).1 = .ok table →
        ConditionTable.Complete ⟨t, settings⟩ table) := by
  constructor
  · intro hcircular memo
    obtain ⟨cycle, hcycle⟩ := conditionOrder_of_circular hgraph hcircular
    exact ⟨cycle, evaluateConditions_of_cycle hcycle _ memo⟩
  · intro hcircular
    obtain ⟨names, hnames, hnodup, hmem, hbefore⟩ := conditionOrder_of_not_circular hgraph hcircular
    rw [evaluateConditions_of_order hnames ⟨t, settings⟩ ⟨.empty, by simp⟩]
    -- The memo has no part in it, so the table of decisions afresh is looked at.
    cases htable : Scope.freshTable ⟨t, settings⟩ names with
    | error cause =>
      refine ⟨?_, fun table h => (by cases h)⟩
      intro e he
      cases he
      obtain ⟨hcause, name, hname, hfails⟩ := Scope.fails_of_freshTable hcircular htable
      exact ⟨cause, rfl, hcause, name, (hmem name).1 hname, hfails⟩
    | ok table =>
      refine ⟨fun e h => (by cases h), ?_⟩
      intro table' h
      cases h
      exact ConditionTable.complete_of_freshTable hnodup hmem hbefore htable

/-- A template in which one condition selects between two later ones, and the last one is given. -/
def selectingConditions (last : Operand) : Template :=
  { empty with
    conditions :=
      ⟨[("Wide", .call (.ifElse "Live" (.call (.condition "Public")) (.call (.condition "Deep")))),
        ("Deep", .call (.not (.call (.condition "Live")))),
        ("Live", .call (.equals (.call (.ref "AWS::Region")) (.string "here"))),
        ("Public", last)], by simp [Entries.keys]⟩ }

/-- The selection comes after the condition that it does not select. If that condition mentions the
selection, nothing is decided. -/
theorem selectingConditions_complete :
    (∃ g table, (selectingConditions (.scalar (.bool true))).dependencyGraph = .ok g ∧
      ((evaluateConditions g ⟨selectingConditions (.scalar (.bool true)), default⟩).run []).1 =
        .ok table ∧
      ConditionTable.Complete ⟨selectingConditions (.scalar (.bool true)), default⟩ table ∧
      table = [("Live", false), ("Public", true), ("Deep", true), ("Wide", true)]) ∧
    ∃ g cycle, (selectingConditions (.call (.condition "Wide"))).dependencyGraph = .ok g ∧
      (evaluateConditions g ⟨selectingConditions (.call (.condition "Wide")), default⟩).run [] =
        (.error (.graph (.circularCondition cycle)), []) := by
  constructor
  · let s : Scope := ⟨selectingConditions (.scalar (.bool true)), default⟩
    obtain ⟨g, hgraph, horder⟩ : ∃ g, s.template.dependencyGraph = .ok g ∧
        g.conditionOrder = .ok ["Live", "Public", "Deep", "Wide"] := ⟨_, rfl, by decide +kernel⟩
    have hcircular : ¬ s.template.Circular := by
      intro h
      obtain ⟨cycle, hcycle⟩ := conditionOrder_of_circular hgraph h
      rw [horder] at hcycle
      cases hcycle
    have hfresh : s.freshTable ["Live", "Public", "Deep", "Wide"] =
        .ok [("Live", false), ("Public", true), ("Deep", true), ("Wide", true)] := by
      decide +kernel
    have htable : ((evaluateConditions g s).run []).1 =
        .ok [("Live", false), ("Public", true), ("Deep", true), ("Wide", true)] := by
      rw [evaluateConditions_of_order horder s ⟨.empty, by simp⟩, hfresh]
      rfl
    have hcomplete := ((evaluateConditions_complete hgraph s.settings).2 hcircular).2 _ htable
    exact ⟨g, _, hgraph, htable, hcomplete, rfl⟩
  · let s : Scope := ⟨selectingConditions (.call (.condition "Wide")), default⟩
    obtain ⟨g, hgraph, horder⟩ : ∃ g, s.template.dependencyGraph = .ok g ∧
        g.conditionOrder = .error (.circularCondition ["Wide", "Public"]) :=
      ⟨_, rfl, by decide +kernel⟩
    have hcircular : s.template.Circular := by
      have hwide : s.template.Mentions "Wide" "Public" := ⟨_, rfl, by decide⟩
      have hpublic : s.template.Mentions "Public" "Wide" := ⟨_, rfl, by decide⟩
      exact ⟨"Wide", .tail (.single hwide) hpublic⟩
    obtain ⟨cycle, hrun⟩ := (evaluateConditions_complete hgraph s.settings).1 hcircular []
    exact ⟨g, cycle, hgraph, hrun⟩

end Template

end StackTemplate
