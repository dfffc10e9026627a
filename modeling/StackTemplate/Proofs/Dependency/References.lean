import StackTemplate.Dependency
import StackTemplate.Proofs.Evaluation.Memo

/-!
# Declared references

A template that has a dependency graph declares every name that its operands mention: building the
graph resolves each dependency, and the references of an operand cover every look-up that its
evaluation makes. Evaluation in such a template therefore never fails because a name is not
declared, not even inside the conditions that it decides on the way.

* `Template.Resolves` : a template declares what a reference mentions.
* `Template.resolves_of_dependencyGraph` : the graph is built only if every mention resolves.
* `Template.evaluate_never_undeclared` : no evaluation fails for an undeclared name.
-/

namespace StackTemplate

/-- Leaving out repetitions leaves out no member. -/
theorem mem_firstOccurrences {α : Type} [DecidableEq α] {xs : List α} {x : α} :
    x ∈ firstOccurrences xs ↔ x ∈ xs := by
  -- The fold starts from what has been kept, which the induction varies.
  have hrun (acc : List α) :
      x ∈ xs.foldl (fun acc x => if x ∈ acc then acc else acc ++ [x]) acc ↔ x ∈ acc ∨ x ∈ xs := by
    induction xs generalizing acc with
    | nil => simp
    | cons y ys ih =>
      rw [List.foldl_cons, ih]
      by_cases hy : y ∈ acc
      · rw [if_pos hy, List.mem_cons]
        refine ⟨fun h => h.imp_right .inr, ?_⟩
        rintro (h | rfl | h)
        · exact .inl h
        · exact .inl hy
        · exact .inr h
      · rw [if_neg hy, List.mem_append, List.mem_singleton, List.mem_cons, or_assoc]
  simpa [firstOccurrences] using hrun []

/-- Leaving out repetitions keeps the order. -/
theorem firstOccurrences_sublist {α : Type} [DecidableEq α] (xs : List α) :
    (firstOccurrences xs).Sublist xs := by
  have hrun : ∀ acc, (xs.foldl (fun acc x => if x ∈ acc then acc else acc ++ [x]) acc).Sublist
      (acc ++ xs) := by
    induction xs with
    | nil => simp
    | cons x xs ih =>
      intro acc
      rw [List.foldl_cons]
      apply (ih _).trans
      by_cases hx : x ∈ acc
      · rw [if_pos hx]
        exact (List.sublist_cons_self x xs).append_left acc
      · rw [if_neg hx, List.append_assoc, List.singleton_append]
  exact hrun []

/-- The first occurrences among the members that are kept are the kept ones among the first
occurrences. -/
theorem firstOccurrences_filter {α : Type} [DecidableEq α] (keep : α → Bool) (xs : List α) :
    firstOccurrences (xs.filter keep) = (firstOccurrences xs).filter keep := by
  have hrun (acc : List α) :
      (xs.filter keep).foldl (fun acc x => if x ∈ acc then acc else acc ++ [x]) (acc.filter keep) =
        (xs.foldl (fun acc x => if x ∈ acc then acc else acc ++ [x]) acc).filter keep := by
    induction xs generalizing acc with
    | nil => rfl
    | cons y ys ih =>
      rw [List.foldl_cons, ← ih]
      -- A member that is not kept changes neither side, whether it is new or not.
      cases hkeep : keep y with
      | false =>
        rw [List.filter_cons_of_neg (by simp [hkeep])]
        split
        · rfl
        · simp [hkeep]
      | true =>
        rw [List.filter_cons_of_pos hkeep, List.foldl_cons]
        by_cases hy : y ∈ acc
        · rw [if_pos hy, if_pos (List.mem_filter.2 ⟨hy, hkeep⟩)]
        · rw [if_neg hy, if_neg fun h => hy (List.mem_of_mem_filter h)]
          simp [hkeep]
  exact hrun []

theorem Operand.mem_references {o : Operand} {r : Reference} : r ∈ o.references ↔ r ∈ o.mentions :=
  mem_firstOccurrences

/-! ## Building the graph -/

theorem exists_ok_of_any {ε α : Type} {x : Except ε α} {check : α → Bool}
    (h : x.toOption.any check = true) : ∃ a, x = .ok a ∧ check a = true := by
  cases x with
  | error e => cases h
  | ok a => exact ⟨a, rfl, h⟩

/-- A fold that succeeds has succeeded at each member. -/
theorem exists_ok_of_foldlM_ok {α β ε : Type} {f : β → α → Except ε β} {xs : List α} {acc r : β}
    (h : xs.foldlM f acc = .ok r) {x : α} (hx : x ∈ xs) : ∃ before after, f before x = .ok after := by
  induction xs generalizing acc with
  | nil => cases hx
  | cons y ys ih =>
    rw [List.foldlM_cons] at h
    cases hy : f acc y with
    | error e =>
      rw [hy] at h
      cases h
    | ok acc' =>
      rw [hy] at h
      -- It is the first member, or one of those that the fold goes on with.
      rcases List.mem_cons.1 hx with rfl | hx
      · exact ⟨acc, acc', hy⟩
      · exact ih h hx

namespace Template

variable {t : Template}

/-- The template declares what a reference mentions. -/
def Resolves (t : Template) (r : Reference) : Prop :=
  ((Dependency.reference r).resolve t).isSome = true

/-- An operand of a template depends on everything that it mentions. -/
theorem exists_dependency_of_mention {path : String} {o : Operand} (ho : (path, o) ∈ t.operands)
    {r : Reference} (hr : r ∈ o.mentions) : ∃ v, (v, Dependency.reference r) ∈ t.dependencies := by
  have hown : r ∈ o.references := Operand.mem_references.2 hr
  simp only [operands, List.mem_append, List.mem_map, List.mem_flatMap, Prod.mk.injEq] at ho
  simp only [dependencies, List.mem_append, List.mem_map, List.mem_flatMap, Prod.mk.injEq]
  rcases ho with (⟨⟨name, o'⟩, hmem, -, rfl⟩ | ⟨⟨name, res⟩, hmem, ⟨attribute', o'⟩, hop, -, rfl⟩) |
    ⟨⟨name, out⟩, hmem, ⟨attribute', o'⟩, hop, -, rfl⟩
  · exact ⟨⟨.condition, name⟩, .inl (.inl ⟨(name, o'), hmem, r, hown, rfl, rfl⟩)⟩
  · -- The references of all operands of a resource are its first dependencies.
    refine ⟨⟨.resource, name⟩, .inl (.inr ⟨(name, res), hmem, .reference r, ?_, rfl, rfl⟩)⟩
    have hall : r ∈ firstOccurrences (res.operands.flatMap fun e => e.2.references) :=
      mem_firstOccurrences.2 (List.mem_flatMap.2 ⟨_, hop, hown⟩)
    simp [Resource.dependencies, hall]
  · refine ⟨⟨.output, name⟩, .inr ⟨(name, out), hmem, .reference r, ?_, rfl, rfl⟩⟩
    have hall : r ∈ firstOccurrences (out.operands.flatMap fun e => e.2.references) :=
      mem_firstOccurrences.2 (List.mem_flatMap.2 ⟨_, hop, hown⟩)
    simp [Output.dependencies, hall]

/-- A dependency is added only if it resolves. -/
theorem resolves_of_addDependency {before after : DependencyGraph} {source : Vertex} {r : Reference}
    (h : t.addDependency before source (.reference r) = .ok after) : t.Resolves r := by
  unfold addDependency at h
  split at h
  · cases h
  · next hresolve => simp [Resolves, hresolve]

/-- The graph is built only if every mention of every operand resolves. -/
theorem resolves_of_dependencyGraph {g : DependencyGraph} (hgraph : t.dependencyGraph = .ok g)
    {path : String} {o : Operand} (ho : (path, o) ∈ t.operands) {r : Reference}
    (hr : r ∈ o.mentions) : t.Resolves r := by
  obtain ⟨v, hdependency⟩ := exists_dependency_of_mention ho hr
  unfold dependencyGraph at hgraph
  split at hgraph
  · cases hgraph
  · -- The graph is built, so the fold has gone past this dependency.
    obtain ⟨before, after, hadd⟩ := exists_ok_of_foldlM_ok hgraph hdependency
    exact resolves_of_addDependency hadd

end Template

/-! ## Look-ups -/

namespace Scope

variable {s : Scope}

/-- A declared parameter may lack a value, but it is declared. -/
theorem ordinary_parameter {name : String} (h : s.template.parameters.contains name = true) :
    Ordinary (s.parameter name) := by
  intro e he
  rw [Dict.contains, Option.isSome_iff_exists] at h
  obtain ⟨p, hp⟩ := h
  simp only [parameter, hp] at he
  -- It is declared, so only a missing value is left as an error.
  split at he <;> cases he
  rfl

/-- What is resolved to a parameter is declared as one. -/
theorem parameters_contains_of_resolveName {name : String}
    (h : s.template.resolveName name = some .parameter) :
    s.template.parameters.contains name = true := by
  unfold Template.resolveName at h
  split at h
  · assumption
  · split at h
    · simp at h
    · split at h <;> simp at h

/-- What is resolved to a pseudo-parameter has the name of one. -/
theorem isSome_ofName?_of_resolveName {name : String}
    (h : s.template.resolveName name = some .pseudoParameter) :
    (PseudoParameter.ofName? name).isSome = true := by
  unfold Template.resolveName at h
  split at h
  · simp at h
  · split at h
    · simp at h
    · split at h
      · assumption
      · simp at h

/-- A `Ref` that resolves finds a parameter, a resource or a pseudo-parameter. -/
theorem ordinary_ref {name : String} (h : s.template.Resolves (.ref name)) :
    Ordinary (s.ref name) := by
  intro e he
  simp only [Template.Resolves, Dependency.resolve] at h
  unfold ref at he
  cases hname : s.template.resolveName name with
  | none => simp [hname] at h
  | some kind =>
    cases kind with
    -- A `Ref` is never resolved to a condition or to an output.
    | condition => simp [hname] at h
    | output => simp [hname] at h
    | parameter =>
      rw [hname] at he
      exact ordinary_parameter (parameters_contains_of_resolveName hname) e he
    | resource =>
      rw [hname] at he
      cases he
    | pseudoParameter =>
      rw [hname] at he
      cases hpseudo : PseudoParameter.ofName? name with
      | some p =>
        simp only [hpseudo] at he
        cases he
      | none =>
        have hsome := isSome_ofName?_of_resolveName hname
        simp [hpseudo] at hsome

/-- An attribute of a declared resource has a value, whatever its name. -/
theorem ordinary_attributeValue {resource label : String}
    (h : s.template.Resolves (.getAtt resource label)) (name : String) :
    Ordinary (s.attributeValue resource name) := by
  intro e he
  have hdeclared : s.template.resources.contains resource = true := by
    simpa [Template.Resolves, Dependency.resolve, Dependency.resource?] using h
  simp only [attributeValue, hdeclared, if_true] at he
  split at he <;> cases he

theorem exists_condition_of_resolves {name : String}
    (h : s.template.Resolves (.condition name)) :
    ∃ o, s.template.conditions.find? name = some o := by
  have hdeclared : s.template.conditions.contains name = true := by
    simpa [Template.Resolves, Dependency.resolve, Dependency.condition?] using h
  exact Option.isSome_iff_exists.1 hdeclared

end Scope

/-! ## Evaluations -/

/-- A computation that never fails for an undeclared name, whatever state it starts from. -/
def Eval.Declared {σ α : Type} (x : Eval σ α) : Prop := x.Avoids EvalError.isUndeclared

/-- A look-up that fails for no name fails for none as a computation. -/
theorem Eval.declared_ofExcept {σ α : Type} {r : Except EvalError α} (h : Ordinary r) :
    Eval.Declared (Eval.ofExcept r : Eval σ α) :=
  Eval.avoids_ofExcept fun e he => EvalError.isUndeclared_of_isOfNames (h e he)

/-- Computations that never fail for an undeclared name. -/
def Eval.Congruence.declared (σ : Type) : Eval.Congruence σ σ :=
  .avoiding σ fun _ => EvalError.isUndeclared_of_isOfNames

namespace Scope

variable {s : Scope}

/-- No look-up of something mentioned fails for an undeclared name. -/
theorem lookupsRelated_declared {σ : Type} {mentioned : List Reference}
    (h : ∀ r ∈ mentioned, s.template.Resolves r) :
    LookupsRelated (Eval.Congruence.declared σ) s s mentioned where
  ref _ hname := Eval.declared_ofExcept (ordinary_ref (h _ hname))
  attributeValue _ _ name hname := Eval.declared_ofExcept (ordinary_attributeValue (h _ hname) name)
  imports := rfl
  maps := rfl
  zones := rfl

/-- An operand whose mentions all resolve never fails for an undeclared name if the decisions of
the conditions among them do not. -/
theorem declared_evaluate {σ : Type} {decide : String → Eval σ Bool} {o : Operand}
    (hmentions : ∀ r ∈ o.mentions, s.template.Resolves r)
    (hdecide : ∀ name, s.template.Resolves (.condition name) → Eval.Declared (decide name)) :
    Eval.Declared (o.evaluate s decide) := by
  have hrel : (Eval.Congruence.declared σ).rel (o.evaluate s decide) (o.evaluate s decide) :=
    o.evaluate_congr _ (lookupsRelated_declared hmentions)
      fun name hname => hdecide name (hmentions _ hname)
  exact hrel

/-- Where every mention inside the conditions resolves, deciding a declared condition never fails
for an undeclared name, whatever is in progress and whatever is remembered. -/
theorem declared_decideCondition
    (hall : ∀ name o, s.template.conditions.find? name = some o →
      ∀ r ∈ o.mentions, s.template.Resolves r) (inProgress : List String) {name : String}
    (hname : s.template.Resolves (.condition name)) :
    Eval.Declared (s.decideCondition inProgress name) := by
  induction inProgress using s.inProgress_induction generalizing name with
  | enter inProgress ih =>
    intro memo e he
    obtain ⟨o, hdeclared⟩ := exists_condition_of_resolves hname
    cases hfind : Entries.find? memo name with
    | some b =>
      rw [decideCondition_remembered hfind] at he
      cases he
    | none =>
      -- Outside of a cycle the condition is decided from its operand, which the induction covers.
      by_cases hin : name ∈ inProgress
      · rw [decideCondition_circular hfind hin] at he
        cases he
        rfl
      · have hmentions := hall name o hdeclared
        have hexpression : Eval.Declared (o.evaluate s (s.decideCondition (name :: inProgress))) :=
          declared_evaluate hmentions fun other hother => ih name o hdeclared hin hother
        rw [decideCondition_declared hfind hin hdeclared] at he
        rcases hx : (o.evaluate s (s.decideCondition (name :: inProgress))).answer memo
          with ⟨e' | v, memo'⟩
        · rw [hx] at he
          cases he
          exact hexpression memo e (by rw [hx])
        · rw [hx] at he
          simp only at he
          split at he <;> cases he
          rfl

end Scope

/-- In a template that has a dependency graph, no operand fails because a name is not declared,
whatever the settings of the evaluator and whatever it remembers. -/
theorem Template.evaluate_never_undeclared {t : Template} {g : DependencyGraph}
    (hgraph : t.dependencyGraph = .ok g) {path : String} {o : Operand}
    (ho : (path, o) ∈ t.operands) (settings : Settings) (memo : Memo) (name : String) :
    ((Scope.evaluate ⟨t, settings⟩ o).answer memo).1 ≠ .error (.unknownReference name) ∧
      ((Scope.evaluate ⟨t, settings⟩ o).answer memo).1 ≠ .error (.unknownResource name) ∧
      ((Scope.evaluate ⟨t, settings⟩ o).answer memo).1 ≠ .error (.unknownCondition name) := by
  -- Operands inside of conditions are operands of the template too, so their mentions resolve.
  have hconditions : ∀ c o, t.conditions.find? c = some o → ∀ r ∈ o.mentions, t.Resolves r := by
    intro c o hc r hr
    have hmem : ("Conditions." ++ c, o) ∈ t.operands := by
      have hentry : (c, o) ∈ t.conditions.entries := Dict.find?_eq_some_iff.1 hc
      simp only [operands, List.mem_append, List.mem_map]
      exact .inl (.inl ⟨(c, o), hentry, rfl⟩)
    exact resolves_of_dependencyGraph hgraph hmem hr
  have hmentions : ∀ r ∈ o.mentions, t.Resolves r := fun r hr =>
    resolves_of_dependencyGraph hgraph ho hr
  have hdeclared : Eval.Declared (Scope.evaluate ⟨t, settings⟩ o) :=
    Scope.declared_evaluate hmentions fun c hc =>
      Scope.declared_decideCondition (s := ⟨t, settings⟩) hconditions [] hc
  have hnever : ∀ e : EvalError, e.isUndeclared = true →
      ((Scope.evaluate ⟨t, settings⟩ o).answer memo).1 ≠ .error e := by
    intro e hundeclared he
    simp [hdeclared memo e he] at hundeclared
  exact ⟨hnever (.unknownReference name) rfl, hnever (.unknownResource name) rfl,
    hnever (.unknownCondition name) rfl⟩

/-- A template in which a condition selects what an output reports. -/
def Template.conditionalOutput : Template :=
  { Template.empty with
    parameters := ⟨[("Stage", Parameter.ofType "String")], by decide⟩
    conditions :=
      ⟨[("Live", .call (.equals (.call (.ref "Stage")) (.string "live")))], by decide⟩
    resources := ⟨[("Queue", Resource.ofType "Service::Queue")], by decide⟩
    outputs :=
      ⟨[("Address", .ofValue (.call (.ifElse "Live" (.call (.getAtt "Queue" (.string "Arn")))
        (.call (.ref "AWS::Region")))))], by decide⟩ }

/-- The output of that template never meets an undeclared name, neither in its condition nor in
either branch. -/
theorem Template.conditionalOutput_never_undeclared :
    (∃ g, conditionalOutput.dependencyGraph = .ok g) ∧
      ∃ path o, (path, o) ∈ conditionalOutput.operands ∧
        ((Scope.evaluate ⟨conditionalOutput, default⟩ o).answer []).1 ≠
            .error (.unknownReference "Stage") ∧
          ((Scope.evaluate ⟨conditionalOutput, default⟩ o).answer []).1 ≠
            .error (.unknownResource "Stage") ∧
          ((Scope.evaluate ⟨conditionalOutput, default⟩ o).answer []).1 ≠
            .error (.unknownCondition "Stage") := by
  have hgraph : ∃ g, conditionalOutput.dependencyGraph = .ok g := ⟨_, rfl⟩
  obtain ⟨g, hg⟩ := hgraph
  have hmem : ("Outputs.Address.Value", .call (.ifElse "Live"
      (.call (.getAtt "Queue" (.string "Arn"))) (.call (.ref "AWS::Region")))) ∈
      conditionalOutput.operands := by
    simp [conditionalOutput, operands, Output.operands, Output.ofValue, Resource.operands,
      Resource.ofType, Template.empty]
  exact ⟨⟨g, hg⟩, _, _, hmem, evaluate_never_undeclared hg hmem default [] "Stage"⟩

end StackTemplate
