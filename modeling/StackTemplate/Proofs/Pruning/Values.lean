import StackTemplate.Proofs.Pruning.Excluding

/-!
# Values after pruning

An operand of an entity that pruning leaves is evaluated in lockstep with its evaluation before.
Both decide every condition alike, for conditions look at no resource. A look-up gives the same as
before unless it asks for a resource that is gone, and then it fails for that name: evaluation goes
the same way up to there, and no further.

* `Eval.Congruence.sameUnless` : computations with the same answer, unless the second fails for one
  of some reasons.
* `Template.lookups_exclude` : look-ups without some resources.
* `Template.evaluate_pruned` : what an operand is evaluated to in a pruned template.
-/

namespace StackTemplate

/-- Computations of which the second answers as the first does, unless it fails for one of some
reasons. -/
def Eval.Congruence.sameUnless (σ : Type) (lost : EvalError → Prop) : Eval.Congruence σ σ where
  rel x y := ∀ st, y.answer st = x.answer st ∨ ∃ e, lost e ∧ (y.answer st).1 = .error e
  ret _ _ := .inl rfl
  fail _ _ _ := .inl rfl
  seq {_ _ x y f g} hx hf st := by
    rw [Eval.answer_bind, Eval.answer_bind]
    rcases hx st with hsame | ⟨e, he, hfails⟩
    · rw [hsame]
      rcases x.answer st with ⟨e | a, st'⟩
      · exact .inl rfl
      · exact hf a st'
    · refine .inr ⟨e, he, ?_⟩
      rcases hy : y.answer st with ⟨e' | a, st'⟩ <;> rw [hy] at hfails <;> cases hfails
      rfl

namespace Template

variable {document : Node} {t : Template} {g : DependencyGraph} {o : Operand}

/-- An error that names a resource that one template declares and another one does not. -/
inductive Lost (t t' : Template) : EvalError → Prop
  | ref {name : String} (h : name ∈ t.resources.keys) (h' : name ∉ t'.resources.keys) :
      Lost t t' (.unknownReference name)
  | getAtt {name : String} (h : name ∈ t.resources.keys) (h' : name ∉ t'.resources.keys) :
      Lost t t' (.unknownResource name)

variable (resources outputs : List String) (settings : Settings)

theorem not_mem_keys_exclude {name : String} (h : name ∈ resources) :
    name ∉ (t.exclude resources outputs).resources.keys := by
  rw [keys_resources_exclude, List.mem_filter, decide_eq_true_iff]
  exact fun hin => hin.2 h

/-- What a name means as a resource is declared as one. -/
theorem mem_keys_of_resolveName {name : String} (h : t.resolveName name = some .resource) :
    name ∈ t.resources.keys := by
  unfold resolveName at h
  split at h
  · cases h
  · split at h
    · next hname => exact Dict.contains_iff.1 hname
    · split at h <;> cases h

/-- A `Ref` gives what it gave, unless it is to a resource that is gone. -/
theorem ref_exclude (hapart : ∀ name ∈ t.resources.keys, PseudoParameter.ofName? name = none)
    (name : String) : Scope.ref ⟨t.exclude resources outputs, settings⟩ name =
        Scope.ref ⟨t, settings⟩ name ∨
      ∃ e, t.Lost (t.exclude resources outputs) e ∧
        Scope.ref ⟨t.exclude resources outputs, settings⟩ name = .error e := by
  have hmeans : (t.exclude resources outputs).resolveName name =
      if t.resolveName name = some .resource ∧ name ∈ resources then none
      else t.resolveName name := resolveName_exclude_eq resources outputs hapart
  by_cases hgone : t.resolveName name = some .resource ∧ name ∈ resources
  · -- The resource is gone, and its name means nothing else.
    rw [if_pos hgone] at hmeans
    have hlost := not_mem_keys_exclude (t := t) resources outputs hgone.2
    refine .inr ⟨.unknownReference name, .ref (mem_keys_of_resolveName hgone.1) hlost, ?_⟩
    simp only [Scope.ref, hmeans]
  · rw [if_neg hgone] at hmeans
    exact .inl (Scope.ref_congr hmeans rfl fun _ => rfl)

/-- An attribute has the value that it had, unless its resource is gone. -/
theorem attributeValue_exclude (resource name : String) :
    Scope.attributeValue ⟨t.exclude resources outputs, settings⟩ resource name =
        Scope.attributeValue ⟨t, settings⟩ resource name ∨
      ∃ e, t.Lost (t.exclude resources outputs) e ∧
        Scope.attributeValue ⟨t.exclude resources outputs, settings⟩ resource name = .error e := by
  simp only [Scope.attributeValue_eq, Dict.contains_iff]
  by_cases hgone : resource ∈ t.resources.keys ∧ resource ∈ resources
  · have hlost := not_mem_keys_exclude (t := t) resources outputs hgone.2
    exact .inr ⟨.unknownResource resource, .getAtt hgone.1 hlost, if_neg hlost⟩
  · -- A resource that is not gone is declared if it was.
    have hsame : resource ∈ (t.exclude resources outputs).resources.keys ↔
        resource ∈ t.resources.keys := by
      rw [keys_resources_exclude, List.mem_filter, decide_eq_true_iff]
      exact ⟨And.left, fun hin => ⟨hin, fun hout => hgone ⟨hin, hout⟩⟩⟩
    exact .inl (if_congr hsame rfl rfl)

/-- Evaluations of one operand with and without some resources go alike, unless the second fails for
a resource that is gone. -/
theorem evaluate_exclude (hparse : parseDocument document = .ok t)
    (hgraph : t.dependencyGraph = .ok g) (o : Operand) :
    (Eval.Congruence.sameUnless Unit (t.Lost (t.exclude resources outputs))).rel
      (o.evaluate ⟨t, settings⟩ (Scope.decideAfresh ⟨t, settings⟩ []))
      (o.evaluate ⟨t.exclude resources outputs, settings⟩
        (Scope.decideAfresh ⟨t.exclude resources outputs, settings⟩ [])) := by
  have hapart : ∀ name ∈ t.resources.keys, PseudoParameter.ofName? name = none := fun _ =>
    resources_apart hparse
  -- Look-ups leave the state alone, so their results decide how the computations are related.
  have hlookup {α : Type} {r r' : Except EvalError α}
      (h : r' = r ∨ ∃ e, t.Lost (t.exclude resources outputs) e ∧ r' = .error e) :
      (Eval.Congruence.sameUnless Unit (t.Lost (t.exclude resources outputs))).rel
        (Eval.ofExcept r) (Eval.ofExcept r') := by
    intro st
    rw [Eval.answer_ofExcept, Eval.answer_ofExcept]
    rcases h with rfl | ⟨e, he, rfl⟩
    · exact .inl rfl
    · exact .inr ⟨e, he, rfl⟩
  have hlookups : Scope.LookupsRelated
      (Eval.Congruence.sameUnless Unit (t.Lost (t.exclude resources outputs)))
      ⟨t, settings⟩ ⟨t.exclude resources outputs, settings⟩ o.mentions :=
    { ref := fun name _ => hlookup (ref_exclude resources outputs settings hapart name)
      attributeValue := fun resource _ name _ =>
        hlookup (attributeValue_exclude resources outputs settings resource name)
      imports := rfl
      maps := rfl
      zones := rfl }
  -- Conditions are decided alike, so only look-ups can part the two evaluations.
  refine o.evaluate_congr _ hlookups fun name _ st => .inl ?_
  rw [decideAfresh_exclude hparse hgraph resources outputs (fun _ => rfl) rfl name]

end Template

/-- The value of an operand on an evaluator that remembers nothing. -/
theorem Scope.answer_evaluate (s : Scope) (o : Operand) :
    ((s.evaluate o).answer []).1 = ((o.evaluate s (s.decideAfresh [])).answer ()).1 :=
  (Scope.evaluate_sound (fun name _ => s.decideCondition_sound [] name) o
    ⟨.empty, by simp⟩).2.1

namespace Template

variable {document : Node} {t : Template} {g : DependencyGraph} {table : ConditionTable}
  {p : Pruning}

/-- Pruning does not change the value of what it leaves: an operand of the pruned template has the
value, or the error, that it had before, or it fails for a resource that was removed. -/
theorem evaluate_pruned (hparse : parseDocument document = .ok t)
    (hgraph : t.dependencyGraph = .ok g) (hprune : Pruning.prune t g table = .ok p)
    {path : String} {o : Operand} (ho : (path, o) ∈ p.template.operands) (settings : Settings) :
    (path, o) ∈ t.operands ∧
      (((Scope.evaluate ⟨p.template, settings⟩ o).answer []).1 =
          ((Scope.evaluate ⟨t, settings⟩ o).answer []).1 ∨
        ∃ name ∈ t.resources.keys, name ∉ p.template.resources.keys ∧
          (((Scope.evaluate ⟨p.template, settings⟩ o).answer []).1 =
              .error (.unknownReference name) ∨
            ((Scope.evaluate ⟨p.template, settings⟩ o).answer []).1 =
              .error (.unknownResource name))) := by
  obtain ⟨htemplate, -⟩ := Pruning.prune_eq_ok hprune
  rw [htemplate] at ho ⊢
  refine ⟨mem_operands_of_exclude _ _ ho, ?_⟩
  -- An empty memo changes no value, so the evaluations without one are compared.
  rw [Scope.answer_evaluate, Scope.answer_evaluate]
  rcases evaluate_exclude p.resources p.outputs settings hparse hgraph o () with hsame | hlost
  · exact .inl (congrArg Prod.fst hsame)
  · obtain ⟨e, he, hfails⟩ := hlost
    right
    cases he with
    | @ref name h h' => exact ⟨name, h, h', .inl hfails⟩
    | @getAtt name h h' => exact ⟨name, h, h', .inr hfails⟩

/-- An output of the document reports an attribute of a resource that is removed. -/
theorem conditionalDocument_pruned : ∃ t g p, parseDocument conditionalDocument = .ok t ∧
    t.dependencyGraph = .ok g ∧
    Pruning.prune t g [("Live", false), ("Idle", true)] = .ok p ∧
    ∃ path o, (path, o) ∈ p.template.operands ∧
      ((Scope.evaluate ⟨p.template, default⟩ o).answer []).1 ≠
        ((Scope.evaluate ⟨t, default⟩ o).answer []).1 ∧
      ∃ name ∈ t.resources.keys, name ∉ p.template.resources.keys ∧
        (((Scope.evaluate ⟨p.template, default⟩ o).answer []).1 =
            .error (.unknownReference name) ∨
          ((Scope.evaluate ⟨p.template, default⟩ o).answer []).1 =
            .error (.unknownResource name)) := by
  have htexts : conditionalDocument.textsDiffer = true := by decide +kernel
  have hnames : conditionalDocument.NamesDiffer := fun area => by cases area <;> decide +kernel
  have hdirect : (ofDocumentDirectly conditionalDocument).toOption.any (fun t =>
      t.dependencyGraph.toOption.any fun g =>
        (Pruning.prune t g [("Live", false), ("Idle", true)]).toOption.any fun p =>
          p.template.operands.any fun e =>
            ((Scope.evaluate ⟨t, default⟩ e.2).answer []).1.toBool &&
              !((Scope.evaluate ⟨p.template, default⟩ e.2).answer []).1.toBool) = true := by
    decide +kernel
  obtain ⟨t, ht, hdirect⟩ := exists_ok_of_any hdirect
  obtain ⟨g, hgraph, hdirect⟩ := exists_ok_of_any hdirect
  obtain ⟨p, hprune, hdirect⟩ := exists_ok_of_any hdirect
  obtain ⟨⟨path, o⟩, ho, hvalues⟩ := List.any_eq_true.1 hdirect
  obtain ⟨hbefore, hafter⟩ := (Bool.and_eq_true ..).mp hvalues
  have hparse := parseDocument_of_ofDocumentDirectly htexts hnames ht
  have hdiffer : ((Scope.evaluate ⟨p.template, default⟩ o).answer []).1 ≠
      ((Scope.evaluate ⟨t, default⟩ o).answer []).1 := by
    intro hsame
    rw [hsame, hbefore] at hafter
    cases hafter
  have hpruned := (evaluate_pruned hparse hgraph hprune ho default).2
  exact ⟨t, g, p, hparse, hgraph, hprune, path, o, ho, hdiffer, hpruned.resolve_left hdiffer⟩

end Template

end StackTemplate
