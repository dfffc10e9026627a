import StackTemplate.Proofs.Evaluation.Alike

/-!
# Calls and imports

Imports are looked up by the calls of one function only. An operand in which that function is not
called, at any depth, has the same value whatever the imports are.

* `Operand.Calls` : a function is called somewhere in an operand.
* `Operand.evaluate_importing` : the value of an operand that imports nothing.
-/

namespace StackTemplate

variable {σ : Type}

/-- A function is called somewhere in an operand. -/
inductive Operand.Calls (f : Intrinsic) : Operand → Prop
  | here {c : Call Operand} (hfunction : c.function = f) : Calls f (.call c)
  | inside {x o : Operand} (hpart : x ∈ o.parts) (h : Calls f x) : Calls f o

/-- What is done to a call is what is done to its operands. -/
theorem Call.map_congr {α β : Type} {f g : α → β} {c : Call α}
    (h : ∀ x ∈ c.operands, f x = g x) : c.map f = c.map g := by
  cases c with
  | and xs | or xs => simpa [map, operands] using h
  | sub t bindings =>
    simp only [map, sub.injEq, true_and]
    apply List.map_congr_left
    intro e he
    rw [h e.2 (List.mem_map_of_mem he)]
  | _ => simp_all [map, operands]

namespace Scope

/-- The scope with other imports. -/
def importing (s : Scope) (imports : Dict Value) : Scope :=
  { s with settings := { s.settings with imports } }

variable (s : Scope) (imports : Dict Value)

/-- The text of a substitution looks at no import. -/
theorem evaluateSegments_importing (bindings : List (String × Eval σ Value))
    (segments : List Segment) :
    evaluateSegments (s.importing imports) bindings segments =
      evaluateSegments s bindings segments := by
  induction segments with
  | nil => rfl
  | cons segment segments ih =>
    have hsegment : evaluateSegment (s.importing imports) bindings segment =
        evaluateSegment s bindings segment := by
      cases segment <;> rfl
    rw [evaluateSegments, evaluateSegments, hsegment, ih]

/-- Only an import looks at the imports. -/
theorem evaluateCall_importing {c : Call (Eval σ Value)} (h : c.function ≠ .importValue)
    (decide : String → Eval σ Bool) :
    c.evaluate (s.importing imports) decide = c.evaluate s decide := by
  cases c with
  | importValue x => exact absurd rfl h
  | sub template bindings =>
    simp only [Call.evaluate, evaluateSegments_importing]
  | _ => rfl

end Scope

namespace Operand

variable (s : Scope) (decide : String → Eval σ Bool)

theorem evaluate_list (items : List Operand) : (list items).evaluate s decide =
    evaluateItems (items.map fun x => x.evaluate s decide) >>= fun vs => pure (.list vs) :=
  fold_list _ items

theorem evaluate_map (entries : List (String × Operand)) : (map entries).evaluate s decide =
    evaluateEntries (entries.map fun e => (e.1, e.2.evaluate s decide)) >>= fun es =>
      pure (.map es) :=
  fold_map _ entries

theorem evaluate_call (c : Call Operand) : (call c).evaluate s decide =
    (c.map fun x => x.evaluate s decide).evaluate s decide :=
  fold_call _ c

/-- An operand that calls no import has a value that does not depend on the imports. -/
theorem evaluate_importing {o : Operand} (h : ¬ o.Calls .importValue) (imports : Dict Value) :
    o.evaluate (s.importing imports) decide = o.evaluate s decide := by
  induction o using Operand.induction with
  | step o ih =>
    -- A part that calls an import would make the whole call one.
    have hparts : ∀ x ∈ o.parts,
        x.evaluate (s.importing imports) decide = x.evaluate s decide := by
      intro x hx
      exact ih x hx fun hcalls => h (.inside hx hcalls)
    cases o with
    | scalar x => rfl
    | pending id => rfl
    | list items =>
      have hitems : (items.map fun x => x.evaluate (s.importing imports) decide) =
          items.map fun x => x.evaluate s decide :=
        List.map_congr_left hparts
      rw [evaluate_list, evaluate_list, hitems]
    | map entries =>
      have hentries : (entries.map fun e => (e.1, e.2.evaluate (s.importing imports) decide)) =
          entries.map fun e => (e.1, e.2.evaluate s decide) := by
        apply List.map_congr_left
        intro e he
        rw [hparts e.2 (List.mem_map_of_mem he)]
      rw [evaluate_map, evaluate_map, hentries]
    | call c =>
      -- The call itself is no import, and its operands are parts.
      have hfunction : c.function ≠ .importValue := fun heq => h (.here heq)
      rw [evaluate_call, evaluate_call, Call.map_congr hparts,
        Scope.evaluateCall_importing s imports (by simpa using hfunction)]

end Operand

/-- An operand that calls no import is evaluated alike with other imports. -/
theorem Scope.alike_importing {s : Scope} {o : Operand} (h : ¬ o.Calls .importValue)
    (imports : Dict Value) : s.Alike (s.importing imports) o := by
  intro decide decide' hdecide
  rw [Operand.evaluate_importing s decide' h imports]
  exact o.evaluate_congr (Eval.Congruence.same Unit)
    (.refl (fun _ => rfl) s o.mentions) hdecide

end StackTemplate
