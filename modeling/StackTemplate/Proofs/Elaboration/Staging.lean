import StackTemplate.Proofs.Elaboration.Attempt
import StackTemplate.Proofs.Resolution.Staging

/-!
# Staged operands

The operands of a template that is elaborated while operands are staged: which placeholders they
hold, and what the checks on the way have to do with it.

* `Placeholder.Recorded` : a placeholder as it is when it was just recorded.
* `Operand.Gathered` : operands that hold the recorded placeholders, each once.
* `Node.leaves_operand` : what resolving an operand of a template records.
-/

namespace StackTemplate

variable {α β : Type} {kept : Prop}

/-! ## Operands that hold placeholders -/

namespace Operand

/-- The numbers of the placeholders in an operand that is itself none. -/
def heldIds (o : Operand) : List Nat := o.ids none (.index 0)

/-- Operands whose placeholders are among the recorded ones, each once and in a place for which it
was recorded; none of the operands is a placeholder itself. -/
structure Gathered (kept : Prop) (table : Placeholders) (ids : List Nat) (os : List Operand) :
    Prop where
  plain : ∀ o ∈ os, ∀ id, o ≠ .pending id
  fits : ∀ o ∈ os, ∀ e ∈ o.occurrences none (.index 0), e.Fits table
  remains : Remains kept (os.flatMap heldIds) ids

namespace Gathered

variable {table : Placeholders} {ids ids' : List Nat} {os os' : List Operand}

theorem nil : Gathered kept table [] [] := ⟨by simp, by simp, .refl []⟩

/-- Operands and placeholders of two parts are gathered together. -/
theorem append (h : Gathered kept table ids os) (h' : Gathered kept table ids' os') :
    Gathered kept table (ids ++ ids') (os ++ os') := by
  refine ⟨fun o ho => ?_, fun o ho => ?_, ?_⟩
  · rcases List.mem_append.1 ho with ho | ho
    · exact h.plain o ho
    · exact h'.plain o ho
  · rcases List.mem_append.1 ho with ho | ho
    · exact h.fits o ho
    · exact h'.fits o ho
  · rw [List.flatMap_append]
    exact h.remains.append h'.remains

/-- What remains of the operands holds what remains of the placeholders. -/
theorem of_remains (h : Gathered kept table ids os) (hremains : Remains kept os' os) :
    Gathered kept table ids os' where
  plain o ho := h.plain o (hremains.subset ho)
  fits o ho := h.fits o (hremains.subset ho)
  remains := (hremains.flatMap heldIds).trans h.remains

end Gathered

end Operand

/-- Operands under names, gathered name by name. -/
theorem Links.gathered {later : Placeholders} (operandsOf : α → List Operand)
    {es : List (String × Node)} {ids : List Nat} {xs : List (String × α)}
    (h : Links (fun e ids x => x.1 = e.1 ∧ Operand.Gathered kept later ids (operandsOf x.2)) es ids
      xs) :
    Entries.keys xs = Entries.keys es ∧
      Operand.Gathered kept later ids (xs.flatMap fun x => operandsOf x.2) := by
  induction h with
  | nil => exact ⟨rfl, .nil⟩
  | cons hx _ ih =>
    -- The first name has its operands, and the others have theirs.
    rw [Entries.keys_cons, Entries.keys_cons, hx.1, ih.1, List.flatMap_cons]
    exact ⟨rfl, hx.2.append ih.2⟩

/-- A placeholder that was just recorded for a collection; where all is kept, no mapping in it has
two keys with the same text. -/
structure Placeholder.Recorded (kept : Prop) (p : Placeholder) : Prop where
  waiting : p.resolved = false
  collection : p.node.isCollection = true
  texts : kept → p.node.textsDiffer = true

/-- Resolving a node outside of any call records what the operand holds. -/
theorem Node.leaves_operand {node : Node} (hkept : kept → node.textsDiffer = true) (ctx : Context) :
    Leaves (Placeholder.Recorded kept) (fun later ids o => Operand.Gathered kept later ids [o])
      (node.resolve Placeholder.staging ctx).attempt := by
  intro table o table' h
  -- Resolving within a context without a call is the case of no owner.
  obtain ⟨new, htable, hnew, hplaced⟩ :=
    leaves_resolve kept node hkept ctx none (.index 0) table o table' h
  refine ⟨new, htable, fun p hp => ?_, fun later hlater => ?_⟩
  · exact ⟨(hnew p hp).waiting, (hnew p hp).collection, fun hk =>
      (hnew p hp).within.textsDiffer (hkept hk)⟩
  · have hoperand := hplaced later hlater
    refine ⟨?_, ?_, ?_⟩
    · rintro _ (_ | ⟨_, ⟨⟩⟩)
      exact resolve_ne_pending h
    · rintro _ (_ | ⟨_, ⟨⟩⟩)
      exact hoperand.fits
    · rw [List.flatMap_singleton]
      exact hoperand.remains

/-! ## Checks -/

namespace Resolution

variable {P : Placeholder → Prop} {γ δ : Type}

/-- What follows a check may rely on what it gives. -/
theorem leaves_ofExcept {V : Placeholders → List Nat → γ → Prop} {x : Except Fault α}
    {f : α → Attempt Placeholders γ} (h : ∀ a, x = .ok a → Leaves P V (f a)) :
    Leaves P V ((ofExcept x : Resolution Placeholders α).attempt >>= f) := by
  cases x with
  | error e => exact .failure
  | ok a => exact h a rfl

/-- A check gives the same on both sides. -/
theorem mirrors_ofExcept {table : Placeholders} {V : Placeholders → γ → δ → Prop}
    {x : Except Fault α} {f : α → Attempt Placeholders γ} {g : α → Attempt Unit δ}
    (h : ∀ a, x = .ok a → Mirrors table V (f a) (g a)) :
    Mirrors table V ((ofExcept x : Resolution Placeholders α).attempt >>= f)
      ((ofExcept x : Resolution Unit α).attempt >>= g) := by
  cases x with
  | error e => exact .failure
  | ok a => exact h a rfl

end Resolution

end StackTemplate
