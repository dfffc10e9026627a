import StackTemplate.Proofs.Resolution.Staging
import StackTemplate.Resolution.Resolve

/-!
# Genuine faults

A genuine fault is one of the document, as opposed to a fault of the bookkeeping of placeholders.
Checking a node reports genuine faults only, and reports them inside of the path of the node.

* `Fault.isBookkeeping` : the faults that are not genuine, with the codes of their diagnostics.
* `Paths` : a property of paths that holds inside of a path where it holds of the path.
* `Except.FailsWith` : a check whose faults have a property; `Except.Genuine` : they are genuine;
  `Except.FailsIn` : and their labels are on paths with a property.
* `Node.failsIn_checkLiteral` : the check of literal data reports genuine faults inside of the node.
-/

namespace StackTemplate

variable {α β ι : Type}

/-- Whether a fault is one of the bookkeeping of placeholders: a placeholder is found where it was
not recorded for, or is found again, or is not found. -/
def Fault.isBookkeeping : Fault → Bool
  | .unknownPlaceholder _ _ | .placeholderRepeated _ _ _ | .placeholderMismatch _ _ _ _ _ _
  | .neverResolved _ _ => true
  | _ => false

/-- The diagnostics of genuine faults have other codes than those of the bookkeeping. -/
theorem Fault.code_of_genuine {e : Fault} (h : e.isBookkeeping = false) :
    e.diagnostic.code ≠ some .placeholderMismatch ∧
      e.diagnostic.code ≠ some .unresolvedPlaceholder := by
  cases e <;>
    simp [isBookkeeping, diagnostic, diagnose, hinted] at h ⊢

/-! ## Paths of faults -/

/-- A property of paths that holds inside of a path where it holds of the path. -/
structure Paths where
  holds : String → Prop
  inside : ∀ {path : String} (segment : String), holds path → holds (path ++ segment)

def Paths.all : Paths := ⟨fun _ => True, fun _ _ => trivial⟩

/-- A genuine fault whose labels are on paths with a property. -/
structure Fault.LiesIn (P : Paths) (e : Fault) : Prop where
  genuine : e.isBookkeeping = false
  labels : ∀ label ∈ e.diagnostic.labels, P.holds label.path

/-- A genuine fault with one label lies where its label does. -/
theorem Fault.LiesIn.of_label {P : Paths} {e : Fault} {path : String}
    (hgenuine : e.isBookkeeping = false) (hlabels : e.diagnostic.labels.map Label.path = [path])
    (h : P.holds path) : e.LiesIn P := by
  refine ⟨hgenuine, fun label hlabel => ?_⟩
  have hpath : label.path ∈ e.diagnostic.labels.map Label.path := List.mem_map_of_mem hlabel
  rw [hlabels, List.mem_singleton] at hpath
  rwa [hpath]

/-! ## Checks -/

/-- A check that fails only with faults of which something holds. -/
def Except.FailsWith (p : Fault → Prop) (x : Except Fault α) : Prop := ∀ e, x = .error e → p e

namespace Except.FailsWith

variable {p : Fault → Prop}

theorem ok (a : α) : Except.FailsWith p (.ok a) := by
  rintro e ⟨⟩

theorem error {e : Fault} (h : p e) : Except.FailsWith p (.error e : Except Fault α) := by
  rintro _ ⟨⟩
  exact h

theorem bind {x : Except Fault α} {f : α → Except Fault β} (hx : Except.FailsWith p x)
    (hf : ∀ a, x = .ok a → Except.FailsWith p (f a)) : Except.FailsWith p (x >>= f) := by
  cases x with
  | error e => exact error (hx e rfl)
  | ok a => exact hf a rfl

/-- A check of a list fails as its steps do. -/
theorem foldlM {f : β → ι → Except Fault β} {xs : List ι}
    (h : ∀ b, ∀ x ∈ xs, Except.FailsWith p (f b x)) (b : β) :
    Except.FailsWith p (xs.foldlM f b) := by
  induction xs generalizing b with
  | nil => exact ok b
  | cons x xs ih =>
    rw [List.foldlM_cons]
    -- The step may depend on what was checked before, so the start is arbitrary.
    refine (h b x List.mem_cons_self).bind fun b' _ => ih (fun b y hy => ?_) b'
    exact h b y (List.mem_cons_of_mem x hy)

end Except.FailsWith

/-- A check that fails with genuine faults only. -/
def Except.Genuine (x : Except Fault α) : Prop := ∀ e, x = .error e → e.isBookkeeping = false

/-- A check that fails with genuine faults on paths with a property only. -/
def Except.FailsIn (P : Paths) (x : Except Fault α) : Prop := Except.FailsWith (Fault.LiesIn P) x

namespace Except.FailsIn

variable {P : Paths}

theorem ok (a : α) : Except.FailsIn P (.ok a) := Except.FailsWith.ok a

theorem error {e : Fault} (h : e.LiesIn P) : Except.FailsIn P (.error e : Except Fault α) :=
  Except.FailsWith.error h

theorem bind {x : Except Fault α} {f : α → Except Fault β} (hx : Except.FailsIn P x)
    (hf : ∀ a, Except.FailsIn P (f a)) : Except.FailsIn P (x >>= f) :=
  Except.FailsWith.bind hx fun a _ => hf a

theorem foldlM {f : β → ι → Except Fault β} (h : ∀ b x, Except.FailsIn P (f b x)) (xs : List ι)
    (b : β) : Except.FailsIn P (xs.foldlM f b) :=
  Except.FailsWith.foldlM (fun b x _ => h b x) b

theorem genuine {x : Except Fault α} (h : Except.FailsIn P x) : Except.Genuine x :=
  fun e he => (h e he).genuine

theorem of_genuine {x : Except Fault α} (h : Except.Genuine x) : Except.FailsIn .all x :=
  fun e he => ⟨h e he, fun _ _ => trivial⟩

end Except.FailsIn

namespace Node

/-- Recognising a call finds genuine faults only, at the path of the node. -/
theorem failsIn_call? {P : Paths} {ctx : Context} (h : P.holds ctx.path) (node : Node) :
    Except.FailsIn P (node.call? ctx) := by
  intro e he
  unfold call? at he
  repeat' split at he
  all_goals cases he
  all_goals exact .of_label rfl rfl h

section Literal

variable {p : Fault → Prop} {P : Paths}

/-- The check of a sequence fails as the checks of its items do. -/
theorem checkLiteralItems_failsWith {items : List Node}
    (h : ∀ x ∈ items, ∀ ctx : Context, P.holds ctx.path → Except.FailsWith p (x.checkLiteral ctx))
    {ctx : Context} (hctx : P.holds ctx.path) (i : Nat) :
    Except.FailsWith p (checkLiteralItems ctx i items) := by
  induction items generalizing i with
  | nil => exact .ok ()
  | cons item items ih =>
    unfold checkLiteralItems
    split
    · next e he => exact .error (h item List.mem_cons_self _ (P.inside _ hctx) e he)
    · exact ih (fun x hx => h x (List.mem_cons_of_mem item hx)) (i + 1)

/-- The check of a mapping fails at a key without a text, or as the checks of its values do. -/
theorem checkLiteralEntries_failsWith {entries : List (Node × Node)}
    (hkey : ∀ path, P.holds path → p (.keyNotScalar path))
    (h : ∀ x ∈ entries.map Prod.snd, ∀ ctx : Context, P.holds ctx.path →
      Except.FailsWith p (x.checkLiteral ctx))
    {ctx : Context} (hctx : P.holds ctx.path) :
    Except.FailsWith p (checkLiteralEntries ctx entries) := by
  induction entries with
  | nil => exact .ok ()
  | cons e entries ih =>
    obtain ⟨key, value⟩ := e
    unfold checkLiteralEntries
    split
    · exact .error (hkey _ hctx)
    · split
      · next e he => exact .error (h value List.mem_cons_self _ (P.inside _ hctx) e he)
      · exact ih fun x hx => h x (List.mem_cons_of_mem value hx)

/-- The check of literal data finds calls that are misread or misplaced, and keys without a text,
inside of its path. -/
theorem checkLiteral_failsWith
    (hcall : ∀ ctx node, P.holds ctx.path → Except.FailsWith p (call? ctx node))
    (hplace : ∀ path area f r, P.holds path → p (.misplacedFunction path area f r))
    (hkey : ∀ path, P.holds path → p (.keyNotScalar path)) (node : Node) {ctx : Context}
    (hctx : P.holds ctx.path) : Except.FailsWith p (node.checkLiteral ctx) := by
  induction node using Node.induction generalizing ctx with
  | step node ih =>
    unfold checkLiteral
    split
    · next e he => exact .error (hcall ctx node hctx e he)
    · -- A call was recognised, and literal data admits none.
      exact .error (hplace _ _ _ _ hctx)
    · split
      · exact checkLiteralItems_failsWith (fun x hx ctx hctx => ih x (.member hx) hctx) hctx 0
      · exact checkLiteralEntries_failsWith hkey (fun x hx ctx hctx => ih x (.member hx) hctx) hctx
      · exact .ok ()

/-- The check of literal data finds genuine faults only, inside of its path. -/
theorem failsIn_checkLiteral (node : Node) {ctx : Context} (hctx : P.holds ctx.path) :
    Except.FailsIn P (node.checkLiteral ctx) :=
  checkLiteral_failsWith (fun _ node h => failsIn_call? h node)
    (fun _ _ _ _ h => .of_label rfl rfl h) (fun _ h => .of_label rfl rfl h) node hctx

end Literal

end Node

end StackTemplate
