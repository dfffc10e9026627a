import StackTemplate.Proofs.Resolution.Congruence
import StackTemplate.Proofs.Resolution.Settling

/-!
# Labels of faults

A placeholder keeps the path on which it was recorded, and settling it resolves its node on that
path. So the labels of all faults that are met while placeholders are recorded and settled are on
the paths of placeholders or inside of them, whatever is wrong, those of the bookkeeping included.

* `Placeholders.OnPaths` : all placeholders of a table are on paths with a property.
* `Resolution.StaysIn` : a resolution that keeps to such paths.
* `Operand.staysIn_settle` : settling an operand keeps to its path and those of the placeholders.
-/

namespace StackTemplate

variable {α β ι : Type} {P : Paths}

/-- All labels of a fault are on paths with a property. -/
def Fault.LabelsIn (P : Paths) (e : Fault) : Prop :=
  ∀ label ∈ e.diagnostic.labels, P.holds label.path

/-- All placeholders of a table are on paths with a property. -/
def Placeholders.OnPaths (P : Paths) (table : Placeholders) : Prop :=
  ∀ p ∈ table, P.holds p.path

namespace Resolution

/-- A resolution that keeps all placeholders on paths with a property, and fails with faults whose
labels are on such paths. -/
def StaysIn (P : Paths) (x : Resolution Placeholders α) : Prop :=
  ∀ table, Placeholders.OnPaths P table → Placeholders.OnPaths P (x.run table).2 ∧
    ∀ e, (x.run table).1 = .error e → e.LabelsIn P

/-- A resolution that reports on some paths stays on them. -/
theorem ReportsIn.staysIn {x : Resolution Placeholders α} (h : x.ReportsIn P) : x.StaysIn P := by
  intro table htable
  rcases h table with ⟨⟨new, hnew, hpaths⟩, hfaults⟩
  rw [← hnew]
  constructor
  · exact List.forall_mem_append.2 ⟨htable, hpaths⟩
  · exact fun e he => (hfaults e he).labels

namespace StaysIn

theorem pure (a : α) : StaysIn P (Pure.pure a) :=
  fun _ htable => ⟨htable, fun _ h => by cases h⟩

theorem throw {e : Fault} (h : e.LabelsIn P) :
    StaysIn P (MonadExcept.throw e : Resolution Placeholders α) := by
  refine fun _ htable => ⟨htable, ?_⟩
  rintro _ ⟨⟩
  exact h

/-- A sequence stays on paths on which both parts stay. -/
theorem bind {x : Resolution Placeholders α} {f : α → Resolution Placeholders β}
    (hx : x.StaysIn P) (hf : ∀ a, (f a).StaysIn P) : (x >>= f).StaysIn P := by
  intro table htable
  rcases hx table htable with ⟨hafter, hfaults⟩
  rw [run_bind]
  rcases hrun : x.run table with ⟨e | a, after⟩ <;> rw [hrun] at hafter hfaults
  · -- The first part fails, so its fault is that of the sequence.
    refine ⟨hafter, ?_⟩
    rintro _ ⟨⟩
    exact hfaults e rfl
  · exact hf a after hafter

theorem map (f : α → β) {x : Resolution Placeholders α} (hx : x.StaysIn P) :
    (f <$> x).StaysIn P := by
  rw [← bind_pure_comp]
  exact hx.bind fun a => pure (f a)

/-- Resolving a list stays on paths on which resolving each member does. -/
theorem mapM {f : ι → Resolution Placeholders α} {xs : List ι} (h : ∀ x ∈ xs, (f x).StaysIn P) :
    (xs.mapM f).StaysIn P := by
  induction xs with
  | nil => exact pure []
  | cons x xs ih =>
    rw [List.forall_mem_cons] at h
    rw [List.mapM_cons]
    exact h.1.bind fun y => (ih h.2).bind fun ys => pure (y :: ys)

end StaysIn

end Resolution

/-! ## Settling -/

/-- Changing a placeholder without its path keeps all placeholders on their paths. -/
theorem Placeholders.OnPaths.modify {table : Placeholders} (h : table.OnPaths P) (id : Nat)
    {f : Placeholder → Placeholder} (hf : ∀ p, (f p).path = p.path) :
    OnPaths P (table.modify id f) := by
  intro p hp
  rcases List.getElem?_of_mem hp with ⟨i, hi⟩
  rw [List.getElem?_modify] at hi
  rcases Option.map_eq_some_iff.1 hi with ⟨q, hq, rfl⟩
  have hq := h q (List.mem_of_getElem? hq)
  split
  · rwa [hf]
  · exact hq

/-- A placeholder that is found is resolved on the path on which it was recorded. -/
theorem Placeholder.staysIn_resolve (id : Nat) (owner : Option Intrinsic) (slot : Slot)
    {path : String} (hpath : P.holds path) : (resolve id owner slot path).StaysIn P := by
  intro table htable
  have hfound {p : Placeholder} (hp : table[id]? = some p) : P.holds p.path :=
    htable p (List.mem_of_getElem? hp)
  have hget : (get : Resolution Placeholders Placeholders).run table = (.ok table, table) := rfl
  rw [resolve, Resolution.run_bind, hget]
  -- A fault of the bookkeeping has labels at the place of the occurrence and, unless the number is
  -- unknown, where the placeholder was recorded.
  cases hfind : table[id]? with
  | none =>
    simp only [hfind]
    refine Resolution.StaysIn.throw ?_ table htable
    simpa [Fault.LabelsIn, Fault.diagnostic, Fault.diagnose] using hpath
  | some p =>
    have hrecorded := hfound hfind
    simp only [hfind]
    split
    · refine Resolution.StaysIn.throw ?_ table htable
      simp [Fault.LabelsIn, Fault.diagnostic, Fault.diagnoseTwice, hpath, hrecorded]
    · split
      · refine Resolution.StaysIn.throw ?_ table htable
        simp [Fault.LabelsIn, Fault.diagnostic, Fault.diagnoseTwice, hpath, hrecorded]
      · have hcontext : P.holds p.context.path := hrecorded
        have hnode := (p.node.reportsIn_resolve hcontext).staysIn
        refine Resolution.StaysIn.bind hnode (fun operand => ?_) table htable
        intro table htable
        refine ⟨htable.modify id fun p => rfl, fun _ h => by cases h⟩

namespace Operand

/-- Settling a child stays inside of the path of its parent, or on that of its placeholder. -/
theorem staysIn_settleSlot {depth : Nat} {path : String} {x : Operand} (hpath : P.holds path)
    (owner : Option Intrinsic) (slot : Slot)
    (hpart : ∀ {path}, P.holds path → (x.settle depth path).StaysIn P)
    (hinside : ∀ {d}, d < depth → ∀ (y : Operand) {path}, P.holds path →
      (y.settle d path).StaysIn P) : (settleSlot depth path owner slot x).StaysIn P := by
  have hslot := P.inside slot.segment hpath
  unfold settleSlot
  split
  · -- What the placeholder stands for takes its place in the slot, so it is settled on the path of
    -- the slot.
    next id d =>
    have hresolve := Placeholder.staysIn_resolve id owner slot hslot
    exact hresolve.bind fun y => hinside (Nat.lt_succ_self d) y hslot
  · exact hpart hslot

/-- Settling an operand keeps to its path and the paths of the placeholders. -/
theorem staysIn_settle (depth : Nat) (o : Operand) {path : String} (hpath : P.holds path) :
    (o.settle depth path).StaysIn P := by
  induction depth, o using settling_induction generalizing path with
  | step depth o ihDepth ihPart =>
    rw [settle_eq]
    refine .map _ (.mapM fun e he => ?_)
    have hpart := mem_parts_of_mem_children he
    exact staysIn_settleSlot hpath _ e.1 (ihPart e.2 hpart) fun hlt y => ihDepth _ hlt y

end Operand

end StackTemplate
