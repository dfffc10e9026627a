import StackTemplate.Proofs.Resolution.Recording

/-!
# Staged attempts beside direct ones

A staged attempt and a direct one go side by side. If the direct attempt succeeds, so does the
staged one, every placeholder that it records has a meaning, and the results are related. If the
direct attempt fails, the staged one fails as well or records a placeholder that has no meaning.

* `Mirrors` : the relation between the two attempts, at one table.
* `Mirrors.bind`, `Mirrors.mapM`, `Mirrors.foldlM` : the relation respects sequences.
-/

namespace StackTemplate

variable {α β γ δ ι : Type}

/-! ## The relation -/

/-- A staged attempt and a direct one from a table. The results of successful attempts are related
by `V` in every table that extends the final one. -/
inductive Mirrors (table : Placeholders) (V : Placeholders → α → β → Prop)
    (x : Attempt Placeholders α) (y : Attempt Unit β) : Prop where
  | fails : x table = none → y () = none → Mirrors table V x y
  | flawed {a : α} {new : Placeholders} {p : Placeholder} : x table = some (a, table ++ new) →
      y () = none → p ∈ new → p.meaning? = none → Mirrors table V x y
  | agrees {a : α} {b : β} {new : Placeholders} : x table = some (a, table ++ new) →
      y () = some (b, ()) → (∀ p ∈ new, p.meaning?.isSome = true) →
      (∀ later : Placeholders, later.Extends (table ++ new) → V later a b) → Mirrors table V x y

namespace Mirrors

variable {table : Placeholders} {V : Placeholders → α → β → Prop}
  {W : Placeholders → γ → δ → Prop}

/-- Attempts that return are related if what they return is. -/
theorem pure {a : α} {b : β} (h : ∀ later : Placeholders, later.Extends table → V later a b) :
    Mirrors table V (pure a) (pure b) := by
  have hrun : (Pure.pure a : Attempt Placeholders α) table = some (a, table ++ []) := by
    rw [List.append_nil]
    rfl
  refine .agrees hrun rfl (by simp) fun later hlater => ?_
  rw [List.append_nil] at hlater
  exact h later hlater

theorem failure : Mirrors table V (failure : Attempt Placeholders α) (failure : Attempt Unit β) :=
  .fails rfl rfl

/-- A sequence of attempts; what follows is related in the table that the first part leaves. -/
theorem bind {x : Attempt Placeholders α} {y : Attempt Unit β} {f : α → Attempt Placeholders γ}
    {g : β → Attempt Unit δ} (h : Mirrors table V x y)
    (hgrows : ∀ a, Grows (f a))
    (hnext : ∀ a b table', (∀ later : Placeholders, later.Extends table' → V later a b) →
      table'.Extends table → Mirrors table' W (f a) (g b)) :
    Mirrors table W (x >>= f) (y >>= g) := by
  cases h with
  | fails hx hy => exact .fails (Attempt.bind_of_none f hx) (Attempt.bind_of_none g hy)
  | @flawed a new p hx hy hp hmeaning =>
    have hnone : (y >>= g) () = none := Attempt.bind_of_none g hy
    have hrun : (x >>= f) table = f a (table ++ new) := Attempt.bind_of_some f hx
    -- Staged elaboration goes on behind a flaw, and keeps it in the table that only grows.
    cases hfa : f a (table ++ new) with
    | none => exact .fails (hrun.trans hfa) hnone
    | some r =>
      obtain ⟨c, table'⟩ := r
      obtain ⟨new', rfl⟩ := hgrows a _ c table' hfa
      have hboth : (x >>= f) table = some (c, table ++ (new ++ new')) := by
        rw [hrun, hfa, List.append_assoc]
      exact .flawed hboth hnone (List.mem_append_left new' hp) hmeaning
  | @agrees a b new hx hy hnew hV =>
    have hrun : (x >>= f) table = f a (table ++ new) := Attempt.bind_of_some f hx
    have hdirect : (y >>= g) () = g b () := Attempt.bind_of_some g hy
    -- Both go on, so the second parts decide; what the first part recorded stays in the table.
    cases hnext a b (table ++ new) hV (Placeholders.extends_append table new) with
    | fails hfa hgb => exact .fails (hrun.trans hfa) (hdirect.trans hgb)
    | @flawed c new' p hfa hgb hp hmeaning =>
      have hboth : (x >>= f) table = some (c, table ++ (new ++ new')) := by
        rw [hrun, hfa, List.append_assoc]
      exact .flawed hboth (hdirect.trans hgb) (List.mem_append_right new hp) hmeaning
    | @agrees c d new' hfa hgb hnew' hW =>
      have hboth : (x >>= f) table = some (c, table ++ (new ++ new')) := by
        rw [hrun, hfa, List.append_assoc]
      refine .agrees hboth (hdirect.trans hgb) ?_ fun later hlater => ?_
      · intro p hp
        rcases List.mem_append.1 hp with hp | hp
        · exact hnew p hp
        · exact hnew' p hp
      · exact hW later (by rwa [List.append_assoc])

theorem map {x : Attempt Placeholders α} {y : Attempt Unit β} {f : α → γ} {g : β → δ}
    (h : Mirrors table V x y) (hVW : ∀ later a b, V later a b → W later (f a) (g b)) :
    Mirrors table W (f <$> x) (g <$> y) := by
  rw [← bind_pure_comp, ← bind_pure_comp]
  exact h.bind (fun a => Grows.pure (f a)) fun a b table' hV _ =>
    .pure fun later hlater => hVW _ _ _ (hV later hlater)

/-- What relates the results may be weakened. -/
theorem mono {V' : Placeholders → α → β → Prop} {x : Attempt Placeholders α} {y : Attempt Unit β}
    (h : Mirrors table V x y) (hV : ∀ later a b, V later a b → V' later a b) :
    Mirrors table V' x y := by
  cases h with
  | fails hx hy => exact .fails hx hy
  | flawed hx hy hp hmeaning => exact .flawed hx hy hp hmeaning
  | agrees hx hy hnew h =>
    exact .agrees hx hy hnew fun later hlater => hV later _ _ (h later hlater)

/-- Results that are computed one after the other are related one by one. -/
theorem mapM {f : ι → Attempt Placeholders α} {g : ι → Attempt Unit β} {xs : List ι}
    (hgrows : ∀ x ∈ xs, Grows (f x))
    (h : ∀ x ∈ xs, ∀ table, Mirrors table V (f x) (g x)) (table : Placeholders) :
    Mirrors table (fun later as bs => as.length = xs.length ∧ List.Forall₂ (V later) as bs)
      (xs.mapM f) (xs.mapM g) := by
  induction xs generalizing table with
  | nil => exact .pure fun later _ => ⟨rfl, .nil⟩
  | cons x xs ih =>
    rw [List.mapM_cons, List.mapM_cons]
    have hgrowsRest := Grows.mapM fun y hy => hgrows y (List.mem_cons_of_mem x hy)
    have hrest := ih (fun y hy => hgrows y (List.mem_cons_of_mem x hy)) fun y hy =>
      h y (List.mem_cons_of_mem x hy)
    refine (h x List.mem_cons_self table).bind
      (fun a => hgrowsRest.bind fun as => Grows.pure (a :: as)) fun a b table₁ hV _ => ?_
    refine (hrest table₁).bind (fun as => Grows.pure (a :: as)) fun as bs table₂ hVs hextends => ?_
    -- The first results were related in an earlier table, which the later ones extend.
    refine .pure fun later hlater => ?_
    obtain ⟨hlength, hrelated⟩ := hVs later hlater
    exact ⟨congrArg (· + 1) hlength, .cons (hV later (hlater.trans hextends)) hrelated⟩

/-- Values that are changed step by step stay related if each step keeps them so. -/
theorem foldlM {f : α → ι → Attempt Placeholders α} {g : β → ι → Attempt Unit β} {xs : List ι}
    (hgrows : ∀ a, ∀ x ∈ xs, Grows (f a x))
    (hstep : ∀ x ∈ xs, ∀ table a b, (∀ later : Placeholders, later.Extends table → V later a b) →
      Mirrors table V (f a x) (g b x)) {a : α} {b : β}
    (h : ∀ later : Placeholders, later.Extends table → V later a b) :
    Mirrors table V (xs.foldlM f a) (xs.foldlM g b) := by
  induction xs generalizing table a b with
  | nil => exact .pure h
  | cons x xs ih =>
    rw [List.foldlM_cons, List.foldlM_cons]
    refine (hstep x List.mem_cons_self table a b h).bind (fun a' => ?_) fun a' b' table' hV _ => ?_
    · exact Grows.foldlM fun a y hy => hgrows a y (List.mem_cons_of_mem x hy)
    · exact ih (fun a y hy => hgrows a y (List.mem_cons_of_mem x hy))
        (fun y hy => hstep y (List.mem_cons_of_mem x hy)) hV

end Mirrors

end StackTemplate
