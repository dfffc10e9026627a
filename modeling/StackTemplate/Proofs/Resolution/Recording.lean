import StackTemplate.Proofs.Resolution.Expansion

/-!
# Attempts that record placeholders

A staged attempt that succeeds leaves the table as it was, with the placeholders that it recorded at
the end. What it gives may hold these placeholders; placeholders that are recorded or resolved
later do not matter.

* `Placeholders.Extends` : the order of tables.
* `Grows` : an attempt that only records placeholders.
* `Leaves` : what an attempt gives, beside the numbers of the placeholders that it records.
* `Leaves.bind`, `Leaves.mapM`, `Leaves.foldlM` : sequences of attempts.
-/

namespace StackTemplate

variable {α β ι : Type}

/-! ## Tables -/

namespace Placeholders

theorem Extends.refl (table : Placeholders) : table.Extends table := List.prefix_rfl

theorem Extends.trans {latest later earlier : Placeholders} (h : latest.Extends later)
    (h' : later.Extends earlier) : latest.Extends earlier := List.IsPrefix.trans h' h

theorem extends_append (table new : Placeholders) : Extends (table ++ new) table := by
  unfold Extends
  rw [List.map_append]
  exact List.prefix_append _ _

theorem Extends.append_left {later table new : Placeholders} (h : later.Extends (table ++ new)) :
    later.Extends table := h.trans (extends_append table new)

/-- A placeholder keeps its number, its node and its place. -/
theorem Extends.getElem? {later earlier : Placeholders} (h : later.Extends earlier) {id : Nat}
    {p : Placeholder} (hp : earlier[id]? = some p) :
    ∃ q, later[id]? = some q ∧ q.target = p.target ∧ q.context = p.context ∧ q.node = p.node := by
  obtain ⟨rest, hrest⟩ := h
  have hid : (later.map fun p => { p with resolved := false })[id]? =
      some { p with resolved := false } := by
    rw [← hrest, List.getElem?_append_left]
    · rw [List.getElem?_map, hp, Option.map_some]
    · rw [List.length_map]
      exact (List.getElem?_eq_some_iff.1 hp).1
  rw [List.getElem?_map, Option.map_eq_some_iff] at hid
  obtain ⟨q, hq, heq⟩ := hid
  -- Without the mark of being resolved the two are equal, so they agree in all else.
  obtain ⟨target, area, path, node, r⟩ := q
  obtain ⟨target', area', path', node', r'⟩ := p
  simp only [Placeholder.mk.injEq] at heq
  obtain ⟨rfl, rfl, rfl, rfl, -⟩ := heq
  exact ⟨_, hq, rfl, rfl, rfl⟩

/-- A table of the same length holds the same placeholders. -/
theorem Extends.getElem?_earlier {later earlier : Placeholders} (h : later.Extends earlier)
    (hlength : later.length = earlier.length) {id : Nat} {p : Placeholder}
    (hp : later[id]? = some p) :
    ∃ q, earlier[id]? = some q ∧ p.target = q.target ∧ p.context = q.context ∧ p.node = q.node := by
  have hlt : id < earlier.length := hlength ▸ (List.getElem?_eq_some_iff.1 hp).1
  obtain ⟨p', hp', hsame⟩ := h.getElem? (List.getElem?_eq_getElem hlt)
  rw [hp] at hp'
  cases hp'
  exact ⟨_, List.getElem?_eq_getElem hlt, hsame⟩

end Placeholders

/-! ## Attempts that record -/

/-- The numbers of the placeholders that are recorded next to a table. -/
def newIds (table new : Placeholders) : List Nat := List.range' table.length new.length

/-- Placeholders that are recorded later have later numbers. -/
theorem newIds_append (table new new' : Placeholders) :
    newIds table (new ++ new') = newIds table new ++ newIds (table ++ new) new' := by
  simp [newIds, List.range'_append_1]

/-- An attempt that only records placeholders, where it succeeds. -/
def Grows (x : Attempt Placeholders α) : Prop :=
  ∀ table a table', x table = some (a, table') → table <+: table'

namespace Grows

theorem pure (a : α) : Grows (pure a : Attempt Placeholders α) := by
  rintro table a' table' ⟨⟩
  exact List.prefix_rfl

theorem failure : Grows (failure : Attempt Placeholders α) := by
  rintro table a table' ⟨⟩

theorem bind {x : Attempt Placeholders α} {f : α → Attempt Placeholders β} (hx : Grows x)
    (hf : ∀ a, Grows (f a)) : Grows (x >>= f) := by
  intro table b table' h
  obtain ⟨a, table₁, ha, hb⟩ := Attempt.bind_eq_some.1 h
  exact (hx table a table₁ ha).trans (hf a table₁ b table' hb)

theorem map {x : Attempt Placeholders α} (f : α → β) (hx : Grows x) : Grows (f <$> x) := by
  rw [← bind_pure_comp]
  exact hx.bind fun a => Grows.pure (f a)

/-- Attempts one after the other only record where each does. -/
theorem mapM {f : ι → Attempt Placeholders α} {xs : List ι} (h : ∀ x ∈ xs, Grows (f x)) :
    Grows (xs.mapM f) := by
  induction xs with
  | nil => exact Grows.pure []
  | cons x xs ih =>
    rw [List.mapM_cons]
    have hrest := ih fun y hy => h y (List.mem_cons_of_mem x hy)
    exact (h x List.mem_cons_self).bind fun a => hrest.bind fun as => Grows.pure (a :: as)

/-- Steps one after the other only record where each does. -/
theorem foldlM {f : β → ι → Attempt Placeholders β} {xs : List ι}
    (h : ∀ b, ∀ x ∈ xs, Grows (f b x)) {b : β} : Grows (xs.foldlM f b) := by
  induction xs generalizing b with
  | nil => exact Grows.pure b
  | cons x xs ih =>
    rw [List.foldlM_cons]
    exact (h b x List.mem_cons_self).bind fun b' =>
      ih fun b y hy => h b y (List.mem_cons_of_mem x hy)

end Grows

/-! ## What attempts leave -/

/-- Where an attempt succeeds, it only records placeholders, each with some property; its result is
related to their numbers in every table that extends the final one. -/
def Leaves (P : Placeholder → Prop) (V : Placeholders → List Nat → α → Prop)
    (x : Attempt Placeholders α) : Prop :=
  ∀ table a table', x table = some (a, table') → ∃ new, table' = table ++ new ∧ (∀ p ∈ new, P p) ∧
    ∀ later : Placeholders, later.Extends table' → V later (newIds table new) a

/-- Results that are related one by one to what they are computed for, the numbers in the order of
the results. -/
inductive Links (V : ι → List Nat → α → Prop) : List ι → List Nat → List α → Prop where
  | nil : Links V [] [] []
  | cons {i : ι} {is : List ι} {ids ids' : List Nat} {a : α} {as : List α} :
      V i ids a → Links V is ids' as → Links V (i :: is) (ids ++ ids') (a :: as)

theorem Links.length_eq {V : ι → List Nat → α → Prop} {is : List ι} {ids : List Nat} {as : List α}
    (h : Links V is ids as) : as.length = is.length := by
  induction h with
  | nil => rfl
  | cons _ _ ih => rw [List.length_cons, List.length_cons, ih]

namespace Leaves

variable {P Q : Placeholder → Prop} {V : Placeholders → List Nat → α → Prop}
  {W : Placeholders → List Nat → β → Prop}

theorem grows {x : Attempt Placeholders α} (h : Leaves P V x) : Grows x := by
  intro table a table' ha
  obtain ⟨new, rfl, -⟩ := h table a table' ha
  exact List.prefix_append table new

theorem pure {a : α} (h : ∀ later, V later [] a) : Leaves P V (pure a) := by
  rintro table a' table' ⟨⟩
  exact ⟨[], (List.append_nil table).symm, by simp, fun later _ => h later⟩

theorem failure : Leaves P V (failure : Attempt Placeholders α) := by
  rintro table a table' ⟨⟩

/-- A sequence of attempts; what the second one leaves may rely on what the first one gave. -/
theorem bind {x : Attempt Placeholders α} {f : α → Attempt Placeholders β} (hx : Leaves P V x)
    (hf : ∀ a, Leaves P (fun later ids b => ∀ prior, V later prior a → W later (prior ++ ids) b)
      (f a)) : Leaves P W (x >>= f) := by
  intro table b table' h
  obtain ⟨a, table₁, ha, hb⟩ := Attempt.bind_eq_some.1 h
  obtain ⟨new, rfl, hnew, hV⟩ := hx table a table₁ ha
  obtain ⟨new', rfl, hnew', hW⟩ := hf a _ b table' hb
  refine ⟨new ++ new', List.append_assoc _ _ _, fun p hp => ?_, fun later hlater => ?_⟩
  · rcases List.mem_append.1 hp with hp | hp
    · exact hnew p hp
    · exact hnew' p hp
  · -- What the second part records is numbered behind what the first part recorded.
    rw [newIds_append]
    exact hW later hlater _ (hV later hlater.append_left)

theorem mono {V' : Placeholders → List Nat → α → Prop} {x : Attempt Placeholders α}
    (h : Leaves P V x) (hPQ : ∀ p, P p → Q p) (hV : ∀ later ids a, V later ids a → V' later ids a) :
    Leaves Q V' x := by
  intro table a table' ha
  obtain ⟨new, htable, hnew, hleft⟩ := h table a table' ha
  exact ⟨new, htable, fun p hp => hPQ p (hnew p hp), fun later hlater =>
    hV later _ a (hleft later hlater)⟩

theorem map {x : Attempt Placeholders α} {f : α → β} (hx : Leaves P V x)
    (hf : ∀ later ids a, V later ids a → W later ids (f a)) : Leaves P W (f <$> x) := by
  rw [← bind_pure_comp]
  refine hx.bind fun a => .pure fun later prior ha => ?_
  rw [List.append_nil]
  exact hf later prior a ha

/-- Attempts one after the other leave their placeholders in order, each linked to its result. -/
theorem mapM {V : ι → Placeholders → List Nat → α → Prop} {f : ι → Attempt Placeholders α}
    {xs : List ι} (h : ∀ x ∈ xs, Leaves P (V x) (f x)) :
    Leaves P (fun later => Links (fun x => V x later) xs) (xs.mapM f) := by
  induction xs with
  | nil => exact .pure fun _ => .nil
  | cons x xs ih =>
    rw [List.mapM_cons]
    have hrest := ih fun y hy => h y (List.mem_cons_of_mem x hy)
    refine (h x List.mem_cons_self).bind fun a => hrest.bind fun as => .pure fun later ids has => ?_
    intro prior ha
    rw [List.append_nil]
    exact .cons ha has

/-- Values under different names are added one after the other. Adding one may rely on its name
being free, and leaves free what has another name. -/
theorem foldlM {β : Type} (free : α → String → Prop) {f : α → String × β → Attempt Placeholders α}
    {es : List (String × β)} (hnodup : (Entries.keys es).Nodup)
    (hstep : ∀ e ∈ es, ∀ a, free a e.1 →
      Leaves P (fun later ids a' => (∀ prior, V later prior a → V later (prior ++ ids) a') ∧
        ∀ other, other ≠ e.1 → free a other → free a' other) (f a e))
    {a : α} (hfree : ∀ e ∈ es, free a e.1) :
    Leaves P (fun later ids a' => ∀ prior, V later prior a → V later (prior ++ ids) a')
      (es.foldlM f a) := by
  induction es generalizing a with
  | nil => exact .pure fun later prior ha => by rwa [List.append_nil]
  | cons e es ih =>
    rw [List.foldlM_cons]
    obtain ⟨hnew, hrest⟩ := List.nodup_cons.1 hnodup
    intro table a'' table' h
    obtain ⟨a', table₁, ha', h⟩ := Attempt.bind_eq_some.1 h
    obtain ⟨new, rfl, hP, hV⟩ := hstep e List.mem_cons_self a (hfree e List.mem_cons_self) _ _ _ ha'
    -- The names that follow are others, and they are still free.
    have hfree' : ∀ e' ∈ es, free a' e'.1 := by
      intro e' he'
      have hne : e'.1 ≠ e.1 := fun heq => hnew (heq ▸ List.mem_map.2 ⟨e', he', rfl⟩)
      exact (hV _ (.refl _)).2 e'.1 hne (hfree e' (List.mem_cons_of_mem e he'))
    obtain ⟨new', rfl, hP', hV'⟩ :=
      ih hrest (fun e he => hstep e (List.mem_cons_of_mem _ he)) hfree' _ _ _ h
    refine ⟨new ++ new', List.append_assoc _ _ _, fun p hp => ?_, fun later hlater prior ha => ?_⟩
    · rcases List.mem_append.1 hp with hp | hp
      · exact hP p hp
      · exact hP' p hp
    · rw [newIds_append, ← List.append_assoc]
      exact hV' later hlater _ ((hV later hlater.append_left).1 prior ha)

end Leaves

end StackTemplate
