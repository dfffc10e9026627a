import Mathlib.Data.List.Forall2
import Mathlib.Data.List.Perm.Basic
import Mathlib.Data.List.Perm.Subperm
import StackTemplate.Dict

/-!
# Entries

Lists of entries under the operations that other modules reason about: a function applied to the
values, entries appended, and later entries that replace earlier ones.

* `Remains` : the members of a list of which some may be lost.
* `Entries.insert_of_not_mem` : a new key goes to the end.
* `Entries.insertAll` : entries inserted one after the other.
* `Entries.ofList_eq_self` : entries with different keys are all kept.
* `Entries.remains_ofList` : of entries, those remain that no later entry replaces.
* `Entries.forall₂_ofList` : related entries stay related when later ones replace earlier ones.
-/

namespace StackTemplate

/-- Every member of the second of two related lists is related to a member of the first. -/
theorem exists_mem_of_forall₂ {α β : Type} {R : α → β → Prop} {xs : List α} {ys : List β}
    (h : List.Forall₂ R xs ys) {y : β} (hy : y ∈ ys) : ∃ x ∈ xs, R x y := by
  induction h with
  | nil => cases hy
  | @cons x z xs ys hxz _ ih =>
    rcases List.mem_cons.1 hy with rfl | hy
    · exact ⟨x, List.mem_cons_self, hxz⟩
    · rcases ih hy with ⟨w, hw, hwy⟩
      exact ⟨w, List.mem_cons_of_mem x hw, hwy⟩

/-- An action that may fail succeeds on a list exactly if it does on each member. -/
theorem mapM_eq_some_iff {α β : Type} {f : α → Option β} {xs : List α} {ys : List β} :
    xs.mapM f = some ys ↔ List.Forall₂ (fun x y => f x = some y) xs ys := by
  induction xs generalizing ys with
  | nil => simp [eq_comm]
  | cons x xs ih =>
    rw [List.mapM_cons, List.forall₂_cons_left_iff]
    constructor
    · -- The head succeeds, then the rest does.
      intro h
      obtain ⟨y, hy, h⟩ := Option.bind_eq_some_iff.1 h
      obtain ⟨zs, hzs, h⟩ := Option.bind_eq_some_iff.1 h
      cases h
      exact ⟨y, zs, hy, ih.1 hzs, rfl⟩
    · rintro ⟨y, zs, hy, hzs, rfl⟩
      simp [hy, ih.2 hzs]

/-! ## What remains of a list -/

/-- Some members of a list remain, in any order; where all is kept, all of them. -/
def Remains {α : Type} (kept : Prop) (xs ys : List α) : Prop :=
  ∃ lost, (xs ++ lost).Perm ys ∧ (kept → lost = [])

namespace Remains

variable {α β : Type} {kept : Prop} {xs ys zs xs' ys' : List α}

theorem of_perm (h : xs.Perm ys) : Remains kept xs ys :=
  ⟨[], by rwa [List.append_nil], fun _ => rfl⟩

theorem refl (xs : List α) : Remains kept xs xs := of_perm (.refl xs)

theorem perm (h : Remains kept xs ys) (hkept : kept) : xs.Perm ys := by
  obtain ⟨lost, hperm, hlost⟩ := h
  rwa [hlost hkept, List.append_nil] at hperm

/-- What remains in any case, and is all where all is kept. -/
theorem of_kept (h : Remains False xs ys) (hkept : kept → xs.Perm ys) : Remains kept xs ys := by
  obtain ⟨lost, hperm, -⟩ := h
  by_cases hk : kept
  · exact of_perm (hkept hk)
  · exact ⟨lost, hperm, fun hk' => absurd hk' hk⟩

theorem trans (h : Remains kept xs ys) (h' : Remains kept ys zs) : Remains kept xs zs := by
  obtain ⟨lost, hperm, hlost⟩ := h
  obtain ⟨lost', hperm', hlost'⟩ := h'
  refine ⟨lost ++ lost', ?_, fun hk => by rw [hlost hk, hlost' hk, List.append_nil]⟩
  rw [← List.append_assoc]
  exact (hperm.append_right lost').trans hperm'

/-- What remains of two lists, side by side. -/
theorem append (h : Remains kept xs ys) (h' : Remains kept xs' ys') :
    Remains kept (xs ++ xs') (ys ++ ys') := by
  obtain ⟨lost, hperm, hlost⟩ := h
  obtain ⟨lost', hperm', hlost'⟩ := h'
  refine ⟨lost ++ lost', ?_, fun hk => by rw [hlost hk, hlost' hk, List.append_nil]⟩
  -- What the first list lost moves behind what remains of the second one.
  have hswap : (xs ++ xs' ++ (lost ++ lost')).Perm (xs ++ lost ++ (xs' ++ lost')) := by
    simp only [List.append_assoc]
    exact (List.perm_append_comm_assoc xs' lost lost').append_left xs
  exact hswap.trans (hperm.append hperm')

theorem map (f : α → β) (h : Remains kept xs ys) : Remains kept (xs.map f) (ys.map f) := by
  obtain ⟨lost, hperm, hlost⟩ := h
  refine ⟨lost.map f, ?_, fun hk => by rw [hlost hk, List.map_nil]⟩
  rw [← List.map_append]
  exact hperm.map f

/-- What the members that remain bring is part of what all members bring. -/
theorem flatMap (f : α → List β) (h : Remains kept xs ys) :
    Remains kept (xs.flatMap f) (ys.flatMap f) := by
  obtain ⟨lost, hperm, hlost⟩ := h
  refine ⟨lost.flatMap f, ?_, fun hk => by rw [hlost hk, List.flatMap_nil]⟩
  rw [← List.flatMap_append]
  exact hperm.flatMap_right f

theorem subset (h : Remains kept xs ys) : xs ⊆ ys := by
  obtain ⟨lost, hperm, -⟩ := h
  exact fun x hx => hperm.subset (List.mem_append_left lost hx)

theorem nodup (h : Remains kept xs ys) (hys : ys.Nodup) : xs.Nodup := by
  obtain ⟨lost, hperm, -⟩ := h
  exact (List.nodup_append.1 (hperm.nodup_iff.2 hys)).1

theorem length_le (h : Remains kept xs ys) : xs.length ≤ ys.length := by
  obtain ⟨lost, hperm, -⟩ := h
  have hlength := hperm.length_eq
  rw [List.length_append] at hlength
  omega

theorem of_sublist (h : xs.Sublist ys) : Remains False xs ys := by
  obtain ⟨lost, hperm⟩ := h.exists_perm_append
  exact ⟨lost, hperm.symm, False.elim⟩

/-- Different members remain. -/
theorem of_nodup (hxs : xs.Nodup) (h : xs ⊆ ys) : Remains False xs ys := by
  obtain ⟨zs, hperm, hsublist⟩ := hxs.subperm h
  exact (of_perm hperm.symm).trans (of_sublist hsublist)

/-- Something may be lost at each member of a list separately. -/
theorem flatMap_of_forall {f g : α → List β} (h : ∀ x ∈ xs, Remains kept (f x) (g x)) :
    Remains kept (xs.flatMap f) (xs.flatMap g) := by
  induction xs with
  | nil => exact .refl []
  | cons x xs ih =>
    rw [List.flatMap_cons, List.flatMap_cons]
    exact (h x List.mem_cons_self).append (ih fun y hy => h y (List.mem_cons_of_mem x hy))

/-- Members that remain have places of their own in the list. -/
theorem exists_places (h : Remains kept xs ys) :
    ∃ places : List Nat, places.Nodup ∧ List.Forall₂ (fun i x => ys[i]? = some x) places xs := by
  obtain ⟨lost, hperm, -⟩ := h
  have hrange : List.Forall₂ (fun y i => ys[i]? = some y) ys (List.range ys.length) := by
    refine List.forall₂_iff_get.2 ⟨List.length_range.symm, fun i hi hi' => ?_⟩
    simp
  -- The places of the list, in the order of what remains and then of what is lost.
  obtain ⟨places, hplaces, hrearranged⟩ := List.perm_comp_forall₂ hperm hrange
  have hnodup : places.Nodup := hrearranged.nodup_iff.2 List.nodup_range
  refine ⟨places.take xs.length, hnodup.sublist (List.take_sublist _ _), ?_⟩
  exact List.forall₂_take_append _ _ _ hplaces.flip

end Remains

namespace Entries

variable {α β : Type}

theorem keys_map (f : α → β) (es : List (String × α)) :
    keys (es.map fun e => (e.1, f e.2)) = keys es := by
  simp [keys, Function.comp_def]

theorem values_map (f : α → β) (es : List (String × α)) :
    values (es.map fun e => (e.1, f e.2)) = (values es).map f := by
  simp [values, Function.comp_def]

/-- Different keys that are all the same are a single key. -/
theorem eq_singleton_of_forall {key : String} {ks : List String} (hnodup : ks.Nodup) (hne : ks ≠ [])
    (h : ∀ k ∈ ks, k = key) : ks = [key] := by
  match ks with
  | [] => exact absurd rfl hne
  | [k] => rw [h k List.mem_cons_self]
  -- Two equal keys would be a repetition.
  | k :: l :: ks =>
    have hkl : k = l := (h k (by simp)).trans (h l (by simp)).symm
    exact absurd (hkl ▸ List.mem_cons_self) (List.nodup_cons.1 hnodup).1

/-- Looking up after a function is applied to every value. -/
theorem find?_map (f : α → β) (es : List (String × α)) (key : String) :
    find? (es.map fun e => (e.1, f e.2)) key = (find? es key).map f := by
  induction es with
  | nil => rfl
  | cons e es ih =>
    simp only [List.map_cons, find?]
    split
    · rfl
    · exact ih

/-- A list of entries holds what its prefixes hold. -/
theorem find?_of_earlier {es later : List (String × α)} {key : String} {a : α}
    (hearlier : es <+: later) (h : find? es key = some a) :
    find? later key = some a := by
  obtain ⟨rest, rfl⟩ := hearlier
  induction es with
  | nil => cases h
  | cons e es ih =>
    -- The first entry answers in both lists, or in neither.
    by_cases hkey : e.1 = key
    · simpa [find?, hkey] using h
    · have hrest : find? es key = some a := by simpa [find?, hkey] using h
      simpa [find?, hkey] using ih hrest

theorem insert_of_not_mem {es : List (String × α)} {key : String} (a : α)
    (h : key ∉ keys es) : insert es key a = es ++ [(key, a)] := by
  induction es with
  | nil => rfl
  | cons e es ih =>
    simp only [keys_cons, List.mem_cons, not_or] at h
    simp only [insert, Ne.symm h.1, if_false, ih h.2, List.cons_append]

theorem find?_append_self {es : List (String × α)} {key : String} (a : α)
    (h : key ∉ keys es) : find? (es ++ [(key, a)]) key = some a := by
  rw [← insert_of_not_mem a h, find?_insert]
  simp

/-- After an insertion there is the new entry, and otherwise only what was there. -/
theorem mem_of_mem_insert {es : List (String × α)} {key : String} {a : α} {e : String × α}
    (h : e ∈ insert es key a) : e = (key, a) ∨ e ∈ es := by
  induction es with
  | nil => exact .inl (List.mem_singleton.1 h)
  | cons f es ih =>
    unfold insert at h
    split at h
    · -- The new entry stands in the place of the one it replaced.
      rcases List.mem_cons.1 h with rfl | h
      · exact .inl rfl
      · exact .inr (List.mem_cons_of_mem f h)
    · rcases List.mem_cons.1 h with rfl | h
      · exact .inr List.mem_cons_self
      · exact (ih h).imp_right (List.mem_cons_of_mem f)

/-- Of two insertions under one key, the later one counts. -/
theorem insert_insert (es : List (String × α)) (key : String) (a b : α) :
    insert (insert es key a) key b = insert es key b := by
  induction es with
  | nil => simp [insert]
  | cons e es ih =>
    rcases e with ⟨k, v⟩
    by_cases hk : k = key
    · simp [insert, hk]
    · simp [insert, hk, ih]

/-- An insertion loses no key and brings at most its own. -/
theorem mem_keys_insert {es : List (String × α)} {key k : String} {a : α} :
    k ∈ keys (insert es key a) ↔ k ∈ keys es ∨ k = key := by
  rw [keys_insert]
  split
  · next hmem =>
    constructor
    · exact .inl
    · rintro (h | rfl)
      · exact h
      · exact hmem
  · rw [List.mem_append, List.mem_singleton]

/-! ## Entries inserted one after the other -/

/-- Entries inserted into others one after the other. -/
def insertAll (acc es : List (String × α)) : List (String × α) :=
  es.foldl (fun acc e => insert acc e.1 e.2) acc

theorem insertAll_cons (acc : List (String × α)) (e : String × α) (es : List (String × α)) :
    insertAll acc (e :: es) = insertAll (insert acc e.1 e.2) es := rfl

/-- What is left after later entries replace earlier ones was there before. -/
theorem mem_of_mem_insertAll {acc es : List (String × α)} {e : String × α}
    (h : e ∈ insertAll acc es) : e ∈ acc ∨ e ∈ es := by
  induction es generalizing acc with
  | nil => exact .inl h
  | cons f es ih =>
    rcases ih h with h | h
    · rcases mem_of_mem_insert h with rfl | h
      · exact .inr List.mem_cons_self
      · exact .inl h
    · exact .inr (List.mem_cons_of_mem f h)

theorem mem_of_mem_ofList {es : List (String × α)} {e : String × α} (h : e ∈ ofList es) :
    e ∈ es :=
  (mem_of_mem_insertAll h).resolve_left List.not_mem_nil

theorem mem_values_of_mem_values_ofList {es : List (String × α)} {a : α}
    (h : a ∈ values (ofList es)) : a ∈ values es := by
  rcases List.mem_map.1 h with ⟨e, he, rfl⟩
  exact List.mem_map.2 ⟨e, mem_of_mem_ofList he, rfl⟩

theorem mem_of_mem_values_ofList_zip {ks : List String} {xs : List α} {a : α}
    (h : a ∈ values (ofList (ks.zip xs))) : a ∈ xs := by
  rcases List.mem_map.1 (mem_values_of_mem_values_ofList h) with ⟨e, he, rfl⟩
  exact (List.of_mem_zip he).2

/-- Later entries replace earlier ones, but no key is lost. -/
theorem mem_keys_insertAll {acc es : List (String × α)} {key : String} :
    key ∈ keys (insertAll acc es) ↔ key ∈ keys acc ∨ key ∈ keys es := by
  induction es generalizing acc with
  | nil => exact (or_iff_left List.not_mem_nil).symm
  | cons e es ih =>
    rw [insertAll_cons, ih, mem_keys_insert, keys_cons, List.mem_cons, or_assoc]

/-- Entries may replace each other, but no key is lost. -/
theorem mem_keys_ofList {es : List (String × α)} {key : String} :
    key ∈ keys (ofList es) ↔ key ∈ keys es :=
  mem_keys_insertAll.trans (or_iff_right List.not_mem_nil)

/-- Which keys are left depends on the keys only. -/
theorem keys_insertAll_congr {acc es : List (String × α)} {acc' fs : List (String × β)}
    (hacc : keys acc = keys acc') (h : keys es = keys fs) :
    keys (insertAll acc es) = keys (insertAll acc' fs) := by
  induction es generalizing acc acc' fs with
  | nil =>
    obtain rfl : fs = [] := List.map_eq_nil_iff.1 h.symm
    exact hacc
  | cons e es ih =>
    cases fs with
    | nil => cases h
    | cons f fs =>
      obtain ⟨hkey, hrest⟩ := List.cons.inj h
      rw [insertAll_cons, insertAll_cons]
      exact ih (by rw [keys_insert, keys_insert, hacc, hkey]) hrest

theorem keys_ofList_congr {es : List (String × α)} {fs : List (String × β)}
    (h : keys es = keys fs) : keys (ofList es) = keys (ofList fs) :=
  keys_insertAll_congr rfl h

/-- Entries with new and different keys go to the end, in order. -/
theorem insertAll_eq_append {acc es : List (String × α)} (h : (keys (acc ++ es)).Nodup) :
    insertAll acc es = acc ++ es := by
  induction es generalizing acc with
  | nil => exact (List.append_nil acc).symm
  | cons e es ih =>
    -- The key of the entry that comes next is not among those before it.
    have hnew : e.1 ∉ keys acc := by
      intro hmem
      simp only [keys, List.map_append, List.map_cons, List.nodup_append] at h
      exact h.2.2 e.1 hmem e.1 List.mem_cons_self rfl
    rw [insertAll_cons, insert_of_not_mem e.2 hnew, ih (by simpa using h), List.append_assoc,
      List.singleton_append]

/-- Entries with different keys are all kept, in order. -/
theorem ofList_eq_self {es : List (String × α)} (h : (keys es).Nodup) : ofList es = es :=
  insertAll_eq_append h

/-- An entry that is inserted may replace another one. -/
theorem remains_insert (es : List (String × α)) (key : String) (a : α) :
    Remains False (insert es key a) (es ++ [(key, a)]) := by
  induction es with
  | nil => exact .refl _
  | cons e es ih =>
    unfold insert
    split
    · -- The entry that is replaced is lost; the new one moves from the end to its place.
      refine ⟨[e], ?_, False.elim⟩
      have hmoved : ((key, a) :: es ++ [e]).Perm (e :: ((key, a) :: es)) := List.perm_append_comm
      exact hmoved.trans (.cons e (List.perm_append_singleton (key, a) es).symm)
    · exact (Remains.refl [e]).append ih

/-- Of entries, those remain that no later entry replaces; all of them, where the keys differ. -/
theorem remains_ofList {kept : Prop} {es : List (String × α)} (h : kept → (keys es).Nodup) :
    Remains kept (ofList es) es := by
  -- The induction is over any entries that were inserted before.
  have hinsert (acc : List (String × α)) : Remains False (insertAll acc es) (acc ++ es) := by
    clear h
    induction es generalizing acc with
    | nil => exact .of_perm (by rw [List.append_nil]; rfl)
    | cons e es ih =>
      have hfirst := (remains_insert acc e.1 e.2).append (.refl es)
      rw [List.append_assoc, List.singleton_append] at hfirst
      exact (ih (insert acc e.1 e.2)).trans hfirst
  exact (hinsert []).of_kept fun hk => .of_eq (ofList_eq_self (h hk))

/-! ## Related entries -/

/-- Entries with the same key and related values. -/
def Related (R : α → β → Prop) (a : String × α) (b : String × β) : Prop := a.1 = b.1 ∧ R a.2 b.2

/-- Entries with the same key and values that are related as the key says. -/
def RelatedAt (R : String → α → β → Prop) (a : String × α) (b : String × β) : Prop :=
  a.1 = b.1 ∧ R a.1 a.2 b.2

variable {acc es : List (String × α)} {acc' fs : List (String × β)}

theorem keys_eq_of_related {R : α → β → Prop} (h : List.Forall₂ (Related R) es fs) :
    keys es = keys fs := by
  -- By induction on the two lists, which are related entry by entry.
  induction h with
  | nil => rfl
  | cons hef _ ih => rw [keys_cons, keys_cons, hef.1, ih]

section

variable {R : String → α → β → Prop}

/-- Related values inserted under one key keep entries related. -/
theorem forall₂_insert {key : String} {a : α} {b : β} (h : List.Forall₂ (RelatedAt R) es fs)
    (hab : R key a b) : List.Forall₂ (RelatedAt R) (insert es key a) (insert fs key b) := by
  induction h with
  | nil => exact .cons ⟨rfl, hab⟩ .nil
  | @cons e f es fs hef hes ih =>
    obtain ⟨k, x⟩ := e
    obtain ⟨l, y⟩ := f
    obtain ⟨rfl, hxy⟩ : k = l ∧ R k x y := hef
    unfold insert
    -- Since the keys agree, both sides replace an entry or both go on.
    by_cases hk : k = key
    · rw [if_pos hk, if_pos hk]
      exact .cons ⟨rfl, hab⟩ hes
    · rw [if_neg hk, if_neg hk]
      exact .cons ⟨rfl, hxy⟩ ih

/-- Related entries inserted into related ones give related ones. -/
theorem forall₂_insertAll (hacc : List.Forall₂ (RelatedAt R) acc acc')
    (h : List.Forall₂ (RelatedAt R) es fs) :
    List.Forall₂ (RelatedAt R) (insertAll acc es) (insertAll acc' fs) := by
  induction h generalizing acc acc' with
  | nil => exact hacc
  | @cons e f es fs hef hes ih =>
    obtain ⟨k, x⟩ := e
    obtain ⟨l, y⟩ := f
    obtain ⟨rfl, hxy⟩ : k = l ∧ R k x y := hef
    exact ih (forall₂_insert hacc hxy)

theorem forall₂_ofList_at (h : List.Forall₂ (RelatedAt R) es fs) :
    List.Forall₂ (RelatedAt R) (ofList es) (ofList fs) :=
  forall₂_insertAll .nil h

end

/-- Related entries stay related when later ones replace earlier ones. -/
theorem forall₂_ofList {R : α → β → Prop} (h : List.Forall₂ (Related R) es fs) :
    List.Forall₂ (Related R) (ofList es) (ofList fs) :=
  forall₂_ofList_at (R := fun _ => R) h

end Entries

/-! ## Dictionaries -/

namespace Dict

variable {α : Type}

theorem insert_insert (d : Dict α) (key : String) (a b : α) :
    (d.insert key a).insert key b = d.insert key b :=
  Dict.ext (Entries.insert_insert d.entries key a b)

theorem ofList_entries (d : Dict α) : Dict.ofList d.entries = d :=
  Dict.ext (Entries.ofList_eq_self d.nodup_keys)

/-- The dictionary with entries inserted one after the other. -/
def insertAll (d : Dict α) (es : List (String × α)) : Dict α :=
  es.foldl (fun d e => d.insert e.1 e.2) d

theorem entries_insertAll (d : Dict α) (es : List (String × α)) :
    (d.insertAll es).entries = Entries.insertAll d.entries es := by
  induction es generalizing d with
  | nil => rfl
  | cons e es ih => exact ih (d.insert e.1 e.2)

theorem insertAll_empty (es : List (String × α)) : (∅ : Dict α).insertAll es = Dict.ofList es :=
  Dict.ext (entries_insertAll ∅ es)

/-- Erasing keys one after the other leaves the entries under other keys. -/
theorem entries_foldl_erase (d : Dict α) (names : List String) :
    (names.foldl erase d).entries = d.entries.filter fun e => e.1 ∉ names := by
  induction names generalizing d with
  | nil => simp
  | cons name names ih =>
    -- One key fewer, then the others: two filters are one.
    have herase : (d.erase name).entries = d.entries.filter fun e => e.1 ≠ name := rfl
    rw [List.foldl_cons, ih, herase, List.filter_filter]
    apply List.filter_congr
    intro e _
    simp [Bool.and_comm]

theorem keys_foldl_erase (d : Dict α) (names : List String) :
    (names.foldl erase d).keys = d.keys.filter (· ∉ names) := by
  rw [keys, entries_foldl_erase, keys, Entries.keys, Entries.keys, List.filter_map]
  rfl

end Dict

end StackTemplate
