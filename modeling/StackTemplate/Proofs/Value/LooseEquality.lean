import Mathlib.Data.List.Perm.Subperm
import Mathlib.Logic.Relation
import StackTemplate.Proofs.Entries
import StackTemplate.Value

/-!
# Loose equality

Loose equality compares scalars by their texts, lists item by item, and maps key by key; for maps it
goes through the entries of the left one only. Since the keys of a map are different and the maps
have the same number of entries, the right one has no key that was not looked at. So loose equality
is an equivalence relation, and the order of entries does not matter on either side.

* `Value.KeysDiffer` : the maps in a value have no key twice.
* `Value.looselyEquals_refl`, `Value.looselyEquals_symm`, `Value.looselyEquals_trans` : the laws of
  an equivalence relation.
* `Value.Reorders` : the entries of one map in a value, at any depth, are put in another order.
* `Value.looselyEquals_of_reordered` : loose equality does not depend on the order of entries.
-/

namespace StackTemplate

/-! ## Lists related one by one -/

section Lists

variable {α β γ : Type} {R : α → β → Prop} {xs : List α} {ys : List β}

/-- What follows for the members of two related lists holds with the lists swapped. -/
theorem forall₂_swap {S : β → α → Prop} (h : List.Forall₂ R xs ys)
    (hswap : ∀ x ∈ xs, ∀ y ∈ ys, R x y → S y x) : List.Forall₂ S ys xs := by
  induction h with
  | nil => exact .nil
  | @cons x y xs ys hxy _ ih =>
    constructor
    · exact hswap x List.mem_cons_self y List.mem_cons_self hxy
    · apply ih
      intro x' hx' y' hy'
      exact hswap x' (List.mem_cons_of_mem x hx') y' (List.mem_cons_of_mem y hy')

/-- What follows for the members of three related lists holds of the first and the last one. -/
theorem forall₂_chain {S : β → γ → Prop} {T : α → γ → Prop} {zs : List γ}
    (h : List.Forall₂ R xs ys) (h' : List.Forall₂ S ys zs)
    (hchain : ∀ x ∈ xs, ∀ y z, R x y → S y z → T x z) : List.Forall₂ T xs zs := by
  induction h generalizing zs with
  | nil =>
    cases h'
    exact .nil
  | @cons x y xs ys hxy _ ih =>
    cases h' with
    | cons hyz hrest =>
      constructor
      · exact hchain x List.mem_cons_self y _ hxy hyz
      · exact ih hrest fun x' hx' => hchain x' (List.mem_cons_of_mem x hx')

end Lists

namespace Value

/-- No map in a value, at any depth, has two entries under one key. The type of values has the
entries of a map as a plain list, so this is an invariant of the values that are built. -/
inductive KeysDiffer : Value → Prop
  | scalar (s : Scalar) : KeysDiffer (.scalar s)
  | list {items : List Value} (hitems : ∀ v ∈ items, KeysDiffer v) : KeysDiffer (.list items)
  | map {entries : List (String × Value)} (hkeys : (Entries.keys entries).Nodup)
      (hvalues : ∀ e ∈ entries, KeysDiffer e.2) : KeysDiffer (.map entries)

variable {s : Scalar} {u v w : Value} {vs ws : List Value} {es fs : List (String × Value)}

/-! ## One level -/

/-- Items are compared one by one, and there are as many on both sides. -/
theorem itemsLooselyEqual_iff :
    itemsLooselyEqual vs ws = true ↔ List.Forall₂ (fun v w => v.looselyEquals w = true) vs ws := by
  induction vs generalizing ws with
  | nil => cases ws <;> simp [itemsLooselyEqual]
  | cons v vs ih => cases ws <;> simp [itemsLooselyEqual, ih]

/-- Every entry of the left map has a loosely equal value under its key in the right one. -/
theorem entriesLooselyWithin_iff : entriesLooselyWithin es fs = true ↔
    ∀ e ∈ es, ∃ w, Entries.find? fs e.1 = some w ∧ e.2.looselyEquals w = true := by
  induction es with
  | nil => simp [entriesLooselyWithin]
  | cons e es ih =>
    rcases e with ⟨key, v⟩
    rw [entriesLooselyWithin, Bool.and_eq_true, ih, List.forall_mem_cons]
    apply and_congr_left'
    cases Entries.find? fs key <;> simp

theorem scalar_looselyEquals_iff : (scalar s).looselyEquals w = true ↔
    ∃ t, w = scalar t ∧ s.text = t.text := by
  cases w <;> simp [looselyEquals]

theorem list_looselyEquals_iff : (list vs).looselyEquals w = true ↔
    ∃ ws, w = list ws ∧ List.Forall₂ (fun v w => v.looselyEquals w = true) vs ws := by
  cases w <;> simp [looselyEquals, itemsLooselyEqual_iff]

theorem map_looselyEquals_iff : (map es).looselyEquals w = true ↔
    ∃ fs, w = map fs ∧ es.length = fs.length ∧
      ∀ e ∈ es, ∃ w, Entries.find? fs e.1 = some w ∧ e.2.looselyEquals w = true := by
  cases w <;> simp [looselyEquals, entriesLooselyWithin_iff]

/-! ## The laws of an equivalence relation -/

theorem looselyEquals_refl (hv : v.KeysDiffer) : v.looselyEquals v = true := by
  induction hv with
  | scalar s => exact scalar_looselyEquals_iff.2 ⟨s, rfl, rfl⟩
  | list _ ih => exact list_looselyEquals_iff.2 ⟨_, rfl, List.forall₂_same.2 ih⟩
  | map hkeys _ ih =>
    refine map_looselyEquals_iff.2 ⟨_, rfl, rfl, ?_⟩
    intro e he
    exact ⟨e.2, Entries.find?_eq_some_of_mem hkeys he, ih e he⟩

/-- A map that finds all keys of another one with as many entries has no other keys. -/
theorem mem_keys_of_looselyEquals (hkeys : (Entries.keys es).Nodup) (hlength : es.length = fs.length)
    (hfound : ∀ e ∈ es, ∃ w, Entries.find? fs e.1 = some w ∧ e.2.looselyEquals w = true)
    {key : String} (hkey : key ∈ Entries.keys fs) : key ∈ Entries.keys es := by
  have hsubset : Entries.keys es ⊆ Entries.keys fs := by
    intro key hkey
    rcases List.mem_map.1 hkey with ⟨e, he, rfl⟩
    rcases hfound e he with ⟨w, hw, -⟩
    exact List.mem_map.2 ⟨(e.1, w), Entries.mem_of_find?_eq_some hw, rfl⟩
  -- As many keys on both sides, and all of the left among the right: they are the same.
  have hsize : (Entries.keys fs).length ≤ (Entries.keys es).length := by
    simp only [Entries.keys, List.length_map]
    omega
  exact ((List.subperm_of_subset hkeys hsubset).perm_of_length_le hsize).mem_iff.2 hkey

/-- Loose equality goes both ways, where keys differ: the right map has no key of its own. -/
theorem looselyEquals_symm (hv : v.KeysDiffer) (hw : w.KeysDiffer)
    (h : v.looselyEquals w = true) : w.looselyEquals v = true := by
  induction hv generalizing w with
  | scalar s =>
    rcases scalar_looselyEquals_iff.1 h with ⟨t, rfl, htext⟩
    exact scalar_looselyEquals_iff.2 ⟨s, rfl, htext.symm⟩
  | @list vs _ ih =>
    rcases list_looselyEquals_iff.1 h with ⟨ws, rfl, hitems⟩
    refine list_looselyEquals_iff.2 ⟨vs, rfl, ?_⟩
    cases hw with
    | list hws =>
      apply forall₂_swap hitems
      intro v hv w hw hequal
      exact ih v hv (hws w hw) hequal
  | @map es hkeys _ ih =>
    rcases map_looselyEquals_iff.1 h with ⟨fs, rfl, hlength, hfound⟩
    refine map_looselyEquals_iff.2 ⟨es, rfl, hlength.symm, ?_⟩
    cases hw with
    | map hkeys' hfs =>
      intro f hf
      have hkey := mem_keys_of_looselyEquals hkeys hlength hfound (List.mem_map_of_mem hf)
      rcases List.mem_map.1 hkey with ⟨e, he, hsame⟩
      rcases hfound e he with ⟨w, hw, hequal⟩
      -- The entry of the right map under this key is the one that the left map was compared with.
      rw [hsame, Entries.find?_eq_some_of_mem hkeys' hf] at hw
      obtain rfl := Option.some.inj hw
      refine ⟨e.2, ?_, ih e he (hfs f hf) hequal⟩
      rw [← hsame]
      exact Entries.find?_eq_some_of_mem hkeys he

/-- Loose equality is transitive. -/
theorem looselyEquals_trans (hu : u.KeysDiffer) (huv : u.looselyEquals v = true)
    (hvw : v.looselyEquals w = true) : u.looselyEquals w = true := by
  induction hu generalizing v w with
  | scalar s =>
    rcases scalar_looselyEquals_iff.1 huv with ⟨t, rfl, hst⟩
    rcases scalar_looselyEquals_iff.1 hvw with ⟨r, rfl, htr⟩
    exact scalar_looselyEquals_iff.2 ⟨r, rfl, hst.trans htr⟩
  | list _ ih =>
    rcases list_looselyEquals_iff.1 huv with ⟨vs, rfl, hvs⟩
    rcases list_looselyEquals_iff.1 hvw with ⟨ws, rfl, hws⟩
    refine list_looselyEquals_iff.2 ⟨ws, rfl, ?_⟩
    apply forall₂_chain hvs hws
    intro x hx y z hxy hyz
    exact ih x hx hxy hyz
  -- The entry found in the middle map is compared on with the one found in the right map.
  | map _ _ ih =>
    rcases map_looselyEquals_iff.1 huv with ⟨fs, rfl, hlength, hfound⟩
    rcases map_looselyEquals_iff.1 hvw with ⟨gs, rfl, hlength', hfound'⟩
    refine map_looselyEquals_iff.2 ⟨gs, rfl, hlength.trans hlength', ?_⟩
    intro e he
    rcases hfound e he with ⟨v, hv, hev⟩
    rcases hfound' _ (Entries.mem_of_find?_eq_some hv) with ⟨w, hw, hvw⟩
    exact ⟨w, hw, ih e he hev hvw⟩

/-! ## The order of entries -/

/-- The entries of one map in a value, at any depth, are put in another order. -/
inductive Reorders : Value → Value → Prop
  | entries {es fs : List (String × Value)} (h : es.Perm fs) : Reorders (.map es) (.map fs)
  | item {v w : Value} (before after : List Value) (h : Reorders v w) :
      Reorders (.list (before ++ v :: after)) (.list (before ++ w :: after))
  | value {v w : Value} (before after : List (String × Value)) (key : String) (h : Reorders v w) :
      Reorders (.map (before ++ (key, v) :: after)) (.map (before ++ (key, w) :: after))

/-- Maps with different keys are loosely equal if the entries of one have loosely equal entries
under the same keys in the other, which has as many. -/
theorem map_looselyEquals_of_mem (hkeys : (Entries.keys fs).Nodup) (hlength : es.length = fs.length)
    (h : ∀ e ∈ es, ∃ w, (e.1, w) ∈ fs ∧ e.2.looselyEquals w = true) :
    (map es).looselyEquals (map fs) = true := by
  refine map_looselyEquals_iff.2 ⟨fs, rfl, hlength, ?_⟩
  intro e he
  rcases h e he with ⟨w, hw, hequal⟩
  exact ⟨w, Entries.find?_eq_some_of_mem hkeys hw, hequal⟩

/-- A map keeps different keys when its own entries are put in another order. -/
theorem keeps_entries (hperm : es.Perm fs) (h : (map es).KeysDiffer) :
    (map fs).KeysDiffer ∧ (map es).looselyEquals (map fs) = true := by
  cases h with
  | map hkeys hvalues =>
    -- The same keys in another order still differ.
    have hkeys' : (Entries.keys fs).Nodup := (hperm.map Prod.fst).nodup_iff.1 hkeys
    constructor
    · exact .map hkeys' fun f hf => hvalues f (hperm.mem_iff.2 hf)
    · apply map_looselyEquals_of_mem hkeys' hperm.length_eq
      intro e he
      exact ⟨e.2, hperm.mem_iff.1 he, looselyEquals_refl (hvalues e he)⟩

/-- A list keeps different keys when one of its items does. -/
theorem keeps_item {before after : List Value}
    (hitem : v.KeysDiffer → w.KeysDiffer ∧ v.looselyEquals w = true)
    (h : (list (before ++ v :: after)).KeysDiffer) :
    (list (before ++ w :: after)).KeysDiffer ∧
      (list (before ++ v :: after)).looselyEquals (list (before ++ w :: after)) = true := by
  cases h with
  | list hitems =>
    simp only [List.forall_mem_append, List.forall_mem_cons] at hitems
    rcases hitems with ⟨hbefore, hv, hafter⟩
    rcases hitem hv with ⟨hw, hequal⟩
    have hself {vs : List Value} (hvs : ∀ v ∈ vs, v.KeysDiffer) :
        List.Forall₂ (fun v w => v.looselyEquals w = true) vs vs :=
      List.forall₂_same.2 fun v hv => looselyEquals_refl (hvs v hv)
    constructor
    · constructor
      simp only [List.forall_mem_append, List.forall_mem_cons]
      exact ⟨hbefore, hw, hafter⟩
    · exact list_looselyEquals_iff.2
        ⟨_, rfl, List.rel_append (hself hbefore) (.cons hequal (hself hafter))⟩

/-- A map keeps different keys when one of its values does: the keys themselves stay. -/
theorem keeps_value {before after : List (String × Value)} {key : String}
    (hvalue : v.KeysDiffer → w.KeysDiffer ∧ v.looselyEquals w = true)
    (h : (map (before ++ (key, v) :: after)).KeysDiffer) :
    (map (before ++ (key, w) :: after)).KeysDiffer ∧
      (map (before ++ (key, v) :: after)).looselyEquals (map (before ++ (key, w) :: after)) =
        true := by
  cases h with
  | map hkeys hvalues =>
    simp only [List.forall_mem_append, List.forall_mem_cons] at hvalues
    rcases hvalues with ⟨hbefore, hv, hafter⟩
    rcases hvalue hv with ⟨hw, hequal⟩
    have hkeys' : (Entries.keys (before ++ (key, w) :: after)).Nodup := by
      simpa [Entries.keys] using hkeys
    constructor
    · constructor
      · exact hkeys'
      · simp only [List.forall_mem_append, List.forall_mem_cons]
        exact ⟨hbefore, hw, hafter⟩
    · -- The entries before and behind are their own counterparts.
      apply map_looselyEquals_of_mem hkeys' (by simp)
      simp only [List.forall_mem_append, List.forall_mem_cons]
      refine ⟨?_, ⟨w, by simp, hequal⟩, ?_⟩
      · intro e he
        exact ⟨e.2, List.mem_append_left _ he, looselyEquals_refl (hbefore e he)⟩
      · intro e he
        exact ⟨e.2, by simp [he], looselyEquals_refl (hafter e he)⟩

/-- Values keep different keys when entries are put in another order, and stay loosely equal. -/
theorem Reorders.keeps (h : Reorders v w) (hv : v.KeysDiffer) :
    w.KeysDiffer ∧ v.looselyEquals w = true := by
  induction h with
  | entries hperm => exact keeps_entries hperm hv
  | item _ _ _ ih => exact keeps_item ih hv
  | value _ _ _ _ ih => exact keeps_value ih hv

/-- The entries of the maps in a value, at any depth, are put in other orders. -/
def Reordered : Value → Value → Prop := Relation.ReflTransGen Reorders

/-- After any number of reorderings, keys differ and the value is loosely equal to the first one. -/
theorem Reordered.keeps (h : Reordered v w) (hv : v.KeysDiffer) :
    w.KeysDiffer ∧ v.looselyEquals w = true := by
  induction h with
  | refl => exact ⟨hv, looselyEquals_refl hv⟩
  | tail _ hstep ih =>
    rcases hstep.keeps ih.1 with ⟨hw, hequal⟩
    exact ⟨hw, looselyEquals_trans hv ih.2 hequal⟩

/-- The order of the two sides does not matter. -/
theorem looselyEquals_comm (hv : v.KeysDiffer) (hw : w.KeysDiffer) :
    v.looselyEquals w = w.looselyEquals v := by
  rw [Bool.eq_iff_iff]
  exact ⟨looselyEquals_symm hv hw, looselyEquals_symm hw hv⟩

/-- On either side, a loosely equal value can be taken instead. -/
theorem looselyEquals_congr {v' w' : Value} (hv : v.KeysDiffer) (hv' : v'.KeysDiffer)
    (hw : w.KeysDiffer) (hw' : w'.KeysDiffer) (hvv' : v.looselyEquals v' = true)
    (hww' : w.looselyEquals w' = true) : v.looselyEquals w = v'.looselyEquals w' := by
  rw [Bool.eq_iff_iff]
  constructor
  · intro h
    have hback := looselyEquals_symm hv hv' hvv'
    exact looselyEquals_trans hv' hback (looselyEquals_trans hv h hww')
  · intro h
    have hback := looselyEquals_symm hw hw' hww'
    exact looselyEquals_trans hv hvv' (looselyEquals_trans hv' h hback)

/-- Loose equality does not depend on the order of entries, at any depth, on either side. -/
theorem looselyEquals_of_reordered {v' w' : Value} (hv : v.KeysDiffer) (hw : w.KeysDiffer)
    (hvv' : Reordered v v') (hww' : Reordered w w') :
    v.looselyEquals w = v'.looselyEquals w' := by
  rcases hvv'.keeps hv with ⟨hv', hleft⟩
  rcases hww'.keeps hw with ⟨hw', hright⟩
  exact looselyEquals_congr hv hv' hw hw' hleft hright

end Value

end StackTemplate
