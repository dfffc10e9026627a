/-!
# Ordered dictionaries

A dictionary keeps its entries in the order in which their keys first appeared: inserting under a
key that is present replaces the value in place, and erasing a key leaves the others in order.

`Entries` holds the operations on plain lists of entries, for use inside recursive types;
`Dict` adds the invariant that no key occurs twice.

- `Entries.find?_insert` : what a dictionary holds after an insertion.
- `Entries.keys_insert` : an insertion adds its key at the end or leaves the keys alone.
-/

namespace StackTemplate

namespace Entries

variable {α : Type}

def keys (es : List (String × α)) : List String := es.map Prod.fst

def values (es : List (String × α)) : List α := es.map Prod.snd

def find? (es : List (String × α)) (key : String) : Option α :=
  match es with
  | [] => none
  | (k, v) :: es => if k = key then some v else find? es key

/-- The entries with `value` under `key`, in the place of the entry that had that key, else at the
end. -/
def insert (es : List (String × α)) (key : String) (value : α) : List (String × α) :=
  match es with
  | [] => [(key, value)]
  | (k, v) :: es => if k = key then (key, value) :: es else (k, v) :: insert es key value

/-- The entries without those that have `key`. -/
def erase (es : List (String × α)) (key : String) : List (String × α) :=
  es.filter fun e => e.1 ≠ key

/-- The entries that result from inserting a list of entries one by one. -/
def ofList (es : List (String × α)) : List (String × α) :=
  es.foldl (fun acc e => insert acc e.1 e.2) []

/-- The entries with a function that threads a state applied to each value in order. -/
def mapState {β σ : Type} (f : String → α → StateM σ β) :
    List (String × α) → StateM σ (List (String × β))
  | [], s => ([], s)
  | (k, x) :: es, s =>
    let (y, s) := f k x s
    let (ys, s) := mapState f es s
    ((k, y) :: ys, s)

@[simp] theorem find?_nil (key : String) : find? ([] : List (String × α)) key = none := rfl

@[simp] theorem keys_nil : keys ([] : List (String × α)) = [] := rfl

@[simp] theorem keys_cons (e : String × α) (es : List (String × α)) :
    keys (e :: es) = e.1 :: keys es := rfl

/-- Threading a state through the values leaves the keys alone. -/
theorem keys_mapState {β σ : Type} (f : String → α → StateM σ β) (es : List (String × α)) (s : σ) :
    keys (mapState f es s).1 = keys es := by
  induction es generalizing s with
  | nil => rfl
  | cons e es ih =>
    obtain ⟨k, x⟩ := e
    exact congrArg (k :: ·) (ih _)

/-- After an insertion, the inserted key has the new value and every other key what it had before.
-/
theorem find?_insert (es : List (String × α)) (key key' : String) (value : α) :
    find? (insert es key value) key' = if key = key' then some value else find? es key' := by
  induction es with
  | nil => simp [insert, find?]
  | cons e es ih => grind [insert, find?]

theorem keys_insert (es : List (String × α)) (key : String) (value : α) :
    keys (insert es key value) = if key ∈ keys es then keys es else keys es ++ [key] := by
  induction es with
  | nil => simp [insert]
  | cons e es ih => grind [insert, keys_cons]

theorem find?_isSome_iff {es : List (String × α)} {key : String} :
    (find? es key).isSome = true ↔ key ∈ keys es := by
  induction es with
  | nil => simp
  | cons e es ih => grind [find?, keys_cons]

theorem find?_eq_none_iff {es : List (String × α)} {key : String} :
    find? es key = none ↔ key ∉ keys es := by
  rw [← find?_isSome_iff]
  simp

theorem mem_of_find?_eq_some {es : List (String × α)} {key : String} {value : α}
    (h : find? es key = some value) : (key, value) ∈ es := by
  induction es with
  | nil => simp at h
  | cons e es ih => grind [find?]

/-- Where no key occurs twice, every entry is found under its key. -/
theorem find?_eq_some_of_mem {es : List (String × α)} {key : String} {value : α}
    (hnodup : (keys es).Nodup) (h : (key, value) ∈ es) : find? es key = some value := by
  induction es with
  | nil => simp at h
  | cons e es ih =>
    simp only [keys_cons, List.nodup_cons] at hnodup
    rcases List.mem_cons.1 h with rfl | hes
    · simp [find?]
    · -- The entry is further back, so its key is not the one at the front.
      have hkey : key ∈ keys es := List.mem_map.2 ⟨(key, value), hes, rfl⟩
      have hne : e.1 ≠ key := fun heq => hnodup.1 (heq ▸ hkey)
      obtain ⟨k, v⟩ := e
      simpa [find?, hne] using ih hnodup.2 hes

/-- Insertion repeats no key. -/
theorem nodup_keys_insert {es : List (String × α)} (key : String) (value : α)
    (h : (keys es).Nodup) : (keys (insert es key value)).Nodup := by
  rw [keys_insert]
  split
  · exact h
  · next hmem =>
    refine List.nodup_append.2 ⟨h, by simp, ?_⟩
    rintro a ha b hb rfl
    simp_all

theorem keys_erase (es : List (String × α)) (key : String) :
    keys (erase es key) = (keys es).filter (· ≠ key) := by
  simp [keys, erase, List.filter_map, Function.comp_def]

theorem nodup_keys_erase {es : List (String × α)} (key : String) (h : (keys es).Nodup) :
    (keys (erase es key)).Nodup := by
  rw [keys_erase]
  exact h.filter _

theorem nodup_keys_foldl_insert (es acc : List (String × α)) (h : (keys acc).Nodup) :
    (keys (es.foldl (fun acc e => insert acc e.1 e.2) acc)).Nodup := by
  induction es generalizing acc with
  | nil => exact h
  | cons e es ih => exact ih _ (nodup_keys_insert _ _ h)

/-- Entries that are inserted one by one have no key twice, whatever the list they come from. -/
theorem nodup_keys_ofList (es : List (String × α)) : (keys (ofList es)).Nodup :=
  nodup_keys_foldl_insert es [] (by simp)

end Entries

/-- A dictionary from names to values that remembers the order of its keys. -/
structure Dict (α : Type) where
  entries : List (String × α)
  nodup_keys : (Entries.keys entries).Nodup

namespace Dict

variable {α β : Type}

def empty : Dict α := ⟨[], by simp⟩

instance : Inhabited (Dict α) := ⟨empty⟩

instance : EmptyCollection (Dict α) := ⟨empty⟩

@[ext] theorem ext {d e : Dict α} (h : d.entries = e.entries) : d = e := by
  cases d; cases e; simp_all

def keys (d : Dict α) : List String := Entries.keys d.entries

def values (d : Dict α) : List α := Entries.values d.entries

def size (d : Dict α) : Nat := d.entries.length

def isEmpty (d : Dict α) : Bool := d.entries.isEmpty

def find? (d : Dict α) (key : String) : Option α := Entries.find? d.entries key

def contains (d : Dict α) (key : String) : Bool := (d.find? key).isSome

def insert (d : Dict α) (key : String) (value : α) : Dict α :=
  ⟨Entries.insert d.entries key value, Entries.nodup_keys_insert key value d.nodup_keys⟩

def erase (d : Dict α) (key : String) : Dict α :=
  ⟨Entries.erase d.entries key, Entries.nodup_keys_erase key d.nodup_keys⟩

def ofList (es : List (String × α)) : Dict α :=
  ⟨Entries.ofList es, Entries.nodup_keys_ofList es⟩

def mapState {σ : Type} (f : String → α → StateM σ β) (d : Dict α) : StateM σ (Dict β) :=
  fun s =>
    (⟨(Entries.mapState f d.entries s).1, by
      rw [Entries.keys_mapState]
      exact d.nodup_keys⟩, (Entries.mapState f d.entries s).2)

theorem contains_iff {d : Dict α} {key : String} : d.contains key = true ↔ key ∈ d.keys :=
  Entries.find?_isSome_iff

theorem find?_insert (d : Dict α) (key key' : String) (value : α) :
    (d.insert key value).find? key' = if key = key' then some value else d.find? key' :=
  Entries.find?_insert _ _ _ _

theorem keys_insert (d : Dict α) (key : String) (value : α) :
    (d.insert key value).keys = if key ∈ d.keys then d.keys else d.keys ++ [key] :=
  Entries.keys_insert _ _ _

theorem find?_eq_some_iff {d : Dict α} {key : String} {value : α} :
    d.find? key = some value ↔ (key, value) ∈ d.entries :=
  ⟨Entries.mem_of_find?_eq_some, Entries.find?_eq_some_of_mem d.nodup_keys⟩

end Dict

end StackTemplate
