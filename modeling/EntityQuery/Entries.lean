/-!
# Entries: named values in insertion order

A list of named values whose order is the order in which the names first appeared.

* `Entries.insert`: a new name goes to the end, a known name keeps its place and takes the new value.
* **`Entries.find?_insert`**: what a name maps to after an insertion; `Entries.find?_erase_self` and
  `Entries.find?_erase_of_ne` after a removal.
* **`Entries.keys_insert`**: the names after an insertion.
* **`Entries.nodup_keys_ofPairs`**: a table filled by insertion holds each name once.
-/

namespace EntityQuery

/-- Named values in insertion order. -/
abbrev Entries (α : Type) := List (String × α)

namespace Entries

variable {α : Type}

/-- The names, in order. -/
def keys (es : Entries α) : List String := es.map Prod.fst

/-- The value under a name. -/
def find? : Entries α → String → Option α
  | [], _ => none
  | (k, v) :: rest, key => if k = key then some v else find? rest key

/-- Whether a name is present. -/
def has (es : Entries α) (key : String) : Bool := (find? es key).isSome

/-- Sets the value under a name: a known name keeps its place, a new one goes to the end. -/
def insert : Entries α → String → α → Entries α
  | [], key, value => [(key, value)]
  | (k, v) :: rest, key, value =>
    if k = key then (k, value) :: rest else (k, v) :: insert rest key value

/-- Removes a name and keeps the order of the others. -/
def erase : Entries α → String → Entries α
  | [], _ => []
  | (k, v) :: rest, key => if k = key then rest else (k, v) :: erase rest key

/-- Inserts pairs from left to right. -/
def insertAll (es : Entries α) (pairs : List (String × α)) : Entries α :=
  pairs.foldl (fun acc (key, value) => insert acc key value) es

/-- The table that inserting the pairs from left to right gives. -/
def ofPairs (pairs : List (String × α)) : Entries α := insertAll [] pairs

/-! ## Laws -/

@[simp] theorem find?_nil (key : String) : find? ([] : Entries α) key = none := rfl

theorem find?_insert (es : Entries α) (key other : String) (value : α) :
    find? (insert es key value) other = if key = other then some value else find? es other := by
  induction es with
  | nil => simp [insert, find?]
  | cons e rest ih =>
    obtain ⟨k, v⟩ := e
    by_cases hk : k = key
    · subst hk
      by_cases ho : k = other <;> simp [insert, find?, ho]
    · by_cases ho : k = other
      · subst ho
        simp [insert, find?, hk, Ne.symm hk]
      · simp [insert, find?, hk, ho, ih]

theorem find?_erase_of_ne (es : Entries α) {key other : String} (h : key ≠ other) :
    find? (erase es key) other = find? es other := by
  induction es with
  | nil => rfl
  | cons e rest ih =>
    obtain ⟨k, v⟩ := e
    by_cases hk : k = key
    · simp [erase, find?, hk, h]
    · simp only [erase, hk, if_false, find?, ih]

theorem mem_keys_iff (es : Entries α) (key : String) : key ∈ keys es ↔ has es key = true := by
  induction es with
  | nil => simp [keys, has, find?]
  | cons e rest ih =>
    obtain ⟨k, v⟩ := e
    by_cases hk : k = key
    · simp [keys, has, find?, hk]
    · have : key ≠ k := Ne.symm hk
      simp only [keys, has, List.map_cons, List.mem_cons, find?, hk, if_false] at ih ⊢
      simp [this, ih]

theorem keys_insert (es : Entries α) (key : String) (value : α) :
    keys (insert es key value) = if key ∈ keys es then keys es else keys es ++ [key] := by
  induction es with
  | nil => simp [insert, keys]
  | cons e rest ih =>
    obtain ⟨k, v⟩ := e
    by_cases hk : k = key
    · simp [insert, keys, hk]
    · have hk' : key ≠ k := Ne.symm hk
      simp only [keys] at ih
      by_cases hm : key ∈ List.map Prod.fst rest <;>
        simp [insert, keys, hk, hk', hm, ih]

/-- A removed name is gone, where every name occurs once. -/
theorem find?_erase_self {es : Entries α} (h : (keys es).Nodup) (key : String) :
    find? (erase es key) key = none := by
  induction es with
  | nil => rfl
  | cons e rest ih =>
    obtain ⟨k, v⟩ := e
    obtain ⟨hk, hrest⟩ := List.nodup_cons.mp h
    by_cases he : k = key
    · subst he
      have absent : has rest k ≠ true := fun hh => hk ((mem_keys_iff rest k).mpr hh)
      simpa [erase, has] using absent
    · simpa [erase, find?, he] using ih hrest

theorem find?_erase {es : Entries α} (h : (keys es).Nodup) (key other : String) :
    find? (erase es key) other = if key = other then none else find? es other := by
  split
  · next he => exact he ▸ find?_erase_self h key
  · next he => exact find?_erase_of_ne es he

theorem keys_erase_sublist (es : Entries α) (key : String) :
    (keys (erase es key)).Sublist (keys es) := by
  induction es with
  | nil => exact List.Sublist.slnil
  | cons e rest ih =>
    obtain ⟨k, v⟩ := e
    by_cases hk : k = key
    · simp [erase, keys, hk]
    · simpa [erase, keys, hk] using ih

theorem nodup_keys_erase {es : Entries α} (h : (keys es).Nodup) (key : String) :
    (keys (erase es key)).Nodup :=
  h.sublist (keys_erase_sublist es key)

theorem nodup_keys_insert {es : Entries α} (h : (keys es).Nodup) (key : String) (value : α) :
    (keys (insert es key value)).Nodup := by
  rw [keys_insert]
  split
  · exact h
  · next hm =>
    rw [List.nodup_append]
    refine ⟨h, by simp, fun a ha b hb e => hm ?_⟩
    rw [List.mem_singleton] at hb
    exact hb ▸ e ▸ ha

theorem nodup_keys_insertAll {es : Entries α} (h : (keys es).Nodup) (pairs : List (String × α)) :
    (keys (insertAll es pairs)).Nodup := by
  induction pairs generalizing es with
  | nil => exact h
  | cons p rest ih => exact ih (nodup_keys_insert h p.1 p.2)

theorem nodup_keys_ofPairs (pairs : List (String × α)) : (keys (ofPairs pairs)).Nodup :=
  nodup_keys_insertAll (by simp [keys]) pairs

end Entries

end EntityQuery
