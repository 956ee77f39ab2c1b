import EntityQuery.Json.Literal

/-!
# Values are read from what they are written as

* `Json.depth`: how deep lists and objects nest in a value.
* `Json.Keyed`: a value in which every object holds each key once.
* **`Json.keyed_of_value?`**: every value that is read is of this kind.
* **`Json.value?_toLiteral`**: such a value is what it is written as denotes, if it does not nest too deep.
-/

namespace EntityQuery

namespace Entries

variable {α : Type}

theorem insert_of_not_mem {es : Entries α} {key : String} (h : key ∉ keys es) (v : α) :
    insert es key v = es ++ [(key, v)] := by
  induction es with
  | nil => rfl
  | cons e rest ih =>
    obtain ⟨k, w⟩ := e
    simp only [keys, List.map_cons, List.mem_cons, not_or] at h
    rw [insert, if_neg (Ne.symm h.1), ih h.2]
    rfl

theorem insertAll_of_nodup {es pairs : Entries α} (h : (keys (es ++ pairs)).Nodup) :
    insertAll es pairs = es ++ pairs := by
  induction pairs generalizing es with
  | nil => simp [insertAll]
  | cons p rest ih =>
    obtain ⟨key, v⟩ := p
    have hkey : key ∉ keys es := by
      intro hmem
      simp only [keys, List.map_append, List.map_cons] at h hmem
      exact (List.nodup_append.mp h).2.2 key hmem key List.mem_cons_self rfl
    have hrest := @ih (es ++ [(key, v)]) (by rwa [List.append_assoc])
    rw [List.append_assoc] at hrest
    rw [← insert_of_not_mem hkey v] at hrest
    exact hrest

/-- Pairs whose names are distinct make up a table of those pairs. -/
theorem ofPairs_of_nodup {pairs : List (String × α)} (h : (keys pairs).Nodup) : ofPairs pairs = pairs :=
  insertAll_of_nodup h

theorem mem_of_mem_insert {es : Entries α} {key : String} {v : α} {e : String × α}
    (h : e ∈ insert es key v) : e = (key, v) ∨ e ∈ es := by
  induction es with
  | nil => exact .inl (List.mem_singleton.mp h)
  | cons first rest ih =>
    obtain ⟨k, w⟩ := first
    rw [insert] at h
    split at h
    · next hk =>
      subst hk
      exact (List.mem_cons.mp h).imp_right (List.mem_cons_of_mem _)
    · rcases List.mem_cons.mp h with rfl | h
      · exact .inr List.mem_cons_self
      · exact (ih h).imp_right (List.mem_cons_of_mem _)

theorem mem_of_mem_insertAll {es pairs : Entries α} {e : String × α} (h : e ∈ insertAll es pairs) :
    e ∈ es ∨ e ∈ pairs := by
  induction pairs generalizing es with
  | nil => exact .inl h
  | cons p rest ih =>
    rcases ih h with h | h
    · rcases mem_of_mem_insert h with rfl | h
      · exact .inr List.mem_cons_self
      · exact .inl h
    · exact .inr (List.mem_cons_of_mem _ h)

/-- A table holds nothing but the pairs that make it up. -/
theorem mem_of_mem_ofPairs {pairs : List (String × α)} {e : String × α} (h : e ∈ ofPairs pairs) : e ∈ pairs :=
  (mem_of_mem_insertAll h).resolve_left (fun hnil => nomatch hnil)

end Entries

namespace Json

mutual

/-- How deep lists and objects nest in a value. -/
def depth : Json → Nat
  | array items => depthOfItems items + 1
  | object fields => depthOfFields fields + 1
  | _ => 0

/-- How deep the items of a list nest. -/
def depthOfItems : List Json → Nat
  | [] => 0
  | item :: rest => max item.depth (depthOfItems rest)

/-- How deep the members of an object nest. -/
def depthOfFields : List (String × Json) → Nat
  | [] => 0
  | (_, value) :: rest => max value.depth (depthOfFields rest)

end

mutual

/-- In the value, every object holds each key once. -/
def Keyed : Json → Prop
  | array items => KeyedItems items
  | object fields => (Entries.keys fields).Nodup ∧ KeyedFields fields
  | _ => True

/-- In the items of a list, every object holds each key once. -/
def KeyedItems : List Json → Prop
  | [] => True
  | item :: rest => item.Keyed ∧ KeyedItems rest

/-- In the members of an object, every object holds each key once. -/
def KeyedFields : List (String × Json) → Prop
  | [] => True
  | (_, value) :: rest => value.Keyed ∧ KeyedFields rest

end

theorem keyedFields_iff {fields : List (String × Json)} :
    KeyedFields fields ↔ ∀ field ∈ fields, field.2.Keyed := by
  induction fields with
  | nil => simp [KeyedFields]
  | cons field rest ih => simp [KeyedFields, ih]

open Literal

/-! ## What is read -/

mutual

/-- **What is read holds each key of an object once.** -/
theorem keyed_of_value? : (l : Literal) → ∀ {d : Nat} {j : Json}, l.value? d = some j → j.Keyed
  | .null, _, _, h => by
    cases h
    trivial
  | .bool _, _, _, h => by
    cases h
    trivial
  | .number _, _, _, h => by
    obtain ⟨n, -, rfl⟩ := Option.map_eq_some_iff.mp h
    trivial
  | .string _, _, _, h => by
    obtain ⟨s, -, rfl⟩ := Option.map_eq_some_iff.mp h
    trivial
  | .array items, d, j, h => by
    cases d with
    | zero => cases h
    | succ below =>
      obtain ⟨js, hjs, rfl⟩ := Option.map_eq_some_iff.mp h
      exact keyedItems_of_values? items hjs
  | .object members, d, j, h => by
    cases d with
    | zero => cases h
    | succ below =>
      obtain ⟨pairs, hpairs, rfl⟩ := Option.map_eq_some_iff.mp h
      have hkeyed := keyedFields_iff.mp (keyedFields_of_members? members hpairs)
      exact ⟨Entries.nodup_keys_ofPairs pairs,
        keyedFields_iff.mpr fun field hmem => hkeyed field (Entries.mem_of_mem_ofPairs hmem)⟩

theorem keyedItems_of_values? :
    (items : List Literal) → ∀ {d : Nat} {js : List Json}, values? d items = some js → KeyedItems js
  | [], _, _, h => by
    cases h
    trivial
  | item :: rest, d, js, h => by
    simp only [values?, Option.bind_eq_bind, Option.bind_eq_some_iff] at h
    obtain ⟨j, hj, js, hjs, h⟩ := h
    cases h
    exact ⟨keyed_of_value? item hj, keyedItems_of_values? rest hjs⟩

theorem keyedFields_of_members? :
    (members : List (Option String × Literal)) → ∀ {d : Nat} {fields : List (String × Json)},
      Literal.members? d members = some fields → KeyedFields fields
  | [], _, _, h => by
    cases h
    trivial
  | (key, literal) :: rest, d, fields, h => by
    simp only [Literal.members?, Option.bind_eq_bind, Option.bind_eq_some_iff] at h
    obtain ⟨key, -, j, hj, fields, hfields, h⟩ := h
    cases h
    exact ⟨keyed_of_value? literal hj, keyedFields_of_members? rest hfields⟩

end

/-! ## What is written -/

mutual

/-- **What a value is written as denotes it.** -/
theorem value?_toLiteral : (j : Json) → j.Keyed → ∀ d, j.depth ≤ d → j.toLiteral.value? d = some j
  | null, _, _, _ => rfl
  | bool _, _, _, _ => rfl
  | number _, _, _, _ => rfl
  | string _, _, _, _ => rfl
  | array items, h, d, hd => by
    rw [depth] at hd
    obtain ⟨d, rfl⟩ : ∃ below, d = below + 1 := ⟨d - 1, by omega⟩
    rw [toLiteral, value?, values?_toLiterals items h d (by omega)]
    rfl
  | object fields, h, d, hd => by
    obtain ⟨hkeys, hfields⟩ := h
    rw [depth] at hd
    obtain ⟨d, rfl⟩ : ∃ below, d = below + 1 := ⟨d - 1, by omega⟩
    rw [toLiteral, value?, members?_toMembers fields hfields d (by omega), Option.map_some,
      Entries.ofPairs_of_nodup hkeys]

theorem values?_toLiterals : (items : List Json) → KeyedItems items → ∀ d, depthOfItems items ≤ d →
    values? d (toLiterals items) = some items
  | [], _, _, _ => rfl
  | item :: rest, h, d, hd => by
    rw [depthOfItems] at hd
    rw [toLiterals, values?, value?_toLiteral item h.1 d (by omega),
      values?_toLiterals rest h.2 d (by omega)]
    rfl

theorem members?_toMembers : (fields : List (String × Json)) → KeyedFields fields →
    ∀ d, depthOfFields fields ≤ d → members? d (toMembers fields) = some fields
  | [], _, _, _ => rfl
  | (key, value) :: rest, h, d, hd => by
    rw [depthOfFields] at hd
    rw [toMembers, members?]
    simp [value?_toLiteral value h.1 d (by omega), members?_toMembers rest h.2 d (by omega)]

end

end Json

end EntityQuery
