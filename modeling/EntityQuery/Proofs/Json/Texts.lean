import EntityQuery.Proofs.Json.Numbers
import EntityQuery.Proofs.Json.Strings

/-!
# Texts of values are read back

* `Json.Legible`: a value whose numbers are legible.
* `Json.itemsText`, `Json.membersText`: what stands between the brackets of a list and the braces of an
  object.
* **`Literal.read_render`**: the text of a legible value is read as the value, whatever follows.
* **`Literal.parse?_render`**: so is the whole text.
-/

namespace EntityQuery

/-! ## Legible values -/

mutual

/-- The numbers of a value. -/
def Json.numbers : Json → List Number
  | .number n => [n]
  | .array items => Json.numbersOfItems items
  | .object fields => Json.numbersOfFields fields
  | _ => []

/-- The numbers of the items of a list. -/
def Json.numbersOfItems : List Json → List Number
  | [] => []
  | item :: rest => item.numbers ++ Json.numbersOfItems rest

/-- The numbers of the members of an object. -/
def Json.numbersOfFields : List (String × Json) → List Number
  | [] => []
  | (_, value) :: rest => value.numbers ++ Json.numbersOfFields rest

end

/-- A value whose text denotes it. -/
def Json.Legible (j : Json) : Prop := ∀ n ∈ j.numbers, n.Legible

namespace Json

theorem legible_array_cons {v : Json} {vs : List Json} :
    (array (v :: vs)).Legible ↔ v.Legible ∧ (array vs).Legible := by
  simp only [Legible, numbers, numbersOfItems, List.forall_mem_append]

theorem legible_object_cons {key : String} {v : Json} {fields : List (String × Json)} :
    (object ((key, v) :: fields)).Legible ↔ v.Legible ∧ (object fields).Legible := by
  simp only [Legible, numbers, numbersOfFields, List.forall_mem_append]

/-! ## Texts of lists and objects -/

/-- What stands between the brackets of a list. -/
def itemsText : List Json → List Char
  | [] => []
  | [v] => v.render.toList
  | v :: w :: rest => v.render.toList ++ ',' :: itemsText (w :: rest)

/-- What a member of an object is written as. -/
def memberText (key : String) (v : Json) : List Char :=
  '"' :: (key.toList.flatMap escape ++ '"' :: ':' :: v.render.toList)

/-- What stands between the braces of an object. -/
def membersText : List (String × Json) → List Char
  | [] => []
  | [(key, v)] => memberText key v
  | (key, v) :: m :: rest => memberText key v ++ ',' :: membersText (m :: rest)

theorem toList_render_array (items : List Json) :
    (array items).render.toList = '[' :: (itemsText items ++ [']']) := by
  have h : ∀ items, [','].intercalate ((renderItems items).map String.toList) = itemsText items := by
    intro items
    fun_induction itemsText items with
    | case1 => rfl
    | case2 v => simp [renderItems]
    | case3 v w rest ih =>
      simp only [renderItems, List.map_cons] at ih ⊢
      rw [List.intercalate_cons_cons, ih]
      simp
  rw [render, String.toList_append, String.toList_append, String.toList_intercalate,
    show ",".toList = [','] from rfl, h]
  rfl

theorem toList_render_object (fields : List (String × Json)) :
    (object fields).render.toList = '\x7b' :: (membersText fields ++ ['\x7d']) := by
  have hmember : ∀ key v, (quote key ++ ":" ++ v.render).toList = memberText key v := by
    intro key v
    simp [toList_quote, memberText]
  have h : ∀ fields, [','].intercalate ((renderFields fields).map String.toList) = membersText fields := by
    intro fields
    fun_induction membersText fields with
    | case1 => rfl
    | case2 key v => simp only [renderFields, List.map_cons, List.map_nil, List.intercalate_singleton, hmember]
    | case3 key v m rest ih =>
      obtain ⟨k, w⟩ := m
      simp only [renderFields, List.map_cons] at ih ⊢
      rw [List.intercalate_cons_cons, ih, hmember]
      simp
  rw [render, braces, String.toList_append, String.toList_append, String.toList_intercalate,
    show ",".toList = [','] from rfl, h]
  rfl

end Json

namespace Literal

open Json

/-! ## Reading -/

theorem skip_cons {c : Char} (hc : isSpace c = false) (cs : List Char) : skip (c :: cs) = c :: cs := by
  simp [skip, hc]

/-- The text of a value starts with none of the characters that stand between values. -/
theorem head_render {j : Json} (hj : j.Legible) :
    ∃ c cs, j.render.toList = c :: cs ∧ isSpace c = false ∧ c ≠ ']' ∧ c ≠ '\x7d' := by
  cases j with
  | null => exact ⟨_, _, rfl, by decide⟩
  | bool b => cases b <;> exact ⟨_, _, rfl, by decide⟩
  | number n =>
    have hn : n.Legible := hj n (by simp [numbers])
    obtain ⟨c, cs, hc, hd⟩ := head_of_readNumber (hn.readNumber ends_nil)
    rw [List.append_nil] at hc
    exact ⟨c, cs, hc, by simp [isSpace, ne_of_starts hd], ne_of_starts hd (by decide) (by decide),
      ne_of_starts hd (by decide) (by decide)⟩
  | string s => exact ⟨_, _, toList_quote s, by decide⟩
  | array items => exact ⟨_, _, toList_render_array items, by decide⟩
  | object fields => exact ⟨_, _, toList_render_object fields, by decide⟩

theorem length_render {j : Json} (hj : j.Legible) : 0 < j.render.toList.length := by
  obtain ⟨c, cs, hc, -⟩ := head_render hj
  simp [hc]

theorem read_number {fuel : Nat} {n : Number} (hn : n.Legible) {rest : List Char} (he : Ends rest) :
    read (fuel + 1) (n.text.toList ++ rest) = some (.number (some n), rest) := by
  have hread := hn.readNumber he
  obtain ⟨c, cs, hc, hd⟩ := head_of_readNumber hread
  rw [hc] at hread ⊢
  have hs : isSpace c = false := by simp [isSpace, ne_of_starts hd]
  have hn := ne_of_starts (d := 'n') hd (by decide) (by decide)
  have ht := ne_of_starts (d := 't') hd (by decide) (by decide)
  have hf := ne_of_starts (d := 'f') hd (by decide) (by decide)
  have hq := ne_of_starts (d := '"') hd (by decide) (by decide)
  have hl := ne_of_starts (d := '[') hd (by decide) (by decide)
  have ho := ne_of_starts (d := '\x7b') hd (by decide) (by decide)
  rw [read, skip_cons hs]
  simp [hn, ht, hf, hq, hl, ho, hread]

theorem read_array_cons {fuel : Nat} {c : Char} (hs : isSpace c = false) (hc : c ≠ ']') (cs : List Char) :
    read (fuel + 1) ('[' :: c :: cs) =
      (readItems fuel (c :: cs)).map fun (items, rest) => (.array items, rest) := by
  rw [read, skip_cons (by decide)]
  simp [skip_cons hs, hc]

theorem read_object_cons {fuel : Nat} {c : Char} (hs : isSpace c = false) (hc : c ≠ '\x7d')
    (cs : List Char) :
    read (fuel + 1) ('\x7b' :: c :: cs) =
      (readFields fuel (c :: cs)).map fun (fields, rest) => (.object fields, rest) := by
  rw [read, skip_cons (by decide)]
  simp [skip_cons hs, hc]

section

variable {fuel : Nat} {cs cs' rest : List Char} {item : Literal} {items : List Literal} {key : Option String}
  {fields : List (Option String × Literal)}

theorem readItems_last (h : read fuel cs = some (item, ']' :: rest)) :
    readItems (fuel + 1) cs = some ([item], rest) := by
  rw [readItems, h]
  rfl

theorem readItems_more (h : read fuel cs = some (item, ',' :: cs'))
    (h' : readItems fuel cs' = some (items, rest)) :
    readItems (fuel + 1) cs = some (item :: items, rest) := by
  rw [readItems, h]
  simp [skip_cons (show isSpace ',' = false by decide), h']

theorem readFields_last (hkey : readString cs = some (key, ':' :: cs'))
    (h : read fuel cs' = some (item, '\x7d' :: rest)) :
    readFields (fuel + 1) ('"' :: cs) = some ([(key, item)], rest) := by
  rw [readFields, skip_cons (by decide)]
  simp [hkey, skip_cons (show isSpace ':' = false by decide), h,
    skip_cons (show isSpace '\x7d' = false by decide)]

theorem readFields_more {cs'' : List Char} (hkey : readString cs = some (key, ':' :: cs'))
    (h : read fuel cs' = some (item, ',' :: cs'')) (h' : readFields fuel cs'' = some (fields, rest)) :
    readFields (fuel + 1) ('"' :: cs) = some ((key, item) :: fields, rest) := by
  rw [readFields, skip_cons (by decide)]
  simp [hkey, skip_cons (show isSpace ':' = false by decide), h,
    skip_cons (show isSpace ',' = false by decide), h']

end

/-- The text between brackets starts as the text of the first item does. -/
theorem head_itemsText {v : Json} (hv : v.Legible) (vs : List Json) (rest : List Char) :
    ∃ c cs, itemsText (v :: vs) ++ rest = c :: cs ∧ isSpace c = false ∧ c ≠ ']' := by
  obtain ⟨c, cs, hc, hs, hne, -⟩ := head_render hv
  rcases vs with _ | ⟨w, vs⟩
  · exact ⟨c, cs ++ rest, by rw [itemsText, hc]; rfl, hs, hne⟩
  · exact ⟨c, _, by rw [itemsText, hc, List.cons_append, List.cons_append], hs, hne⟩

/-- The text between braces starts with the quote of the first key. -/
theorem head_membersText (key : String) (v : Json) (fields : List (String × Json)) (rest : List Char) :
    ∃ cs, membersText ((key, v) :: fields) ++ rest = '"' :: cs := by
  rcases fields with _ | ⟨m, fields⟩
  · exact ⟨_, rfl⟩
  · exact ⟨_, by rw [membersText, memberText, List.cons_append, List.cons_append]⟩

theorem ends_of_mark {c : Char} (hc : c = ',' ∨ c = ']' ∨ c = '\x7d') (rest : List Char) :
    Ends (c :: rest) := by
  rcases hc with rfl | rfl | rfl <;> exact ends_cons (by decide)

/-- Reading a value takes a step. -/
theorem exists_step {j : Json} (hj : j.Legible) {fuel : Nat} (hle : 2 * j.render.toList.length ≤ fuel) :
    ∃ below, fuel = below + 1 :=
  ⟨fuel - 1, by have := length_render hj; omega⟩

theorem read_string (fuel : Nat) (s : String) (rest : List Char) :
    read (fuel + 1) ((quote s).toList ++ rest) = some (.string (some s), rest) := by
  rw [toList_quote, List.cons_append, List.append_assoc, read, skip_cons (by decide)]
  simp only [List.singleton_append, readString_quote, Option.map_some]

mutual

/-- **The text of a legible value is read as the value, whatever follows.** -/
theorem read_render : (j : Json) → j.Legible → ∀ (fuel : Nat) (rest : List Char),
    2 * j.render.toList.length ≤ fuel → Ends rest →
      read fuel (j.render.toList ++ rest) = some (j.toLiteral, rest)
  | .null, hj => by
    intro fuel rest hle he
    obtain ⟨below, rfl⟩ := exists_step hj hle
    rfl
  | .bool b, hj => by
    intro fuel rest hle he
    obtain ⟨below, rfl⟩ := exists_step hj hle
    cases b <;> rfl
  | .number n, hj => by
    intro fuel rest hle he
    obtain ⟨below, rfl⟩ := exists_step hj hle
    exact read_number (hj n (by simp [numbers])) he
  | .string s, hj => by
    intro fuel rest hle he
    obtain ⟨below, rfl⟩ := exists_step hj hle
    exact read_string below s rest
  | .array items, hj => by
    intro fuel rest hle he
    obtain ⟨below, rfl⟩ := exists_step hj hle
    rw [toList_render_array] at hle ⊢
    rcases items with _ | ⟨v, vs⟩
    · rfl
    · obtain ⟨hv, -⟩ := legible_array_cons.mp hj
      have hitems := readItems_render (v :: vs) hj (List.cons_ne_nil _ _) below rest
        (by simp at hle; omega)
      obtain ⟨c, cs, hc, hs, hne⟩ := head_itemsText hv vs (']' :: rest)
      rw [List.cons_append, List.append_assoc, List.singleton_append, hc, read_array_cons hs hne, ← hc,
        hitems]
      rfl
  | .object fields, hj => by
    intro fuel rest hle he
    obtain ⟨below, rfl⟩ := exists_step hj hle
    rw [toList_render_object] at hle ⊢
    rcases fields with _ | ⟨⟨key, v⟩, fields⟩
    · rfl
    · have hfields := readFields_render ((key, v) :: fields) hj (List.cons_ne_nil _ _) below rest
        (by simp at hle; omega)
      obtain ⟨cs, hc⟩ := head_membersText key v fields ('\x7d' :: rest)
      rw [List.cons_append, List.append_assoc, List.singleton_append, hc,
        read_object_cons (by decide) (by decide), ← hc, hfields]
      rfl

/-- What stands between brackets is read item by item. -/
theorem readItems_render : (items : List Json) → (Json.array items).Legible → items ≠ [] →
    ∀ (fuel : Nat) (rest : List Char), 2 * (itemsText items).length < fuel →
      readItems fuel (itemsText items ++ ']' :: rest) = some (Json.toLiterals items, rest)
  | [], _, hne => absurd rfl hne
  | [v], hj, _ => by
    intro fuel rest hle
    obtain ⟨below, rfl⟩ : ∃ below, fuel = below + 1 := ⟨fuel - 1, by omega⟩
    obtain ⟨hv, -⟩ := legible_array_cons.mp hj
    rw [itemsText] at hle ⊢
    exact readItems_last (read_render v hv _ _ (by omega) (ends_of_mark (by decide) rest))
  | v :: w :: vs, hj, _ => by
    intro fuel rest hle
    obtain ⟨below, rfl⟩ : ∃ below, fuel = below + 1 := ⟨fuel - 1, by omega⟩
    obtain ⟨hv, hvs⟩ := legible_array_cons.mp hj
    rw [itemsText] at hle ⊢
    simp only [List.length_append, List.length_cons] at hle
    rw [List.append_assoc]
    exact readItems_more (read_render v hv _ _ (by omega) (ends_of_mark (by decide) _))
      (readItems_render (w :: vs) hvs (List.cons_ne_nil _ _) _ _ (by omega))

/-- What stands between braces is read member by member. -/
theorem readFields_render : (fields : List (String × Json)) → (Json.object fields).Legible → fields ≠ [] →
    ∀ (fuel : Nat) (rest : List Char), 2 * (membersText fields).length < fuel →
      readFields fuel (membersText fields ++ '\x7d' :: rest) = some (Json.toMembers fields, rest)
  | [], _, hne => absurd rfl hne
  | [(key, v)], hj, _ => by
    intro fuel rest hle
    obtain ⟨below, rfl⟩ : ∃ below, fuel = below + 1 := ⟨fuel - 1, by omega⟩
    obtain ⟨hv, -⟩ := legible_object_cons.mp hj
    rw [membersText, memberText] at hle ⊢
    simp only [List.length_append, List.length_cons] at hle
    rw [List.cons_append, List.append_assoc, List.cons_append, List.cons_append]
    exact readFields_last (readString_quote key _)
      (read_render v hv _ _ (by omega) (ends_of_mark (by decide) rest))
  | (key, v) :: m :: fields, hj, _ => by
    intro fuel rest hle
    obtain ⟨below, rfl⟩ : ∃ below, fuel = below + 1 := ⟨fuel - 1, by omega⟩
    obtain ⟨hv, hfields⟩ := legible_object_cons.mp hj
    rw [membersText, memberText] at hle ⊢
    simp only [List.length_append, List.length_cons] at hle
    simp only [List.cons_append, List.append_assoc]
    exact readFields_more (readString_quote key _)
      (read_render v hv _ _ (by omega) (ends_of_mark (by decide) _))
      (readFields_render (m :: fields) hfields (List.cons_ne_nil _ _) _ _ (by omega))

end

end Literal

end EntityQuery
