import EntityQuery.Json.Literal

/-!
# Texts of strings are read back

* `Literal.unitOf`: the unit that a character is read as once it has been written.
* **`Literal.readUnits_escape`**: reading goes character by character.
* **`Literal.readString_quote`**: what stands in quotes is read as the string.
-/

namespace EntityQuery

namespace Literal

open Json

theorem hexValue?_hexDigit : ∀ n < 16, hexValue? (hexDigit n) = some n := by decide

/-- The unit that a character is read as once it has been written: control characters without a letter of their
own are written as codes. -/
def unitOf (c : Char) : Unit16 :=
  if c.toNat < 32 ∧ c ≠ '\n' ∧ c ≠ '\r' ∧ c ≠ '\t' ∧ c.toNat ≠ 8 ∧ c.toNat ≠ 12 then .code c.toNat else .char c

theorem unitOf_cases (c : Char) : unitOf c = .char c ∨ c.toNat < 32 ∧ unitOf c = .code c.toNat := by
  unfold unitOf
  split
  · next h => exact .inr ⟨h.1, rfl⟩
  · exact .inl rfl

theorem eq_of_toNat {c d : Char} (h : c.toNat = d.toNat) : c = d :=
  Char.toNat_inj.mp h

/-- **A written character is read as its unit.** -/
theorem readUnits_escape (c : Char) (rest : List Char) :
    readUnits (escape c ++ rest) = (readUnits rest).map fun (units, r) => (unitOf c :: units, r) := by
  unfold escape
  split
  · subst_vars
    simp [readUnits]
    cases readUnits rest <;> rfl
  split
  · subst_vars
    simp [readUnits]
    cases readUnits rest <;> rfl
  split
  · subst_vars
    simp [readUnits]
    cases readUnits rest <;> rfl
  split
  · subst_vars
    simp [readUnits]
    cases readUnits rest <;> rfl
  split
  · subst_vars
    simp [readUnits]
    cases readUnits rest <;> rfl
  split
  · next h =>
    cases eq_of_toNat (d := Char.ofNat 8) h
    simp [readUnits]
    cases readUnits rest <;> rfl
  split
  · next h =>
    cases eq_of_toNat (d := Char.ofNat 12) h
    simp [readUnits]
    cases readUnits rest <;> rfl
  split
  · next hlt =>
    have h₁ := hexValue?_hexDigit (c.toNat / 16) (by omega)
    have h₂ := hexValue?_hexDigit (c.toNat % 16) (by omega)
    have h₀ : hexValue? '0' = some 0 := by decide
    have hu : unitOf c = .code (c.toNat / 16 * 16 + c.toNat % 16) := by
      rw [show c.toNat / 16 * 16 + c.toNat % 16 = c.toNat by omega]
      simp [unitOf, *]
    simp [readUnits, h₀, h₁, h₂, hu]
    cases readUnits rest <;> rfl
  · next hq hb _ _ _ _ _ hlt =>
    have hu : unitOf c = .char c := by simp [unitOf, hlt]
    rw [List.singleton_append,
      readUnits.eq_5 _ _ hq (fun _ _ _ _ _ h => absurd h hb) (fun _ _ h => absurd h hb), hu]
    simp only [hlt, hb, or_self, if_false]
    cases readUnits rest <;> rfl

theorem readUnits_flatMap_escape (s rest : List Char) :
    readUnits (s.flatMap escape ++ '"' :: rest) = some (s.map unitOf, rest) := by
  induction s with
  | nil => rfl
  | cons c s ih => rw [List.flatMap_cons, List.append_assoc, readUnits_escape, ih]; rfl

/-- A code that is no half of a surrogate pair denotes its character. -/
theorem joinUnits_code {n : Nat} (h : n < 0xD800) (units : List Unit16) :
    joinUnits (.code n :: units) = (joinUnits units).map (Char.ofNat n :: ·) := by
  have hhi : ¬ (0xD800 ≤ n ∧ n < 0xDC00) := by omega
  have hlo : ¬ (0xDC00 ≤ n ∧ n < 0xE000) := by omega
  have hboth : ¬ (0xD800 ≤ n ∧ n < 0xE000) := by omega
  rcases units with _ | ⟨_ | m, units⟩ <;> simp only [joinUnits, hhi, hlo, hboth, if_false]

theorem joinUnits_map_unitOf (s : List Char) : joinUnits (s.map unitOf) = some s := by
  induction s with
  | nil => rfl
  | cons c s ih =>
    rw [List.map_cons]
    rcases unitOf_cases c with hc | ⟨hlt, hc⟩
    · rw [hc, joinUnits, ih]
      rfl
    · rw [hc, joinUnits_code (by omega), ih, Char.ofNat_toNat]
      rfl

/-- **What stands in quotes is read as the string.** -/
theorem readString_quote (s : String) (rest : List Char) :
    readString (s.toList.flatMap escape ++ '"' :: rest) = some (some s, rest) := by
  rw [readString, readUnits_flatMap_escape]
  simp [joinUnits_map_unitOf]

end Literal

theorem Json.toList_quote (s : String) : (quote s).toList = '"' :: (s.toList.flatMap escape ++ ['"']) := by
  simp [quote]

end EntityQuery
