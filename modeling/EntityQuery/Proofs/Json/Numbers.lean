import EntityQuery.Json.Literal

/-!
# Texts of numbers are read back

* `Literal.Ends`: what follows a number in a text of JSON.
* `Number.Legible`: a number whose text denotes it: an integer that is kept exactly, or a double whose text is
  read as the double.
* **`Number.Legible.readNumber`**: the text of such a number is read as the number, whatever follows.
-/

namespace EntityQuery

namespace Literal

/-- What follows does not continue a number. -/
def Ends (rest : List Char) : Prop :=
  ∀ c ∈ rest.head?, c.isDigit = false ∧ c ≠ '.' ∧ c ≠ 'e' ∧ c ≠ 'E'

theorem ends_nil : Ends [] := fun _ h => nomatch h

theorem ends_cons {c : Char} {rest : List Char} (h : c.isDigit = false ∧ c ≠ '.' ∧ c ≠ 'e' ∧ c ≠ 'E') :
    Ends (c :: rest) := by
  rintro d hd
  cases hd
  exact h

/-- The sign of an exponent, if it has one, and what follows it. -/
def exponentSign : List Char → Bool × List Char
  | '-' :: rest => (true, rest)
  | '+' :: rest => (false, rest)
  | rest => (false, rest)

/-- The exponent after its mark: an optional sign, and digits that have to be there. -/
theorem readExponent_mark {c : Char} (hc : c = 'e' ∨ c = 'E') (cs : List Char) :
    readExponent (c :: cs) =
      match splitDigits (exponentSign cs).2 with
      | ([], _) => none
      | (ds, rest) =>
        some (some (if (exponentSign cs).1 then -(digitsValue ds : Int) else digitsValue ds), rest) := by
  simp only [readExponent, hc, if_true]
  rfl

theorem exponentSign_append {cs : List Char} (hcs : cs ≠ []) (rest : List Char) :
    exponentSign (cs ++ rest) = ((exponentSign cs).1, (exponentSign cs).2 ++ rest) := by
  rcases cs with _ | ⟨c, cs⟩
  · exact absurd rfl hcs
  · by_cases hm : c = '-'
    · subst hm
      rfl
    · by_cases hp : c = '+'
      · subst hp
        rfl
      · simp [exponentSign, hm, hp]

section

variable {cs r rest : List Char} (he : Ends rest)

include he

theorem splitDigits_append (cs : List Char) :
    splitDigits (cs ++ rest) = ((splitDigits cs).1, (splitDigits cs).2 ++ rest) := by
  induction cs with
  | nil =>
    cases rest with
    | nil => rfl
    | cons c rest => simp [splitDigits, (he c rfl).1]
  | cons c cs ih =>
    simp only [splitDigits, Prod.mk.injEq] at ih
    cases hc : c.isDigit <;> simp [splitDigits, hc, ih.1, ih.2]

theorem readFraction_append {fraction : List Char} (h : readFraction cs = some (fraction, r)) :
    readFraction (cs ++ rest) = some (fraction, r ++ rest) := by
  rcases cs with _ | ⟨c, cs⟩
  · cases h
    rcases rest with _ | ⟨c, rest⟩
    · rfl
    · have hc := (he c rfl).2.1
      simp [readFraction, hc]
  · by_cases hc : c = '.'
    · subst hc
      simp only [List.cons_append, readFraction, splitDigits_append he] at h ⊢
      split at h
      · cases h
      · next heq =>
        cases h
        simp only [heq]
    · simp [readFraction, hc] at h ⊢
      obtain ⟨rfl, rfl⟩ := h
      exact ⟨rfl, rfl⟩

theorem readExponent_append {exponent : Option Int} (h : readExponent cs = some (exponent, r)) :
    readExponent (cs ++ rest) = some (exponent, r ++ rest) := by
  rcases cs with _ | ⟨c, cs⟩
  · cases h
    rcases rest with _ | ⟨c, rest⟩
    · rfl
    · obtain ⟨-, -, he', hE⟩ := he c rfl
      simp [readExponent, he', hE]
  · by_cases hc : c = 'e' ∨ c = 'E'
    · have hcs : cs ≠ [] := by
        rintro rfl
        simp [readExponent_mark hc, exponentSign, splitDigits] at h
      rw [List.cons_append, readExponent_mark hc, exponentSign_append hcs, splitDigits_append he]
      rw [readExponent_mark hc] at h
      split at h
      · cases h
      · next heq =>
        cases h
        simp only [heq]
    · simp [readExponent, hc] at h ⊢
      obtain ⟨rfl, rfl⟩ := h
      exact ⟨rfl, rfl⟩

end

/-- Reads a number after its sign. -/
def readUnsigned (neg : Bool) (cs : List Char) : Option (Option Number × List Char) := do
  let (whole, cs) := splitDigits cs
  if whole.isEmpty then none
  else if whole.head? = some '0' ∧ 1 < whole.length then none
  else do
    let (fraction, cs) ← readFraction cs
    let (exponent, cs) ← readExponent cs
    return (numberOf neg whole fraction exponent, cs)

theorem readNumber_minus (cs : List Char) : readNumber ('-' :: cs) = readUnsigned true cs := rfl

theorem readNumber_of_ne {c : Char} (hc : c ≠ '-') (cs : List Char) :
    readNumber (c :: cs) = readUnsigned false (c :: cs) := by
  simp [readNumber, readUnsigned, hc]

theorem readUnsigned_append {neg : Bool} {cs r rest : List Char} {n : Option Number} (he : Ends rest)
    (h : readUnsigned neg cs = some (n, r)) : readUnsigned neg (cs ++ rest) = some (n, r ++ rest) := by
  simp only [readUnsigned, splitDigits_append he] at h ⊢
  split at h
  · cases h
  · split at h
    · cases h
    · next hw hz =>
      simp only [hw, hz, Bool.false_eq_true, if_false]
      obtain ⟨⟨fraction, r₁⟩, h₁, h⟩ := Option.bind_eq_some_iff.mp h
      obtain ⟨⟨exponent, r₂⟩, h₂, h⟩ := Option.bind_eq_some_iff.mp h
      cases h
      simp [readFraction_append he h₁, readExponent_append he h₂]

/-- A number is read to its end, whatever follows. -/
theorem readNumber_append {cs r rest : List Char} {n : Option Number} (he : Ends rest)
    (h : readNumber cs = some (n, r)) : readNumber (cs ++ rest) = some (n, r ++ rest) := by
  rcases cs with _ | ⟨c, cs⟩
  · simp [readNumber, splitDigits] at h
  · rw [List.cons_append]
    by_cases hc : c = '-'
    · subst hc
      exact readUnsigned_append he h
    · rw [readNumber_of_ne hc] at h ⊢
      exact readUnsigned_append he h

/-- A number starts with its sign or with a digit. -/
theorem head_of_readNumber {cs : List Char} {n : Option Number} {r : List Char}
    (h : readNumber cs = some (n, r)) : ∃ c cs', cs = c :: cs' ∧ (c = '-' ∨ c.isDigit = true) := by
  rcases cs with _ | ⟨c, cs⟩
  · simp [readNumber, splitDigits] at h
  · refine ⟨c, cs, rfl, ?_⟩
    by_cases hc : c = '-'
    · exact .inl hc
    · rw [readNumber_of_ne hc] at h
      cases hd : c.isDigit with
      | true => exact .inr rfl
      | false => simp [readUnsigned, splitDigits, hd] at h

/-- A character that a number starts with is no other one. -/
theorem ne_of_starts {c d : Char} (hc : c = '-' ∨ c.isDigit = true) (hd : d.isDigit = false) (hm : d ≠ '-') :
    c ≠ d := by
  rintro rfl
  rcases hc with hc | hc
  · exact hm hc
  · rw [hc] at hd
    cases hd

/-! ## Integers -/

theorem digitsValue_toDigits (n : Nat) : digitsValue (Nat.toDigits 10 n) = n := by
  have h : digitsValue (Nat.toDigits 10 n) = Nat.ofDigitChars 10 (Nat.toDigits 10 n) 0 :=
    Nat.ofDigitChars_eq_foldl.symm
  rw [h, Nat.ofDigitChars_ten_toDigits]

theorem splitDigits_toDigits (n : Nat) : splitDigits (Nat.toDigits 10 n) = (Nat.toDigits 10 n, []) := by
  have h : ∀ c ∈ Nat.toDigits 10 n, c.isDigit = true := fun c hc =>
    Nat.isDigit_of_mem_toDigits (by decide) (by decide) hc
  have htake := @List.takeWhile_append_of_pos _ Char.isDigit _ [] h
  have hdrop := @List.dropWhile_append_of_pos _ Char.isDigit _ [] h
  rw [List.append_nil] at htake hdrop
  rw [splitDigits, htake, hdrop, List.takeWhile_nil, List.append_nil, List.dropWhile_nil]

/-- An integer of more than one digit does not start with a zero. -/
theorem head_toDigits {n : Nat} (h : 10 ≤ n) : (Nat.toDigits 10 n).head? ≠ some '0' := by
  induction n using Nat.strongRecOn with
  | ind n ih =>
    rw [Nat.toDigits_of_base_le (by decide) h]
    by_cases h' : 10 ≤ n / 10
    · have hhead := ih (n / 10) (by omega) h'
      rcases hds : Nat.toDigits 10 (n / 10) with _ | ⟨d, ds⟩
      · exact absurd hds Nat.toDigits_ne_nil
      · rw [hds] at hhead
        exact hhead
    · rw [Nat.toDigits_of_lt_base (by omega)]
      have hdigit : ∀ d < 10, 0 < d → Nat.digitChar d ≠ '0' := by decide
      simpa using hdigit (n / 10) (by omega) (by omega)

theorem readUnsigned_toDigits (neg : Bool) {n : Nat} (hneg : neg = true → 0 < n)
    (hfits : Number.fits (if neg then -(n : Int) else n) = true) :
    readUnsigned neg (Nat.toDigits 10 n) = some (some (.int (if neg then -(n : Int) else n)), []) := by
  have hne : (Nat.toDigits 10 n).isEmpty = false := by
    rw [List.isEmpty_eq_false_iff]
    exact Nat.toDigits_ne_nil
  have hzero : ¬ ((Nat.toDigits 10 n).head? = some '0' ∧ 1 < (Nat.toDigits 10 n).length) := by
    rintro ⟨hhead, hlength⟩
    by_cases h : 10 ≤ n
    · exact head_toDigits h hhead
    · rw [Nat.toDigits_of_lt_base (by omega)] at hlength
      simp at hlength
  simp only [readUnsigned, splitDigits_toDigits, hne, hzero, Bool.false_eq_true, if_false]
  have hzero : (neg && (if neg then -(n : Int) else n) == 0) = false := by
    cases neg with
    | false => rfl
    | true =>
      have := hneg rfl
      simp
      omega
  simp [readFraction, readExponent, numberOf, digitsValue_toDigits, hzero, hfits]

end Literal

/-- A number whose text denotes it: an integer that is kept exactly, or a double whose text is read as it. -/
def Number.Legible : Number → Prop
  | .int n => Number.fits n = true
  | .double x => Literal.readNumber x.text.toList = some (some (.double x), [])

open Literal

/-- **The text of a legible number is read as the number, whatever follows.** -/
theorem Number.Legible.readNumber {n : Number} (h : n.Legible) {rest : List Char} (he : Ends rest) :
    Literal.readNumber (n.text.toList ++ rest) = some (some n, rest) := by
  refine readNumber_append (r := []) he ?_
  cases n with
  | double x => exact h
  | int i =>
    rcases i with n | n
    · have hs : (Number.int (Int.ofNat n)).text.toList = Nat.toDigits 10 n := Nat.toList_repr
      obtain ⟨c, cs, hc, hd⟩ : ∃ c cs, Nat.toDigits 10 n = c :: cs ∧ c ≠ '-' := by
        rcases hds : Nat.toDigits 10 n with _ | ⟨c, cs⟩
        · exact absurd hds Nat.toDigits_ne_nil
        · refine ⟨c, cs, rfl, ?_⟩
          rintro rfl
          have hdigit := Nat.isDigit_of_mem_toDigits (by decide) (by decide) (hds ▸ List.mem_cons_self)
          exact absurd hdigit (by decide)
      have hread := readUnsigned_toDigits false (fun h => nomatch h) h
      rw [hs, hc, readNumber_of_ne hd, ← hc]
      exact hread
    · have hs : (Number.int (Int.negSucc n)).text.toList = '-' :: Nat.toDigits 10 (n + 1) := by
        change ("-" ++ (n + 1).repr).toList = _
        rw [String.toList_append, Nat.toList_repr]
        rfl
      rw [hs, readNumber_minus]
      exact readUnsigned_toDigits true (fun _ => Nat.succ_pos n) h

end EntityQuery
