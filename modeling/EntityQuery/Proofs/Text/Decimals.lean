import EntityQuery.Typing.Scalar
import Mathlib.Data.List.TakeWhile

/-!
# Decimals in texts

* `Text.Padded`: a text between blanks; **`Text.Padded.trim_eq`**: trimming gives the text back, if it has no
  blanks of its own, and `Text.padded_trim`: what trimming gives stands between blanks.
* `SignedDecimal`: digits with an optional sign, and the integer that they denote.
* **`readInteger?_eq_some_iff`**: what is read of 64 bits is what a signed decimal denotes.
-/

namespace EntityQuery

/-! ## Blanks around a text -/

namespace Text

/-- The first text stands in the second one, with blanks before and after it. -/
def Padded (inner cs : List Char) : Prop :=
  ∃ before after, cs = before ++ inner ++ after ∧ (∀ c ∈ before, isBlank c = true) ∧
    ∀ c ∈ after, isBlank c = true

theorem padded_trim (cs : List Char) : Padded (trim cs) cs := by
  refine ⟨cs.takeWhile isBlank, ((cs.dropWhile isBlank).reverse.takeWhile isBlank).reverse, ?_,
    fun c hc => List.mem_takeWhile_imp hc, fun c hc => List.mem_takeWhile_imp (List.mem_reverse.mp hc)⟩
  rw [List.append_assoc, trim, ← List.reverse_append, List.takeWhile_append_dropWhile, List.reverse_reverse,
    List.takeWhile_append_dropWhile]

/-- Blanks in front are dropped, up to a character that is none. -/
theorem dropWhile_isBlank_append {before inner after : List Char} (hbefore : ∀ c ∈ before, isBlank c = true)
    (hne : inner ≠ []) (hinner : ∀ c ∈ inner, isBlank c = false) :
    (before ++ inner ++ after).dropWhile isBlank = inner ++ after := by
  rw [List.append_assoc, List.dropWhile_append_of_pos hbefore]
  rcases inner with _ | ⟨c, inner⟩
  · exact absurd rfl hne
  · rw [List.cons_append, List.dropWhile_cons_of_neg (by simp [hinner])]

/-- **Trimming gives what stands between blanks**, if it has no blanks of its own. -/
theorem Padded.trim_eq {inner cs : List Char} (h : Padded inner cs) (hne : inner ≠ [])
    (hinner : ∀ c ∈ inner, isBlank c = false) : trim cs = inner := by
  obtain ⟨before, after, rfl, hbefore, hafter⟩ := h
  have hback : (after.reverse ++ inner.reverse ++ []).dropWhile isBlank = inner.reverse ++ [] :=
    dropWhile_isBlank_append (by simpa using hafter) (by simpa using hne) (by simpa using hinner)
  rw [List.append_nil, List.append_nil] at hback
  rw [trim, dropWhile_isBlank_append hbefore hne hinner, List.reverse_append, hback, List.reverse_reverse]

theorem isBlank_of_isDigit {c : Char} (h : c.isDigit = true) : isBlank c = false := by
  simp only [Char.isDigit, Bool.and_eq_true, decide_eq_true_eq, ge_iff_le, UInt32.le_iff_toNat_le] at h
  have hdigit : 48 ≤ c.toNat ∧ c.toNat ≤ 57 := h
  simp only [isBlank, blankRanges, Ranges.has]
  grind

end Text

/-! ## Signed decimals -/

/-- Decimal digits, and at least one of them. -/
def Digits (ds : List Char) : Prop := ds ≠ [] ∧ ∀ d ∈ ds, d.isDigit = true

theorem digits_iff {ds : List Char} : Digits ds ↔ (ds.isEmpty || !ds.all Char.isDigit) = false := by
  simp [Digits]

/-- The text denotes the integer: decimal digits with an optional sign. -/
inductive SignedDecimal : List Char → Int → Prop
  | plain {ds : List Char} (hds : Digits ds) : SignedDecimal ds (Nat.ofDigitChars 10 ds 0)
  | plus {ds : List Char} (hds : Digits ds) : SignedDecimal ('+' :: ds) (Nat.ofDigitChars 10 ds 0)
  | minus {ds : List Char} (hds : Digits ds) : SignedDecimal ('-' :: ds) (-(Nat.ofDigitChars 10 ds 0 : Int))

theorem splitSign_of_digits {ds : List Char} (h : Digits ds) : splitSign ds = (false, ds) := by
  rcases ds with _ | ⟨d, ds⟩
  · exact absurd rfl h.1
  · have hd := h.2 d List.mem_cons_self
    have hm : d ≠ '-' := by
      rintro rfl
      cases hd
    have hp : d ≠ '+' := by
      rintro rfl
      cases hd
    simp [splitSign, hm, hp]

/-- A signed decimal is what digits are after a sign. -/
theorem signedDecimal_iff {cs : List Char} {n : Int} :
    SignedDecimal cs n ↔ Digits (splitSign cs).2 ∧
      n = if (splitSign cs).1 then -(Nat.ofDigitChars 10 (splitSign cs).2 0 : Int)
        else Nat.ofDigitChars 10 (splitSign cs).2 0 := by
  constructor
  · intro h
    cases h with
    | plain hds =>
      rw [splitSign_of_digits hds]
      exact ⟨hds, rfl⟩
    | plus hds => exact ⟨hds, rfl⟩
    | minus hds => exact ⟨hds, rfl⟩
  · rintro ⟨hds, rfl⟩
    unfold splitSign at hds ⊢
    split at hds
    · exact .minus hds
    · exact .plus hds
    · exact .plain hds

theorem SignedDecimal.unique {cs : List Char} {n m : Int} (hn : SignedDecimal cs n) (hm : SignedDecimal cs m) :
    n = m :=
  (signedDecimal_iff.mp hn).2.trans (signedDecimal_iff.mp hm).2.symm

theorem SignedDecimal.ne_nil {cs : List Char} {n : Int} (h : SignedDecimal cs n) : cs ≠ [] := by
  cases h with
  | plain hds => exact hds.1
  | plus _ => exact List.cons_ne_nil _ _
  | minus _ => exact List.cons_ne_nil _ _

theorem SignedDecimal.isBlank {cs : List Char} {n : Int} (h : SignedDecimal cs n) :
    ∀ c ∈ cs, Text.isBlank c = false := by
  have hdigits {ds : List Char} (hds : Digits ds) : ∀ c ∈ ds, Text.isBlank c = false :=
    fun c hc => Text.isBlank_of_isDigit (hds.2 c hc)
  cases h with
  | plain hds => exact hdigits hds
  | plus hds => exact List.forall_mem_cons.mpr ⟨by decide, hdigits hds⟩
  | minus hds => exact List.forall_mem_cons.mpr ⟨by decide, hdigits hds⟩

/-- **What is read of 64 bits is what a signed decimal denotes.** -/
theorem readInteger?_eq_some_iff {cs : List Char} {i : Int64} :
    readInteger? cs = some i ↔ SignedDecimal cs i.toInt := by
  have hvalue (ds : List Char) : Literal.digitsValue ds = Nat.ofDigitChars 10 ds 0 := Nat.ofDigitChars_eq_foldl.symm
  simp only [readInteger?, hvalue, signedDecimal_iff, digits_iff]
  cases (splitSign cs).2.isEmpty || !(splitSign cs).2.all Char.isDigit with
  | true => exact iff_of_false (fun h => nomatch h) fun h => nomatch h.1
  | false => exact int64?_eq_some_iff.trans (and_iff_right rfl).symm

end EntityQuery
