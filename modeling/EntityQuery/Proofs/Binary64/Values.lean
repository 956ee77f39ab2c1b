import EntityQuery.Binary64.Basic
import Mathlib.Algebra.Order.Field.Rat
import Mathlib.Algebra.Order.Ring.Abs
import Mathlib.Tactic.Positivity

/-!
# Values of doubles

A finite double is a dyadic rational, and nothing else is meant by an integer that it denotes.

* `Binary64.value`: the rational `± m · 2 ^ q` of a finite double.
* **`Binary64.integer?_eq_some_iff`**: a double denotes the integer that equals its value.
* **`Binary64.two_pow_le_natAbs`**: rounding an integer to a double keeps it from falling below a power of two,
  from `2 ^ 52` on.
-/

namespace EntityQuery.Binary64

/-- The size of a finite double. -/
def magnitude (x : Binary64) : ℚ := x.significand * 2 ^ x.exponent

/-- The dyadic rational that a finite double denotes. -/
def value (x : Binary64) : ℚ := if x.negative then -x.magnitude else x.magnitude

theorem magnitude_nonneg (x : Binary64) : 0 ≤ x.magnitude :=
  mul_nonneg (Nat.cast_nonneg _) (zpow_nonneg zero_le_two _)

theorem abs_value (x : Binary64) : |x.value| = x.magnitude := by
  unfold value
  split
  · rw [abs_neg, abs_of_nonneg x.magnitude_nonneg]
  · rw [abs_of_nonneg x.magnitude_nonneg]

/-! ## Integers -/

theorem scaled?_eq_some_iff {m k : Nat} {q : Int} : scaled? m q = some k ↔ (m : ℚ) * 2 ^ q = k := by
  rcases le_or_gt 0 q with hq | hq
  · obtain ⟨e, rfl⟩ := Int.eq_ofNat_of_zero_le hq
    simp only [scaled?, hq, if_true, Int.toNat_natCast, Option.some.injEq, Nat.pow_eq, zpow_natCast]
    exact_mod_cast Iff.rfl
  · obtain ⟨e, rfl⟩ : ∃ e : Nat, q = -e := ⟨(-q).toNat, by omega⟩
    have hpos : 0 < 2 ^ e := Nat.two_pow_pos e
    have hvalue : (m : ℚ) * 2 ^ (-(e : Int)) = k ↔ m = k * 2 ^ e := by
      rw [zpow_neg, zpow_natCast, mul_inv_eq_iff_eq_mul₀ (by positivity)]
      exact_mod_cast Iff.rfl
    rw [hvalue]
    simp only [scaled?, hq.not_ge, if_false, neg_neg, Int.toNat_natCast, Nat.pow_eq]
    split
    · next hm =>
      rw [Option.some.injEq, Nat.div_eq_iff_eq_mul_left hpos (Nat.dvd_of_mod_eq_zero hm)]
    · next hm =>
      refine iff_of_false (fun h => nomatch h) ?_
      rintro rfl
      exact hm (Nat.mul_mod_left _ _)

/-- **A double denotes the integer that equals its value.** -/
theorem integer?_eq_some_iff {x : Binary64} {n : Int} :
    x.integer? = some n ↔ x.isFinite = true ∧ x.value = n := by
  cases hx : x.isFinite with
  | false => simp [integer?, hx]
  | true =>
    have hsize := x.magnitude_nonneg
    simp only [integer?, hx, if_true, Option.map_eq_some_iff, scaled?_eq_some_iff, true_and, value]
    change (∃ k : Nat, x.magnitude = k ∧ _) ↔ _
    constructor
    · rintro ⟨k, hk, rfl⟩
      cases x.negative <;> simp [hk]
    · intro hn
      -- The sign of the double is that of the integer, unless both are zero.
      refine ⟨n.natAbs, ?_, ?_⟩
      · rw [Nat.cast_natAbs, Int.cast_abs, ← hn]
        exact x.abs_value.symm
      · cases hs : x.negative with
        | false =>
          have : (0 : ℚ) ≤ n := by simpa [hs, ← hn] using hsize
          have : 0 ≤ n := by exact_mod_cast this
          simp only [Bool.false_eq_true, if_false]
          omega
        | true =>
          have : (n : ℚ) ≤ 0 := by simpa [hs, ← hn] using hsize
          have : n ≤ 0 := by exact_mod_cast this
          simp only [if_true]
          omega

/-- The zero with a sign is the integer zero. -/
example : (⟨0x8000000000000000⟩ : Binary64).integer? = some 0 := by decide +kernel

/-! ## Rounding integers -/

theorem le_roundDiv (num den : Nat) : num / den ≤ roundDiv num den := by
  simp only [roundDiv]
  split_ifs <;> omega

theorem log2Ratio_one {num : Nat} (h : num ≠ 0) : log2Ratio num 1 = num.log2 := by
  have hone : Nat.log2 1 = 0 := by decide
  simp [log2Ratio, hone, Nat.log2_self_le h]

theorem biased_ofPayload (neg : Bool) (payload : Nat) :
    (ofPayload neg payload).biased = min payload (2047 * fractionCount) / fractionCount := by
  cases neg <;> simp only [ofPayload, biased, fractionCount, signBit, UInt64.toNat_ofNat', Bool.false_eq_true,
    if_false, if_true] <;> omega

/-- The exponent of the double nearest to an integer is no smaller than that of the integer. -/
theorem le_biased_ofRatio {neg : Bool} {num : Nat} (h : 2 ^ 52 ≤ num) :
    min (num.log2 + 1023) 2047 ≤ (ofRatio neg num 1).biased := by
  have hne : num ≠ 0 := by omega
  have hlog : 52 ≤ num.log2 := (Nat.le_log2 hne).mpr h
  obtain ⟨e, he⟩ : ∃ e, num.log2 = e + 52 := ⟨num.log2 - 52, by omega⟩
  have hexponent : max (log2Ratio num 1 - 52) (-1074) = (e : Int) := by
    rw [log2Ratio_one hne, he]
    omega
  have hsignificand : fractionCount ≤ roundDiv num (2 ^ e) := by
    refine le_trans ?_ (le_roundDiv _ _)
    rw [Nat.le_div_iff_mul_le (Nat.two_pow_pos e)]
    calc fractionCount * 2 ^ e = 2 ^ num.log2 := by rw [he, Nat.pow_add, Nat.mul_comm, fractionCount]
      _ ≤ num := Nat.log2_self_le hne
  simp only [ofRatio, hne, if_false, hexponent, biased_ofPayload, Int.natCast_nonneg, if_true, Int.toNat_natCast,
    Nat.one_mul, Nat.pow_eq, fractionCount] at hsignificand ⊢
  omega

/-- A finite double is no smaller than the power of two that its exponent bits stand for. -/
theorem two_pow_le_magnitude {x : Binary64} (hx : x.isFinite = true) {e : Nat} (he : 52 ≤ e)
    (hbiased : min (e + 1023) 2047 ≤ x.biased) : (2 : ℚ) ^ e ≤ x.magnitude := by
  have hlt : x.biased < 2048 := Nat.mod_lt _ (by decide)
  simp only [isFinite, ne_eq, decide_not, Bool.not_eq_true', decide_eq_false_iff_not] at hx
  have hpos : x.biased ≠ 0 := by omega
  have hexponent : (e : Int) - 52 ≤ x.exponent := by
    simp only [exponent, hpos, if_false]
    omega
  have hsignificand : (2 : ℚ) ^ 52 ≤ x.significand := by
    have : 2 ^ 52 ≤ x.significand := by
      simp only [significand, hpos, if_false, fractionCount]
      omega
    exact_mod_cast this
  calc (2 : ℚ) ^ e = 2 ^ 52 * 2 ^ ((e : Int) - 52) := by
        rw [← zpow_natCast, ← zpow_natCast, ← zpow_add₀ two_ne_zero]
        congr 1
        omega
    _ ≤ x.significand * 2 ^ x.exponent :=
        mul_le_mul hsignificand (zpow_le_zpow_right₀ one_le_two hexponent) (zpow_nonneg zero_le_two _)
          (Nat.cast_nonneg _)

/-- **Rounding an integer to a double keeps it from falling below a power of two**, from `2 ^ 52` on. -/
theorem two_pow_le_natAbs {e : Nat} (he : 52 ≤ e) {n k : Int} (hn : 2 ^ e ≤ n.natAbs)
    (hk : (ofInt n).integer? = some k) : 2 ^ e ≤ k.natAbs := by
  have hlog : e ≤ n.natAbs.log2 := (Nat.le_log2 (by have := Nat.two_pow_pos e; omega)).mpr hn
  have hbiased : min (n.natAbs.log2 + 1023) 2047 ≤ (ofInt n).biased :=
    le_biased_ofRatio ((Nat.pow_le_pow_right Nat.two_pos he).trans hn)
  obtain ⟨hfinite, hvalue⟩ := integer?_eq_some_iff.mp hk
  have hle := two_pow_le_magnitude hfinite he (by omega)
  have hsize : (k.natAbs : ℚ) = (ofInt n).magnitude := by
    rw [Nat.cast_natAbs, Int.cast_abs, ← hvalue, abs_value]
  rw [← hsize] at hle
  exact_mod_cast hle

end EntityQuery.Binary64
