/-!
# Ranges of characters

A class of characters, as the ranges of its code points in ascending order.

* `Ranges.has`: whether a code point is in one of the ranges; the search ends at the first range that
  begins after it.
* `Ranges.ascend`: whether every range ends before the next one begins.
* **`Ranges.has_iff`**: in ascending ranges the search misses nothing.
-/

namespace EntityQuery.Text

/-- First and last code point of each range. -/
abbrev Ranges := List (Nat × Nat)

namespace Ranges

/-- Whether a code point is in one of the ranges. -/
def has : Ranges → Nat → Bool
  | [], _ => false
  | (lo, hi) :: rest, n => if n < lo then false else n ≤ hi || has rest n

/-- Whether the ranges ascend, the first one from a given code point on. -/
def ascend : Nat → Ranges → Bool
  | _, [] => true
  | low, (lo, hi) :: rest => low ≤ lo && lo ≤ hi && ascend (hi + 1) rest

theorem le_of_ascend {low : Nat} {rs : Ranges} (h : ascend low rs = true) :
    ∀ r ∈ rs, low ≤ r.1 := by
  induction rs generalizing low with
  | nil => simp
  | cons r rest ih =>
    simp only [ascend, Bool.and_eq_true, decide_eq_true_eq] at h
    have others := ih h.2
    intro s hs
    rcases List.mem_cons.mp hs with rfl | hs
    · exact h.1.1
    · have := others s hs
      omega

theorem has_iff {low : Nat} {rs : Ranges} (h : ascend low rs = true) (n : Nat) :
    has rs n = true ↔ ∃ r ∈ rs, r.1 ≤ n ∧ n ≤ r.2 := by
  induction rs generalizing low with
  | nil => simp [has]
  | cons r rest ih =>
    simp only [ascend, Bool.and_eq_true, decide_eq_true_eq] at h
    have later := le_of_ascend h.2
    simp only [has, List.mem_cons, exists_eq_or_imp]
    split
    · constructor
      · simp
      · rintro (inside | ⟨s, hs, inside⟩)
        · omega
        · have := later s hs
          omega
    · rw [Bool.or_eq_true, ih h.2, decide_eq_true_eq]
      constructor
      · rintro (inside | inside)
        · exact Or.inl ⟨by omega, inside⟩
        · exact Or.inr inside
      · rintro (inside | inside)
        · exact Or.inl inside.2
        · exact Or.inr inside

end Ranges

end EntityQuery.Text
