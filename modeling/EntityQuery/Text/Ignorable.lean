import EntityQuery.Text.Ranges

/-!
# Ignorable characters

The characters that the `Default_Ignorable_Code_Point` property holds of: where they are not supported,
nothing is shown for them. Fillers and selectors are among them.

* `isIgnorable`: the property, as its ranges.
* **`isIgnorable_iff`**: it holds of the characters in the ranges.
-/

namespace EntityQuery.Text

/-- The ranges of ignorable characters. -/
def ignorableRanges : Ranges :=
  [(0xAD, 0xAD), (0x34F, 0x34F), (0x61C, 0x61C), (0x115F, 0x1160), (0x17B4, 0x17B5),
    (0x180B, 0x180F), (0x200B, 0x200F), (0x202A, 0x202E), (0x2060, 0x206F), (0x3164, 0x3164),
    (0xFE00, 0xFE0F), (0xFEFF, 0xFEFF), (0xFFA0, 0xFFA0), (0xFFF0, 0xFFF8), (0x1BCA0, 0x1BCA3),
    (0x1D173, 0x1D17A), (0xE0000, 0xE0FFF)]

/-- Whether nothing is shown for a character that is not supported. -/
def isIgnorable (c : Char) : Bool := ignorableRanges.has c.toNat

theorem ascend_ignorableRanges : Ranges.ascend 0 ignorableRanges = true := by decide +kernel

theorem isIgnorable_iff (c : Char) :
    isIgnorable c = true ↔ ∃ r ∈ ignorableRanges, r.1 ≤ c.toNat ∧ c.toNat ≤ r.2 :=
  Ranges.has_iff ascend_ignorableRanges c.toNat

end EntityQuery.Text
