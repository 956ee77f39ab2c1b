import EntityQuery.Text.Ranges

/-!
# Blank characters

The characters that the `White_Space` property holds of, and trimming by them.

* `isBlank`: the property, as its ten ranges.
* `trim`: drops blanks at both ends.
* **`isBlank_of_isWhitespace`**: the plain-text blanks of the core library are among them.
-/

namespace EntityQuery.Text

/-- The ranges of blank characters. -/
def blankRanges : Ranges :=
  [(0x09, 0x0D), (0x20, 0x20), (0x85, 0x85), (0xA0, 0xA0), (0x1680, 0x1680), (0x2000, 0x200A),
    (0x2028, 0x2029), (0x202F, 0x202F), (0x205F, 0x205F), (0x3000, 0x3000)]

/-- Whether a character is blank. -/
def isBlank (c : Char) : Bool := blankRanges.has c.toNat

/-- Drops the blanks at both ends. -/
def trim (cs : List Char) : List Char :=
  ((cs.dropWhile isBlank).reverse.dropWhile isBlank).reverse

theorem isBlank_of_isWhitespace {c : Char} (h : c.isWhitespace = true) : isBlank c = true := by
  simp only [Char.isWhitespace, Bool.or_eq_true, decide_eq_true_eq] at h
  rcases h with ((h | h) | h) | h <;> subst h <;> decide

end EntityQuery.Text
