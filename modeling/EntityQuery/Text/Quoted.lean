import EntityQuery.Text.Ignorable
import EntityQuery.Text.Joining
import EntityQuery.Text.Unprintable

/-!
# Quoted texts

How a text is written inside a summary: between quotes, with escapes for what would not be seen.

* `isHidden`: characters that show no mark of their own.
* `quote`: a text between quotes.
* **`escape_eq_self`**: a visible character other than the quote and the backslash is written as it
  is.
-/

namespace EntityQuery.Text

/-- Whether a character shows no mark of its own. -/
def isHidden (c : Char) : Bool := isJoining c || isIgnorable c || isUnprintable c

/-- How a character is written between quotes. -/
def escape (c : Char) : List Char :=
  if c = '"' then ['\\', '"']
  else if c = '\\' then ['\\', '\\']
  else if c = '\n' then ['\\', 'n']
  else if c = '\r' then ['\\', 'r']
  else if c = '\t' then ['\\', 't']
  else if c = '\x00' then ['\\', '0']
  else if isHidden c then
    ['\\', 'u', '\x7b'] ++ Nat.toDigits 16 c.toNat ++ ['\x7d']
  else [c]

/-- A text between quotes. -/
def quote (s : String) : String :=
  String.ofList (['"'] ++ s.toList.flatMap escape ++ ['"'])

theorem escape_eq_self {c : Char} (hidden : isHidden c = false) (quoteMark : c ≠ '"')
    (backslash : c ≠ '\\') : escape c = [c] := by
  have control : ∀ d : Char, isHidden d = true → c ≠ d := by
    intro d hd h
    rw [← h, hidden] at hd
    exact Bool.noConfusion hd
  simp [escape, hidden, quoteMark, backslash, control '\n' (by decide), control '\r' (by decide),
    control '\t' (by decide), control '\x00' (by decide)]

end EntityQuery.Text
