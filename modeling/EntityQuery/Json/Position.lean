import EntityQuery.Json.Literal

/-!
# Positions

A fault that is met in a JSON text tells its position at the end of its message, as in
`... at line 3 column 7`. Where such a message is passed on, its position is told anew; line 0 stands
for no position.

* `Position.read?`, `Position.text`: how a position is read and written.
* `Position.splitEnd?`: a message without the position at its end, and the position.
* `Position.restate`: a message whose position is told anew.
* **`Position.splitEnd?_eq_some`**: what is split off is the end of the message.
-/

namespace EntityQuery

/-- A place in a text: its line and its column. -/
structure Position where
  line : Nat
  column : Nat
  deriving DecidableEq, Repr

namespace Position

/-- How a position is written at the end of a message. -/
def text (p : Position) : String :=
  " at line " ++ toString p.line ++ " column " ++ toString p.column

/-- Reads a count of 64 bits. -/
def readCount? (digits : List Char) : Option Nat :=
  let n := Literal.digitsValue digits
  if !digits.isEmpty && n < 18446744073709551616 then some n else none

/-- Reads a text that is nothing but a position. -/
def read? (cs : List Char) : Option Position := do
  let (line, cs) := Literal.splitDigits (← List.isPrefixOf? " at line ".toList cs)
  let (column, cs) := Literal.splitDigits (← List.isPrefixOf? " column ".toList cs)
  if cs.isEmpty then return ⟨← readCount? line, ← readCount? column⟩ else none

/-- A message without the position at its end, and the position. -/
def splitEnd? : List Char → Option (List Char × Position)
  | [] => none
  | c :: cs =>
    match read? (c :: cs) with
    | some p => some ([], p)
    | none => (splitEnd? cs).map fun (message, p) => (c :: message, p)

/-- A message whose position is told anew. -/
def restate (message : String) : String :=
  match splitEnd? message.toList with
  | some (words, p) => String.ofList words ++ if p.line = 0 then "" else p.text
  | none => message

theorem splitEnd?_eq_some {cs words : List Char} {p : Position}
    (h : splitEnd? cs = some (words, p)) : ∃ tail, cs = words ++ tail ∧ read? tail = some p := by
  induction cs generalizing words with
  | nil => simp [splitEnd?] at h
  | cons c cs ih =>
    simp only [splitEnd?] at h
    split at h
    · rename_i q hq
      simp only [Option.some.injEq, Prod.mk.injEq] at h
      obtain ⟨rfl, rfl⟩ := h
      exact ⟨c :: cs, rfl, hq⟩
    · obtain ⟨⟨rest, q⟩, hrest, heq⟩ := Option.map_eq_some_iff.mp h
      simp only [Prod.mk.injEq] at heq
      obtain ⟨rfl, rfl⟩ := heq
      obtain ⟨tail, rfl, htail⟩ := ih hrest
      exact ⟨tail, rfl, htail⟩

end Position

end EntityQuery
