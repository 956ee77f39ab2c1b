/-!
# Names

The grammar of the names of entities, artifacts and arguments: a letter or an underscore, then
letters, digits and underscores, all of them ASCII.

* `Name.IsName`: the grammar, as a proposition on texts.
* `Name.check`: accepts a name or says what is wrong with it.
* **`Name.check_eq_ok_iff`**: what is accepted is exactly the grammar.
-/

namespace EntityQuery

/-- What is wrong with a name. -/
inductive NameFault
  | empty
  | malformed (name : String)
  deriving DecidableEq, Repr

/-- The wording of a fault. -/
def NameFault.message : NameFault → String
  | empty => "Name must not be empty"
  | malformed name => "Names must match /^[_a-zA-Z][_a-zA-Z0-9]*$/ but \"" ++ name ++ "\" does not"

namespace Name

/-- A character that a name may start with. -/
def isStart (c : Char) : Bool := c = '_' || c.isAlpha

/-- A character that a name may go on with. -/
def isPart (c : Char) : Bool := isStart c || c.isDigit

/-- Whether a text follows the grammar. -/
def isName (name : String) : Bool :=
  match name.toList with
  | [] => false
  | c :: rest => isStart c && rest.all isPart

/-- The grammar of names. -/
def IsName (name : String) : Prop :=
  ∃ c rest, name.toList = c :: rest ∧ isStart c = true ∧ ∀ d ∈ rest, isPart d = true

/-- Accepts a name or says what is wrong with it. -/
def check (name : String) : Except NameFault Unit :=
  if name = "" then .error .empty
  else if isName name then .ok ()
  else .error (.malformed name)

theorem isName_iff (name : String) : isName name = true ↔ IsName name := by
  unfold isName IsName
  split
  · next h => simp [h]
  · next c rest h =>
    rw [Bool.and_eq_true, List.all_eq_true]
    constructor
    · exact fun ⟨hc, hr⟩ => ⟨c, rest, h, hc, hr⟩
    · rintro ⟨c', rest', e, hc, hr⟩
      obtain ⟨rfl, rfl⟩ := List.cons.inj (h.symm.trans e)
      exact ⟨hc, hr⟩

theorem check_eq_ok_iff (name : String) : check name = .ok () ↔ IsName name := by
  rw [← isName_iff]
  unfold check
  by_cases he : name = ""
  · subst he
    simp [isName]
  · by_cases hn : isName name = true <;> simp [he, hn]

end Name

end EntityQuery
