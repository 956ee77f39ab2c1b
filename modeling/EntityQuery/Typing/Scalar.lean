import EntityQuery.Json.Literal
import EntityQuery.Text.Blank
import EntityQuery.Typing.Callback

/-!
# Scalars

Leaf types, with the coercion of values on the way out and of arguments on the way in.

* `Standard.integer?`: the integer of 64 bits that a value is read as, strictly or leniently.
* `Standard.serialize`, `Standard.parse`: the coercions of the standard scalars.
* `Scalar`: a standard scalar or one of the application, with callbacks for its coercions.
* `Scalar.serialize`, `Scalar.parse`: the coercions of any scalar.
-/

namespace EntityQuery

/-! ## Integers of 64 bits -/

/-- An integer as one of 64 bits, if it has no more. -/
def int64? (n : Int) : Option Int64 :=
  if -9223372036854775808 ≤ n ∧ n < 9223372036854775808 then some (Int64.ofInt n) else none

theorem int64?_eq_some_iff {n : Int} {i : Int64} : int64? n = some i ↔ i.toInt = n := by
  have hlow := i.le_toInt
  have hhigh := i.toInt_lt
  unfold int64?
  constructor
  · intro h
    split at h
    · next hn =>
      cases h
      exact Int64.toInt_ofInt_of_le (by omega) (by omega)
    · cases h
  · rintro rfl
    rw [if_pos (by omega), Int64.ofInt_toInt]

/-- The integer of 64 bits that a number is, if it is one. -/
def Number.int64? : Number → Option Int64
  | .int n => EntityQuery.int64? n
  | .double _ => none

/-! ## Numbers in texts -/

/-- A sign in front of a text, and what follows it. -/
def splitSign : List Char → Bool × List Char
  | '-' :: rest => (true, rest)
  | '+' :: rest => (false, rest)
  | cs => (false, cs)

/-- The integer of 64 bits that a text denotes: digits with an optional sign. -/
def readInteger? (cs : List Char) : Option Int64 :=
  let (neg, ds) := splitSign cs
  if ds.isEmpty || !ds.all Char.isDigit then none
  else int64? (if neg then -(Literal.digitsValue ds : Int) else Literal.digitsValue ds)

/-- The finite double nearest to the decimal that a text denotes: digits around an optional point,
with an optional sign and an optional exponent. -/
def readDouble? (cs : List Char) : Option Binary64 := do
  let (neg, cs) := splitSign cs
  let (whole, cs) := Literal.splitDigits cs
  let (fraction, cs) :=
    match cs with
    | '.' :: rest => Literal.splitDigits rest
    | rest => ([], rest)
  if whole.isEmpty && fraction.isEmpty then none
  else do
    let (exponent, rest) ← Literal.readExponent cs
    let x := Binary64.ofDecimal neg (Literal.digitsValue (whole ++ fraction))
      (exponent.getD 0 - fraction.length)
    if rest.isEmpty && x.isFinite then some x else none

/-! ## Standard scalars -/

namespace Standard

/-- What a standard scalar says about itself. -/
def description : Standard → String
  | string =>
    "The `String` scalar type represents textual data, represented as UTF-8 character sequences."
  | int =>
    "The `Int` scalar type represents non-fractional signed whole numeric values between -(2^31) " ++
      "and 2^31 - 1."
  | float =>
    "The `Float` scalar type represents signed double-precision fractional values as specified by " ++
      "IEEE 754."
  | boolean => "The `Boolean` scalar type represents `true` or `false`."
  | id =>
    "The `ID` scalar type represents a unique identifier. It appears in a JSON response as a String."

/-- Whether an integer has at most 32 bits. -/
def isInt32 (n : Int) : Bool := -2147483648 ≤ n && n < 2147483648

/-- The integer of 64 bits that a value is read as. A lenient reading also takes truth values, texts of
digits, and numbers of another kind by way of their doubles: a double without fractional part goes to the
nearest integer of 64 bits. -/
def integer? (lenient : Bool) : Json → Option Int64
  | .number n =>
    match n.int64? with
    | some i => some i
    | none => if lenient then n.toDouble.integer?.map Int64.ofIntClamp else none
  | .bool b => if lenient then some (if b then 1 else 0) else none
  | .string s => if lenient then readInteger? (Text.trim s.toList) else none
  | _ => none

/-- The integer of 32 bits that a value is read as. -/
def coerceInt? (lenient : Bool) (v : Json) : Option Json :=
  (integer? lenient v).bind fun i => if isInt32 i.toInt then some (.int i.toInt) else none

/-- The finite double that a resolved value denotes. -/
def denotedDouble? : Json → Option Binary64
  | .number n => if n.toDouble.isFinite then some n.toDouble else none
  | .bool b => some (.ofInt (if b then 1 else 0))
  | .string s => readDouble? (Text.trim s.toList)
  | _ => none

/-- The text of an identifier: a text or an integer. -/
def identifier? : Json → Option String
  | .string s => some s
  | .number (.int n) => some (toString n)
  | _ => none

/-- The coercion of a resolved value. -/
def serialize? : Standard → Json → Option Json
  | string, .string s => some (.string s)
  | string, .number n => some (.string n.text)
  | string, .bool b => some (.string (if b then "1" else ""))
  | string, .null => some (.string "")
  | string, _ => none
  | int, v => coerceInt? true v
  | float, v => (denotedDouble? v).map fun x => .number (.double x)
  | boolean, v => some (.bool v.isTrue)
  | id, v => (identifier? v).map .string

/-- The coercion of a supplied value. -/
def parse? : Standard → Json → Option Json
  | string, .string s => some (.string s)
  | int, v => coerceInt? false v
  | float, .number n => if n.toDouble.isFinite then some (.number n) else none
  | boolean, .bool b => some (.bool b)
  | id, v => (identifier? v).map .string
  | _, _ => none

/-- What is said of a resolved value that a scalar cannot represent. -/
def serializeComplaint : Standard → String
  | string => "String cannot represent value: "
  | int => "Int cannot represent non 32-bit signed integer value: "
  | float => "Float cannot represent non numeric value: "
  | boolean => "Boolean cannot represent value: "
  | id => "ID cannot represent value: "

/-- What is said of a supplied value that a scalar cannot represent. -/
def parseComplaint : Standard → String
  | string => "String cannot represent a non string value: "
  | int => "Int cannot represent non-integer value: "
  | float => "Float cannot represent non numeric value: "
  | boolean => "Boolean cannot represent a non boolean value: "
  | id => "ID cannot represent value: "

/-- Coerces a resolved value; what cannot be represented is a failure of the application. -/
def serialize (s : Standard) (v : Json) : Except Failure Json :=
  match s.serialize? v with
  | some w => .ok w
  | none => .error (.invariant (s.serializeComplaint ++ v.render))

/-- Coerces a supplied value; what cannot be represented is a failure of the client. -/
def parse (s : Standard) (v : Json) : Except Failure Json :=
  match s.parse? v with
  | some w => .ok w
  | none => .error (.engine (s.parseComplaint ++ v.render))

end Standard

/-! ## Scalars of the application -/

/-- How a scalar coerces values. -/
inductive Coercion (σ : Type)
  /-- As a standard scalar does. -/
  | standard (s : Standard)
  /-- By callbacks; without one for supplied values, those pass unchanged. -/
  | custom (serialize : Json → Callback σ Json) (parse? : Option (Json → Callback σ Json))

/-- A leaf type. -/
structure Scalar (σ : Type) where
  name : String
  description : Option String := none
  coercion : Coercion σ

namespace Scalar

variable {σ : Type}

/-- A copy of a standard scalar. -/
def ofStandard (s : Standard) : Scalar σ := ⟨s.name, some s.description, .standard s⟩

/-- A scalar with a callback for resolved values. -/
def custom (name : String) (serialize : Json → Callback σ Json) : Scalar σ :=
  ⟨name, none, .custom serialize none⟩

/-- Sets the callback for supplied values; a standard scalar keeps its own coercion. -/
def withParse (s : Scalar σ) (parse : Json → Callback σ Json) : Scalar σ :=
  match s.coercion with
  | .standard _ => s
  | .custom serialize _ => { s with coercion := .custom serialize (some parse) }

/-- Sets the description. -/
def withDescription (s : Scalar σ) (description : String) : Scalar σ :=
  { s with description := some description }

/-- Whether a scalar coerces values as a standard one does. -/
def isStandard (s : Scalar σ) : Bool :=
  match s.coercion with
  | .standard _ => true
  | .custom .. => false

/-- Fails with the failure of a result. -/
def lift {α : Type} : Except Failure α → Callback σ α
  | .ok a => pure a
  | .error f => throw (.failure f)

/-- Coerces a resolved value. -/
def serialize (s : Scalar σ) (v : Json) : Callback σ Json :=
  match s.coercion with
  | .standard k => lift (k.serialize v)
  | .custom serialize _ => serialize v

/-- Coerces a supplied value. -/
def parse (s : Scalar σ) (v : Json) : Callback σ Json :=
  match s.coercion with
  | .standard k => lift (k.parse v)
  | .custom _ (some parse) => parse v
  | .custom _ none => pure v

end Scalar

end EntityQuery
