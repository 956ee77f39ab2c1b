import EntityQuery.Failure.Masking
import EntityQuery.Json.Literal

/-!
# Options and other small decodings

The options of a request, and how they, locations, categories and flags are read from a JSON text.
A record is written as an object, or as the list of its fields in order.

* `Options`: how a request is validated and how its failures are shown.
* `Options.ofLiteral?`, `Location.ofLiteral?`, `Category.ofLiteral?`, `DebugFlags.ofLiteral?`.
-/

namespace EntityQuery

/-- How a request is validated and how its failures are shown. -/
structure Options where
  flags : DebugFlags := .none
  /-- The mask for unsafe messages, if the request has one of its own. -/
  mask? : Option String := none
  /-- Execute without validating first. -/
  skipValidation : Bool := false
  deriving DecidableEq, Repr

/-- How the failures of a request are shown. -/
def Options.masking (o : Options) : Masking := ⟨o.flags, o.mask?⟩

/-- Options as they are written. -/
def Options.toJson (o : Options) : Json :=
  .object [("debug", .nat o.flags.bits.toNat), ("internal_error_message", .ofOption o.mask?),
    ("skip_validation", .bool o.skipValidation)]

namespace Literal

/-- The literals of the fields of a record, each given at most once; `keys` names the fields. -/
def fieldsOf? (keys : List String) :
    List (Option String × Literal) → Option (List (String × Literal))
  | [] => some []
  | (key, literal) :: rest => do
    let key ← key
    let found ← fieldsOf? keys rest
    if keys.contains key then
      if Entries.has found key then none else return (key, literal) :: found
    else return found

/-- The fields of a record that is written as an object or as a list of at least `required` and at
most all of its fields in order. -/
def record? (keys : List String) (required : Nat) : Literal → Option (List (String × Literal))
  | .object fields => fieldsOf? keys fields
  | .array items =>
    if required ≤ items.length ∧ items.length ≤ keys.length then some (keys.zip items) else none
  | _ => none

/-- A text. -/
def string? : Literal → Option String
  | .string s => s
  | _ => none

/-- A text or null. -/
def optionalString? : Literal → Option (Option String)
  | .null => some none
  | .string s => s.map some
  | _ => none

/-- A truth value. -/
def bool? : Literal → Option Bool
  | .bool b => some b
  | _ => none

/-- An integer of eight bits. -/
def byte? : Literal → Option UInt8
  | .number (some (.int n)) => if 0 ≤ n ∧ n < 256 then some (UInt8.ofNat n.toNat) else none
  | _ => none

/-- Decodes a field that may be missing. -/
def field? {α : Type} (fields : List (String × Literal)) (key : String) (absent : α)
    (decode : Literal → Option α) : Option α :=
  match Entries.find? fields key with
  | none => some absent
  | some literal => decode literal

end Literal

/-- Decodes flags. -/
def DebugFlags.ofLiteral? (literal : Literal) : Option DebugFlags :=
  literal.byte?.map DebugFlags.mk

/-- Decodes options. -/
def Options.ofLiteral? (literal : Literal) : Option Options := do
  let fields ← literal.record? ["debug", "internal_error_message", "skip_validation"] 0
  let flags ← Literal.field? fields "debug" DebugFlags.none DebugFlags.ofLiteral?
  let mask? ← Literal.field? fields "internal_error_message" none Literal.optionalString?
  let skipValidation ← Literal.field? fields "skip_validation" false Literal.bool?
  return ⟨flags, mask?, skipValidation⟩

/-- Decodes a location. -/
def Location.ofLiteral? (literal : Literal) : Option Location := do
  let fields ← literal.record? ["query", "field", "meta"] 2
  let query ← (← Entries.find? fields "query").string?
  let field ← Literal.field? fields "field" none Literal.optionalString?
  let info ← Literal.field? fields "meta" [] fun literal =>
    match literal.value? (Literal.maxDepth - 1) with
    | some (.object info) => some info
    | _ => none
  return ⟨query, field, info⟩

/-- The category of a word. -/
def Category.ofText? (word : String) : Option Category :=
  if word = "sage" then some .engine
  else if word = "internal" then some .internal
  else if word = "user" then some .user
  else none

/-- Decodes a category: a word, or an object with null under the word. -/
def Category.ofLiteral? : Literal → Option Category
  | .string (some word) => Category.ofText? word
  | .object [(some word, .null)] => Category.ofText? word
  | _ => none

end EntityQuery
