import EntityQuery.Schema.Loading

/-!
# Coercing values

Values on their way out are completed by the type of their field, values on their way in by the type of
their argument.

* `Ty.strip`: the non-null check.
* `Ty.serialize`: non-null check, lists item by item, scalars; entities pass values unchanged.
* `Ty.parse`: the same for supplied values; a single item counts as a list of one.
-/

namespace EntityQuery

variable {σ : Type}

namespace Schema

/-- Completes a resolved value by a definition; null stays null. -/
def serializeNamed (schema : Schema σ) (t : NamedType) (v : Json) : Lookup σ Json :=
  if v.isNull then return .null
  else
    match schema.definition t with
    | .scalar s => Lookup.call (s.serialize v)
    | .entity _ => return v

/-- Reads a supplied value by a definition; null stays null. -/
def parseNamed (schema : Schema σ) (t : NamedType) (v : Json) : Lookup σ Json :=
  if v.isNull then return .null
  else
    match schema.definition t with
    | .scalar s => Lookup.call (s.parse v)
    | .entity e => Lookup.fail (.engine ("Entity " ++ e.name ++ " cannot be used as an input type"))

end Schema

namespace Ty

/-- The type inside a non-null wrapper, or the type itself. Inside a non-null wrapper null is refused, in
words that depend on how the wrapper is written. -/
def strip (schema : Schema σ) (find : Finder σ) (refusal : String → String) (v : Json) :
    Ty → Lookup σ BareTy
  | .base t => return .base t
  | .listOf id inner => return .listOf id inner
  | .nonNull id inner =>
    if v.isNull then do
      Lookup.fail (.engine (refusal (← schema.textOf (.nonNull id inner))))
    else inner.resolveBare schema find

/-- How null is refused on its way out. -/
def nullReturned (text : String) : String := "Cannot return null for non-nullable type " ++ text

/-- How null is refused on its way in. -/
def nullSupplied (text : String) : String :=
  "Expected non-nullable type " ++ text ++ " not to be null"

mutual

/-- Completes a resolved value. -/
def serialize (schema : Schema σ) (find : Finder σ) : Ty → Json → Lookup σ Json
  | t, .array items => do
    match ← t.strip schema find nullReturned (.array items) with
    | .base n => schema.serializeNamed n (.array items)
    | .listOf _ inner => do
      let item ← inner.resolve schema find
      return .array (← item.serializeItems schema find items)
  | t, v => do
    match ← t.strip schema find nullReturned v with
    | .base n => schema.serializeNamed n v
    | .listOf id inner =>
      if v.isNull then return .null
      else
        let text ← schema.textOf (.listOf id inner)
        Lookup.fail (.engine ("Expected a list for type " ++ text ++ " but got: " ++ v.render))

/-- Completes resolved values, one by one. -/
def serializeItems (schema : Schema σ) (find : Finder σ) :
    Ty → List Json → Lookup σ (List Json)
  | _, [] => return []
  | item, v :: rest => do
    let first ← item.serialize schema find v
    return first :: (← item.serializeItems schema find rest)

end

/-- Reads a supplied value that is no list; `fuel` bounds the lists that it is wrapped into. -/
def parseSingle (schema : Schema σ) (find : Finder σ) (v : Json) (fuel : Nat) (t : Ty) :
    Lookup σ Json := do
  match ← t.strip schema find nullSupplied v with
  | .base n => schema.parseNamed n v
  | .listOf _ inner =>
    if v.isNull then return .null
    else
      match fuel with
      | 0 => throw .exhausted
      | fuel + 1 => do
        let item ← inner.resolve schema find
        return .array [← item.parseSingle schema find v fuel]

mutual

/-- Reads a supplied value. -/
def parse (schema : Schema σ) (find : Finder σ) : Ty → Json → Lookup σ Json
  | t, .array items => do
    match ← t.strip schema find nullSupplied (.array items) with
    | .base n => schema.parseNamed n (.array items)
    | .listOf _ inner => do
      let item ← inner.resolve schema find
      return .array (← item.parseItems schema find items)
  | t, v => t.parseSingle schema find v schema.limit

/-- Reads supplied values, one by one. -/
def parseItems (schema : Schema σ) (find : Finder σ) : Ty → List Json → Lookup σ (List Json)
  | _, [] => return []
  | item, v :: rest => do
    let first ← item.parse schema find v
    return first :: (← item.parseItems schema find rest)

end

end Ty

end EntityQuery
