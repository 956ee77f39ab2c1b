import EntityQuery.Json.Literal
import EntityQuery.Request.Query

/-!
# Decoding requests

How a query and a document are read from a JSON text. Every field may be left out, may be spelled in
full or in short, and may be given once; unknown fields are passed over. A query may also be written
as a list of its fields in order.

* `Query.Field.ofKey?`: the field that a key names, in either spelling.
* `Query.ofLiteral?`, `Document.ofLiteral?`: decode a JSON text.
* **`Query.readFields?_of_given`**: a field that is given twice is refused.
-/

namespace EntityQuery

namespace Query

/-- The fields of a query. -/
inductive Field
  | typeName
  | attributes
  | act
  | arguments
  | links
  deriving DecidableEq, Repr

/-- The field that a key names, in either spelling. -/
def Field.ofKey? (key : String) : Option Field :=
  if key = "type" ∨ key = "typ" then some .typeName
  else if key = "attributes" ∨ key = "atr" then some .attributes
  else if key = "act" then some .act
  else if key = "arguments" ∨ key = "arg" then some .arguments
  else if key = "links" ∨ key = "lnk" then some .links
  else none

/-- The order of the fields in a query that is written as a list. -/
def Field.all : List Field := [.typeName, .attributes, .act, .arguments, .links]

/-- The fields of a query that have been read so far. -/
structure Draft where
  typeName : Option (Option String) := none
  attributes : Option (List String) := none
  act : Option (Option String) := none
  arguments : Option (List (String × Json)) := none
  links : Option (List (String × Query)) := none

namespace Draft

/-- The query that the fields make up; a field that was not given is empty. -/
def toQuery (d : Draft) : Query :=
  ⟨d.typeName.join, d.attributes.getD [], d.act.join, d.arguments.getD [], d.links.getD []⟩

/-- Whether a field has been read. -/
def given (d : Draft) : Field → Bool
  | .typeName => d.typeName.isSome
  | .attributes => d.attributes.isSome
  | .act => d.act.isSome
  | .arguments => d.arguments.isSome
  | .links => d.links.isSome

end Draft

/-- A text or null. -/
def readName? : Literal → Option (Option String)
  | .null => some none
  | .string (some s) => some (some s)
  | _ => none

/-- The texts of a list. -/
def readNames? : List Literal → Option (List String)
  | [] => some []
  | .string (some s) :: rest => (readNames? rest).map (s :: ·)
  | _ => none

/-- A list of texts. -/
def readNameList? (depth : Nat) : Literal → Option (List String)
  | .array items => if depth = 0 then none else readNames? items
  | _ => none

/-- The arguments of a query. -/
def readArguments? (depth : Nat) (literal : Literal) : Option (List (String × Json)) :=
  match literal.value? depth with
  | some (.object fields) => some fields
  | _ => none

/-- Decodes one field that holds no queries and sets it. -/
def readLeaf? (depth : Nat) (draft : Draft) (field : Field) (literal : Literal) : Option Draft :=
  match field with
  | .typeName => (readName? literal).map fun v => { draft with typeName := some v }
  | .attributes => (readNameList? depth literal).map fun v => { draft with attributes := some v }
  | .act => (readName? literal).map fun v => { draft with act := some v }
  | .arguments => (readArguments? depth literal).map fun v => { draft with arguments := some v }
  | .links => none

mutual

/-- Decodes a query whose lists and objects nest at most `depth` deep. -/
def ofLiteral? (depth : Nat) : Literal → Option Query
  | .object fields =>
    match depth with
    | 0 => none
    | depth + 1 => (readFields? depth fields).map Draft.toQuery
  | .array items =>
    match depth with
    | 0 => none
    | depth + 1 => (readPositions? depth Field.all items).map Draft.toQuery
  | _ => none

/-- Decodes the fields of a query that is written as an object. -/
def readFields? (depth : Nat) : List (Option String × Literal) → Option Draft
  | [] => some {}
  | (key, literal) :: rest => do
    let key ← key
    let draft ← readFields? depth rest
    match Field.ofKey? key with
    | none => return draft
    | some .links =>
      if draft.given .links then none
      else (readLinks? depth literal).map fun v => { draft with links := some v }
    | some field => if draft.given field then none else readLeaf? depth draft field literal

/-- Decodes the fields of a query that is written as a list. -/
def readPositions? (depth : Nat) : List Field → List Literal → Option Draft
  | _, [] => some {}
  | [], _ :: _ => none
  | field :: fields, literal :: rest => do
    let draft ← readPositions? depth fields rest
    match field with
    | .links => (readLinks? depth literal).map fun v => { draft with links := some v }
    | field => readLeaf? depth draft field literal

/-- Decodes the links of a query; of a repeated link the last one counts, at the first place. -/
def readLinks? (depth : Nat) : Literal → Option (List (String × Query))
  | .object members =>
    match depth with
    | 0 => none
    | depth + 1 => (readQueries? depth members).map Entries.ofPairs
  | _ => none

/-- Decodes named queries, repeated names kept. -/
def readQueries? (depth : Nat) :
    List (Option String × Literal) → Option (List (String × Query))
  | [] => some []
  | (key, literal) :: rest => do
    let key ← key
    let q ← ofLiteral? depth literal
    let queries ← readQueries? depth rest
    return (key, q) :: queries

end

/-- A field that has been read is refused when it is given once more. -/
theorem readFields?_of_given {depth : Nat} {key : String} {literal : Literal} {field : Field}
    {rest : List (Option String × Literal)} {draft : Draft} (hk : Field.ofKey? key = some field)
    (hr : readFields? depth rest = some draft) (hg : draft.given field = true) :
    readFields? depth ((some key, literal) :: rest) = none := by
  cases field <;> simp [readFields?, hk, hr, hg]

/-- Reads a query from a text. -/
def parse? (text : String) : Option Query := do
  ofLiteral? Literal.maxDepth (← Literal.parse? text)

end Query

namespace Document

/-- Decodes a document, repeated names kept. -/
def ofLiteral? (depth : Nat) : Literal → Option Document
  | .object members =>
    match depth with
    | 0 => none
    | depth + 1 => (Query.readQueries? depth members).map Document.mk
  | _ => none

/-- Reads a document from a text. -/
def parse? (text : String) : Option Document := do
  ofLiteral? Literal.maxDepth (← Literal.parse? text)

end Document

end EntityQuery
