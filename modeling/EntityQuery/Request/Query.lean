import EntityQuery.Json.Basic

/-!
# Queries and documents

A query selects attributes, an act and links of one entity; a document is a list of named queries
that are submitted together.

* `Query`: a selection; the queries nested under its links may leave their type to the link.
* `Document`: named queries in order of submission, repeated names kept.
* `Query.toJson`, `Document.toJson`: the written form.
-/

namespace EntityQuery

/-- A selection of attributes, an act and links of one entity. -/
structure Query where
  /-- The entity that is queried; a nested query takes it from its link when it is missing. -/
  typeName : Option String
  /-- The attributes asked for, in order, repeats kept. -/
  attributes : List String
  /-- The act asked for. -/
  act : Option String
  /-- The arguments supplied. -/
  arguments : List (String × Json)
  /-- The queries nested under links. -/
  links : List (String × Query)

namespace Query

instance : Inhabited Query := ⟨⟨none, [], none, [], []⟩⟩

/-- The query that asks for nothing. -/
def empty : Query := ⟨none, [], none, [], []⟩

/-- Asks for the entity of a name. -/
def withType (q : Query) (name : String) : Query := { q with typeName := some name }

/-- Asks for attributes after those asked for already. -/
def withAttributes (q : Query) (names : List String) : Query :=
  { q with attributes := q.attributes ++ names }

/-- Asks for an act. -/
def withAct (q : Query) (name : String) : Query := { q with act := some name }

/-- Supplies an argument. -/
def withArgument (q : Query) (name : String) (value : Json) : Query :=
  { q with arguments := Entries.insert q.arguments name value }

/-- Nests a query under a link. -/
def withLink (q : Query) (name : String) (nested : Query) : Query :=
  { q with links := Entries.insert q.links name nested }

mutual

/-- A query as it is written: the type and the act only where they are given. -/
def toJson : Query → Json
  | ⟨typeName, attributes, act, arguments, links⟩ =>
    .object <|
      (match typeName with
        | some name => [("type", .string name)]
        | none => []) ++
      [("attributes", .strings attributes)] ++
      (match act with
        | some name => [("act", .string name)]
        | none => []) ++
      [("arguments", .object arguments), ("links", .object (linksToJson links))]

/-- The nested queries as they are written. -/
def linksToJson : List (String × Query) → List (String × Json)
  | [] => []
  | (name, q) :: rest => (name, q.toJson) :: linksToJson rest

end

end Query

/-- Named queries in order of submission; a name may be repeated. -/
structure Document where
  queries : List (String × Query) := []

namespace Document

/-- The first query of a name. -/
def query? (d : Document) (name : String) : Option Query := Entries.find? d.queries name

/-- Adds a query at the end. -/
def add (d : Document) (name : String) (q : Query) : Document := ⟨d.queries ++ [(name, q)]⟩

/-- Removes every query of a name. -/
def remove (d : Document) (name : String) : Document :=
  ⟨d.queries.filter fun (other, _) => other ≠ name⟩

/-- The names, in order. -/
def names (d : Document) : List String := d.queries.map Prod.fst

/-- A document as it is written, repeated names included. -/
def toJson (d : Document) : Json := .object (Query.linksToJson d.queries)

theorem names_remove (d : Document) (name : String) :
    (d.remove name).names = d.names.filter (· ≠ name) := by
  simp only [names, remove, List.filter_map]
  rfl

end Document

end EntityQuery
