import EntityQuery.Promise.Combinators
import EntityQuery.Schema.Session
import EntityQuery.Text.Quoted

/-!
# Summaries

One-line descriptions of what the library holds, for logs.

* `Summary.record`, `Summary.list`: the layout.
* `Scalar.summary`, `Entity.summary`, `Site.summary`, `Schema.summary`: of definitions and places.
* `Queue.summary`, `Thenable.summary`: of queues and promises.
-/

namespace EntityQuery

namespace Summary

/-- A named record of named parts. -/
def record (name : String) (parts : List (String × String)) : String :=
  name ++ " " ++ Json.braces
    (" " ++ String.intercalate ", " (parts.map fun (key, value) => key ++ ": " ++ value) ++ " ")

/-- A list of texts. -/
def list (items : List String) : String :=
  "[" ++ String.intercalate ", " (items.map Text.quote) ++ "]"

end Summary

/-- The name of a scalar and whether it is a standard one. -/
def Scalar.summary {σ : Type} (s : Scalar σ) : String :=
  Summary.record "ScalarType"
    [("name", Text.quote s.name), ("standard", if s.isStandard then "true" else "false")]

/-- The name of an entity and the names of its artifacts. -/
def Entity.summary {σ : Type} (e : Entity σ) : String :=
  Summary.record "Entity"
    [("name", Text.quote e.name),
      ("attributes", Summary.list (e.attributes.map (·.label.name))),
      ("acts", Summary.list (e.acts.map (·.label.name))),
      ("links", Summary.list (e.links.map (·.label.name)))]

/-- The capitalized word for a kind. -/
def ArtifactKind.title : ArtifactKind → String
  | field => "Attribute"
  | act => "Act"
  | link => "Link"

/-- Where in an execution a callback is called. -/
def Site.summary (s : Site) : String :=
  Summary.record "ContextInfo"
    [("entity", Text.quote s.entity),
      ("artifact",
        match s.artifact? with
        | some (kind, label) => "Some((" ++ kind.title ++ ", " ++ Text.quote label.name ++ "))"
        | none => "None"),
      ("query_name", Text.quote s.queryName),
      ("path", Summary.list s.path)]

/-- The same as a value, with the artifact, the arguments and the query. -/
def Site.toJson (s : Site) : Json :=
  let (kind, label) := s.artifact?.getD (.field, { name := "" })
  .object [("entity", .string s.entity), ("artifact", .string label.name),
    ("kind", .string kind.text), ("deprecated", .bool label.deprecated),
    ("query_name", .string s.queryName), ("path", .strings s.path),
    ("field_path", .string (s.fieldPath label.name)), ("arguments", .object s.arguments),
    ("query", s.query.toJson), ("debug", .string s.summary), ("lazy_schema", .bool s.onDemand)]

/-- The registered names of a schema and whether it loads types on demand. -/
def Schema.summary {σ : Type} (schema : Schema σ) (session : Session σ) : String :=
  Summary.record "Schema"
    [("types", Summary.list (Entries.keys session.registry)),
      ("lazy", if schema.onDemand then "true" else "false")]

/-- How many tasks wait in a queue and how many were started. -/
def Queue.summary {V W : Type} (q : Queue V W) : String :=
  Summary.record "TaskQueue"
    [("pending", toString q.tasks.length), ("ticks", toString q.ticks)]

/-- The word for what a promise has settled with. -/
def Outcome.word {V : Type} : Option (Outcome V) → String
  | none => "pending"
  | some (.ok _) => "fulfilled"
  | some (.error _) => "rejected"

/-- What a thenable that is not ready waits for. -/
def Thenable.summary {V W : Type} : Thenable V W → Work V W (Option String)
  | .value _ => .pure none
  | .deferred _ => .pure (some "Deferred")
  | .promise p => .outcome p fun o => .pure <| some <|
      "Promise(" ++ Summary.record "Promise" [("state", Text.quote (Outcome.word o))] ++ ")"

end EntityQuery
