import EntityQuery.Context
import EntityQuery.Failure.Basic
import EntityQuery.Request.Query
import EntityQuery.Typing.Reference

/-!
# Callbacks

What the application hands to a schema: functions that read and change the application's own state.

* `Callback`: a computation on the state of the application that gives a value or a fault.
* `Answer`: what a resolver hands back: a value, or a promise of one.
* `Site`: where in an execution a callback is called.
-/

namespace EntityQuery

/-- How a callback ends without a value. -/
inductive Fault
  /-- It failed. -/
  | failure (f : Failure)
  /-- It ended abnormally. -/
  | panic (p : Panic)

/-- The failure that a fault counts as. -/
def Fault.toFailure : Fault → Failure
  | failure f => f
  | panic p => .ofPanic p

/-- A computation on the state `σ` of the application; what it changed before a fault stays
changed. -/
abbrev Callback (σ α : Type) := EStateM Fault σ α

/-- Where the promise of a resolver lives. -/
inductive Home
  /-- On the queue of the execution. -/
  | own
  /-- On a queue of its own. -/
  | foreign
  deriving DecidableEq, Repr

/-- What a resolver hands back. -/
inductive Answer (σ : Type)
  /-- A value. -/
  | ready (v : Json)
  /-- Work that is put off. -/
  | deferred (compute : Callback σ Json)
  /-- A promise that is settled by the last of a number of tasks, each putting off the next; without
  tasks it is settled at once. -/
  | settling (home : Home) (hops : Nat) (finish : Callback σ Json)
  /-- A promise that nothing settles. -/
  | stuck (home : Home)

/-- The kinds of artifacts of an entity. -/
inductive ArtifactKind
  /-- A field of the entity itself. -/
  | field
  /-- An operation on the entity. -/
  | act
  /-- An edge to another entity. -/
  | link
  deriving DecidableEq, Repr

/-- The word for a kind. -/
def ArtifactKind.text : ArtifactKind → String
  | field => "attribute"
  | act => "act"
  | link => "link"

/-- What every artifact declares about itself. -/
structure Label where
  name : String
  description : Option String := none
  deprecated : Bool := false
  reason : Option String := none
  deriving DecidableEq, Repr

namespace Label

/-- Deprecates an artifact, for a reason. -/
def retire (l : Label) (reason : String) : Label :=
  { l with deprecated := true, reason := some reason }

/-- Sets the deprecation of an artifact and keeps the reason. -/
def setDeprecated (l : Label) (deprecated : Bool) : Label := { l with deprecated }

end Label

/-- Where in an execution a callback is called. -/
structure Site where
  /-- The artifact that is resolved, if it is one that the entity has. -/
  artifact? : Option (ArtifactKind × Label)
  /-- The name of the entity that is queried. -/
  entity : String
  /-- The query, or the nested query, on the entity. -/
  query : Query
  /-- The name of the query in the document. -/
  queryName : String
  /-- The links from that query to the entity. -/
  path : List String
  /-- The arguments, defaults included. -/
  arguments : Entries Json
  context : Context
  /-- Whether the schema loads types on demand. -/
  onDemand : Bool

namespace Site

/-- The path of a field of the entity, with dots. -/
def fieldPath (s : Site) (name : String) : String := String.intercalate "." (s.path ++ [name])

/-- The same place, focused on an artifact. -/
def focus (s : Site) (kind : ArtifactKind) (label : Label) : Site :=
  { s with artifact? := some (kind, label) }

/-- One link further. -/
def descend (s : Site) (link entity : String) (query : Query) (arguments : Entries Json) : Site :=
  { s with artifact? := none, entity, query, path := s.path ++ [link], arguments }

end Site

end EntityQuery
