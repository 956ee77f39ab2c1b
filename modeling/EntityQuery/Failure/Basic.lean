import EntityQuery.Defect
import EntityQuery.Json.Basic

/-!
# Failures

What went wrong with a request: a message, where it applies, whether a client may read it, and what
caused it.

* `Failure`: a failure; `Failure.engine`, `Failure.user` and `Failure.internal` make one.
* `Failure.causedBy`: a failure that takes its category and its safety from its cause.
* `Failure.located`: adds locations to a failure that has none.
* `Failure.toJson`, `Failure.log`: with the real message, for the program's own use.
* **`Failure.safe_located`**, **`Failure.safe_causedBy`**: neither makes an unsafe failure safe.
-/

namespace EntityQuery

/-- Who a failure is from. -/
inductive Category
  /-- The engine itself. -/
  | engine
  /-- Something unexpected. -/
  | internal
  /-- The application, on purpose. -/
  | user
  deriving DecidableEq, Repr

/-- The word for a category. -/
def Category.text : Category → String
  | engine => "sage"
  | internal => "internal"
  | user => "user"

/-- Where in a document a failure applies. -/
structure Location where
  /-- The name of the query in the document. -/
  query : String
  /-- The path of the field inside the query, with dots. -/
  field : Option String
  /-- More about the place. -/
  info : Entries Json

namespace Location

/-- The place of a whole query. -/
def ofQuery (query : String) : Location := ⟨query, none, []⟩

/-- The place of a field, with the kind of the field. -/
def ofField (query field kind : String) : Location :=
  ⟨query, some field, [("kind", .string kind)]⟩

/-- A location as a value. -/
def toJson (l : Location) : Json :=
  .object [("query", .string l.query), ("field", .ofOption l.field), ("meta", .object l.info)]

/-- A location in one line. -/
def text (l : Location) : String :=
  match l.field with
  | some field => l.query ++ "." ++ field
  | none => l.query

end Location

/-- A link of the chain of causes behind a failure. -/
inductive Cause
  /-- An earlier failure, by its message. -/
  | failure (message : String)
  /-- A defect of the schema. -/
  | defect (d : Defect)
  /-- Anything else, by its text. -/
  | other (text : String)
  deriving DecidableEq, Repr

/-- The text of a cause. -/
def Cause.text : Cause → String
  | failure message => message
  | defect d => d.message
  | other text => text

/-- What went wrong with a request. -/
structure Failure where
  message : String
  category : Category
  /-- Whether a client may read the message. -/
  safe : Bool
  locations : List Location := []
  info : Entries Json := []
  /-- The causes, nearest first. -/
  causes : List Cause := []

/-- How a callback ends abnormally: the text it gave, if it gave one. -/
structure Panic where
  text : Option String
  deriving DecidableEq, Repr

namespace Failure

/-- A failure that the engine reports to the client. -/
def engine (message : String) : Failure := ⟨message, .engine, true, [], [], []⟩

instance : Inhabited Failure := ⟨engine ""⟩

/-- A failure that the application reports to the client. -/
def user (message : String) : Failure := ⟨message, .user, true, [], [], []⟩

/-- An unexpected failure, with its cause. -/
def internal (cause : Cause) : Failure := ⟨cause.text, .internal, false, [], [], [cause]⟩

/-- A failure that wraps a report of the application. -/
def ofReport (message : String) : Failure := ⟨message, .user, true, [], [], [.other message]⟩

/-- A failure that stands for a defect of the schema. -/
def ofDefect (d : Defect) : Failure :=
  let inner : List Cause :=
    match d with
    | .invalidName _ fault => [.other fault.message]
    | _ => []
  ⟨d.message, .internal, false, [], [], .defect d :: inner⟩

/-- A failure that says that an invariant of the engine is broken. -/
def invariant (message : String) : Failure := internal (.other ("Invariant violation: " ++ message))

/-- A failure caused by another one: its category and safety are inherited. -/
def causedBy (message : String) (previous : Failure) : Failure :=
  ⟨message, previous.category, previous.safe, [], [], .failure previous.message :: previous.causes⟩

/-- The failure that an abnormal end counts as. -/
def ofPanic (p : Panic) : Failure :=
  ⟨"Resolver panicked: " ++ p.text.getD "unknown panic payload", .internal, false, [], [], []⟩

/-- Adds locations to a failure that has none. -/
def located (f : Failure) (locations : List Location) : Failure :=
  if f.locations.isEmpty then { f with locations } else f

/-- Replaces the locations. -/
def withLocations (f : Failure) (locations : List Location) : Failure := { f with locations }

/-- Adds a piece of information. -/
def withInfo (f : Failure) (key : String) (value : Json) : Failure :=
  { f with info := Entries.insert f.info key value }

/-- The defect of the schema that a failure stands for, if it stands for one. -/
def defect? (f : Failure) : Option Defect :=
  match f.causes with
  | .defect d :: _ => some d
  | _ => none

/-- A failure as a value, with its real message. -/
def toJson (f : Failure) : Json :=
  .object <|
    [("message", .string f.message)] ++
    (if f.locations.isEmpty then [] else [("location", .array (f.locations.map Location.toJson))]) ++
    (if f.info.isEmpty then [] else [("meta", .object f.info)])

/-- The place of a location and its kind, if the kind is a text. -/
def logLine (l : Location) : String :=
  match Entries.find? l.info "kind" with
  | some (.string kind) => "\n  at " ++ l.text ++ " (" ++ kind ++ ")"
  | _ => "\n  at " ++ l.text

/-- A failure for a log: its real message, then a line for each location. -/
def log (f : Failure) : String := f.message ++ String.join (f.locations.map logLine)

@[simp] theorem safe_located (f : Failure) (ls : List Location) : (f.located ls).safe = f.safe := by
  unfold located
  split <;> rfl

@[simp] theorem safe_causedBy (message : String) (f : Failure) :
    (causedBy message f).safe = f.safe := rfl

@[simp] theorem message_located (f : Failure) (ls : List Location) :
    (f.located ls).message = f.message := by
  unfold located
  split <;> rfl

@[simp] theorem category_located (f : Failure) (ls : List Location) :
    (f.located ls).category = f.category := by
  unfold located
  split <;> rfl

end Failure

end EntityQuery
