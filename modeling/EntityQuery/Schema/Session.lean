import EntityQuery.Typing.Entity
import EntityQuery.Warning

/-!
# Schemas and their sessions

A schema gives the definitions and, if types are loaded on demand, the loader. What changes while it
is used is its session: the registry of names, the lazy references that have been forced, the
warnings, and the state of the application.

* `Loading`: what a loader does for a name; it may look into the schema again.
* `Schema`: the definitions and the loader; `Session`: what changes.
* `Lookup`: a computation on a session that may stop at a defect, at a fault of a callback, or at
  the limit on nested lookups.
-/

namespace EntityQuery

/-- What a loader does for a name: a tree of what it asks, each followed by what it does with the
answer. -/
inductive Loading (σ : Type)
  /-- Answers with a type, or with nothing for an unknown name. -/
  | done (found : Option Ty)
  /-- Ends abnormally. -/
  | panic (p : Panic)
  /-- Changes the state of the application and looks at the result. -/
  | step (change : σ → σ) (next : σ → Loading σ)
  /-- Looks up a name in the same schema. -/
  | find (name : String) (next : Except Defect (Option NamedType) → Loading σ)
  /-- Scans the same schema. -/
  | scan (next : Except Defect (Entries NamedType) → Loading σ)

/-- Definitions and loader of a schema. -/
structure Schema (σ : Type) where
  /-- The definition of an instance. -/
  define : InstanceId → Definition σ
  /-- The type that a lazy reference leads to. -/
  target : LazyRef → Ty
  /-- What forcing a lazy reference does to the state of the application. -/
  onForce : LazyRef → σ → σ := fun _ s => s
  /-- Loads types on demand. -/
  loader? : Option (String → Loading σ) := none
  /-- How deep lookups and wrappers may nest, and how many steps a scan may take. -/
  limit : Nat := 1000000

namespace Schema

variable {σ : Type}

/-- The definition behind a named type. -/
def definition (s : Schema σ) : NamedType → Definition σ
  | .standard k => .scalar (.ofStandard k)
  | .defined id => s.define id

/-- The name of a named type. -/
def nameOf (s : Schema σ) (t : NamedType) : String := (s.definition t).name

/-- The entity behind a named type, if it is one. -/
def entity? (s : Schema σ) (t : NamedType) : Option (Entity σ) :=
  match s.definition t with
  | .entity e => some e
  | .scalar _ => none

/-- Whether types are loaded on demand. -/
def onDemand (s : Schema σ) : Bool := s.loader?.isSome

end Schema

/-- What a name of the registry stands for. -/
inductive Slot
  /-- The type is being loaded; the mark says whether it was asked for meanwhile. -/
  | loading (cyclic : Bool)
  /-- The type. -/
  | ready (t : NamedType)
  deriving DecidableEq, Repr

/-- What changes while a schema is used. -/
structure Session (σ : Type) where
  registry : Entries Slot := []
  /-- Whether a scan has found every reachable type. -/
  complete : Bool := false
  /-- The lazy references that have been forced. -/
  forced : List PartId := []
  warnings : Channel Unit := { handler? := some () }
  /-- The state of the application. -/
  app : σ

namespace Session

variable {σ : Type}

/-- Sets what a name stands for. -/
def setSlot (s : Session σ) (name : String) (slot : Slot) : Session σ :=
  { s with registry := Entries.insert s.registry name slot }

/-- Removes the mark of a name that is being loaded. -/
def clearLoading (name : String) (s : Session σ) : Session σ :=
  match Entries.find? s.registry name with
  | some (.loading _) => { s with registry := Entries.erase s.registry name }
  | _ => s

/-- Removes a name that stands for a type. -/
def evict (s : Session σ) (name : String) (t : NamedType) : Session σ :=
  if Entries.find? s.registry name = some (.ready t) then
    { s with registry := Entries.erase s.registry name }
  else s

/-- The types of the registry, in order. -/
def readyTypes (s : Session σ) : List NamedType :=
  s.registry.filterMap fun (_, slot) =>
    match slot with
    | .ready t => some t
    | .loading _ => none

/-- Whether a lazy reference has been forced. -/
def isForced (s : Session σ) (r : LazyRef) : Bool := s.forced.contains r.id

/-- Sends a warning. -/
def warn (s : Session σ) (t : Topic) (message : String) : Session σ :=
  { s with warnings := s.warnings.warn ⟨.single t, message⟩ }

end Session

/-- Why a computation on a session stops. -/
inductive Stop
  /-- The schema is broken. -/
  | defect (d : Defect)
  /-- A callback ended without a value. -/
  | fault (f : Fault)
  /-- Lookups nest too deep, or a scan is too long. -/
  | exhausted

/-- A computation on a session; what it changed before it stopped stays changed. -/
abbrev Lookup (σ α : Type) := EStateM Stop (Session σ) α

namespace Lookup

variable {σ α : Type}

/-- Stops at a defect. -/
def defect (d : Defect) : Lookup σ α := throw (.defect d)

/-- Stops at a failure. -/
def fail (f : Failure) : Lookup σ α := throw (.fault (.failure f))

/-- Calls back into the application. -/
def call (callback : Callback σ α) : Lookup σ α := fun s =>
  match callback s.app with
  | .ok a app => .ok a { s with app }
  | .error f app => .error (.fault f) { s with app }

/-- Changes the session in the end, however the computation ends. -/
def ensuring (x : Lookup σ α) (clean : Session σ → Session σ) : Lookup σ α := fun s =>
  match x s with
  | .ok a s => .ok a (clean s)
  | .error e s => .error e (clean s)

/-- Changes the session if the computation stops at a defect. -/
def onDefect (x : Lookup σ α) (clean : Session σ → Session σ) : Lookup σ α := fun s =>
  match x s with
  | .error (.defect d) s => .error (.defect d) (clean s)
  | result => result

/-- Gives a failure as an answer. -/
def catchFailure (x : Lookup σ α) : Lookup σ (Except Failure α) := fun s =>
  match x s with
  | .ok a s => .ok (.ok a) s
  | .error (.fault (.failure f)) s => .ok (.error f) s
  | .error e s => .error e s

/-- Gives a defect as an answer. -/
def attempt (x : Lookup σ α) : Lookup σ (Except Defect α) := fun s =>
  match x s with
  | .ok a s => .ok (.ok a) s
  | .error (.defect d) s => .ok (.error d) s
  | .error e s => .error e s

end Lookup

end EntityQuery
