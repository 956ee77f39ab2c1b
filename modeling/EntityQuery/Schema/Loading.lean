import EntityQuery.Schema.Scan

/-!
# Looking up names

A name is looked up in the registry; where it is missing and types are loaded on demand, the loader is
asked. While that runs, the name is marked, so that a loader that comes back to the name is caught.

* `Loading.run`: runs a loader's answer to a name.
* `Schema.find`: looks up a name. `Schema.scan`: collects every type. Both may load types.
* `Schema.check`: checks every reachable type. `Schema.build`: a session to start with.
-/

namespace EntityQuery

variable {σ : Type}

/-- Runs a loader. How it looks up names and scans the schema are parameters here. -/
def Loading.run (find : Finder σ) (scan : Lookup σ (Entries NamedType)) :
    Loading σ → Lookup σ (Option Ty)
  | .done found => return found
  | .panic p => throw (.fault (.panic p))
  | .step change next => fun s =>
    let app := change s.app
    (next app).run find scan { s with app }
  | .find name next => do (next (← (find name).attempt)).run find scan
  | .scan next => do (next (← scan.attempt)).run find scan

namespace Schema

/-- The type that a loader gives for a name; it has to be a definition of that name. -/
def load (schema : Schema σ) (find : Finder σ) (loader : String → Loading σ) (name : String) :
    Lookup σ (Option NamedType) := do
  match ← (loader name).run find (schema.scanWith find) with
  | none => return none
  | some (.base t) =>
    if schema.nameOf t = name then return some t
    else Lookup.defect (.typeNameMismatch name (schema.nameOf t))
  | some t => Lookup.defect (.notANamedType name (← schema.textOf t))

/-- Loads a name that is marked as being loaded, and registers the type. The mark tells whether the
name was asked for meanwhile; a type that was registered meanwhile wins. The answer tells whether
the type was registered here. -/
def loadMarked (schema : Schema σ) (find : Finder σ) (loader : String → Loading σ)
    (name : String) : Lookup σ (Option NamedType × Bool) := do
  let loaded ← schema.load find loader name
  match Entries.find? (← get).registry name, loaded with
  | some (.loading true), _ => Lookup.defect (.cyclicLoad name)
  | _, none => return (none, false)
  | some (.ready existing), some _ => return (some existing, false)
  | _, some t =>
    modify (Session.setSlot · name (.ready t))
    return (some t, true)

/-- Loads a name: marks it, asks the loader, registers the type, and checks it. A type that does not
pass is removed again. -/
def loadName (schema : Schema σ) (find : Finder σ) (loader : String → Loading σ)
    (name : String) : Lookup σ (Option NamedType) := do
  modify (Session.setSlot · name (.loading false))
  let (found, registered) ←
    Lookup.ensuring (schema.loadMarked find loader name) (Session.clearLoading name)
  match found, registered with
  | some t, true =>
    match schema.entity? t with
    | some e => Lookup.onDefect (e.check schema find) (Session.evict · name t)
    | none => pure ()
    return found
  | _, _ => return found

/-- Looks up a name; `fuel` bounds how deep the loader may be asked inside its own answers. -/
def findWithin (schema : Schema σ) : Nat → Finder σ
  | fuel, name => do
    match Entries.find? (← get).registry name with
    | some (.ready t) => return some t
    | some (.loading _) =>
      modify (Session.setSlot · name (.loading true))
      Lookup.defect (.cyclicLoad name)
    | none =>
      match schema.loader?, fuel with
      | none, _ => return none
      | some _, 0 => throw .exhausted
      | some loader, fuel + 1 => schema.loadName (schema.findWithin fuel) loader name

/-- Looks up a name, and loads it if need be. -/
def find (schema : Schema σ) : Finder σ := schema.findWithin schema.limit

/-- Collects every reachable type. -/
def scan (schema : Schema σ) : Lookup σ (Entries NamedType) := schema.scanWith schema.find

/-- Checks a type that a scan found, and that the loader gives the same instance. -/
def checkFound (schema : Schema σ) (name : String) (t : NamedType) : Lookup σ Unit := do
  match schema.entity? t with
  | some e => e.check schema schema.find
  | none => pure ()
  match schema.loader? with
  | some loader =>
    let given ← schema.load schema.find loader name
    if given ≠ some t then Lookup.defect (.loaderInstanceMismatch name)
  | none => pure ()

/-- Checks every reachable type but those of standard names. -/
def check (schema : Schema σ) : Lookup σ Unit := do
  let types ← schema.scan
  types.forM fun (name, t) =>
    if (Standard.ofName? name).isSome then pure () else schema.checkFound name t

/-- Registers types, each under its own name. -/
def register (schema : Schema σ) : List Ty → Lookup σ Unit
  | [] => return ()
  | .base t :: rest => do
    let name := schema.nameOf t
    match Entries.find? (← get).registry name with
    | some slot =>
      if slot = .ready t then schema.register rest else Lookup.defect (.duplicateType name)
    | none =>
      modify (Session.setSlot · name (.ready t))
      schema.register rest
  | t :: _ => do Lookup.defect (.notANamedType "" (← schema.textOf t))

/-- Registers the standard scalars and the given types; without a loader, scans and checks all. -/
def build (schema : Schema σ) (types : List Ty) (assumeValid : Bool) : Lookup σ Unit := do
  schema.register (Standard.all.map (fun s => .base (.standard s)) ++ types)
  if !schema.onDemand then
    if assumeValid then
      let _ ← schema.scan
    else schema.check

end Schema

end EntityQuery
