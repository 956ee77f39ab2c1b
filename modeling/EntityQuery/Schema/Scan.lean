import EntityQuery.Schema.Resolution

/-!
# Scanning a schema

Collects every type that can be reached from the registry, and registers what it found.

* `Schema.collect`: the types reachable from one type by direct and lazy references; the names on
  the way are left for later.
* `Schema.scanWith`: the whole scan. Two instances of one name, and unknown names, are defects.
-/

namespace EntityQuery

variable {σ : Type}

/-- What a scan has found so far: types by name, and the names that are left to look up, the latest
first. -/
structure Found where
  types : Entries NamedType := []
  pending : List String := []
  deriving DecidableEq, Repr

/-- What a type ends in, given what the reference inside a wrapper ends in. -/
def Ty.tipWith (tip : TypeRef → Lookup σ (String ⊕ NamedType)) :
    Ty → Lookup σ (String ⊕ NamedType)
  | .base t => return .inr t
  | .nonNull _ inner => tip inner
  | .listOf _ inner => tip inner

/-- What a reference ends in inside its wrappers; `fuel` bounds their number. -/
def TypeRef.tipWithin (schema : Schema σ) : Nat → TypeRef → Lookup σ (String ⊕ NamedType)
  | _, .named name => return .inl name
  | 0, _ => throw .exhausted
  | fuel + 1, .direct t => t.tipWith (tipWithin schema fuel)
  | fuel + 1, .lazy r => do (← schema.force r).tipWith (tipWithin schema fuel)

/-- What a reference ends in inside its wrappers: a name, or a definition. -/
def TypeRef.tip (schema : Schema σ) (r : TypeRef) : Lookup σ (String ⊕ NamedType) :=
  r.tipWithin schema schema.limit

namespace Schema

/-- Collects the types reachable from a type; `fuel` bounds the nesting. -/
def collect (schema : Schema σ) : Nat → NamedType → Found → Lookup σ Found
  | 0, _, _ => throw .exhausted
  | fuel + 1, t, found =>
    let name := schema.nameOf t
    match Entries.find? found.types name with
    | some other =>
      if other = t then return found else Lookup.defect (.duplicateType name)
    | none =>
      let found := { found with types := Entries.insert found.types name t }
      match schema.definition t with
      | .scalar _ => return found
      | .entity e =>
        e.references.foldlM (fun found r => do
          match ← r.tip schema with
          | .inl name => return { found with pending := name :: found.pending }
          | .inr t => schema.collect fuel t found) found

/-- Looks up the names that are left, the latest first; `fuel` bounds their number. -/
def collectPending (schema : Schema σ) (find : Finder σ) : Nat → Found → Lookup σ Found
  | 0, _ => throw .exhausted
  | fuel + 1, found =>
    match found.pending with
    | [] => return found
    | name :: pending => do
      let found := { found with pending }
      if Entries.has found.types name then schema.collectPending find fuel found
      else
        let t ← find.require name
        schema.collectPending find fuel (← schema.collect schema.limit t found)

/-- Registers types that were found. -/
def publish : Entries NamedType → Lookup σ Unit
  | [] => return ()
  | (name, t) :: rest => do
    match Entries.find? (← get).registry name with
    | some (.ready other) =>
      if other = t then publish rest else Lookup.defect (.duplicateType name)
    | _ =>
      modify (Session.setSlot · name (.ready t))
      publish rest

/-- What a scan of a schema that loads types on demand warns of. -/
def scanWarning : String :=
  "Full schema scan requested on a lazily loaded schema; every reachable type will be loaded"

/-- Collects every reachable type and registers it. -/
def scanWith (schema : Schema σ) (find : Finder σ) : Lookup σ (Entries NamedType) := do
  if schema.onDemand then modify (Session.warn · .fullSchemaScan scanWarning)
  let seeds := (← get).readyTypes
  let found ← seeds.foldlM (fun found t => schema.collect schema.limit t found) {}
  let found ← schema.collectPending find schema.limit found
  publish found.types
  modify fun s => { s with complete := true }
  return found.types

end Schema

end EntityQuery
