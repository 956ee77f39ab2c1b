import EntityQuery.Schema.Session

/-!
# Resolving references

How references to types are resolved, and the checks that every entity of a schema has to pass. How a
name is looked up is a parameter here.

* `TypeRef.resolve`: the type of a reference.
* `Ty.unwrap`: the definition inside all wrappers.
* `Link.follow`: the entity that a link leads to.
* `Entity.check`: whether the types that an entity refers to are fit for their places.
-/

namespace EntityQuery

variable {σ : Type}

/-- How names are looked up. -/
abbrev Finder (σ : Type) := String → Lookup σ (Option NamedType)

namespace Schema

/-- Forces a lazy reference: the first time, the application is told. -/
def force (schema : Schema σ) (r : LazyRef) : Lookup σ Ty := fun s =>
  if s.isForced r then .ok (schema.target r) s
  else .ok (schema.target r) { s with forced := r.id :: s.forced, app := schema.onForce r s.app }

/-- What is known of types in a session. -/
def known (schema : Schema σ) (s : Session σ) : Known :=
  { name := schema.nameOf
    target? := fun r => if s.isForced r then some (schema.target r) else none
    depth := schema.limit }

/-- How a type is written now. -/
def textOf (schema : Schema σ) (t : Ty) : Lookup σ String := fun s =>
  .ok (t.text (schema.known s)) s

/-- How a reference is written now. -/
def refTextOf (schema : Schema σ) (r : TypeRef) : Lookup σ String := fun s =>
  .ok (r.text (schema.known s)) s

end Schema

/-- Looks up a name that has to be known. -/
def Finder.require (find : Finder σ) (name : String) : Lookup σ NamedType := do
  match ← find name with
  | some t => return t
  | none => Lookup.defect (.unknownType name)

/-- The type of a reference. -/
def TypeRef.resolve (schema : Schema σ) (find : Finder σ) : TypeRef → Lookup σ Ty
  | .direct t => return t
  | .named name => return .base (← find.require name)
  | .lazy r => schema.force r

/-- The type of a reference inside a non-null wrapper; another non-null wrapper is refused. -/
def TypeRef.resolveBare (schema : Schema σ) (find : Finder σ) (r : TypeRef) :
    Lookup σ BareTy := do
  match ← r.resolve schema find with
  | .base t => return .base t
  | .listOf id inner => return .listOf id inner
  | .nonNull id inner => Lookup.defect (.doubleNonNull (← schema.textOf (.nonNull id inner)))

/-- The definition inside all wrappers; `fuel` bounds their number. -/
def Ty.unwrapWithin (schema : Schema σ) (find : Finder σ) : Nat → Ty → Lookup σ NamedType
  | _, .base t => return t
  | 0, _ => throw .exhausted
  | fuel + 1, .nonNull _ inner => do
    (← inner.resolveBare schema find).type.unwrapWithin schema find fuel
  | fuel + 1, .listOf _ inner => do
    (← inner.resolve schema find).unwrapWithin schema find fuel

/-- The definition inside all wrappers. -/
def Ty.unwrap (schema : Schema σ) (find : Finder σ) (t : Ty) : Lookup σ NamedType :=
  t.unwrapWithin schema find schema.limit

/-- Whether an argument has to be supplied: its type is non-null and it has no default. -/
def Argument.isRequired (schema : Schema σ) (find : Finder σ) (a : Argument) : Lookup σ Bool := do
  if a.default?.isSome then return false
  return (← a.type.resolve schema find).isNonNull

/-- Whether a reference unwraps to a scalar; if not, the definition that it unwraps to. -/
def TypeRef.nonScalar? (schema : Schema σ) (find : Finder σ) (r : TypeRef) :
    Lookup σ (Option NamedType) := do
  let t ← (← r.resolve schema find).unwrap schema find
  return if (schema.entity? t).isSome then some t else none

/-- Checks the type of an argument. -/
def Argument.check (schema : Schema σ) (find : Finder σ) (owner : String) (a : Argument) :
    Lookup σ Unit := do
  match ← a.type.nonScalar? schema find with
  | some t => Lookup.defect (.invalidArgumentType owner a.name (schema.nameOf t))
  | none => return ()

/-- Checks the type of an attribute, if it has one. -/
def Attribute.check (schema : Schema σ) (find : Finder σ) (entity : String) (a : Attribute σ) :
    Lookup σ Unit := do
  match a.type? with
  | none => return ()
  | some r =>
    match ← r.nonScalar? schema find with
    | some t => Lookup.defect (.invalidAttributeType entity a.label.name (schema.nameOf t))
    | none => return ()

/-- The entity that a link of an entity leads to. -/
def Link.follow (schema : Schema σ) (find : Finder σ) (entity : String) (l : Link σ) :
    Lookup σ (NamedType × Entity σ) := do
  let target ← l.target.resolve schema find
  let refused : Lookup σ (NamedType × Entity σ) := do
    Lookup.defect (.invalidLinkType entity l.label.name (← schema.textOf target))
  match target with
  | .base t =>
    match schema.entity? t with
    | some e => return (t, e)
    | none => refused
  | _ => refused

/-- Checks every type that an entity refers to. -/
def Entity.check (schema : Schema σ) (find : Finder σ) (e : Entity σ) : Lookup σ Unit := do
  e.arguments.forM (Argument.check schema find e.name)
  e.attributes.forM (Attribute.check schema find e.name)
  e.acts.forM fun a =>
    a.arguments.forM (Argument.check schema find (e.name ++ "." ++ a.label.name))
  e.links.forM fun l => do
    let _ ← l.follow schema find e.name
    l.arguments.forM (Argument.check schema find (e.name ++ "." ++ l.label.name))

/-- The references of an entity: of its arguments, its attributes, the arguments of its acts, and
of each link the target and the arguments. -/
def Entity.references (e : Entity σ) : List TypeRef :=
  e.arguments.map Argument.type ++ e.attributes.filterMap Attribute.type? ++
    e.acts.flatMap (fun a => a.arguments.map Argument.type) ++
    e.links.flatMap (fun l => l.target :: l.arguments.map Argument.type)

end EntityQuery
