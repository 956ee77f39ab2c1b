import EntityQuery.Schema.Session
import EntityQuery.Typing.Reading

/-!
# Assembling a schema

An application declares its types one after the other, each under a handle by which later declarations
use it; lazy references may use every handle. From the declarations a schema gets its definitions.

* `Declaration`: a wrapper around other types, or a definition.
* `Assembly`: the declarations of an application.
* `Assembly.handle`: the type under a handle; `Assembly.handleOf?` goes back.
* `Assembly.check`: the first declaration that cannot be read; `Assembly.toSchema`: the schema.
-/

namespace EntityQuery

/-- What an application declares. -/
inductive Declaration (σ : Type)
  /-- A wrapper around other types. -/
  | wrapper (t : TyExpr)
  /-- A definition, given how the references in it are read. -/
  | definition (name : String) (build : (RefExpr → Reading TypeRef) → Reading (Definition σ))

/-- The declarations of an application. -/
structure Assembly (σ : Type) where
  /-- In order, each under its handle. -/
  declared : List (String × Declaration σ)
  /-- Those that are only built anew, one copy at a time. -/
  spare : List (Declaration σ) := []

namespace Assembly

variable {σ : Type}

instance : Inhabited (Definition σ) := ⟨.scalar (.ofStandard .string)⟩

/-- All declarations, in the order of their serials. -/
def all (a : Assembly σ) : List (Declaration σ) := a.declared.map Prod.snd ++ a.spare

/-- The name of a definition. -/
def nameOf (a : Assembly σ) : NamedType → String
  | .standard s => s.name
  | .defined id =>
    match a.all[id.serial]? with
    | some (.definition name _) => name
    | _ => ""

/-- The type under a handle; `fuel` bounds how far wrappers lead to other handles. -/
def handleWithin (a : Assembly σ) : Nat → String → Ty
  | 0, _ => default
  | fuel + 1, handle =>
    let serial := a.declared.findIdx fun d => d.1 = handle
    match a.declared[serial]? with
    | some (_, .definition ..) => .base (.defined ⟨serial, 0⟩)
    | some (_, .wrapper t) =>
      let scope : Scope :=
        { handle := a.handleWithin fuel, known := { name := a.nameOf }, owner := ⟨serial, 0⟩ }
      ((t.read scope).run' 0).toOption.getD default
    | none => default

/-- The type under a handle. -/
def handle (a : Assembly σ) : String → Ty := a.handleWithin (a.declared.length + 1)

/-- The first handle of a type. -/
def handleOf? (a : Assembly σ) (t : Ty) : Option String :=
  (a.declared.map Prod.fst).find? fun handle => t.same (a.handle handle)

/-- Where an instance is read. -/
def scope (a : Assembly σ) (owner : InstanceId) : Scope :=
  { handle := a.handle, known := { name := a.nameOf }, owner }

/-- The type that a lazy reference leads to. -/
def target (a : Assembly σ) (r : LazyRef) : Ty := (r.read a.scope).toOption.getD default

/-- The definition of an instance. -/
def definition (a : Assembly σ) (id : InstanceId) : Except Defect (Definition σ) :=
  match a.all[id.serial]? with
  | some (.definition _ build) => (build (RefExpr.read (a.scope id))).run' 0
  | some (.wrapper t) => do
    let _ ← (t.read (a.scope id)).run' 0
    return default
  | none => .ok default

/-- The first declaration under a handle that cannot be read, and what is wrong with it. -/
def check (a : Assembly σ) : Except (String × Defect) Unit :=
  a.declared.zipIdx.forM fun ((handle, _), serial) =>
    match a.definition ⟨serial, 0⟩ with
    | .ok _ => .ok ()
    | .error d => .error (handle, d)

/-- The schema of the declarations. -/
def toSchema (a : Assembly σ) (onForce : LazyRef → σ → σ)
    (loader? : Option (String → Loading σ)) : Schema σ :=
  let first := ((List.range a.all.length).map fun serial =>
    (a.definition ⟨serial, 0⟩).toOption.getD default).toArray
  { define := fun id =>
      if id.copy = 0 then first[id.serial]?.getD default
      else (a.definition id).toOption.getD default
    target := a.target
    onForce
    loader? }

/-- A copy of a spare declaration. -/
def copyOf (a : Assembly σ) (spare copy : Nat) : Ty :=
  let id : InstanceId := ⟨a.declared.length + spare, copy⟩
  match a.spare[spare]? with
  | some (.wrapper t) => ((t.read (a.scope id)).run' 0).toOption.getD default
  | _ => .base (.defined id)

end Assembly

end EntityQuery
