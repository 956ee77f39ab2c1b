import EntityQuery.Defect
import EntityQuery.Typing.Expression

/-!
# Types and references to them

A type is a definition, or a wrapper around a reference to a type. A reference is direct, by name, or
lazy: a lazy one leads to its type only after it has been forced, so types may refer to themselves.

* `NamedType`: a standard scalar, or an instance of a definition of the application.
* `Ty`, `TypeRef`: types and references; both are finite trees that end in definitions, names and lazy
  references.
* `TypeRef.nonNull?`: a non-null wrapper, refused around another one.
* `Ty.text`, `TypeRef.text`: how they are written, `T!` and `[T]` for the wrappers.
-/

namespace EntityQuery

/-- Tells instances of declarations apart: the place of the declaration, and which copy this is. -/
structure InstanceId where
  serial : Nat
  copy : Nat := 0
  deriving DecidableEq, Repr, Inhabited

/-- Tells the parts of a declaration apart: the instance, and the places on the way to the part, the
innermost first. -/
structure PartId where
  owner : InstanceId
  path : List Nat
  deriving DecidableEq, Repr, Inhabited

/-- A lazy reference: what it leads to is declared, and is read when the reference is forced. -/
structure LazyRef where
  id : PartId
  /-- For logs. -/
  tag : String := ""
  declared : TyExpr
  deriving DecidableEq, Inhabited

/-- What a name can stand for: a standard scalar, or an instance of a definition. -/
inductive NamedType
  | standard (s : Standard)
  | defined (id : InstanceId)
  deriving DecidableEq, Repr, Inhabited

mutual

/-- A type: a definition or a wrapper, each wrapper being an instance of its own. -/
inductive Ty
  | base (t : NamedType)
  | nonNull (id : PartId) (inner : TypeRef)
  | listOf (id : PartId) (inner : TypeRef)

/-- A reference to a type. -/
inductive TypeRef
  /-- Looked up in the schema. -/
  | named (name : String)
  /-- The type itself. -/
  | direct (t : Ty)
  /-- A type that is known once the reference has been forced. -/
  | lazy (r : LazyRef)

end

deriving instance DecidableEq for Ty
deriving instance DecidableEq for TypeRef

/-- A type that is no non-null wrapper. -/
inductive BareTy
  | base (t : NamedType)
  | listOf (id : PartId) (inner : TypeRef)
  deriving DecidableEq

/-- What is known of types when they are written. -/
structure Known where
  /-- The name of a definition. -/
  name : NamedType → String
  /-- The type behind a lazy reference, if the reference has been forced. -/
  target? : LazyRef → Option Ty := fun _ => none
  /-- How many lazy references are followed, one behind the other. -/
  depth : Nat := 0

/-- A bare type as a type. -/
def BareTy.type : BareTy → Ty
  | base t => .base t
  | listOf id inner => .listOf id inner

namespace Ty

instance : Inhabited Ty := ⟨.base default⟩

/-- Whether a type is a non-null wrapper. -/
def isNonNull : Ty → Bool
  | nonNull .. => true
  | _ => false

/-- Whether a type is a wrapper. -/
def isWrapper : Ty → Bool
  | base _ => false
  | _ => true

/-- Whether two types are the same instance. -/
def same : Ty → Ty → Bool
  | base a, base b => a = b
  | nonNull a _, nonNull b _ => a = b
  | listOf a _, listOf b _ => a = b
  | _, _ => false

mutual

/-- How a type is written, given how definitions and lazy references are written. -/
def textWith (name : NamedType → String) (lazyText : LazyRef → String) : Ty → String
  | base t => name t
  | nonNull _ inner => refTextWith name lazyText inner ++ "!"
  | listOf _ inner => "[" ++ refTextWith name lazyText inner ++ "]"

/-- How a reference is written, given how definitions and lazy references are written. -/
def refTextWith (name : NamedType → String) (lazyText : LazyRef → String) : TypeRef → String
  | .named n => n
  | .direct t => t.textWith name lazyText
  | .lazy r => lazyText r

end

end Ty

/-- How a lazy reference is written: as its type, if that is known. -/
def Known.lazyText (k : Known) : Nat → LazyRef → String
  | 0, _ => "<lazy>"
  | depth + 1, r =>
    match k.target? r with
    | some t => t.textWith k.name (k.lazyText depth)
    | none => "<lazy>"

/-- How a type is written. -/
def Ty.text (k : Known) (t : Ty) : String := t.textWith k.name (k.lazyText k.depth)

namespace TypeRef

/-- How a reference is written. -/
def text (k : Known) (r : TypeRef) : String := Ty.refTextWith k.name (k.lazyText k.depth) r

/-- The type of a reference that is known without looking it up or forcing it. -/
def known? (k : Known) : TypeRef → Option Ty
  | named _ => none
  | direct t => some t
  | lazy r => k.target? r

/-- A non-null wrapper; what is known to be non-null already is refused. -/
def nonNull? (k : Known) (id : PartId) (inner : TypeRef) : Except Defect Ty :=
  match inner.known? k with
  | some t => if t.isNonNull then .error (.doubleNonNull (t.text k)) else .ok (.nonNull id inner)
  | none => .ok (.nonNull id inner)

end TypeRef

end EntityQuery
