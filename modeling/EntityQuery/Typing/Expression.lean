/-!
# Type expressions

Types as an application declares them.

* `Standard`: the scalars that every schema has.
* `TyExpr`, `RefExpr`: types and references as they are declared.
-/

namespace EntityQuery

/-- The scalars that every schema has. -/
inductive Standard
  | string
  | int
  | float
  | boolean
  | id
  deriving DecidableEq, Repr

namespace Standard

/-- All standard scalars, in the order in which a schema lists them. -/
def all : List Standard := [string, int, float, boolean, id]

/-- The name of a standard scalar. -/
def name : Standard → String
  | string => "String"
  | int => "Int"
  | float => "Float"
  | boolean => "Boolean"
  | id => "ID"

/-- The standard scalar of a name. -/
def ofName? (name : String) : Option Standard := all.find? fun s => s.name = name

theorem name_injective {a b : Standard} (h : a.name = b.name) : a = b := by
  cases a <;> cases b <;> first | rfl | exact absurd h (by decide)

end Standard

mutual

/-- A type as it is declared. -/
inductive TyExpr
  | standard (s : Standard)
  /-- The type that is declared under a handle. -/
  | use (handle : String)
  | nonNull (inner : RefExpr)
  | listOf (inner : RefExpr)

/-- A reference to a type as it is declared. -/
inductive RefExpr
  | named (name : String)
  | direct (t : TyExpr)
  | lazy (tag : String) (target : TyExpr)

end

deriving instance DecidableEq for TyExpr
deriving instance DecidableEq for RefExpr

instance : Inhabited TyExpr := ⟨.standard .string⟩

instance : Inhabited RefExpr := ⟨.direct default⟩

end EntityQuery
