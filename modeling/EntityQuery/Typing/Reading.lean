import EntityQuery.Typing.Reference

/-!
# Reading type expressions

Reading an expression makes instances: every wrapper and every lazy reference becomes a part of the
declaration that it stands in. What a lazy reference leads to is not read with it, but in a scope of its
own once the reference is forced.

* `Scope`: what an expression is read in; `Reading` counts the parts of a declaration.
* `TyExpr.read`, `RefExpr.read`: a non-null wrapper around another one is refused.
* `LazyRef.read`: what a lazy reference leads to.
-/

namespace EntityQuery

/-- What a declaration is read in. -/
structure Scope where
  /-- The type under a handle. -/
  handle : String → Ty
  /-- What is known of types. -/
  known : Known
  /-- The instance that is read. -/
  owner : InstanceId
  /-- The places on the way to what is read. -/
  path : List Nat := []

/-- Reading a declaration: counts its parts, and may stop at a defect. -/
abbrev Reading := StateT Nat (Except Defect)

/-- A new part of what is read. -/
def Scope.newPart (s : Scope) : Reading PartId := do
  let index ← get
  set (index + 1)
  return ⟨s.owner, index :: s.path⟩

mutual

/-- The type that an expression declares. -/
def TyExpr.read (s : Scope) : TyExpr → Reading Ty
  | .standard k => return .base (.standard k)
  | .use handle => return s.handle handle
  | .nonNull inner => do
    let r ← inner.read s
    let id ← s.newPart
    match TypeRef.nonNull? s.known id r with
    | .ok t => return t
    | .error d => throw d
  | .listOf inner => do
    let r ← inner.read s
    return .listOf (← s.newPart) r

/-- The reference that an expression declares. -/
def RefExpr.read (s : Scope) : RefExpr → Reading TypeRef
  | .named name => return .named name
  | .direct t => return .direct (← t.read s)
  | .lazy tag target => return .lazy ⟨← s.newPart, tag, target⟩

end

/-- What a lazy reference leads to, given the scope of an instance. -/
def LazyRef.read (scope : InstanceId → Scope) (r : LazyRef) : Except Defect Ty :=
  (r.declared.read { scope r.id.owner with path := r.id.path }).run' 0

end EntityQuery
