import EntityQuery.Typing.Entity

/-!
# Drafts of entities

An entity as it is declared, before its names have been checked.

* `Draft`: what has been declared, in order.
* `Draft.build`: the entity, if every name follows the grammar, no two artifacts and no two arguments
  of one owner share a name, and something resolves the entity.
-/

namespace EntityQuery

/-- An entity as it is declared. -/
structure Draft (σ : Type) where
  name : String
  description : Option String := none
  /-- The deprecation, if it is set; else a reason makes the entity deprecated. -/
  deprecated? : Option Bool := none
  reason : Option String := none
  resolve? : Option (Entries Json → Context → Callback σ (Answer σ)) := none
  attributes : List (Attribute σ) := []
  acts : List (Act σ) := []
  links : List (Link σ) := []
  arguments : List Argument := []

namespace Draft

variable {σ : Type}

/-- Checks a name for its owner. -/
def checkName (owner name : String) : Except Defect Unit :=
  (Name.check name).mapError (.invalidName owner)

/-- The first name that occurs in a list for the second time. -/
def firstRepeat : List String → List String → Option String
  | _, [] => none
  | seen, name :: rest => if seen.contains name then some name else firstRepeat (name :: seen) rest

/-- Checks the arguments of an act or a link: first every name, then for repeats. -/
def checkArguments (owner : String) (arguments : List Argument) : Except Defect Unit := do
  arguments.forM fun a => checkName owner a.name
  match firstRepeat [] (arguments.map Argument.name) with
  | some name => throw (.duplicateArgument owner name)
  | none => return ()

/-- The artifacts with their arguments: attributes, then acts, then links. -/
def artifacts (d : Draft σ) : List (String × List Argument) :=
  d.attributes.map (fun a => (a.label.name, [])) ++
    d.acts.map (fun a => (a.label.name, a.arguments)) ++
    d.links.map (fun l => (l.label.name, l.arguments))

/-- Checks artifacts in order, given the names that are taken. -/
def checkArtifacts (entity : String) :
    List String → List (String × List Argument) → Except Defect Unit
  | _, [] => .ok ()
  | taken, (name, arguments) :: rest => do
    let owner := entity ++ "." ++ name
    checkName owner name
    if taken.contains name then throw (.duplicateArtifact entity name)
    checkArguments owner arguments
    checkArtifacts entity (name :: taken) rest

/-- Checks the arguments of the entity in order, given the names that are taken. -/
def checkOwnArguments (entity : String) : List String → List Argument → Except Defect Unit
  | _, [] => .ok ()
  | taken, a :: rest => do
    checkName entity a.name
    if taken.contains a.name then throw (.duplicateArgument entity a.name)
    checkOwnArguments entity (a.name :: taken) rest

/-- The entity that a draft declares, or what is wrong with the draft. -/
def build (d : Draft σ) : Except Defect (Entity σ) := do
  checkName "Entity" d.name
  match d.resolve? with
  | none => throw (.missingResolver d.name)
  | some resolve =>
    checkArtifacts d.name [] d.artifacts
    checkOwnArguments d.name [] d.arguments
    return {
      name := d.name
      description := d.description
      deprecated := d.deprecated?.getD d.reason.isSome
      reason := d.reason
      resolve := resolve
      attributes := d.attributes
      acts := d.acts
      links := d.links
      arguments := d.arguments }

end Draft

end EntityQuery
