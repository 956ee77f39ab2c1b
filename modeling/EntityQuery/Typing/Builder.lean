import EntityQuery.Typing.Draft

/-!
# Building entities

An entity is declared clause by clause, and then built: its artifacts and arguments are entered into
tables, each under its name. An act or a link keeps the first argument of a name and notes the names that
come again.

* `Clause`, `Draft.ofClauses`: what is said of an entity, and the draft that it comes to.
* `Declared`: the arguments of an act or a link.
* `Draft.enter`, `Draft.enterArguments`: tables filled in order of declaration.
* `Draft.blueprint`: the tables of an entity; `Draft.assemble`: the entity.
-/

namespace EntityQuery

/-- What is said of an entity. -/
inductive Clause (σ : Type)
  | description (text : String)
  /-- It is deprecated, for a reason. -/
  | deprecated (reason : String)
  /-- Whether it is deprecated, whatever else is said. -/
  | setDeprecated (flag : Bool)
  | resolve (f : Entries Json → Context → Callback σ (Answer σ))
  | attribute (a : Attribute σ)
  | act (a : Act σ)
  | link (l : Link σ)
  | argument (a : Argument)

/-- The arguments that an act or a link has declared so far. -/
structure Declared where
  /-- The first argument of each name. -/
  kept : Entries Argument := []
  /-- The names that came again. -/
  repeated : List String := []

namespace Declared

/-- Declares one more argument. -/
def add (d : Declared) (a : Argument) : Declared :=
  if Entries.has d.kept a.name then { d with repeated := d.repeated ++ [a.name] }
  else { d with kept := Entries.insert d.kept a.name a }

/-- Arguments that are declared one after the other. -/
def ofList (arguments : List Argument) : Declared := arguments.foldl add {}

/-- The arguments by name: every kept name is checked, then none may have come again. -/
def table (owner : String) (d : Declared) : Except Defect (Entries Argument) := do
  d.kept.forM fun (_, a) => Draft.checkName owner a.name
  match d.repeated.head? with
  | some name => throw (.duplicateArgument owner name)
  | none => return d.kept

end Declared

/-- An entity with its artifacts and arguments in tables, each under its name. -/
structure Blueprint (σ : Type) where
  name : String
  description : Option String
  deprecated : Bool
  reason : Option String
  resolve : Entries Json → Context → Callback σ (Answer σ)
  attributes : Entries (Attribute σ)
  /-- Each with its arguments. -/
  acts : Entries (Act σ × Entries Argument)
  /-- Each with its arguments. -/
  links : Entries (Link σ × Entries Argument)
  arguments : Entries Argument

namespace Blueprint

variable {σ : Type}

/-- The entity itself. -/
def entity (b : Blueprint σ) : Entity σ where
  name := b.name
  description := b.description
  deprecated := b.deprecated
  reason := b.reason
  resolve := b.resolve
  attributes := b.attributes.map Prod.snd
  acts := b.acts.map fun (_, a, table) => { a with arguments := table.map Prod.snd }
  links := b.links.map fun (_, l, table) => { l with arguments := table.map Prod.snd }
  arguments := b.arguments.map Prod.snd

end Blueprint

namespace Draft

variable {σ α β : Type}

/-- A draft with one more clause. -/
def say (d : Draft σ) : Clause σ → Draft σ
  | .description text => { d with description := some text }
  | .deprecated reason => { d with reason := some reason }
  | .setDeprecated flag => { d with deprecated? := some flag }
  | .resolve f => { d with resolve? := some f }
  | .attribute a => { d with attributes := d.attributes ++ [a] }
  | .act a => { d with acts := d.acts ++ [a] }
  | .link l => { d with links := d.links ++ [l] }
  | .argument a => { d with arguments := d.arguments ++ [a] }

/-- The draft that some clauses come to, in order. -/
def ofClauses (name : String) (clauses : List (Clause σ)) : Draft σ := clauses.foldl say { name }

/-- Takes a name for an artifact of an entity; the answer is what is taken then. -/
def claim (entity : String) (taken : List String) (name : String) : Except Defect (List String) := do
  checkName (entity ++ "." ++ name) name
  if taken.contains name then throw (.duplicateArtifact entity name)
  return taken ++ [name]

/-- Enters artifacts into a table in order, given the names that are taken. -/
def enter (entity : String) (name : α → String) (entry : α → Except Defect β) :
    List α → List String → Entries β → Except Defect (List String × Entries β)
  | [], taken, table => return (taken, table)
  | a :: rest, taken, table => do
    let taken ← claim entity taken (name a)
    let b ← entry a
    enter entity name entry rest taken (Entries.insert table (name a) b)

/-- Enters the arguments of an entity into a table in order. -/
def enterArguments (entity : String) :
    List Argument → Entries Argument → Except Defect (Entries Argument)
  | [], table => return table
  | a :: rest, table => do
    checkName entity a.name
    if Entries.has table a.name then throw (.duplicateArgument entity a.name)
    enterArguments entity rest (Entries.insert table a.name a)

/-- An artifact with its arguments by name. -/
def entryOf (entity : String) (name : α → String) (arguments : α → List Argument) (a : α) :
    Except Defect (α × Entries Argument) := do
  return (a, ← (Declared.ofList (arguments a)).table (entity ++ "." ++ name a))

/-- The tables of the entity that a draft declares, or what is wrong with the draft. -/
def blueprint (d : Draft σ) : Except Defect (Blueprint σ) := do
  checkName "Entity" d.name
  match d.resolve? with
  | none => throw (.missingResolver d.name)
  | some resolve =>
    let (taken, attributes) ← enter d.name (fun a => a.label.name) pure d.attributes [] []
    let (taken, acts) ← enter d.name (fun a => a.label.name)
      (entryOf d.name (fun a => a.label.name) Act.arguments) d.acts taken []
    let (_, links) ← enter d.name (fun l => l.label.name)
      (entryOf d.name (fun l => l.label.name) Link.arguments) d.links taken []
    let arguments ← enterArguments d.name d.arguments []
    return {
      name := d.name
      description := d.description
      deprecated := d.deprecated?.getD d.reason.isSome
      reason := d.reason
      resolve, attributes, acts, links, arguments }

/-- The entity that a draft declares, or what is wrong with the draft. -/
def assemble (d : Draft σ) : Except Defect (Entity σ) := return (← d.blueprint).entity

end Draft

end EntityQuery
