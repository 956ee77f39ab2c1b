import EntityQuery.Typing.Callback
import EntityQuery.Typing.Scalar

/-!
# Entities

Composite types: attributes, acts and links, whose names share one space, and the callback that
resolves the entity itself.

* `Argument`: a declared argument; `Argument.applyDefaults` fills in what was left out.
* `Attribute`, `Act`, `Link`: the artifacts of an entity.
* `Entity`: an entity; `Entity.fetch`, `Act.run` and `Attribute.run` call back into the application.
* **`Argument.find?_applyDefaults_of_has`**: what was supplied stays as it is.
-/

namespace EntityQuery

/-- A declared argument. -/
structure Argument where
  name : String
  type : TypeRef
  description : Option String := none
  /-- The value that is used where the argument is left out. -/
  default? : Option Json := none

namespace Argument

/-- Fills in the defaults of the arguments that were left out, in order of declaration. -/
def applyDefaults (declared : List Argument) (supplied : Entries Json) : Entries Json :=
  declared.foldl (fun arguments a =>
    match a.default? with
    | some v => if Entries.has arguments a.name then arguments else arguments ++ [(a.name, v)]
    | none => arguments) supplied

/-- The declared argument of a name. -/
def find? (declared : List Argument) (name : String) : Option Argument :=
  declared.find? fun a => a.name = name

theorem find?_applyDefaults_of_has {declared : List Argument} {supplied : Entries Json}
    {name : String} {v : Json} (h : Entries.find? supplied name = some v) :
    Entries.find? (applyDefaults declared supplied) name = some v := by
  induction declared generalizing supplied with
  | nil => exact h
  | cons a rest ih =>
    simp only [applyDefaults, List.foldl_cons]
    refine ih ?_
    split
    · split
      · exact h
      · have append : ∀ es : Entries Json, Entries.find? es name = some v →
            ∀ tail, Entries.find? (es ++ tail) name = some v := by
          intro es
          induction es with
          | nil => intro he; simp at he
          | cons e es ihe =>
            intro he tail
            by_cases hk : e.1 = name <;> simp_all [Entries.find?]
        exact append _ h _
    · exact h

end Argument

/-- A field of an entity. -/
structure Attribute (σ : Type) where
  label : Label
  /-- The type of the field; without one, values pass unchanged. -/
  type? : Option TypeRef := none
  resolve : Json → Site → Callback σ (Answer σ)
  /-- What every value of the field has to meet. -/
  rule? : Option (Json → Callback σ Unit) := none

namespace Attribute

variable {σ : Type}

/-- A field that reads the member of its own name. -/
def property (name : String) : Attribute σ :=
  { label := { name }, resolve := fun reference _ => pure (.ready (reference.member name)) }

/-- Checks a value against the rule, if there is one. -/
def checkRule (a : Attribute σ) (v : Json) : Callback σ Unit :=
  match a.rule? with
  | some rule => rule v
  | none => pure ()

end Attribute

/-- An operation on an entity. -/
structure Act (σ : Type) where
  label : Label
  perform : Json → Entries Json → Callback σ (Answer σ)
  arguments : List Argument := []

/-- Performs an act, defaults filled in. -/
def Act.run {σ : Type} (a : Act σ) (reference : Json) (supplied : Entries Json) :
    Callback σ (Answer σ) :=
  a.perform reference (Argument.applyDefaults a.arguments supplied)

/-- An edge from an entity to another one. -/
structure Link (σ : Type) where
  label : Label
  target : TypeRef
  resolve : Json → Site → Callback σ (Answer σ)
  arguments : List Argument := []

/-- A composite type. -/
structure Entity (σ : Type) where
  name : String
  description : Option String := none
  deprecated : Bool := false
  reason : Option String := none
  resolve : Entries Json → Context → Callback σ (Answer σ)
  attributes : List (Attribute σ) := []
  acts : List (Act σ) := []
  links : List (Link σ) := []
  arguments : List Argument := []

namespace Entity

variable {σ : Type}

/-- The attribute of a name. -/
def attribute? (e : Entity σ) (name : String) : Option (Attribute σ) :=
  e.attributes.find? fun a => a.label.name = name

/-- The act of a name. -/
def act? (e : Entity σ) (name : String) : Option (Act σ) :=
  e.acts.find? fun a => a.label.name = name

/-- The link of a name. -/
def link? (e : Entity σ) (name : String) : Option (Link σ) :=
  e.links.find? fun l => l.label.name = name

/-- The label of the artifact of a kind and a name. -/
def artifact? (e : Entity σ) (kind : ArtifactKind) (name : String) : Option Label :=
  match kind with
  | .field => (e.attribute? name).map Attribute.label
  | .act => (e.act? name).map Act.label
  | .link => (e.link? name).map Link.label

/-- Resolves the entity, defaults filled in. -/
def fetch (e : Entity σ) (supplied : Entries Json) (context : Context) : Callback σ (Answer σ) :=
  e.resolve (Argument.applyDefaults e.arguments supplied) context

end Entity

/-- What a name of the application stands for. -/
inductive Definition (σ : Type)
  | scalar (s : Scalar σ)
  | entity (e : Entity σ)

/-- The name of a definition. -/
def Definition.name {σ : Type} : Definition σ → String
  | scalar s => s.name
  | entity e => e.name

end EntityQuery
