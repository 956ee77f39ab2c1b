import EntityQuery.Schema.Coercion
import EntityQuery.Validation.Rule

/-!
# Validating documents

Checks a document against a schema before it is executed. Every violation becomes a failure that says
where it is and which rule it breaks; using something deprecated is a warning.

* `Document.validate`: the violations of a document, names first, then query by query.
* `Validator.query`: the violations of one query and of the queries nested in it.
-/

namespace EntityQuery

/-- The query that is being checked, and the links to it. -/
structure Spot where
  queryName : String
  path : List String := []
  deriving DecidableEq, Repr

namespace Spot

/-- One link further. -/
def descend (s : Spot) (link : String) : Spot := { s with path := s.path ++ [link] }

/-- The place of the query, or of a field of it. -/
def location (s : Spot) (field : Option String) : Location :=
  match s.path ++ field.toList with
  | [] => .ofQuery s.queryName
  | parts => ⟨s.queryName, some (String.intercalate "." parts), []⟩

end Spot

/-- What a validation goes by. -/
structure Validator (σ : Type) where
  schema : Schema σ
  rules : List Rule := Rule.all

namespace Validator

variable {σ : Type}

/-- Whether a rule is checked. -/
def checks (v : Validator σ) (r : Rule) : Bool := v.rules.contains r

/-- The violation of a rule, if the rule is checked. -/
def report (v : Validator σ) (r : Rule) (message : String) (place : Location) : List Failure :=
  if v.checks r then
    [((Failure.engine message).withLocations [place]).withInfo "rule" (.string r.name)]
  else []

/-- What is said of a name that the entity does not have. -/
def unknownArtifact (entity : String) (kind : ArtifactKind) (name : String) : String :=
  "Entity \"" ++ entity ++ "\" has no " ++ kind.text ++ " \"" ++ name ++ "\""

/-! ## Warnings -/

/-- What is said of something deprecated. -/
def deprecationText (what : String) (reason : Option String) : String :=
  match reason with
  | some reason => what ++ " is deprecated: " ++ reason
  | none => what ++ " is deprecated"

/-- Warns of something deprecated. -/
def warnDeprecated (what : String) (reason : Option String) : Lookup σ Unit :=
  modify (Session.warn · .deprecatedUsage (deprecationText what reason))

/-- Warns of an artifact if it is deprecated. -/
def noteArtifact (entity : Entity σ) (label : Label) : Lookup σ Unit :=
  if label.deprecated then warnDeprecated (entity.name ++ "." ++ label.name) label.reason
  else pure ()

/-! ## Names -/

/-- The names that occur more than once, in order of first occurrence. -/
def repeatedNames (names : List String) : List String :=
  (names.filter fun name => 1 < names.count name).eraseDups

/-- The repeated query names of a document. -/
def names (v : Validator σ) (d : Document) : List Failure :=
  (repeatedNames d.names).flatMap fun name =>
    v.report .uniqueQueryNames ("There can be only one query named \"" ++ name ++ "\"")
      (.ofQuery name)

/-- The entity that a query of the document names. -/
def root (v : Validator σ) (spot : Spot) (q : Query) :
    Lookup σ (Except (List Failure) (Entity σ)) := do
  let refuse (message : String) : Except (List Failure) (Entity σ) :=
    .error (v.report .knownEntityTypes message (spot.location none))
  match q.typeName with
  | none => return refuse ("Query \"" ++ spot.queryName ++ "\" does not name a type")
  | some typeName =>
    match ← v.schema.find typeName with
    | none => return refuse ("Unknown type \"" ++ typeName ++ "\"")
    | some t =>
      match v.schema.entity? t with
      | none => return refuse ("Type \"" ++ v.schema.nameOf t ++ "\" is not an entity")
      | some e =>
        if e.deprecated then warnDeprecated e.name e.reason
        return .ok e

/-! ## Arguments -/

/-- The violation of a supplied value that its declaration does not accept. -/
def suppliedValue (v : Validator σ) (spot : Spot) (a : Argument) (name : String) (value : Json) :
    Lookup σ (List Failure) := do
  if !v.checks .argumentsOfCorrectType then return []
  let type ← a.type.resolve v.schema v.schema.find
  match ← (type.parse v.schema v.schema.find value).catchFailure with
  | .ok _ => return []
  | .error f =>
    return v.report .argumentsOfCorrectType
      ("Argument \"" ++ name ++ "\" has invalid value " ++ value.render ++ ": " ++ f.message)
      (spot.location none)

/-- The violations of the supplied arguments, one by one. The declarations of the entity or link go
before those of the act. -/
def supplied (v : Validator σ) (spot : Spot) (declared act : List Argument) :
    Entries Json → Lookup σ (List Failure)
  | [] => return []
  | (name, value) :: rest => do
    let first ←
      match (Argument.find? declared name).or (Argument.find? act name) with
      | some a => v.suppliedValue spot a name value
      | none =>
        pure (v.report .knownArgumentNames ("Unknown argument \"" ++ name ++ "\"")
          (spot.location none))
    return first ++ (← v.supplied spot declared act rest)

/-- The required arguments that were not supplied. -/
def missing (v : Validator σ) (spot : Spot) (supplied : Entries Json) :
    List Argument → Lookup σ (List Failure)
  | [] => return []
  | a :: rest => do
    let first ← do
      if Entries.has supplied a.name then pure []
      else if ← a.isRequired v.schema v.schema.find then do
        let type ← v.schema.refTextOf a.type
        pure (v.report .providedRequiredArguments
          ("Argument \"" ++ a.name ++ "\" of type \"" ++ type ++ "\" is required but not provided")
          (spot.location none))
      else pure []
    return first ++ (← v.missing spot supplied rest)

/-- The violations of the arguments of a query. -/
def arguments (v : Validator σ) (spot : Spot) (declared act : List Argument)
    (given : Entries Json) : Lookup σ (List Failure) := do
  let wrong ← v.supplied spot declared act given
  if v.checks .providedRequiredArguments then
    return wrong ++ (← v.missing spot given (declared ++ act))
  else return wrong

/-! ## Queries -/

/-- The violations of the attributes asked for. -/
def attributes (v : Validator σ) (spot : Spot) (e : Entity σ) :
    List String → Lookup σ (List Failure)
  | [] => return []
  | name :: rest => do
    let first ←
      match e.attribute? name with
      | some a => do
        noteArtifact e a.label
        pure []
      | none =>
        pure (v.report .knownArtifacts (unknownArtifact e.name .field name)
          (spot.location (some name)))
    return first ++ (← v.attributes spot e rest)

/-- The violation of the act asked for, and the arguments of the act. -/
def act (v : Validator σ) (spot : Spot) (e : Entity σ) :
    Option String → Lookup σ (List Failure × List Argument)
  | none => return ([], [])
  | some name =>
    match e.act? name with
    | some a => do
      noteArtifact e a.label
      return ([], a.arguments)
    | none =>
      return (v.report .knownArtifacts (unknownArtifact e.name .act name)
        (spot.location (some name)), [])

/-- The violation of a nested query that names another type than its link leads to. -/
def nestedType (v : Validator σ) (spot : Spot) (link target : String) (typeName : Option String) :
    List Failure :=
  match typeName with
  | none => []
  | some typeName =>
    if typeName = target then []
    else
      v.report .knownEntityTypes
        ("Link \"" ++ link ++ "\" returns \"" ++ target ++ "\" but the nested query names type \"" ++
          typeName ++ "\"") (spot.location none)

mutual

/-- The violations of a query on an entity whose arguments are declared by `declared`. -/
def query (v : Validator σ) (spot : Spot) (e : Entity σ) (declared : List Argument) :
    Query → Lookup σ (List Failure)
  | ⟨_, attributes, act, arguments, links⟩ => do
    let ofAttributes ← v.attributes spot e attributes
    let (ofAct, actArguments) ← v.act spot e act
    let ofArguments ← v.arguments spot declared actArguments arguments
    let ofLinks ← v.links spot e links
    return ofAttributes ++ ofAct ++ ofArguments ++ ofLinks

/-- The violations of the links asked for, and of the queries nested under them. -/
def links (v : Validator σ) (spot : Spot) (e : Entity σ) :
    List (String × Query) → Lookup σ (List Failure)
  | [] => return []
  | (name, nested) :: rest => do
    let first ←
      match e.link? name with
      | none =>
        pure (v.report .knownArtifacts (unknownArtifact e.name .link name)
          (spot.location (some name)))
      | some link => do
        noteArtifact e link.label
        let (_, target) ← link.follow v.schema v.schema.find e.name
        let inside := spot.descend name
        let ofType := v.nestedType inside name target.name nested.typeName
        pure (ofType ++ (← v.query inside target link.arguments nested))
    return first ++ (← v.links spot e rest)

end

/-- The violations of the queries of a document, in order. -/
def queries (v : Validator σ) : List (String × Query) → Lookup σ (List Failure)
  | [] => return []
  | (name, q) :: rest => do
    let spot : Spot := { queryName := name }
    let first ←
      match ← v.root spot q with
      | .error failures => pure failures
      | .ok e => v.query spot e e.arguments q
    return first ++ (← v.queries rest)

end Validator

/-- The violations of a document: repeated names first, then query by query. -/
def Document.validate {σ : Type} (d : Document) (v : Validator σ) : Lookup σ (List Failure) := do
  return v.names d ++ (← v.queries d.queries)

end EntityQuery
