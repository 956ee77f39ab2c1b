/-!
# Validation rules

The rules that a document is checked against; each can be left out.

* `Rule.all`: the rules in the order in which a full validation names them.
-/

namespace EntityQuery

/-- What a document is checked for. -/
inductive Rule
  /-- No query name is used twice. -/
  | uniqueQueryNames
  /-- Query types exist, are entities, and fit the links that they are nested under. -/
  | knownEntityTypes
  /-- Requested attributes, acts and links exist. -/
  | knownArtifacts
  /-- Supplied arguments are declared. -/
  | knownArgumentNames
  /-- Required arguments are supplied. -/
  | providedRequiredArguments
  /-- Supplied values fit the declared types. -/
  | argumentsOfCorrectType
  deriving DecidableEq, Repr

namespace Rule

/-- Every rule. -/
def all : List Rule :=
  [uniqueQueryNames, knownEntityTypes, knownArtifacts, knownArgumentNames,
    providedRequiredArguments, argumentsOfCorrectType]

/-- The name that a failure gives for its rule. -/
def name : Rule → String
  | uniqueQueryNames => "UniqueQueryNames"
  | knownEntityTypes => "KnownEntityTypes"
  | knownArtifacts => "KnownArtifacts"
  | knownArgumentNames => "KnownArgumentNames"
  | providedRequiredArguments => "ProvidedRequiredArguments"
  | argumentsOfCorrectType => "ArgumentsOfCorrectType"

/-- The rule of a name. -/
def ofName? (name : String) : Option Rule := all.find? fun r => r.name = name

theorem mem_all (r : Rule) : r ∈ all := by cases r <;> decide

end Rule

end EntityQuery
