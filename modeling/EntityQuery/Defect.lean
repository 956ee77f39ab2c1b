import EntityQuery.Name

/-!
# Defects

What can be wrong with a schema: with its definitions, or with what its loader answers. A defect
says that the schema is broken, never that a request is.

* `Defect.message`: the wording of a defect.
* `Defect.kind`: the word for a defect's kind.
-/

namespace EntityQuery

/-- What is wrong with a schema. -/
inductive Defect
  /-- A declared name breaks the grammar of names. -/
  | invalidName (owner : String) (fault : NameFault)
  /-- An entity has nothing that resolves it. -/
  | missingResolver (entity : String)
  /-- Two artifacts of an entity share a name. -/
  | duplicateArtifact (entity name : String)
  /-- An argument is declared twice. -/
  | duplicateArgument (owner name : String)
  /-- An attribute's type does not unwrap to a scalar. -/
  | invalidAttributeType (entity name found : String)
  /-- A link leads to something that is no entity. -/
  | invalidLinkType (entity name found : String)
  /-- An argument's type does not unwrap to a scalar. -/
  | invalidArgumentType (owner name found : String)
  /-- A non-null type wraps another one. -/
  | doubleNonNull (found : String)
  /-- No type has this name. -/
  | unknownType (name : String)
  /-- The loader answered with a type of another name. -/
  | typeNameMismatch (expected found : String)
  /-- A wrapping type stands where a named one is needed. -/
  | notANamedType (name found : String)
  /-- Two instances share a name. -/
  | duplicateType (name : String)
  /-- A type was asked for while it was being loaded. -/
  | cyclicLoad (name : String)
  /-- The loader answers with another instance than the definitions refer to. -/
  | loaderInstanceMismatch (name : String)
  deriving DecidableEq, Repr

namespace Defect

/-- The wording of a defect. -/
def message : Defect → String
  | invalidName owner fault => owner ++ ": " ++ fault.message
  | missingResolver entity =>
    entity ++ " - Entity resolver must be a function returning a reference value"
  | duplicateArtifact entity name =>
    entity ++ "." ++ name ++ " - Artifact names must be unique within an entity"
  | duplicateArgument owner name => owner ++ "(" ++ name ++ ":) - Argument names must be unique"
  | invalidAttributeType entity name found =>
    entity ++ "." ++ name ++ " - Attribute type must be a Scalar but got: " ++ found
  | invalidLinkType entity name found =>
    entity ++ "." ++ name ++ " - Link type must be Entity but got: " ++ found
  | invalidArgumentType owner name found =>
    owner ++ "(" ++ name ++ ":) - Argument type must be a Scalar but got: " ++ found
  | doubleNonNull found => "NonNull cannot wrap another NonNull: " ++ found
  | unknownType name => "Unknown type \"" ++ name ++ "\""
  | typeNameMismatch expected found =>
    "Type loader is expected to return type \"" ++ expected ++ "\", but it returned \"" ++ found ++
      "\""
  | notANamedType name found =>
    "Type loader is expected to return a named type \"" ++ name ++ "\", but it returned " ++ found
  | duplicateType name =>
    "Schema must contain unique named types but contains multiple types named \"" ++ name ++ "\""
  | cyclicLoad name => "Type \"" ++ name ++ "\" was requested while it is still being loaded"
  | loaderInstanceMismatch name =>
    "Type loader returns different instance for " ++ name ++ " than field/argument definitions. " ++
      "Make sure you always return the same instance for the same type name."

/-- The word for a defect's kind. -/
def kind : Defect → String
  | invalidName .. => "InvalidName"
  | missingResolver .. => "MissingResolver"
  | duplicateArtifact .. => "DuplicateArtifact"
  | duplicateArgument .. => "DuplicateArgument"
  | invalidAttributeType .. => "InvalidAttributeType"
  | invalidLinkType .. => "InvalidLinkType"
  | invalidArgumentType .. => "InvalidArgumentType"
  | doubleNonNull .. => "DoubleNonNull"
  | unknownType .. => "UnknownType"
  | typeNameMismatch .. => "TypeNameMismatch"
  | notANamedType .. => "NotANamedType"
  | duplicateType .. => "DuplicateType"
  | cyclicLoad .. => "CyclicLoad"
  | loaderInstanceMismatch .. => "LoaderInstanceMismatch"

end Defect

end EntityQuery
