import EntityQuery.Execution.Completion
import EntityQuery.Proofs.Promise.Gathering
import EntityQuery.Proofs.Validation.Coverage

/-!
# What an execution means

The meaning of a document, with no promises and no queues: which values it may come to, each with the
failures that are met on the way. Callbacks may come to different things in different states of the
application, so the meaning is a relation.

* `Resolves`: what a resolver comes to, after whatever promise it answers with.
* `FieldMeans`: a field, given what completes the value of its resolver.
* `Schema.entityMeans`: the fields of an entity, by recursion on the query.
* `Schema.queryMeans`, `Schema.documentMeans`: queries and documents.
-/

namespace EntityQuery

open Lookup Session

variable {σ : Type}

/-- Values with the failures that are met on the way to them. -/
abbrev Meaning := Json → Multiset Failure → Prop

/-! ## Resolvers -/

/-- What an answer comes to. A promise that nothing settles comes to a failure where another queue
runs dry, and to nothing on the queue of the execution. -/
inductive Answer.Means : Answer σ → Except Failure Json → Prop
  | ready (v : Json) : Means (.ready v) (.ok v)
  | deferred {compute : Callback σ Json} {r : Except Fault Json} (h : compute.Gives r) :
      Means (.deferred compute) (r.mapError Fault.toFailure)
  | settling {home : Home} {hops : Nat} {finish : Callback σ Json} {r : Except Fault Json}
      (h : finish.Gives r) : Means (.settling home hops finish) (r.mapError Fault.toFailure)
  | stuck : Means (.stuck .foreign) (.error WaitFault.stalled.failure)

/-- What a resolver comes to. -/
inductive Resolves (c : Callback σ (Answer σ)) : Except Failure Json → Prop
  | fault {f : Fault} (h : c.Gives (.error f)) : Resolves c (.error f.toFailure)
  | answer {a : Answer σ} {r : Except Failure Json} (h : c.Gives (.ok a)) (ha : a.Means r) :
      Resolves c r

/-- The calls that an execution makes to resolvers of the schema. -/
inductive Schema.Calls (schema : Schema σ) : Callback σ (Answer σ) → Prop
  | entity {t : NamedType} {e : Entity σ} (he : schema.entity? t = some e)
      (arguments : Entries Json) (context : Context) : Calls schema (e.resolve arguments context)
  | field {t : NamedType} {e : Entity σ} {a : Attribute σ} (he : schema.entity? t = some e)
      (ha : a ∈ e.attributes) (reference : Json) (site : Site) :
      Calls schema (a.resolve reference site)
  | act {t : NamedType} {e : Entity σ} {a : Act σ} (he : schema.entity? t = some e)
      (ha : a ∈ e.acts) (reference : Json) (arguments : Entries Json) :
      Calls schema (a.perform reference arguments)
  | link {t : NamedType} {e : Entity σ} {l : Link σ} (he : schema.entity? t = some e)
      (hl : l ∈ e.links) (reference : Json) (site : Site) : Calls schema (l.resolve reference site)

/-! ## Fields -/

/-- A field: what its resolver comes to is completed; where one of both fails, the field is null and
the failure is kept. -/
inductive FieldMeans (place : Location) (c : Callback σ (Answer σ))
    (completes : Json → Except Failure Json → Multiset Failure → Prop) : Meaning
  | unresolved {f : Failure} (h : Resolves c (.error f)) :
      FieldMeans place c completes .null {f.located [place]}
  | failed {w : Json} {f : Failure} {es : Multiset Failure} (h : Resolves c (.ok w))
      (hc : completes w (.error f) es) :
      FieldMeans place c completes .null (es + {f.located [place]})
  | completed {w v : Json} {es : Multiset Failure} (h : Resolves c (.ok w))
      (hc : completes w (.ok v) es) : FieldMeans place c completes v es

/-- What a link leads to: nothing, one entity, or a list of them. -/
inductive LinkedMeans (complete : Json → Meaning) : Json → Meaning
  | null : LinkedMeans complete .null .null 0
  | array {references vs : List Json} {es : Multiset Failure}
      (h : Together (references.map complete) vs es) :
      LinkedMeans complete (.array references) (.array vs) es
  | one {w v : Json} {es : Multiset Failure} (hn : w.isNull = false)
      (ha : ∀ references, w ≠ .array references) (h : complete w v es) : LinkedMeans complete w v es

namespace Execution

/-- What is kept of a field that the entity does not have. -/
def refusal (site : Site) (e : Entity σ) (kind : ArtifactKind) (name : String) : Failure :=
  (Failure.engine (Validator.unknownArtifact e.name kind name)).located [place site kind name]

/-- What is kept of a query that names no entity. -/
def rootRefusal (name : String) (q : Query) : Failure :=
  (Failure.engine ("Unknown entity type \"" ++ q.typeName.getD "" ++ "\"")).located [.ofQuery name]

/-- Where a query of the document starts. -/
def rootSite (schema : Schema σ) (context : Context) (name : String) (q : Query) (e : Entity σ) :
    Site where
  artifact? := none
  entity := e.name
  query := q
  queryName := name
  path := []
  arguments := Argument.applyDefaults e.arguments q.arguments
  context
  onDemand := schema.onDemand

/-- A field that the entity does not have is null. -/
def unknownMeans (site : Site) (e : Entity σ) (kind : ArtifactKind) (name : String) : Meaning :=
  fun v es => v = .null ∧ es = {refusal site e kind name}

/-- An act on an entity. -/
def actMeans (site : Site) (e : Entity σ) (reference : Json) (supplied : Entries Json)
    (name : String) : Meaning :=
  match e.act? name with
  | none => unknownMeans site e .act name
  | some a =>
    FieldMeans (place site .act name) (a.run reference supplied) fun w r es => r = .ok w ∧ es = 0

end Execution

open Execution

namespace Schema

variable (schema : Schema σ) (s : Session σ)

/-- The value of an attribute as its type completes it. -/
def Coerces (a : Attribute σ) (v : Json) (r : Except Fault Json) : Prop :=
  match a.type? with
  | none => r = .ok v
  | some ref => ∃ t, Answers (ref.resolve schema schema.find) t s ∧
      (t.serialize schema schema.find v).Gives s r

/-- The value of an attribute as its type and then its rule complete it. -/
inductive AttributeMeans (a : Attribute σ) (v : Json) :
    Except Failure Json → Multiset Failure → Prop
  | uncoerced {f : Fault} (h : schema.Coerces s a v (.error f)) :
      AttributeMeans a v (.error f.toFailure) 0
  | ruled {w : Json} {r : Except Fault Unit} (h : schema.Coerces s a v (.ok w))
      (hr : (a.checkRule w).Gives r) :
      AttributeMeans a v ((r.map fun _ => w).mapError Fault.toFailure) 0

/-- An attribute of an entity, by name. -/
def fieldMeans (site : Site) (e : Entity σ) (reference : Json) (name : String) : Meaning :=
  match e.attribute? name with
  | none => unknownMeans site e .field name
  | some a =>
    FieldMeans (place site .field name) (a.resolve reference (site.focus .field a.label))
      (schema.AttributeMeans s a)

/-- A link of an entity, given the meaning of the entity that it leads to. -/
def linkMeans (site : Site) (e : Entity σ) (reference : Json) (name : String) (nested : Query)
    (complete : Site → Entity σ → Json → Meaning) : Meaning :=
  match e.link? name with
  | none => unknownMeans site e .link name
  | some l => fun v es => ∃ t target,
      Answers (l.follow schema schema.find e.name) (t, target) s ∧
        let arguments := Argument.applyDefaults l.arguments nested.arguments
        let here := { site.focus .link l.label with arguments }
        let there := site.descend name target.name nested arguments
        FieldMeans (place site .link name) (l.resolve reference here)
          (fun w r es => ∃ u, r = .ok u ∧ LinkedMeans (complete there target) w u es) v es

/-! ## Entities -/

mutual

/-- The fields that a query asks for, as one object. -/
def entityMeans (site : Site) (e : Entity σ) (reference : Json) : Query → Meaning
  | ⟨_, attributes, act?, arguments, links⟩ => fun v es => ∃ vs,
      Together (attributes.map (schema.fieldMeans s site e reference) ++
        act?.toList.map (actMeans site e reference arguments) ++
          linksMean site e reference links) vs es ∧
        v = .object (Entries.ofPairs ((attributes ++ act?.toList ++ Entries.keys links).zip vs))

/-- The links that a query asks for, in order. -/
def linksMean (site : Site) (e : Entity σ) (reference : Json) :
    List (String × Query) → List Meaning
  | [] => []
  | (name, nested) :: rest =>
    schema.linkMeans s site e reference name nested (fun there target linked =>
      entityMeans there target linked nested) :: linksMean site e reference rest

end

/-! ## Queries and documents -/

/-- A query of the document. -/
inductive queryMeans (context : Context) (name : String) (q : Query) : Meaning
  | unknown (h : q.Roots schema s none) : queryMeans context name q .null {rootRefusal name q}
  | unresolved {e : Entity σ} {f : Failure} (h : q.Roots schema s (some e))
      (hr : Resolves (e.fetch q.arguments context) (.error f)) :
      queryMeans context name q .null {f.located [.ofQuery name]}
  | resolved {e : Entity σ} {w v : Json} {es : Multiset Failure}
      (h : q.Roots schema s (some e)) (hr : Resolves (e.fetch q.arguments context) (.ok w))
      (hv : schema.entityMeans s (rootSite schema context name q e) e w q v es) :
      queryMeans context name q v es

/-- The data of a document. -/
def documentMeans (context : Context) (d : Document) (data : Entries Json)
    (es : Multiset Failure) : Prop :=
  ∃ vs, Together (d.queries.map fun (name, q) => schema.queryMeans s context name q) vs es ∧
    data = Entries.ofPairs (d.names.zip vs)

end Schema

end EntityQuery
