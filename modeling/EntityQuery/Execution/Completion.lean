import EntityQuery.Execution.Answer
import EntityQuery.Validation.Check

/-!
# Completing queries

An execution resolves the entity of each query, then the fields that the query asks for, each on its
own. A field that fails becomes null, and its failure is kept with its place; a defect of the schema
ends the execution.

* `Execution`: an execution under way.
* `Execution.settleField`: a field from the answer of its resolver to its value, or to null.
* `Execution.completeEntity`: the fields of an entity, as one object.
* `Execution.query`: a query; `Execution.document`: a promise of the report.
-/

namespace EntityQuery

/-- An execution under way. -/
structure Execution (σ : Type) where
  schema : Schema σ
  context : Context
  /-- The queue of its promises. -/
  queue : QueueId
  /-- Its place among all executions. -/
  index : Nat

namespace Execution

variable {σ α : Type}

/-- A new execution on a queue. -/
def new (schema : Schema σ) (context : Context) (queue : QueueId) : Run σ (Execution σ) :=
  .stepWorld fun w =>
    (⟨schema, context, queue, w.executions.size⟩, { w with executions := w.executions.push {} })

/-! ## What an execution meets -/

/-- Counts work. -/
def count (x : Execution σ) (change : Tally → Tally) : Run σ Unit :=
  Run.update x.index fun p => { p with tally := change p.tally }

/-- Keeps a failure; it is at the given place unless it says where it is. -/
def fail (x : Execution σ) (f : Failure) (place : Location) : Run σ Unit :=
  Run.update x.index fun p => { p with failures := p.failures ++ [f.located [place]] }

/-- Keeps a defect of the schema, if it is the first. -/
def abort (x : Execution σ) (d : Defect) : Run σ Unit :=
  Run.update x.index fun p => { p with fatal? := p.fatal?.or (some d) }

/-- Uses the schema; a defect is kept, and is a failure here. -/
def consult (x : Execution σ) (lookup : Lookup σ α) : Attempt σ α := do
  match ← Attempt.consult lookup with
  | .ok a => return a
  | .error d =>
    Attempt.ofRun (x.abort d)
    Attempt.fail (.ofDefect d)

/-! ## Promises of an execution -/

/-- A promise of null. -/
def null (x : Execution σ) : Run σ Promise := Promise.settled x.queue (.ok (.value .null))

/-- Keeps a failure and gives a promise of null. -/
def refuse (x : Execution σ) (f : Failure) (place : Location) : Run σ Promise := do
  x.fail f place
  x.null

/-- A promise of what a resolver answers. -/
def answered (x : Execution σ) (resolver : Callback σ (Answer σ)) : Run σ Promise := do
  let answer : Attempt σ (Thenable Payload (World σ)) := do
    let answer ← Attempt.call resolver
    answer.guard.begin x.queue
  match ← answer.caught with
  | .ok thenable => Promise.adopt x.queue thenable
  | .error f => Promise.settled x.queue (.error f)

/-- A promise of the values of promises, made into one. -/
def together (x : Execution σ) (promises : List Promise) (join : List Json → Json) :
    Run σ Promise := do
  let all ← Promise.gather x.queue Payload.bundle (promises.map .promise)
  all.map fun p => .pure (.ok (.value (join p.items)))

/-! ## Fields -/

/-- A field: the answer of its resolver is completed; what fails is kept, and the field is null. -/
def settleField (x : Execution σ) (place : Location) (resolver : Callback σ (Answer σ))
    (complete : Json → Attempt σ (Thenable Payload (World σ))) : Run σ Promise := do
  let source ← x.answered resolver
  x.count Tally.addExecution
  let completed ← source.andThen fun p => (complete p.json).caught
  completed.thenOrElse
    (fun p => do
      x.count Tally.addCompletion
      return .ok p)
    (fun f => do
      x.count Tally.addFailure
      x.fail f place
      return .ok (.value .null))

/-- The place of a field. -/
def place (site : Site) (kind : ArtifactKind) (name : String) : Location :=
  .ofField site.queryName (site.fieldPath name) kind.text

/-- A field that the entity does not have. -/
def unknown (x : Execution σ) (site : Site) (e : Entity σ) (kind : ArtifactKind) (name : String) :
    Run σ Promise :=
  x.refuse (.engine (Validator.unknownArtifact e.name kind name)) (place site kind name)

/-- The value of an attribute: coerced by its type, then checked against its rule. -/
def completeAttribute (x : Execution σ) (a : Attribute σ) (v : Json) : Attempt σ Json := do
  let v ←
    match a.type? with
    | none => pure v
    | some r => do
      let t ← x.consult (r.resolve x.schema x.schema.find)
      x.consult (t.serialize x.schema x.schema.find v)
  Attempt.call (a.checkRule v)
  return v

/-- An attribute of an entity, by name. -/
def field (x : Execution σ) (site : Site) (e : Entity σ) (reference : Json) (name : String) :
    Run σ Promise :=
  match e.attribute? name with
  | none => x.unknown site e .field name
  | some a =>
    x.settleField (place site .field name) (a.resolve reference (site.focus .field a.label))
      fun v => do return .value (.value (← x.completeAttribute a v))

/-- An act on an entity. -/
def act (x : Execution σ) (site : Site) (e : Entity σ) (reference : Json)
    (supplied : Entries Json) (name : String) : Run σ Promise :=
  match e.act? name with
  | none => x.unknown site e .act name
  | some a =>
    x.settleField (place site .act name) (a.run reference supplied)
      fun v => return .value (.value v)

/-- What a link leads to: nothing, one entity, or a list of them. -/
def completeLinked (x : Execution σ) (complete : Json → Attempt σ Promise) :
    Json → Attempt σ (Thenable Payload (World σ))
  | .null => return .value (.value .null)
  | .array references => do
    let promises ← references.mapM complete
    return .promise (← Attempt.ofRun (x.together promises .array))
  | reference => return .promise (← complete reference)

/-- A link of an entity, given how the entity that it leads to is completed. -/
def link (x : Execution σ) (site : Site) (e : Entity σ) (reference : Json) (name : String)
    (nested : Query) (complete : Site → Entity σ → Json → Attempt σ Promise) :
    Attempt σ Promise := do
  match e.link? name with
  | none => Attempt.ofRun (x.unknown site e .link name)
  | some l =>
    match ← Attempt.consult (l.follow x.schema x.schema.find e.name) with
    | .error d => do
      Attempt.ofRun (x.abort d)
      Attempt.ofRun x.null
    | .ok (_, target) => do
      let arguments := Argument.applyDefaults l.arguments nested.arguments
      let here := { site.focus .link l.label with arguments }
      let there := site.descend name target.name nested arguments
      Attempt.ofRun <| x.settleField (place site .link name) (l.resolve reference here)
        (x.completeLinked (complete there target))

/-! ## Entities -/

mutual

/-- The fields that a query asks for, as one object: attributes, then the act, then links. -/
def completeEntity (x : Execution σ) (site : Site) (e : Entity σ) (reference : Json) :
    Query → Attempt σ Promise
  | ⟨_, attributes, act?, arguments, links⟩ => do
    let ofAttributes ← Attempt.ofRun (attributes.mapM (x.field site e reference))
    let ofAct ← Attempt.ofRun (act?.toList.mapM (x.act site e reference arguments))
    let ofLinks ← x.completeLinks site e reference links
    let keys := attributes ++ act?.toList ++ Entries.keys links
    Attempt.ofRun <| x.together (ofAttributes ++ ofAct ++ ofLinks) fun values =>
      .object (Entries.ofPairs (keys.zip values))

/-- The links that a query asks for, in order. -/
def completeLinks (x : Execution σ) (site : Site) (e : Entity σ) (reference : Json) :
    List (String × Query) → Attempt σ (List Promise)
  | [] => return []
  | (name, nested) :: rest => do
    let first ← x.link site e reference name nested fun there target linked =>
      x.completeEntity there target linked nested
    return first :: (← x.completeLinks site e reference rest)

end

/-! ## Queries and documents -/

/-- The entity that a query names. -/
def root (x : Execution σ) (q : Query) : Lookup σ (Option (Entity σ)) := do
  match q.typeName with
  | none => return none
  | some name => return (← x.schema.find name).bind x.schema.entity?

/-- A query on an entity. -/
def queryOn (x : Execution σ) (name : String) (q : Query) (e : Entity σ) : Run σ Promise := do
  let site : Site := {
    artifact? := none
    entity := e.name
    query := q
    queryName := name
    path := []
    arguments := Argument.applyDefaults e.arguments q.arguments
    context := x.context
    onDemand := x.schema.onDemand }
  let reference ← x.answered (e.fetch q.arguments x.context)
  let completed ← reference.andThen fun p => do
    return (← (x.completeEntity site e p.json q).exposed).map .promise
  completed.recover fun f => do
    x.fail f (.ofQuery name)
    return .ok (.value .null)

/-- A query of the document. -/
def query (x : Execution σ) (name : String) (q : Query) : Attempt σ Promise := do
  Attempt.ofRun (x.count Tally.addQuery)
  match ← Attempt.consult (x.root q) with
  | .ok (some e) => Attempt.ofRun (x.queryOn name q e)
  | .ok none =>
    let message := "Unknown entity type \"" ++ q.typeName.getD "" ++ "\""
    Attempt.ofRun (x.refuse (.engine message) (.ofQuery name))
  | .error d => do
    Attempt.ofRun (x.abort d)
    Attempt.ofRun x.null

/-- The report of an execution, from the values of its queries; with a defect, there is none. -/
def conclude (x : Execution σ) (names : List String) (before : Nat) (values : List Json) :
    Run σ (Outcome Payload) := do
  let p ← Run.progress x.index
  match p.fatal? with
  | some d => return .error (.ofDefect d)
  | none =>
    let ticks ← .ticks x.queue .pure
    return .ok (.report {
      data := some (Entries.ofPairs (names.zip values))
      failures := p.failures
      tally := p.tally.addTicks (ticks - before) })

/-- A promise of the report of a document. -/
def document (x : Execution σ) (d : Document) : Attempt σ Promise := do
  let before ← Attempt.ofRun (.ticks x.queue .pure)
  let promises ← d.queries.mapM fun (name, q) => x.query name q
  let all ← Attempt.ofRun (Promise.gather x.queue Payload.bundle (promises.map .promise))
  Attempt.ofRun (all.map fun p => x.conclude d.names before p.items)

end Execution

end EntityQuery
