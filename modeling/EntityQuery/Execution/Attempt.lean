import EntityQuery.Execution.Report
import EntityQuery.Schema.Loading

/-!
# Attempts: the steps of an execution

An execution is work on promises beside a world: the session of the schema, and what each execution
has met so far. A part of it that calls back into the application may end at a fault.

* `Payload`: what the promises of an execution hold.
* `Progress`, `World`: what executions share and keep.
* `Run`: steps of an execution; `Attempt`: steps that may end at a fault.
* `Attempt.caught`, `Attempt.exposed`: how a fault ends, where panics are caught and where they are
  not.
-/

namespace EntityQuery

/-- What a promise of an execution holds. -/
inductive Payload
  | value (v : Json)
  | report (r : Report)

namespace Payload

/-- The value that is held. -/
def json : Payload → Json
  | value v => v
  | report _ => .null

/-- Many values as one list. -/
def bundle (items : List Payload) : Payload := value (.array (items.map json))

/-- The values of a list. -/
def items (p : Payload) : List Json := p.json.items

@[simp] theorem items_bundle (ps : List Payload) : (bundle ps).items = ps.map json := rfl

end Payload

/-- What an execution has met so far. -/
structure Progress where
  /-- The failures, the oldest first. -/
  failures : List Failure := []
  /-- The first defect of the schema. -/
  fatal? : Option Defect := none
  tally : Tally := {}

/-- What all executions on a schema share, and what each of them keeps. -/
structure World (σ : Type) where
  session : Session σ
  executions : Array Progress := #[]

/-- Steps of an execution. -/
abbrev Run (σ : Type) (α : Type) := Work Payload (World σ) α

/-- Steps of an execution that may end at a fault. -/
abbrev Attempt (σ : Type) (α : Type) := ExceptT Fault (Run σ) α

namespace Run

variable {σ α : Type}

/-- Changes what an execution has met. -/
def update (execution : Nat) (change : Progress → Progress) : Run σ Unit :=
  .modifyWorld fun w => { w with executions := w.executions.modify execution change }

/-- What an execution has met. -/
def progress (execution : Nat) : Run σ Progress :=
  .getWorld fun w => .pure (w.executions[execution]?.getD {})

end Run

namespace Attempt

variable {σ α : Type}

/-- Steps that end at no fault. -/
def ofRun (x : Run σ α) : Attempt σ α := ExceptT.lift x

/-- Ends at a failure. -/
def fail (f : Failure) : Attempt σ α := throw (.failure f)

/-- Calls back into the application. -/
def call (callback : Callback σ α) : Attempt σ α :=
  ExceptT.mk <| .stepWorld fun w =>
    match callback w.session.app with
    | .ok a app => (.ok a, { w with session := { w.session with app } })
    | .error f app => (.error f, { w with session := { w.session with app } })

/-- Uses the schema; a defect is an answer. Where lookups nest too deep, the run ends. -/
def consult (x : Lookup σ α) : Attempt σ (Except Defect α) :=
  ExceptT.mk <| .getWorld fun w =>
    match x w.session with
    | .ok a session => .setWorld { w with session } (.pure (.ok (.ok a)))
    | .error (.defect d) session => .setWorld { w with session } (.pure (.ok (.error d)))
    | .error (.fault f) session => .setWorld { w with session } (.pure (.error f))
    | .error .exhausted session => .setWorld { w with session } (.halt .exhausted)

/-- Gives a failure as an answer. -/
def orFailure (x : Attempt σ α) : Attempt σ (Except Failure α) :=
  ExceptT.mk do
    match ← x.run with
    | .ok a => return .ok (.ok a)
    | .error (.failure f) => return .ok (.error f)
    | .error (.panic p) => return .error (.panic p)

/-- Every fault ends as a failure. -/
def caught (x : Attempt σ α) : Run σ (Except Failure α) := do
  return (← x.run).mapError Fault.toFailure

/-- A panic ends the whole run. -/
def exposed (x : Attempt σ α) : Run σ (Except Failure α) := do
  match ← x.run with
  | .ok a => return .ok a
  | .error (.failure f) => return .error f
  | .error (.panic p) => .halt (.panic p)

end Attempt

end EntityQuery
