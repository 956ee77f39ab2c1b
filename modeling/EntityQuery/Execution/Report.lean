import EntityQuery.Failure.Masking
import EntityQuery.Json.Position
import EntityQuery.Promise.Combinators

/-!
# Reports

What an execution leaves: the data, the failures and a tally of the work done.

* `Tally`: counts of queries, fields and tasks.
* `Report`: data and failures; `Report.toJson` is what the client sees of it, and `Report.write` what
  is sent.
* `EngineFault`: why there is no report.
-/

namespace EntityQuery

/-- Counts of the work that an execution has done. -/
structure Tally where
  queries : Nat := 0
  /-- Fields whose callback was called. -/
  executed : Nat := 0
  /-- Fields that came to a value. -/
  completed : Nat := 0
  /-- Fields that failed. -/
  failed : Nat := 0
  /-- Tasks that were started. -/
  ticks : Nat := 0
  deriving DecidableEq, Repr

namespace Tally

/-- Counts a query. -/
def addQuery (t : Tally) : Tally := { t with queries := t.queries + 1 }

/-- Counts a field whose callback is called. -/
def addExecution (t : Tally) : Tally := { t with executed := t.executed + 1 }

/-- Counts a field that came to a value. -/
def addCompletion (t : Tally) : Tally := { t with completed := t.completed + 1 }

/-- Counts a field that failed. -/
def addFailure (t : Tally) : Tally := { t with failed := t.failed + 1 }

/-- Counts started tasks. -/
def addTicks (t : Tally) (n : Nat) : Tally := { t with ticks := t.ticks + n }

/-- The share of the fields that failed, as the nearest double; zero where there is no field. -/
def failureRate (t : Tally) : Binary64 :=
  if t.executed = 0 then .ofRatio false 0 1 else .ofRatio false t.failed t.executed

/-- The counts as a value. -/
def toJson (t : Tally) : Json :=
  .object [("queries", .nat t.queries), ("executed", .nat t.executed),
    ("completed", .nat t.completed), ("failed", .nat t.failed), ("ticks", .nat t.ticks),
    ("rate", .string (Json.number (.double t.failureRate)).render)]

end Tally

/-- What an execution leaves. Without data, the request was refused. -/
structure Report where
  data : Option (Entries Json)
  failures : List Failure
  tally : Tally := {}
  masking : Masking := {}

namespace Report

/-- The data of one query. -/
def query? (r : Report) (name : String) : Option Json := r.data.bind fun d => Entries.find? d name

/-- Whether anything failed. -/
def hasFailures (r : Report) : Bool := !r.failures.isEmpty

/-- What the client sees of a report, or the failure that is handed back. -/
def toJson (r : Report) (mask : String) : Except Failure Json := do
  let failures ← r.masking.formatAll mask r.failures
  return .object [("data", r.data.elim .null .object), ("errors", .array failures)]

/-- What is sent of a report, or why nothing can be sent. -/
def write (r : Report) (mask : String) : Except String Json :=
  (r.toJson mask).mapError fun f => Position.restate f.message

end Report

/-- Why an execution leaves no report. -/
inductive EngineFault
  /-- The schema is broken. -/
  | defect (d : Defect)
  /-- The queue ran dry before the execution was done. -/
  | stalled
  /-- The execution was rejected for another reason. -/
  | internal (f : Failure)

namespace EngineFault

/-- What the failure that an execution is rejected with stands for. -/
def ofRejection (f : Failure) : EngineFault :=
  match f.defect? with
  | some d => .defect d
  | none => .internal f

/-- What a fault of waiting stands for. -/
def ofWait : WaitFault → EngineFault
  | .rejected f => ofRejection f
  | .stalled => .stalled

/-- The word for a fault's kind. -/
def kind : EngineFault → String
  | defect d => "Schema." ++ d.kind
  | stalled => "Invariant"
  | internal _ => "Internal"

/-- The wording of a fault. -/
def message : EngineFault → String
  | defect d => d.message
  | stalled => WaitFault.stalled.failure.message
  | internal f => f.message

end EngineFault

end EntityQuery
