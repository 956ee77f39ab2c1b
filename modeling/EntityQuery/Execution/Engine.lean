import EntityQuery.Execution.Completion
import EntityQuery.Request.Options

/-!
# The engine

Validates a document, executes it and gives the report.

* `Request`: a document with its context and its options.
* `Request.start`: a promise of the report; a document that breaks a rule is not executed.
* `Request.perform`: starts a request on a queue of its own and waits for the report.
* `Report.wait`: waits for a promised report.
-/

namespace EntityQuery

/-- A document with its context and its options. -/
structure Request where
  document : Document
  context : Context := {}
  options : Options := {}

/-- Waits for a promised report. -/
def Report.wait {σ : Type} (q : QueueId) (p : Promise) : Run σ (Except EngineFault Report) := do
  match ← p.wait q with
  | .ok (.report r) => return .ok r
  | .ok (.value _) => return .error .stalled
  | .error fault => return .error (.ofWait fault)

namespace Request

variable {σ : Type}

/-- Executes a document without validating it: a promise of the report. -/
def execute (schema : Schema σ) (q : QueueId) (document : Document) (context : Context) :
    Attempt σ Promise := do
  let x ← Attempt.ofRun (Execution.new schema context q)
  x.document document

/-- Executes a request: a promise of the report, masked as the options say. -/
def executeMasked (r : Request) (schema : Schema σ) (q : QueueId) : Attempt σ Promise := do
  let p ← execute schema q r.document r.context
  Attempt.ofRun <| p.map fun
    | .report report => .pure (.ok (.report { report with masking := r.options.masking }))
    | other => .pure (.ok other)

/-- Validates and executes a request: a promise of the report. Violations make a report without
data, a defect of the schema rejects the promise. -/
def start (r : Request) (schema : Schema σ) (q : QueueId) : Attempt σ Promise := do
  let verdict ←
    if r.options.skipValidation then pure (.ok [])
    else Attempt.consult (r.document.validate { schema })
  match verdict with
  | .error d => Attempt.ofRun (Promise.settled q (.error (.ofDefect d)))
  | .ok [] => r.executeMasked schema q
  | .ok failures =>
    Attempt.ofRun <| Promise.settled q
      (.ok (.report { data := none, failures, masking := r.options.masking }))

/-- Validates and executes a request on a queue of its own, and waits for the report. -/
def perform (r : Request) (schema : Schema σ) : Attempt σ (Except EngineFault Report) := do
  let q ← Attempt.ofRun (.newQueue .pure)
  let p ← r.start schema q
  Attempt.ofRun (Report.wait q p)

end Request

end EntityQuery
