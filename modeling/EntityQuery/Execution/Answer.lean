import EntityQuery.Execution.Attempt

/-!
# What becomes of an answer

A resolver answers with a value or with a promise of one. Here its answer becomes a thenable that an
execution can follow.

* `Answer.begin`: the thenable of an answer; a promise that is settled at once is settled here.
* `Answer.guard`: a panic in work that is put off becomes a failure.
* `afterHops`: work at the end of a chain of tasks.
-/

namespace EntityQuery

variable {σ : Type}

/-- A panic becomes a failure. -/
def Callback.guard {α : Type} (c : Callback σ α) : Callback σ α := fun s =>
  match c s with
  | .error (.panic p) s => .error (.failure (.ofPanic p)) s
  | result => result

/-- A panic in work that is put off becomes a failure. -/
def Answer.guard : Answer σ → Answer σ
  | .deferred compute => .deferred (Callback.guard compute)
  | answer => answer

/-- Puts off a number of tasks, each of which puts off the next; the last one does the work. -/
def afterHops (q : QueueId) (last : Run σ Unit) : Nat → Run σ Unit
  | 0 => last
  | hops + 1 => .enqueue q (.mk (afterHops q last hops)) (.pure ())

/-- The queue of a home. -/
def Home.queue (q : QueueId) : Home → Run σ QueueId
  | own => .pure q
  | foreign => .newQueue .pure

/-- The outcome of a callback as one of an execution. -/
def outcomeOf (result : Except Failure Json) : Outcome Payload := result.map .value

/-- Settles a promise with what a callback comes to. -/
def settleBy (p : Promise) (finish : Callback σ Json) : Attempt σ Unit := do
  let result ← (Attempt.call finish).orFailure
  let _ ← Attempt.ofRun (p.settle (outcomeOf result))

/-- The thenable of an answer, for an execution on a queue. -/
def Answer.begin (q : QueueId) : Answer σ → Attempt σ (Thenable Payload (World σ))
  | .ready v => return .value (.value v)
  | .deferred compute =>
    return .deferred do return outcomeOf (← (Attempt.call compute).exposed)
  | .settling home hops finish => do
    let q ← Attempt.ofRun (home.queue q)
    let p ← Attempt.ofRun (.newPromise q .pure)
    if hops = 0 then settleBy p finish
    else Attempt.ofRun (afterHops q (Promise.ignore (settleBy p finish).exposed) hops)
    return .promise p
  | .stuck home => do
    let q ← Attempt.ofRun (home.queue q)
    return .promise (← Attempt.ofRun (.newPromise q .pure))

end EntityQuery
