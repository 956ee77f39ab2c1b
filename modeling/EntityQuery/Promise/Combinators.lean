import EntityQuery.Promise.Machine

/-!
# Promises

What can be done with promises, as steps of a task.

* `Promise.thenOrElse`, `Promise.andThen`: a promise of what a callback makes of the outcome.
* `Thenable`: a value, work that is put off, or a promise; `Promise.settleFrom` follows one.
* `Promise.adopt`: a thenable as a promise on a queue; a promise of another queue is followed by
  draining that queue.
* `Promise.gather`: a promise of the values of a list of thenables, in order.
* `Promise.wait`: drains a queue until a promise is settled; `Thenable.await` follows a thenable first.
-/

namespace EntityQuery

/-- A value, work that is put off until a queue runs it, or a promise. -/
inductive Thenable (V W : Type) : Type
  | value (v : V)
  | deferred (compute : Work V W (Outcome V))
  | promise (p : Promise)

/-- Why waiting for a promise gave no value. -/
inductive WaitFault
  /-- The promise was rejected. -/
  | rejected (f : Failure)
  /-- The queue ran dry while the promise was pending. -/
  | stalled

namespace WaitFault

/-- The text for a promise that nothing settles. -/
def stalledText : String := "Could not resolve promise"

/-- The wording of a fault. -/
def message : WaitFault → String
  | rejected f => f.message
  | stalled => stalledText

/-- The failure that a fault counts as. -/
def failure : WaitFault → Failure
  | rejected f => f
  | stalled => .invariant stalledText

end WaitFault

namespace Promise

variable {V W : Type}

/-- Runs steps and drops what they answer. -/
def ignore {α : Type} (work : Work V W α) : Work V W Unit := work.bind fun _ => .pure ()

/-- Settles a promise. -/
def settle (p : Promise) (o : Outcome V) : Work V W Bool := .settle p o .pure

/-- Settles a promise, as a task. -/
def settleJob (p : Promise) (o : Outcome V) : Job V W := .mk (ignore (p.settle o))

/-- A promise that is settled with an outcome. -/
def settled (q : QueueId) (o : Outcome V) : Work V W Promise := do
  let p ← .newPromise q .pure
  let _ ← p.settle o
  return p

/-- A promise that a script settles, now or later; a failing script rejects it. -/
def create (q : QueueId) (script : Promise → Work V W (Except Failure Unit)) :
    Work V W Promise := do
  let p ← .newPromise q .pure
  match ← script p with
  | .ok () => return p
  | .error f =>
    let _ ← p.settle (.error f)
    return p

/-- Settles a promise with what a thenable comes to: a value at once, deferred work from the
promise's own queue, a promise when it settles. -/
def settleFrom (p : Promise) : Thenable V W → Work V W Unit
  | .value v => ignore (p.settle (.ok v))
  | .deferred compute => do
    let q ← .home p .pure
    .enqueue q (.mk (do let o ← compute; ignore (p.settle o))) (.pure ())
  | .promise source => .subscribe source p.settleJob (.pure ())

/-- A promise of what one of two callbacks makes of the outcome. -/
def thenOrElse (p : Promise) (onValue : V → Work V W (Outcome V))
    (onFailure : Failure → Work V W (Outcome V)) : Work V W Promise := do
  let q ← .home p .pure
  let target ← .newPromise q .pure
  let reaction (o : Outcome V) : Job V W := .mk do
    let result ←
      match o with
      | .ok v => onValue v
      | .error f => onFailure f
    ignore (target.settle result)
  .subscribe p reaction (.pure target)

/-- A promise of what a callback makes of the value; a rejection passes through. -/
def map (p : Promise) (onValue : V → Work V W (Outcome V)) : Work V W Promise :=
  p.thenOrElse onValue fun f => .pure (.error f)

/-- A promise of what a callback makes of the rejection; a value passes through. -/
def recover (p : Promise) (onFailure : Failure → Work V W (Outcome V)) : Work V W Promise :=
  p.thenOrElse (fun v => .pure (.ok v)) onFailure

/-- A promise that follows the thenable that a callback makes of the value. -/
def andThen (p : Promise) (onValue : V → Work V W (Except Failure (Thenable V W))) :
    Work V W Promise := do
  let q ← .home p .pure
  let target ← .newPromise q .pure
  let reaction (o : Outcome V) : Job V W := .mk do
    let result ←
      match o with
      | .ok v => onValue v
      | .error f => .pure (.error f)
    match result with
    | .ok thenable => target.settleFrom thenable
    | .error f => ignore (target.settle (.error f))
  .subscribe p reaction (.pure target)

/-- Follows a promise of another queue: drains that queue until the promise is settled; if it is
still pending then, the follower is rejected. -/
def followForeign (target source : Promise) : Job V W := .mk do
  let q ← .home source .pure
  let _ ← .drain q (.until source) .pure
  let o ← .outcome source .pure
  ignore (target.settle (o.getD (.error WaitFault.stalled.failure)))

/-- A thenable as a promise on a queue. -/
def adopt (q : QueueId) : Thenable V W → Work V W Promise
  | .promise source => do
    let home ← .home source .pure
    if home = q then return source
    else
      let p ← .newPromise q .pure
      .enqueue q (followForeign p source) (.pure p)
  | thenable => do
    let p ← .newPromise q .pure
    p.settleFrom thenable
    return p

/-- Fills a slot, and settles the promise of the list once no slot is empty. -/
def fillSlot (bundle : List V → V) (target : Promise) (g : GatherId) (slot : Nat) (v : V) :
    Work V W Unit := do
  match ← .fill g slot v .pure with
  | some values => ignore (target.settle (.ok (bundle values)))
  | none => return ()

/-- Subscribes a list to the thenables from a slot on; tells whether the values at hand have
filled it. -/
def gatherFrom (q : QueueId) (bundle : List V → V) (target : Promise) (g : GatherId) :
    Nat → List (Thenable V W) → Option (List V) → Work V W (Option (List V))
  | _, [], full => .pure full
  | slot, .value v :: rest, _ => do
    let full ← .fill g slot v .pure
    gatherFrom q bundle target g (slot + 1) rest full
  | slot, item :: rest, full => do
    let p ← adopt q item
    let reaction (o : Outcome V) : Job V W := .mk <|
      match o with
      | .ok v => fillSlot bundle target g slot v
      | .error f => ignore (target.settle (.error f))
    .subscribe p reaction (gatherFrom q bundle target g (slot + 1) rest full)

/-- A promise of the values of a list of thenables, in order; the first rejection rejects it. -/
def gather (q : QueueId) (bundle : List V → V) (items : List (Thenable V W)) :
    Work V W Promise := do
  let target ← .newPromise q .pure
  let g ← .newGather items.length .pure
  match ← gatherFrom q bundle target g 0 items (if items.isEmpty then some [] else none) with
  | some values =>
    let _ ← target.settle (.ok (bundle values))
    return target
  | none => return target

/-- Drains a queue until a promise is settled, and gives its value. -/
def wait (q : QueueId) (p : Promise) : Work V W (Except WaitFault V) := do
  let _ ← .drain q (.until p) .pure
  match ← .outcome p .pure with
  | some (.ok v) => return .ok v
  | some (.error f) => return .error (.rejected f)
  | none => return .error .stalled

/-- Runs the oldest task of a queue, and tells whether there was one. -/
def runNext (q : QueueId) : Work V W Bool := .drain q .once .pure

/-- Runs tasks until the queue is empty, and counts them. -/
def runAll (q : QueueId) : Work V W Nat := do
  let before ← .ticks q .pure
  let _ ← .drain q .all .pure
  let after ← .ticks q .pure
  return after - before

end Promise

/-- Follows a thenable on a queue of its own, and waits for its value. -/
def Thenable.await {V W : Type} (t : Thenable V W) : Work V W (Except WaitFault V) := do
  let q ← .newQueue .pure
  let p ← Promise.adopt q t
  p.wait q

end EntityQuery
