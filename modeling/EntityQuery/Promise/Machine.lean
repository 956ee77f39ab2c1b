import EntityQuery.Promise.Steps

/-!
# The machine that keeps promises and runs tasks

Queues of tasks that run first in, first out, promises that settle once, and a world beside them.
Reactions never run inside the call that settles a promise: they are put at the end of its queue.

* `Machine`: queues, promises, lists that are being gathered, and the world.
* `Machine.settle`, `Machine.subscribe`, `Machine.enqueue`, `Machine.pop?`: what a request does.
* `Steps.run`: runs steps; draining a queue is left to a parameter.
* `Machine.drain`: runs the tasks of a queue in order; `Machine.run` ties the two together.
* **`Machine.settle_of_settled`**, **`Machine.outcome?_settle`**: a settled promise keeps its outcome,
  a pending one takes the new one.
-/

namespace EntityQuery

/-- Tasks that wait, the oldest first, and the number of tasks started so far. -/
structure Queue (V W : Type) where
  tasks : List (Job V W) := []
  ticks : Nat := 0

namespace Queue

variable {V W : Type}

/-- The count of started tasks stops here: the largest number of 64 bits. -/
def maxTicks : Nat := 18446744073709551615

/-- Puts tasks at the end. -/
def append (q : Queue V W) (tasks : List (Job V W)) : Queue V W :=
  { q with tasks := q.tasks ++ tasks }

/-- Takes the oldest task and counts it as started. -/
def pop? (q : Queue V W) : Option (Job V W × Queue V W) :=
  match q.tasks with
  | [] => none
  | task :: rest => some (task, ⟨rest, min (q.ticks + 1) maxTicks⟩)

@[simp] theorem tasks_append (q : Queue V W) (tasks : List (Job V W)) :
    (q.append tasks).tasks = q.tasks ++ tasks := rfl

@[simp] theorem ticks_append (q : Queue V W) (tasks : List (Job V W)) :
    (q.append tasks).ticks = q.ticks := rfl

theorem pop?_eq_some_iff (q rest : Queue V W) (task : Job V W) :
    q.pop? = some (task, rest) ↔
      q.tasks = task :: rest.tasks ∧ rest.ticks = min (q.ticks + 1) maxTicks := by
  obtain ⟨tasks, ticks⟩ := q
  obtain ⟨tasks', ticks'⟩ := rest
  cases tasks with
  | nil => simp [pop?]
  | cons t ts => simp [pop?, and_assoc, eq_comm]

end Queue

/-- A promise: the queue of its reactions, what it has settled with, and the reactions that wait
for that. -/
structure Cell (V W : Type) where
  home : QueueId
  outcome? : Option (Outcome V) := none
  reactions : List (Outcome V → Job V W) := []

/-- A list of results of which some are still missing. -/
structure Gather (V : Type) where
  slots : List (Option V)
  remaining : Nat

namespace Gather

variable {V : Type}

/-- A list of empty slots. -/
def ofSize (size : Nat) : Gather V := ⟨List.replicate size none, size⟩

/-- Fills a slot. -/
def fill (g : Gather V) (slot : Nat) (v : V) : Gather V :=
  ⟨g.slots.set slot (some v), g.remaining - 1⟩

/-- The results, once none is missing. -/
def values? (g : Gather V) : Option (List V) :=
  if g.remaining = 0 then some (g.slots.filterMap id) else none

end Gather

/-- Queues, promises and gathered lists, beside a world. -/
structure Machine (V W : Type) where
  queues : Array (Queue V W) := #[]
  cells : Array (Cell V W) := #[]
  gathers : Array (Gather V) := #[]
  world : W

namespace Machine

variable {V W : Type}

/-- A machine with nothing on it. -/
def start (world : W) : Machine V W := { world }

/-! ## Requests -/

/-- Makes an empty queue. -/
def newQueue (m : Machine V W) : QueueId × Machine V W :=
  (⟨m.queues.size⟩, { m with queues := m.queues.push {} })

/-- Makes a pending promise. -/
def newPromise (m : Machine V W) (q : QueueId) : Promise × Machine V W :=
  (⟨m.cells.size⟩, { m with cells := m.cells.push { home := q } })

/-- The tasks of a queue. -/
def queue (m : Machine V W) (q : QueueId) : Queue V W := m.queues[q.index]?.getD {}

/-- What a promise has settled with. -/
def outcome? (m : Machine V W) (p : Promise) : Option (Outcome V) :=
  m.cells[p.index]?.bind Cell.outcome?

/-- The queue of a promise. -/
def home (m : Machine V W) (p : Promise) : QueueId := (m.cells[p.index]?.map Cell.home).getD ⟨0⟩

/-- Puts tasks at the end of a queue. -/
def append (m : Machine V W) (q : QueueId) (tasks : List (Job V W)) : Machine V W :=
  { m with queues := m.queues.modify q.index (Queue.append · tasks) }

/-- Puts a task at the end of a queue. -/
def enqueue (m : Machine V W) (q : QueueId) (task : Job V W) : Machine V W := m.append q [task]

/-- Settles a pending promise and puts its reactions at the end of its queue, in order. -/
def settle (m : Machine V W) (p : Promise) (o : Outcome V) : Bool × Machine V W :=
  match m.cells[p.index]? with
  | some ⟨home, none, reactions⟩ =>
    (true, append { m with cells := m.cells.set! p.index ⟨home, some o, []⟩ } home
      (reactions.map fun reaction => reaction o))
  | _ => (false, m)

/-- Adds a reaction: it waits while the promise is pending, else it is put on the queue at once. -/
def subscribe (m : Machine V W) (p : Promise) (reaction : Outcome V → Job V W) : Machine V W :=
  match m.cells[p.index]? with
  | some ⟨home, some o, _⟩ => m.enqueue home (reaction o)
  | some ⟨home, none, reactions⟩ =>
    { m with cells := m.cells.set! p.index ⟨home, none, reactions ++ [reaction]⟩ }
  | none => m

/-- Takes the oldest task of a queue and counts it as started. -/
def pop? (m : Machine V W) (q : QueueId) : Option (Job V W × Machine V W) :=
  (m.queue q).pop?.map fun (task, rest) =>
    (task, { m with queues := m.queues.set! q.index rest })

/-- Makes a list of empty slots. -/
def newGather (m : Machine V W) (size : Nat) : GatherId × Machine V W :=
  (⟨m.gathers.size⟩, { m with gathers := m.gathers.push (.ofSize size) })

/-- Fills a slot, and gives the list once no slot is empty. -/
def fill (m : Machine V W) (g : GatherId) (slot : Nat) (v : V) : Option (List V) × Machine V W :=
  match m.gathers[g.index]? with
  | some gather =>
    let gather := gather.fill slot v
    (gather.values?, { m with gathers := m.gathers.set! g.index gather })
  | none => (none, m)

end Machine

/-! ## Running -/

/-- How a run ends, and the machine it leaves. -/
inductive Ended (V W : Type) (α : Type u) : Type u
  | done (a : α) (m : Machine V W)
  | halted (h : Halt) (m : Machine V W)

/-- Runs steps. Draining a queue is left to `drain`. -/
def Steps.run {V W : Type} {α : Type u}
    (drain : QueueId → Drain → Machine V W → Ended V W Bool) :
    Work V W α → Machine V W → Ended V W α
  | .pure a, m => .done a m
  | .halt h, m => .halted h m
  | .newQueue next, m => let (q, m) := m.newQueue; (next q).run drain m
  | .newPromise q next, m => let (p, m) := m.newPromise q; (next p).run drain m
  | .outcome p next, m => (next (m.outcome? p)).run drain m
  | .home p next, m => (next (m.home p)).run drain m
  | .settle p o next, m => let (fresh, m) := m.settle p o; (next fresh).run drain m
  | .subscribe p r next, m => next.run drain (m.subscribe p r)
  | .enqueue q t next, m => next.run drain (m.enqueue q t)
  | .drain q d next, m =>
    match drain q d m with
    | .done ran m => (next ran).run drain m
    | .halted h m => .halted h m
  | .ticks q next, m => (next (m.queue q).ticks).run drain m
  | .newGather n next, m => let (g, m) := m.newGather n; (next g).run drain m
  | .fill g i v next, m => let (values, m) := m.fill g i v; (next values).run drain m
  | .getWorld next, m => (next m.world).run drain m
  | .setWorld w next, m => next.run drain { m with world := w }

namespace Machine

variable {V W : Type}

/-- Whether draining may stop before the queue is empty. -/
def reached (m : Machine V W) : Drain → Bool
  | .until p => (m.outcome? p).isSome
  | _ => false

/-- Runs tasks of a queue, the oldest first, and tells whether it ran any. Each task, also of a
drain inside a task, takes one from the limit. -/
def drain : Nat → QueueId → Drain → Machine V W → Ended V W Bool
  | 0, _, _, m => .halted .exhausted m
  | limit + 1, q, d, m =>
    if m.reached d then .done false m
    else
      match m.pop? q with
      | none => .done false m
      | some (task, m) =>
        match task.steps.run (drain limit) m with
        | .halted h m => .halted h m
        | .done () m =>
          match d with
          | .once => .done true m
          | d =>
            match drain limit q d m with
            | .halted h m => .halted h m
            | .done _ m => .done true m

/-- Runs steps with a limit on the tasks that they may start. -/
def run {α : Type u} (limit : Nat) (work : Work V W α) (m : Machine V W) : Ended V W α :=
  work.run (drain limit) m

/-! ## Laws -/

/-- **A settled promise keeps its outcome.** -/
theorem settle_of_settled {m : Machine V W} {p : Promise} {o : Outcome V}
    (h : m.outcome? p = some o) (o' : Outcome V) : m.settle p o' = (false, m) := by
  unfold outcome? at h
  unfold settle
  cases hc : m.cells[p.index]? with
  | none => simp [hc] at h
  | some c =>
    obtain ⟨home, out, rs⟩ := c
    simp only [hc, Option.bind_some] at h
    subst h
    rfl

/-- **A pending promise takes the outcome that it is settled with.** -/
theorem outcome?_settle {m : Machine V W} {p : Promise} (h : p.index < m.cells.size)
    (hp : m.outcome? p = none) (o : Outcome V) :
    (m.settle p o).1 = true ∧ (m.settle p o).2.outcome? p = some o := by
  unfold outcome? at hp
  unfold settle outcome?
  cases hc : m.cells[p.index] with
  | mk home out rs =>
    have hcell : m.cells[p.index]? = some ⟨home, out, rs⟩ := by
      rw [Array.getElem?_eq_getElem h, hc]
    simp only [hcell, Option.bind_some] at hp
    subst hp
    rw [hcell]
    simp [append, Array.set!_eq_setIfInBounds, h]

/-- Settling a promise leaves the others as they are. -/
theorem outcome?_settle_of_ne {m : Machine V W} {p p' : Promise} (h : p.index ≠ p'.index)
    (o : Outcome V) : (m.settle p o).2.outcome? p' = m.outcome? p' := by
  unfold settle outcome?
  split
  · simp [append, Array.set!_eq_setIfInBounds, Array.getElem?_setIfInBounds_ne h]
  · rfl

theorem pop?_eq_none_iff (m : Machine V W) (q : QueueId) :
    m.pop? q = none ↔ (m.queue q).tasks = [] := by
  unfold pop? Queue.pop?
  cases (m.queue q).tasks <;> simp

end Machine

end EntityQuery
