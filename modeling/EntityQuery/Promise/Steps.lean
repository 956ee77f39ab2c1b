import EntityQuery.Failure.Basic

/-!
# Steps: what a task does to the promises

A computation on promises is a tree of the requests it makes, each followed by what it does with the
answer. The tasks that wait in queues and the reactions to promises are such computations.

* `Steps`: the trees, over the type of the tasks that they put off.
* `Job`: a task; `Work`: the trees whose tasks are jobs.
* `Steps.bind`: one tree after another. **`Steps.instLawfulMonad`**: sequencing is lawful.
-/

namespace EntityQuery

/-- Names a queue of tasks. -/
structure QueueId where
  index : Nat
  deriving DecidableEq, Repr, Inhabited

/-- Names a promise. -/
structure Promise where
  index : Nat
  deriving DecidableEq, Repr, Inhabited

/-- Names a list of results that is being gathered. -/
structure GatherId where
  index : Nat
  deriving DecidableEq, Repr, Inhabited

/-- What a promise settles with: a value, or the failure that it is rejected with. -/
abbrev Outcome (V : Type) := Except Failure V

/-- Why a computation ends without an answer. -/
inductive Halt
  /-- A callback ended abnormally where nothing catches that. -/
  | panic (p : Panic)
  /-- More tasks were started than allowed for. -/
  | exhausted
  deriving DecidableEq, Repr

/-- How long a queue is drained. -/
inductive Drain
  /-- For one task. -/
  | once
  /-- Until a promise is settled or no task is left. -/
  | until (p : Promise)
  /-- Until no task is left. -/
  | all
  deriving DecidableEq, Repr

/-- A tree of requests to the machine that keeps promises of values `V` beside a world `W`; what
it puts off are tasks `T`, and it answers with an `α`. -/
inductive Steps (T V W : Type) (α : Type u) : Type u
  /-- Answers. -/
  | pure (a : α)
  /-- Ends without an answer. -/
  | halt (h : Halt)
  /-- Makes an empty queue. -/
  | newQueue (next : QueueId → Steps T V W α)
  /-- Makes a pending promise whose reactions run on a queue. -/
  | newPromise (q : QueueId) (next : Promise → Steps T V W α)
  /-- Asks what a promise has settled with. -/
  | outcome (p : Promise) (next : Option (Outcome V) → Steps T V W α)
  /-- Asks for the queue of a promise. -/
  | home (p : Promise) (next : QueueId → Steps T V W α)
  /-- Settles a promise, and tells whether it was pending. -/
  | settle (p : Promise) (o : Outcome V) (next : Bool → Steps T V W α)
  /-- Adds a reaction to a promise. -/
  | subscribe (p : Promise) (reaction : Outcome V → T) (next : Steps T V W α)
  /-- Puts a task at the end of a queue. -/
  | enqueue (q : QueueId) (task : T) (next : Steps T V W α)
  /-- Runs tasks of a queue, and tells whether it ran any. -/
  | drain (q : QueueId) (d : Drain) (next : Bool → Steps T V W α)
  /-- Asks how many tasks of a queue have been started. -/
  | ticks (q : QueueId) (next : Nat → Steps T V W α)
  /-- Makes a list of empty slots. -/
  | newGather (size : Nat) (next : GatherId → Steps T V W α)
  /-- Fills a slot; the answer is the list once no slot is empty. -/
  | fill (g : GatherId) (slot : Nat) (v : V) (next : Option (List V) → Steps T V W α)
  /-- Looks at the world. -/
  | getWorld (next : W → Steps T V W α)
  /-- Replaces the world. -/
  | setWorld (w : W) (next : Steps T V W α)

/-- A task: steps that answer with nothing and put off tasks of the same kind. -/
inductive Job (V W : Type) : Type
  | mk (steps : Steps (Job V W) V W Unit)

/-- What a task does. -/
def Job.steps {V W : Type} : Job V W → Steps (Job V W) V W Unit
  | .mk steps => steps

/-- Steps whose tasks are jobs. -/
abbrev Work (V W : Type) (α : Type u) := Steps (Job V W) V W α

namespace Steps

variable {T V W : Type}

instance {α : Type u} : Inhabited (Steps T V W α) := ⟨halt .exhausted⟩

/-- One tree after another. -/
def bind {α : Type u} {β : Type v} : Steps T V W α → (α → Steps T V W β) → Steps T V W β
  | pure a, k => k a
  | halt h, _ => halt h
  | newQueue next, k => newQueue fun q => (next q).bind k
  | newPromise q next, k => newPromise q fun p => (next p).bind k
  | outcome p next, k => outcome p fun o => (next o).bind k
  | home p next, k => home p fun q => (next q).bind k
  | settle p o next, k => settle p o fun b => (next b).bind k
  | subscribe p r next, k => subscribe p r (next.bind k)
  | enqueue q t next, k => enqueue q t (next.bind k)
  | drain q d next, k => drain q d fun b => (next b).bind k
  | ticks q next, k => ticks q fun n => (next n).bind k
  | newGather n next, k => newGather n fun g => (next g).bind k
  | fill g i v next, k => fill g i v fun o => (next o).bind k
  | getWorld next, k => getWorld fun w => (next w).bind k
  | setWorld w next, k => setWorld w (next.bind k)

instance : Monad (Steps.{u} T V W) where
  pure := Steps.pure
  bind := Steps.bind

theorem bind_pure' {α : Type u} (s : Steps T V W α) : s.bind Steps.pure = s := by
  induction s with
  | pure => rfl
  | halt => rfl
  | subscribe p r next ih => simp [bind, ih]
  | enqueue q t next ih => simp [bind, ih]
  | setWorld w next ih => simp [bind, ih]
  | newQueue next ih => simp only [bind]; congr; funext x; exact ih x
  | newPromise q next ih => simp only [bind]; congr; funext x; exact ih x
  | outcome p next ih => simp only [bind]; congr; funext x; exact ih x
  | home p next ih => simp only [bind]; congr; funext x; exact ih x
  | settle p o next ih => simp only [bind]; congr; funext x; exact ih x
  | drain q d next ih => simp only [bind]; congr; funext x; exact ih x
  | ticks q next ih => simp only [bind]; congr; funext x; exact ih x
  | newGather n next ih => simp only [bind]; congr; funext x; exact ih x
  | fill g i v next ih => simp only [bind]; congr; funext x; exact ih x
  | getWorld next ih => simp only [bind]; congr; funext x; exact ih x

theorem bind_assoc' {α : Type u} {β : Type v} {γ : Type w} (s : Steps T V W α)
    (f : α → Steps T V W β) (g : β → Steps T V W γ) :
    (s.bind f).bind g = s.bind fun a => (f a).bind g := by
  induction s with
  | pure => rfl
  | halt => rfl
  | subscribe p r next ih => simp only [bind, ih]
  | enqueue q t next ih => simp only [bind, ih]
  | setWorld w next ih => simp only [bind, ih]
  | newQueue next ih => simp only [bind, ih]
  | newPromise q next ih => simp only [bind, ih]
  | outcome p next ih => simp only [bind, ih]
  | home p next ih => simp only [bind, ih]
  | settle p o next ih => simp only [bind, ih]
  | drain q d next ih => simp only [bind, ih]
  | ticks q next ih => simp only [bind, ih]
  | newGather n next ih => simp only [bind, ih]
  | fill g i v next ih => simp only [bind, ih]
  | getWorld next ih => simp only [bind, ih]

instance instLawfulMonad : LawfulMonad (Steps.{u} T V W) := LawfulMonad.mk'
  (Steps.{u} T V W)
  (fun s => bind_pure' s)
  (fun _ _ => rfl)
  (fun s f g => bind_assoc' s f g)
  (fun _ _ => rfl)
  (fun _ _ => rfl)

/-! ## Single requests -/

/-- Changes the world. -/
def modifyWorld (f : W → W) : Steps T V W Unit := getWorld fun w => setWorld (f w) (.pure ())

/-- Changes the world and answers with something computed from it. -/
def stepWorld {α : Type u} (f : W → α × W) : Steps T V W α :=
  getWorld fun w => setWorld (f w).2 (.pure (f w).1)

end Steps

end EntityQuery
