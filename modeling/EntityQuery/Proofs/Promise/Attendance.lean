import EntityQuery.Proofs.Promise.Arrivals
import EntityQuery.Proofs.Promise.Gathering
import EntityQuery.Proofs.Promise.Twins
import EntityQuery.Proofs.Promise.Underway

/-!
# Programs that note what comes in of a list

A program can note beside its world which items of one list have come in, and with which outcomes.

* `Attended`: a world, and what has come in. `Steps.attended`: a program that leaves the notes alone.
* `Promise.collect`: gathers a list, and notes what comes in.
* `Roll`: a list that is gathered, and what gathering makes for it. `Steps.Spares`: programs that
  neither settle given promises nor fill a given list. What gathering makes, it keeps to itself, so
  that all other programs are of this kind.
* `Roll.attendance`: the tasks and reactions of a program, without the notes and with them.
-/

namespace EntityQuery

variable {V W : Type} {α β : Type}

/-- A world, and what has come in of a list; also what the work has come to that items put off. -/
structure Attended (V W : Type) where
  world : W
  arrivals : Arrivals V := []
  answers : Arrivals V := []

namespace Attended

/-- Notes that an item has come in. -/
def note (i : Nat) (o : Outcome V) (next : Work V (Attended V W) α) : Work V (Attended V W) α :=
  .getWorld fun w => .setWorld { w with arrivals := w.arrivals ++ [(i, o)] } next

/-- Notes what the work of an item has come to. -/
def answer (i : Nat) (o : Outcome V) (next : Work V (Attended V W) α) : Work V (Attended V W) α :=
  .getWorld fun w => .setWorld { w with answers := w.answers ++ [(i, o)] } next

end Attended

/-! ## The same program beside the notes -/

mutual

/-- A task that leaves the notes alone. -/
def Job.attended : Job V W → Job V (Attended V W)
  | .mk steps => .mk (Steps.aside steps)

/-- The steps of a task that leaves the notes alone. -/
def Steps.aside :
    Steps (Job V W) V W Unit → Steps (Job V (Attended V W)) V (Attended V W) Unit
  | .pure a => .pure a
  | .halt h => .halt h
  | .newQueue next => .newQueue fun q => (next q).aside
  | .newPromise q next => .newPromise q fun p => (next p).aside
  | .outcome p next => .outcome p fun o => (next o).aside
  | .home p next => .home p fun q => (next q).aside
  | .settle p o next => .settle p o fun fresh => (next fresh).aside
  | .subscribe p r next => .subscribe p (fun o => (r o).attended) next.aside
  | .enqueue q t next => .enqueue q t.attended next.aside
  | .drain q d next => .drain q d fun ran => (next ran).aside
  | .ticks q next => .ticks q fun n => (next n).aside
  | .newGather size next => .newGather size fun g => (next g).aside
  | .fill g slot v next => .fill g slot v fun vs => (next vs).aside
  | .getWorld next => .getWorld fun w => (next w.world).aside
  | .setWorld world next => .getWorld fun w => .setWorld { w with world } next.aside

end

/-- Steps that leave the notes alone. -/
def Steps.attended : Work V W α → Work V (Attended V W) α
  | .pure a => .pure a
  | .halt h => .halt h
  | .newQueue next => .newQueue fun q => (next q).attended
  | .newPromise q next => .newPromise q fun p => (next p).attended
  | .outcome p next => .outcome p fun o => (next o).attended
  | .home p next => .home p fun q => (next q).attended
  | .settle p o next => .settle p o fun fresh => (next fresh).attended
  | .subscribe p r next => .subscribe p (fun o => (r o).attended) next.attended
  | .enqueue q t next => .enqueue q t.attended next.attended
  | .drain q d next => .drain q d fun ran => (next ran).attended
  | .ticks q next => .ticks q fun n => (next n).attended
  | .newGather size next => .newGather size fun g => (next g).attended
  | .fill g slot v next => .fill g slot v fun vs => (next vs).attended
  | .getWorld next => .getWorld fun w => (next w.world).attended
  | .setWorld world next => .getWorld fun w => .setWorld { w with world } next.attended

theorem Steps.aside_eq_attended (s : Work V W Unit) : s.aside = s.attended := by
  induction s with
  | pure | halt => rfl
  | subscribe _ _ _ ih | enqueue _ _ _ ih | setWorld _ _ ih => simp only [aside, attended, ih]
  | newQueue _ ih | newPromise _ _ ih | outcome _ _ ih | home _ _ ih | settle _ _ _ ih
  | drain _ _ _ ih | ticks _ _ ih | newGather _ _ ih | fill _ _ _ _ ih | getWorld _ ih =>
    simp only [aside, attended, ih]

theorem Job.steps_attended (j : Job V W) : j.attended.steps = j.steps.attended := by
  cases j
  exact Steps.aside_eq_attended _

/-- A machine where nothing has been noted, whose tasks leave the notes alone. -/
def Machine.attended (m : Machine V W) : Machine V (Attended V W) where
  queues := m.queues.map fun q => ⟨q.tasks.map Job.attended, q.ticks⟩
  cells := m.cells.map fun c => ⟨c.home, c.outcome?, c.reactions.map fun r o => (r o).attended⟩
  gathers := m.gathers
  world := ⟨m.world, [], []⟩

/-- An item whose work notes what it comes to. -/
def Thenable.attended (i : Nat) : Thenable V W → Thenable V (Attended V W)
  | .value v => .value v
  | .deferred work => .deferred (work.attended.bind fun o => Attended.answer i o (.pure o))
  | .promise p => .promise p

/-! ## Gathering with notes -/

namespace Promise

/-- Subscribes a list to the thenables from a slot on, as `gatherFrom` does, and notes what comes in. -/
def collectFrom (q : QueueId) (bundle : List V → V) (target : Promise) (g : GatherId) :
    Nat → List (Thenable V W) → Option (List V) → Work V (Attended V W) (Option (List V))
  | _, [], full => .pure full
  | slot, .value v :: rest, _ =>
    Attended.note slot (.ok v) <| .fill g slot v fun full =>
      collectFrom q bundle target g (slot + 1) rest full
  | slot, item :: rest, full =>
    (adopt q (item.attended slot)).bind fun p =>
      .subscribe p (fun o => .mk (Attended.note slot o (fillJob bundle target g slot o).steps))
        (collectFrom q bundle target g (slot + 1) rest full)

/-- A promise of the values of a list of thenables, as `gather` makes it, with notes of what comes in. -/
def collect (q : QueueId) (bundle : List V → V) (items : List (Thenable V W)) :
    Work V (Attended V W) Promise :=
  .newPromise q fun target => .newGather items.length fun g =>
    (collectFrom q bundle target g 0 items (if items.isEmpty then some [] else none)).bind fun
      | some values => .settle target (.ok (bundle values)) fun _ => .pure target
      | none => .pure target

end Promise

/-! ## Other programs -/

/-- Steps that neither settle the promises nor fill the list, whatever else they do. -/
inductive Steps.Spares (ps : Set Promise) (g : GatherId) : {α : Type} → Work V W α → Prop
  | pure {α : Type} (a : α) : Spares ps g (.pure a)
  | halt {α : Type} (h : Halt) : Spares ps g (.halt h : Work V W α)
  | newQueue {α : Type} {next : QueueId → Work V W α} (h : ∀ q, Spares ps g (next q)) :
    Spares ps g (.newQueue next)
  | newPromise {α : Type} {q : QueueId} {next : Promise → Work V W α}
    (h : ∀ p ∉ ps, Spares ps g (next p)) : Spares ps g (.newPromise q next)
  | outcome {α : Type} {p : Promise} {next : Option (Outcome V) → Work V W α}
    (h : ∀ o, Spares ps g (next o)) : Spares ps g (.outcome p next)
  | home {α : Type} {p : Promise} {next : QueueId → Work V W α}
    (h : ∀ q, Spares ps g (next q)) : Spares ps g (.home p next)
  | settle {α : Type} {p : Promise} {o : Outcome V} {next : Bool → Work V W α} (hp : p ∉ ps)
    (h : ∀ fresh, Spares ps g (next fresh)) : Spares ps g (.settle p o next)
  | subscribe {α : Type} {p : Promise} {r : Outcome V → Job V W} {next : Work V W α}
    (hr : ∀ o, Spares ps g (r o).steps) (h : Spares ps g next) :
    Spares ps g (.subscribe p r next)
  | enqueue {α : Type} {q : QueueId} {t : Job V W} {next : Work V W α}
    (ht : Spares ps g t.steps) (h : Spares ps g next) : Spares ps g (.enqueue q t next)
  | drain {α : Type} {q : QueueId} {d : Drain} {next : Bool → Work V W α}
    (h : ∀ ran, Spares ps g (next ran)) : Spares ps g (.drain q d next)
  | ticks {α : Type} {q : QueueId} {next : Nat → Work V W α} (h : ∀ n, Spares ps g (next n)) :
    Spares ps g (.ticks q next)
  | newGather {α : Type} {size : Nat} {next : GatherId → Work V W α}
    (h : ∀ g', g' ≠ g → Spares ps g (next g')) : Spares ps g (.newGather size next)
  | fill {α : Type} {g' : GatherId} {slot : Nat} {v : V} {next : Option (List V) → Work V W α}
    (hg : g' ≠ g) (h : ∀ vs, Spares ps g (next vs)) : Spares ps g (.fill g' slot v next)
  | getWorld {α : Type} {next : W → Work V W α} (h : ∀ w, Spares ps g (next w)) :
    Spares ps g (.getWorld next)
  | setWorld {α : Type} {w : W} {next : Work V W α} (h : Spares ps g next) :
    Spares ps g (.setWorld w next)

/-- A list that is gathered on a queue, and what gathering makes for it: the promise of the list, its
slots, and the promises that stand for items. -/
structure Roll (V W : Type) where
  bundle : List V → V
  queue : QueueId
  items : List (Thenable V W)
  target : Promise
  slots : GatherId
  /-- All promises that gathering makes. -/
  made : Set Promise

namespace Roll

variable (L : Roll V W)

/-- Steps that leave what gathering has made alone. -/
abbrev Spared (s : Work V W α) : Prop := s.Spares L.made L.slots

/-- Deferred work of an item that leaves what gathering has made alone. -/
def SparedItem : Thenable V W → Prop
  | .deferred work => L.Spared work
  | _ => True

/-- All that a machine has put off leaves what gathering is going to make alone. -/
structure SparedBy (m : Machine V W) : Prop where
  tasks : ∀ q, ∀ j ∈ m.tasks q, L.Spared j.steps
  reactions : ∀ p, ∀ r ∈ m.reactions p, ∀ o, L.Spared (r o).steps

end Roll

/-! ## Tasks and reactions in both forms -/

/-- A task: that an item comes in, that a promise that stands for an item is settled, as it follows
another one or as work is done, or another task. -/
inductive Arriving (V W : Type)
  | other (j : Job V W)
  | follow (p source : Promise)
  | work (i : Nat) (p : Promise) (steps : Work V W (Outcome V))
  | item (i : Nat) (o : Outcome V)

/-- A reaction: that an item comes in, or another one. -/
inductive Awaiting (V W : Type)
  | other (r : Outcome V → Job V W)
  | item (i : Nat)

namespace Arriving

variable (L : Roll V W)

/-- The task without notes. -/
def plain : Arriving V W → Job V W
  | other j => j
  | follow p source => p.followForeign source
  | work _ p steps => .mk (steps.bind fun o => Promise.ignore (p.settle o))
  | item i o => fillJob L.bundle L.target L.slots i o

/-- The task that notes what comes in. -/
def noting : Arriving V W → Job V (Attended V W)
  | other j => j.attended
  | follow p source => p.followForeign source
  | work i p steps => .mk ((steps.attended.bind fun o => Attended.answer i o (.pure o)).bind
      fun o => Promise.ignore (p.settle o))
  | item i o => .mk (Attended.note i o (fillJob L.bundle L.target L.slots i o).steps)

/-- The slot that the task fills. -/
def duty? : Arriving V W → Option Duty
  | item i _ => some (.slot L.slots i)
  | _ => none

end Arriving

namespace Awaiting

/-- The task that the reaction comes to. -/
def fire : Awaiting V W → Outcome V → Arriving V W
  | other r, o => .other (r o)
  | item i, o => .item i o

/-- The slot that the reaction fills. -/
def duty? (L : Roll V W) : Awaiting V W → Option Duty
  | other _ => none
  | item i => some (.slot L.slots i)

theorem duty?_fire (L : Roll V W) (r : Awaiting V W) (o : Outcome V) :
    (r.fire o).duty? L = r.duty? L := by
  cases r <;> rfl

end Awaiting

/-- The tasks and reactions of a program that gathers a list, without notes and with them. -/
abbrev Roll.attendance (L : Roll V W) : Twins V W (Attended V W) where
  Task := Arriving V W
  Reaction := Awaiting V W
  fire := Awaiting.fire
  left := Arriving.plain L
  right := Arriving.noting L

namespace Sheet

variable {L : Roll V W} (S : Sheet L.attendance)

/-- Where the items that have not come in are waited for. -/
def ledger : Ledger
  | .queue q => (S.tasks q).map (Arriving.duty? L)
  | .promise p => (S.reactions p).map (Awaiting.duty? L)

theorem ledger_append (q : QueueId) (t : Arriving V W) :
    (S.append q [t]).ledger = S.ledger.push (.queue q) (t.duty? L) := by
  funext x
  cases x with
  | queue q' =>
    by_cases hq : q' = q
    · subst hq
      simp [ledger, Ledger.push]
    · simp [ledger, Ledger.push, hq]
  | promise p => simp [ledger, Ledger.push]

theorem ledger_react (p : Promise) (r : Awaiting V W) :
    (S.react p r).ledger = S.ledger.push (.promise p) (r.duty? L) := by
  funext x
  cases x with
  | queue q => simp [ledger, Ledger.push]
  | promise p' =>
    by_cases hp : p' = p
    · subst hp
      simp [ledger, Ledger.push]
    · simp [ledger, Ledger.push, hp]

theorem ledger_drop (p : Promise) :
    (S.drop p).ledger = Function.update S.ledger (.promise p) [] := by
  funext x
  cases x with
  | queue q => simp [ledger]
  | promise p' =>
    by_cases hp : p' = p
    · subst hp
      simp [ledger]
    · simp [ledger, hp]

theorem ledger_release (p : Promise) (q : QueueId) (o : Outcome V) :
    (S.release p q o).ledger = S.ledger.move (.promise p) (.queue q) := by
  have hfire : ∀ rs : List (Awaiting V W),
      (rs.map (Awaiting.fire · o)).map (Arriving.duty? L) = rs.map (Awaiting.duty? L) := fun rs => by
    rw [List.map_map]
    exact List.map_congr_left fun r _ => r.duty?_fire L o
  rw [release, ledger_drop, Ledger.move]
  refine congrArg (Function.update · _ _) (funext fun x => ?_)
  cases x with
  | queue q' =>
    by_cases hq : q' = q
    · subst hq
      simp only [ledger, tasks_append, if_true, List.map_append, Function.update_self]
      exact congrArg _ (hfire _)
    · simp [ledger, hq]
  | promise p' => simp [ledger]

theorem ledger_rest (q : QueueId) (ts : List (Arriving V W)) :
    (S.rest q ts).ledger = Function.update S.ledger (.queue q) (ts.map (Arriving.duty? L)) := by
  funext x
  cases x with
  | queue q' =>
    by_cases hq : q' = q
    · subst hq
      simp [ledger]
    · simp [ledger, hq]
  | promise p => simp [ledger]

end Sheet

end EntityQuery
