import EntityQuery.Proofs.Promise.Ending
import EntityQuery.Proofs.Promise.Reactions

/-!
# Chronicles of runs

Tasks may put further tasks in any queue, and may drain any queue themselves, also the one that they were
started from. A run can be told as the list of what it puts in queues and of the tasks that it starts, those
of nested drains where they happen.

* `Move`, `Chronicle`: what is told, and the machine after each move.
* `Steps.chronicled`, `Machine.drainChronicled`: runs that are told. **`Machine.chronicled_fst`**: they end as
  the others do.
* `Chronicle.Balances`: what was put in a queue is what was started and what waits, in order.
  `Chronicle.Lawful`: so it is after each move. **`Machine.lawful_chronicled`**: a run is told so.
* **`Machine.tasks_start_in_order`**: queues are first in, first out, however drains nest.
-/

namespace EntityQuery

variable {V W : Type} {α β γ : Type}

/-- What a run does to a queue. -/
inductive Move (V W : Type)
  /-- Tasks are put at the end of a queue. -/
  | put (q : QueueId) (tasks : List (Job V W))
  /-- The oldest task of a queue is started. -/
  | start (q : QueueId) (task : Job V W)

namespace Move

/-- The tasks that are put in a queue. -/
def puts (q : QueueId) : Move V W → List (Job V W)
  | put q' tasks => if q' = q then tasks else []
  | start .. => []

/-- The task of a queue that is started. -/
def starts (q : QueueId) : Move V W → List (Job V W)
  | put .. => []
  | start q' task => if q' = q then [task] else []

end Move

/-- The moves of a run in order, each with the machine after it. -/
abbrev Chronicle (V W : Type) := List (Move V W × Machine V W)

namespace Chronicle

/-- The tasks that have been put in a queue, in order. -/
def puts (c : Chronicle V W) (q : QueueId) : List (Job V W) := c.flatMap fun e => e.1.puts q

/-- The tasks of a queue that have been started, in order. -/
def starts (c : Chronicle V W) (q : QueueId) : List (Job V W) := c.flatMap fun e => e.1.starts q

@[simp] theorem puts_nil (q : QueueId) : puts ([] : Chronicle V W) q = [] := rfl

@[simp] theorem starts_nil (q : QueueId) : starts ([] : Chronicle V W) q = [] := rfl

@[simp] theorem puts_append (c c' : Chronicle V W) (q : QueueId) :
    (c ++ c').puts q = c.puts q ++ c'.puts q := List.flatMap_append

@[simp] theorem starts_append (c c' : Chronicle V W) (q : QueueId) :
    (c ++ c').starts q = c.starts q ++ c'.starts q := List.flatMap_append

@[simp] theorem puts_singleton (e : Move V W × Machine V W) (q : QueueId) :
    puts [e] q = e.1.puts q := List.flatMap_singleton ..

@[simp] theorem starts_singleton (e : Move V W × Machine V W) (q : QueueId) :
    starts [e] q = e.1.starts q := List.flatMap_singleton ..

end Chronicle

/-! ## Runs that are told -/

/-- How a run ends, and what it did. -/
abbrev Chronicled (V W α : Type) := Ended V W α × Chronicle V W

namespace Chronicled

/-- A run before which there were some moves. -/
def after (c : Chronicle V W) (r : Chronicled V W α) : Chronicled V W α := (r.1, c ++ r.2)

/-- A run that goes on where it is done. -/
def andThen (r : Chronicled V W α) (k : α → Machine V W → Chronicled V W β) : Chronicled V W β :=
  match r with
  | (.done a m, c) => after c (k a m)
  | (.halted h m, c) => (.halted h m, c)

end Chronicled

namespace Machine

/-- Tells that tasks are put in a queue, if there is such a queue. -/
def putting (m : Machine V W) (q : QueueId) (tasks : List (Job V W)) (left : Machine V W) : Chronicle V W :=
  if q.index < m.queues.size then [(.put q tasks, left)] else []

/-- Tells that a promise is settled: if it is pending, its reactions are put in its queue. -/
def settling (m : Machine V W) (p : Promise) (o : Outcome V) : Chronicle V W :=
  match m.outcome? p with
  | none => m.putting (m.home p) ((m.reactions p).map fun r => r o) (m.settle p o).2
  | some _ => []

/-- Tells that a reaction is added: if the promise is settled, it is put in its queue. -/
def subscribing (m : Machine V W) (p : Promise) (r : Outcome V → Job V W) : Chronicle V W :=
  match m.outcome? p with
  | none => []
  | some o => m.putting (m.home p) [r o] (m.subscribe p r)

end Machine

/-- Runs steps, and tells what they do. -/
def Steps.chronicled (drain : QueueId → Drain → Machine V W → Chronicled V W Bool) :
    Work V W α → Machine V W → Chronicled V W α
  | .pure a, m => (.done a m, [])
  | .halt h, m => (.halted h m, [])
  | .newQueue next, m => (next m.newQueue.1).chronicled drain m.newQueue.2
  | .newPromise q next, m => (next (m.newPromise q).1).chronicled drain (m.newPromise q).2
  | .outcome p next, m => (next (m.outcome? p)).chronicled drain m
  | .home p next, m => (next (m.home p)).chronicled drain m
  | .settle p o next, m =>
    ((next (m.settle p o).1).chronicled drain (m.settle p o).2).after (m.settling p o)
  | .subscribe p r next, m => (next.chronicled drain (m.subscribe p r)).after (m.subscribing p r)
  | .enqueue q t next, m =>
    (next.chronicled drain (m.enqueue q t)).after (m.putting q [t] (m.enqueue q t))
  | .drain q d next, m => (drain q d m).andThen fun ran m => (next ran).chronicled drain m
  | .ticks q next, m => (next (m.queue q).ticks).chronicled drain m
  | .newGather n next, m => (next (m.newGather n).1).chronicled drain (m.newGather n).2
  | .fill g i v next, m => (next (m.fill g i v).1).chronicled drain (m.fill g i v).2
  | .getWorld next, m => (next m.world).chronicled drain m
  | .setWorld w next, m => next.chronicled drain { m with world := w }

namespace Machine

/-- Runs tasks of a queue, and tells what they do. -/
def drainChronicled : Nat → QueueId → Drain → Machine V W → Chronicled V W Bool
  | 0, _, _, m => (.halted .exhausted m, [])
  | limit + 1, q, d, m =>
    if m.reached d then (.done false m, [])
    else
      match m.pop? q with
      | none => (.done false m, [])
      | some (task, m) =>
        Chronicled.after [(.start q task, m)] <|
          (task.steps.chronicled (drainChronicled limit) m).andThen fun _ m =>
            match d with
            | .once => (.done true m, [])
            | d => (drainChronicled limit q d m).andThen fun _ m => (.done true m, [])

/-- Runs steps with a limit on the tasks that they may start, and tells what they do. -/
def chronicled (limit : Nat) (work : Work V W α) (m : Machine V W) : Chronicled V W α :=
  work.chronicled (drainChronicled limit) m

end Machine

theorem Steps.chronicled_fst {drain : QueueId → Drain → Machine V W → Ended V W Bool}
    {drain' : QueueId → Drain → Machine V W → Chronicled V W Bool}
    (hdrain : ∀ q d m, (drain' q d m).1 = drain q d m) (work : Work V W α) (m : Machine V W) :
    (work.chronicled drain' m).1 = work.run drain m := by
  induction work generalizing m with
  | pure => rfl
  | halt => rfl
  | subscribe p r next ih => exact ih _
  | enqueue q t next ih => exact ih _
  | setWorld w next ih => exact ih _
  | drain q d next ih =>
    rw [chronicled, run, ← hdrain]
    obtain ⟨ended, c⟩ := drain' q d m
    cases ended with
    | done ran m => exact ih ran m
    | halted h m => rfl
  | newQueue next ih => exact ih _ _
  | newPromise q next ih => exact ih _ _
  | outcome p next ih => exact ih _ _
  | home p next ih => exact ih _ _
  | settle p o next ih => exact ih _ _
  | ticks q next ih => exact ih _ _
  | newGather n next ih => exact ih _ _
  | fill g i v next ih => exact ih _ _
  | getWorld next ih => exact ih _ _

theorem Machine.drainChronicled_fst (limit : Nat) (q : QueueId) (d : Drain) (m : Machine V W) :
    (m.drainChronicled limit q d).1 = m.drain limit q d := by
  induction limit generalizing q d m with
  | zero => rfl
  | succ limit ih =>
    rw [drainChronicled, drain]
    by_cases hr : m.reached d = true
    · rw [if_pos hr, if_pos hr]
    · rw [if_neg hr, if_neg hr]
      cases hpop : m.pop? q with
      | none => rfl
      | some popped =>
        obtain ⟨task, m₁⟩ := popped
        simp only
        rw [← Steps.chronicled_fst ih]
        obtain ⟨ended, c⟩ := task.steps.chronicled (drainChronicled limit) m₁
        cases ended with
        | halted h m₂ => rfl
        | done _ m₂ =>
          cases d with
          | once => rfl
          | «until» p =>
            simp only [Chronicled.andThen, Chronicled.after]
            rw [← ih]
            cases m₂.drainChronicled limit q (.until p) with
            | mk ended c' => cases ended <;> rfl
          | all =>
            simp only [Chronicled.andThen, Chronicled.after]
            rw [← ih]
            cases m₂.drainChronicled limit q .all with
            | mk ended c' => cases ended <;> rfl

/-- A run that is told ends as it does otherwise. -/
theorem Machine.chronicled_fst (limit : Nat) (work : Work V W α) (m : Machine V W) :
    (m.chronicled limit work).1 = m.run limit work :=
  Steps.chronicled_fst (drainChronicled_fst limit) work m

theorem Chronicled.after_andThen (c : Chronicle V W) (r : Chronicled V W α)
    (k : α → Machine V W → Chronicled V W β) : (r.after c).andThen k = (r.andThen k).after c := by
  obtain ⟨ended, c'⟩ := r
  cases ended with
  | done a m => exact Prod.ext rfl (List.append_assoc ..)
  | halted h m => rfl

theorem Chronicled.andThen_assoc (r : Chronicled V W α) (k : α → Machine V W → Chronicled V W β)
    (k' : β → Machine V W → Chronicled V W γ) :
    (r.andThen k).andThen k' = r.andThen fun a m => (k a m).andThen k' := by
  obtain ⟨ended, c⟩ := r
  cases ended with
  | done a m => exact after_andThen c (k a m) k'
  | halted h m => rfl

theorem Steps.chronicled_bind {drain : QueueId → Drain → Machine V W → Chronicled V W Bool}
    (work : Work V W α) (k : α → Work V W β) (m : Machine V W) :
    (work.bind k).chronicled drain m =
      (work.chronicled drain m).andThen fun a m => (k a).chronicled drain m := by
  induction work generalizing m with
  | pure a => rfl
  | halt h => rfl
  | subscribe p r next ih => exact (congrArg _ (ih _)).trans (Chronicled.after_andThen ..).symm
  | enqueue q t next ih => exact (congrArg _ (ih _)).trans (Chronicled.after_andThen ..).symm
  | settle p o next ih => exact (congrArg _ (ih _ _)).trans (Chronicled.after_andThen ..).symm
  | drain q d next ih =>
    refine Eq.trans ?_ (Chronicled.andThen_assoc ..).symm
    exact congrArg _ (funext fun ran => funext fun m => ih ran m)
  | setWorld w next ih => exact ih _
  | newQueue next ih => exact ih _ _
  | newPromise q next ih => exact ih _ _
  | outcome p next ih => exact ih _ _
  | home p next ih => exact ih _ _
  | ticks q next ih => exact ih _ _
  | newGather n next ih => exact ih _ _
  | fill g i v next ih => exact ih _ _
  | getWorld next ih => exact ih _ _

/-- What a call does is told in one piece, wherever it is made. -/
theorem Machine.chronicled_bind (limit : Nat) (work : Work V W α) (k : α → Work V W β) (m : Machine V W) :
    m.chronicled limit (work.bind k) =
      (m.chronicled limit work).andThen fun a m => m.chronicled limit (k a) :=
  Steps.chronicled_bind work k m

/-! ## What was put in, what was started and what waits -/

/-- From one machine to another one, what is told adds up for each queue. -/
structure Chronicle.Balances (m : Machine V W) (c : Chronicle V W) (m' : Machine V W) : Prop where
  /-- What waited or was put in the queue since is what was started since, and then what waits, in order. -/
  tasks : ∀ q, m.tasks q ++ c.puts q = c.starts q ++ m'.tasks q
  /-- As many wait as were put in and not started. -/
  waiting : ∀ q, (m'.tasks q).length =
    (m.tasks q).length + (c.puts q).length - (c.starts q).length
  /-- The started tasks are counted, as far as the count goes. -/
  ticks : ∀ q, m.ticks q + (c.starts q).length ≤ Queue.maxTicks →
    m'.ticks q = m.ticks q + (c.starts q).length

/-- From one machine to another one, what is told adds up, up to each move and in the end. -/
structure Chronicle.Lawful (m : Machine V W) (c : Chronicle V W) (m' : Machine V W) : Prop where
  /-- Up to each move. -/
  moment : ∀ before move left after, c = before ++ (move, left) :: after →
    Balances m (before ++ [(move, left)]) left
  /-- In the end. -/
  final : Balances m c m'

namespace Chronicle

variable {m m' m₁ m₂ : Machine V W} {c c' : Chronicle V W} {q : QueueId} {move : Move V W}

theorem Balances.of_tasks (htasks : ∀ q, m.tasks q ++ c.puts q = c.starts q ++ m'.tasks q)
    (hticks : ∀ q, m.ticks q + (c.starts q).length ≤ Queue.maxTicks →
      m'.ticks q = m.ticks q + (c.starts q).length) : Balances m c m' where
  tasks := htasks
  waiting q := by
    have hlength := congrArg List.length (htasks q)
    rw [List.length_append, List.length_append] at hlength
    omega
  ticks := hticks

theorem Balances.append (h : Balances m c m₁) (h' : Balances m₁ c' m₂) : Balances m (c ++ c') m₂ := by
  refine .of_tasks (fun q => ?_) fun q hle => ?_
  · rw [puts_append, starts_append, ← List.append_assoc, h.tasks, List.append_assoc, h'.tasks,
      List.append_assoc]
  · rw [starts_append, List.length_append] at hle ⊢
    have hfirst := h.ticks q (by omega)
    have hsecond := h'.ticks q (by omega)
    omega

/-- Nothing is told where the queues stay as they are. -/
theorem Lawful.still (htasks : ∀ q, m'.tasks q = m.tasks q) (hticks : ∀ q, m'.ticks q = m.ticks q) :
    Lawful m [] m' where
  moment before move left after he := by simp at he
  final := .of_tasks (fun q => by simp [htasks]) fun q _ => by simp [hticks]

theorem Lawful.singleton (h : Balances m [(move, m')] m') : Lawful m [(move, m')] m' where
  moment before move' left after he := by
    obtain ⟨rfl, he⟩ : before = [] ∧ [(move, m')] = (move', left) :: after := by
      cases before with
      | nil => exact ⟨rfl, he⟩
      | cons e before => simp at he
    cases he
    exact h
  final := h

/-- **One after another.** -/
theorem Lawful.append (h : Lawful m c m₁) (h' : Lawful m₁ c' m₂) : Lawful m (c ++ c') m₂ where
  moment before move left after he := by
    have hlater (between : Chronicle V W) (hb : before = c ++ between)
        (hc : c' = between ++ (move, left) :: after) : Balances m (before ++ [(move, left)]) left := by
      rw [hb, List.append_assoc]
      exact h.final.append (h'.moment between move left after hc)
    rcases List.append_eq_append_iff.mp he with ⟨between, hb, hc⟩ | ⟨rest, hc, he⟩
    · exact hlater between hb hc
    · cases rest with
      | nil => exact hlater [] (by simpa using hc.symm) he.symm
      | cons e rest =>
        cases he
        exact h.moment before move left rest hc
  final := h.final.append h'.final

end Chronicle

/-- What is told later, where the queues have stayed as they were. -/
theorem Chronicle.Lawful.of_still {m m₁ m' : Machine V W} {c : Chronicle V W} (h : Lawful m₁ c m')
    (htasks : ∀ q, m₁.tasks q = m.tasks q) (hticks : ∀ q, m₁.ticks q = m.ticks q) : Lawful m c m' :=
  (still htasks hticks).append h

/-! ## Each request -/

namespace Machine

open Chronicle

variable {m : Machine V W}

theorem lawful_putting (m : Machine V W) (q : QueueId) (tasks : List (Job V W)) {left : Machine V W}
    (htasks : ∀ q', left.tasks q' =
      if q' = q ∧ q.index < m.queues.size then m.tasks q' ++ tasks else m.tasks q')
    (hticks : ∀ q', left.ticks q' = m.ticks q') : Lawful m (m.putting q tasks left) left := by
  unfold putting
  split
  · next hlt =>
    refine .singleton (.of_tasks (fun q' => ?_) fun q' _ => ?_)
    · rw [puts_singleton, starts_singleton, htasks]
      by_cases hq : q' = q
      · simp [Move.puts, Move.starts, hq, hlt]
      · simp [Move.puts, Move.starts, hq, Ne.symm hq]
    · rw [starts_singleton, hticks]
      rfl
  · next hge => exact .still (fun q' => by simp [htasks, hge]) hticks

theorem lawful_enqueue (q : QueueId) (t : Job V W) :
    Lawful m (m.putting q [t] (m.enqueue q t)) (m.enqueue q t) :=
  lawful_putting m q [t] (fun _ => tasks_append ..) fun _ => ticks_append ..

theorem lawful_settling (p : Promise) (o : Outcome V) :
    Lawful m (m.settling p o) (m.settle p o).2 := by
  unfold settling
  split
  · next hnone =>
    refine lawful_putting m _ _ (fun q => ?_) fun q => ticks_settle ..
    rw [tasks_settle]
    by_cases hq : q = m.home p
    · subst hq
      by_cases hopen : m.Open p
      · simp [hopen]
      · have hreactions : m.reactions p = [] := by
          have hge : m.cells.size ≤ p.index := Nat.le_of_not_lt fun hlt => hopen ⟨hlt, hnone⟩
          simp [reactions, Array.getElem?_eq_none hge]
        simp [hopen, hreactions]
    · simp [hq]
  · next hsome =>
    rw [settle_of_settled hsome]
    exact .still (fun _ => rfl) fun _ => rfl

theorem lawful_subscribing (p : Promise) (r : Outcome V → Job V W) :
    Lawful m (m.subscribing p r) (m.subscribe p r) := by
  unfold subscribing
  split
  · next hnone => exact .still (fun q => by simp [tasks_subscribe, hnone]) fun q => ticks_subscribe ..
  · next o hsome =>
    refine lawful_putting m _ _ (fun q => ?_) fun q => ticks_subscribe ..
    rw [tasks_subscribe, hsome]
    by_cases hq : q = m.home p
    · subst hq
      simp only [true_and]
      split <;> simp
    · simp [hq]

theorem lawful_pop? {q : QueueId} {task : Job V W} {m₁ : Machine V W} (h : m.pop? q = some (task, m₁)) :
    Lawful m [(.start q task, m₁)] m₁ := by
  obtain ⟨htasks, hothers, -⟩ := tasks_pop? h
  obtain ⟨hticks, hticks', -⟩ := ticks_pop? h
  refine .singleton (.of_tasks (fun q' => ?_) fun q' => ?_)
  · rw [puts_singleton, starts_singleton]
    by_cases hq : q' = q
    · subst hq
      simp [Move.puts, Move.starts, htasks]
    · simp [Move.puts, Move.starts, hothers q' hq, Ne.symm hq]
  · rw [starts_singleton]
    by_cases hq : q' = q
    · subst hq
      simp only [Move.starts, if_true, List.length_singleton]
      intro hle
      rw [hticks, Nat.min_eq_left hle]
    · simp [Move.starts, hticks' q' hq, Ne.symm hq]

end Machine

/-! ## Whole runs -/

open Chronicle

theorem Chronicled.lawful_after {m m₁ : Machine V W} {c : Chronicle V W} {r : Chronicled V W α}
    (h : Lawful m c m₁) (hr : Lawful m₁ r.2 r.1.machine) :
    Lawful m (r.after c).2 (r.after c).1.machine :=
  h.append hr

theorem Chronicled.lawful_andThen {m : Machine V W} {r : Chronicled V W α}
    {k : α → Machine V W → Chronicled V W β} (hr : Lawful m r.2 r.1.machine)
    (hk : ∀ a m, Lawful m (k a m).2 (k a m).1.machine) :
    Lawful m (r.andThen k).2 (r.andThen k).1.machine := by
  obtain ⟨ended, c⟩ := r
  cases ended with
  | done a m₁ => exact lawful_after hr (hk a m₁)
  | halted h m₁ => exact hr

/-- **What steps do is told right**, where what the drains that they start do is told right. -/
theorem Steps.lawful_chronicled {drain : QueueId → Drain → Machine V W → Chronicled V W Bool}
    (hdrain : ∀ q d m, Lawful m (drain q d m).2 (drain q d m).1.machine) (work : Work V W α)
    (m : Machine V W) :
    Lawful m (work.chronicled drain m).2 (work.chronicled drain m).1.machine := by
  induction work generalizing m with
  | pure => exact .still (fun _ => rfl) fun _ => rfl
  | halt => exact .still (fun _ => rfl) fun _ => rfl
  | settle p o next ih => exact Chronicled.lawful_after (Machine.lawful_settling p o) (ih _ _)
  | subscribe p r next ih => exact Chronicled.lawful_after (Machine.lawful_subscribing p r) (ih _)
  | enqueue q t next ih => exact Chronicled.lawful_after (Machine.lawful_enqueue q t) (ih _)
  | drain q d next ih => exact Chronicled.lawful_andThen (hdrain q d m) ih
  | newQueue next ih => exact (ih _ m.newQueue.2).of_still Machine.tasks_newQueue Machine.ticks_newQueue
  | newPromise q next ih => exact (ih _ (m.newPromise q).2).of_still (fun _ => rfl) fun _ => rfl
  | newGather n next ih => exact (ih _ (m.newGather n).2).of_still (fun _ => rfl) fun _ => rfl
  | fill g i v next ih =>
    exact (ih _ (m.fill g i v).2).of_still (Machine.tasks_fill g i v) (Machine.ticks_fill g i v)
  | setWorld w next ih => exact (ih { m with world := w }).of_still (fun _ => rfl) fun _ => rfl
  | outcome p next ih => exact ih _ _
  | home p next ih => exact ih _ _
  | ticks q next ih => exact ih _ _
  | getWorld next ih => exact ih _ _

namespace Machine

/-- **What a drain does is told right**, by induction on its limit: a task and all that it drains itself come
between its start and the next task of the drain. -/
theorem lawful_drainChronicled (limit : Nat) (q : QueueId) (d : Drain) (m : Machine V W) :
    Lawful m (m.drainChronicled limit q d).2 (m.drainChronicled limit q d).1.machine := by
  induction limit generalizing q d m with
  | zero => exact .still (fun _ => rfl) fun _ => rfl
  | succ limit ih =>
    have hstill (m : Machine V W) (ran : Bool) :
        Lawful m (Ended.done ran m, ([] : Chronicle V W)).2 (Ended.done ran m).machine :=
      .still (fun _ => rfl) fun _ => rfl
    rw [drainChronicled]
    split
    · exact hstill m false
    · cases hpop : m.pop? q with
      | none => exact hstill m false
      | some popped =>
        obtain ⟨task, m₁⟩ := popped
        refine Chronicled.lawful_after (lawful_pop? hpop) ?_
        refine Chronicled.lawful_andThen (Steps.lawful_chronicled ih task.steps m₁) fun _ m₂ => ?_
        cases d with
        | once => exact hstill m₂ true
        | «until» p => exact Chronicled.lawful_andThen (ih q _ m₂) fun _ m₃ => hstill m₃ true
        | all => exact Chronicled.lawful_andThen (ih q _ m₂) fun _ m₃ => hstill m₃ true

/-- **What a run does is told right.** -/
theorem lawful_chronicled (limit : Nat) (work : Work V W α) (m : Machine V W) :
    Lawful m (m.chronicled limit work).2 (m.run limit work).machine := by
  rw [← chronicled_fst]
  exact Steps.lawful_chronicled (lawful_drainChronicled limit) work m

/-! ## Draining a queue -/

variable {m m' : Machine V W} {q : QueueId} {limit : Nat}

/-- A drain of one task tells whether there was one. -/
theorem ran_iff_of_drain_once {ran : Bool} (h : m.drain limit q .once = .done ran m') :
    ran = false ↔ m.tasks q = [] := by
  cases limit with
  | zero => cases h
  | succ limit =>
    rw [drain, if_neg (show ¬m.reached .once = true from Bool.false_ne_true)] at h
    rw [tasks, ← pop?_eq_none_iff]
    cases hpop : m.pop? q with
    | none =>
      rw [hpop] at h
      cases h
      simp
    | some popped =>
      obtain ⟨task, m₁⟩ := popped
      simp only [hpop] at h
      split at h
      · cases h
      · cases h
        simp

/-- A drain of all tasks leaves none. -/
theorem empty_of_drain_all {ran : Bool} (h : m.drain limit q .all = .done ran m') : m'.tasks q = [] := by
  induction limit generalizing m ran with
  | zero => cases h
  | succ limit ih =>
    obtain ⟨fuel, he, hcase⟩ := drain_cases h
    obtain rfl := Nat.succ_inj.mp he
    rcases hcase with ⟨rfl, hr | hempty⟩ | ⟨task, m₁, m₂, -, -, ⟨hd, -⟩ | ⟨ran', hd⟩⟩
    · cases hr
    · exact (pop?_eq_none_iff m' q).mp hempty
    · cases hd
    · exact ih hd

/-- Running the oldest task is a drain. -/
theorem run_runNext (limit : Nat) (m : Machine V W) (q : QueueId) :
    m.run limit (Promise.runNext q) = m.drain limit q .once := by
  simp only [run, Promise.runNext, Steps.run]
  cases m.drain limit q .once <;> rfl

/-- Running all tasks is a drain between two looks at the count. -/
theorem drain_of_runAll {n : Nat} (h : m.run limit (Promise.runAll q) = .done n m') :
    (∃ ran, m.drain limit q .all = .done ran m') ∧ n = m'.ticks q - m.ticks q := by
  change Steps.run (drain limit) (.ticks q fun before => .drain q .all fun _ => .ticks q fun after =>
    .pure (after - before)) m = _ at h
  simp only [Steps.run] at h
  cases hd : m.drain limit q .all with
  | halted c m₁ =>
    rw [hd] at h
    cases h
  | done ran m₁ =>
    rw [hd] at h
    cases h
    exact ⟨⟨ran, rfl⟩, rfl⟩

end Machine

/-- **Queues are first in, first out, however drains nest.** Every run is told by a chronicle, each call in it
in one piece. For each queue it adds up, up to each move and in the end: what was put in is what was started and
what waits, in order. Running the oldest task tells whether there was one. Running all tasks leaves none, and
counts those that were started meanwhile, by nested drains as well. -/
theorem Machine.tasks_start_in_order (limit : Nat) (m : Machine V W) :
    (∀ {α : Type} (work : Work V W α), (m.chronicled limit work).1 = m.run limit work ∧
      Lawful m (m.chronicled limit work).2 (m.run limit work).machine) ∧
    (∀ {α β : Type} (work : Work V W α) (k : α → Work V W β), m.chronicled limit (work.bind k) =
      (m.chronicled limit work).andThen fun a m => m.chronicled limit (k a)) ∧
    ∀ q, (∀ ran m', m.run limit (Promise.runNext q) = .done ran m' → (ran = false ↔ m.tasks q = [])) ∧
      (m.tasks q = [] → 0 < limit → m.run limit (Promise.runNext q) = .done false m) ∧
      ∀ n m', m.run limit (Promise.runAll q) = .done n m' → m'.tasks q = [] ∧
        (m.ticks q + ((m.chronicled limit (Promise.runAll q)).2.starts q).length ≤ Queue.maxTicks →
          n = ((m.chronicled limit (Promise.runAll q)).2.starts q).length) := by
  refine ⟨fun work => ⟨chronicled_fst limit work m, lawful_chronicled limit work m⟩,
    fun work k => chronicled_bind limit work k m, fun q => ⟨fun ran m' h => ?_, fun hempty hlimit => ?_,
      fun n m' h => ?_⟩⟩
  · exact ran_iff_of_drain_once ((run_runNext limit m q).symm.trans h)
  · obtain ⟨fuel, rfl⟩ := Nat.exists_eq_succ_of_ne_zero hlimit.ne'
    rw [run_runNext, drain, (pop?_eq_none_iff m q).mpr hempty, ite_self]
  · obtain ⟨⟨ran, hd⟩, hn⟩ := drain_of_runAll h
    have hlawful := lawful_chronicled limit (Promise.runAll q) m
    rw [h] at hlawful
    refine ⟨empty_of_drain_all hd, fun hle => ?_⟩
    have hticks : m'.ticks q = _ := hlawful.final.ticks q hle
    omega

namespace Sample

/-- A queue of two tasks, the first of which puts a third one in and runs all that wait. -/
def nesting : Machine Unit Unit where
  queues := #[{ tasks := [.mk (.enqueue ⟨0⟩ (.mk (.pure ())) (.drain ⟨0⟩ .all fun _ => .pure ())),
    .mk (.pure ())] }]
  world := ()

/-- All three tasks are counted, two of them started by the first one, and a look at the empty queue finds
none. -/
theorem tasks_start_in_order_nesting :
    (∃ m', nesting.run 4 (Promise.runAll ⟨0⟩) = .done 3 m' ∧ m'.tasks ⟨0⟩ = []) ∧
      ((nesting.chronicled 4 (Promise.runAll ⟨0⟩)).2.starts ⟨0⟩).length = 3 ∧
      (Machine.start ()).run 1 (Promise.runNext ⟨0⟩) = (.done false (Machine.start ()) : Ended Unit Unit Bool) := by
  obtain ⟨-, -, h⟩ := Machine.tasks_start_in_order 4 nesting
  obtain ⟨-, -, hall⟩ := h ⟨0⟩
  have hrun : nesting.run 4 (Promise.runAll ⟨0⟩) = .done 3 _ := rfl
  obtain ⟨hempty, hcount⟩ := hall 3 _ hrun
  obtain ⟨-, -, h'⟩ := Machine.tasks_start_in_order 1 (Machine.start () : Machine Unit Unit)
  exact ⟨⟨_, hrun, hempty⟩, (hcount (by decide)).symm, (h' ⟨0⟩).2.1 rfl (by decide)⟩

end Sample

end EntityQuery
