import EntityQuery.Promise.Machine
import Mathlib.Algebra.BigOperators.Group.List.Basic
import Mathlib.Algebra.Order.Monoid.Canonical.Defs
import Mathlib.Tactic.Abel

/-!
# What is left to do, in total

A weight for each task and for each reaction gives a machine a weight: that of all the tasks in its
queues and of all the reactions that wait.

* `Machine.total`: the weight of a machine.
* One lemma for each request, such as **`Machine.total_settle`**: how it changes the weight.
-/

namespace EntityQuery

/-- What a list weighs apart from one of its elements, which may be replaced. -/
theorem exists_sum_map_set {α M : Type*} [AddCommMonoid M] (f : α → M) {l : List α} {i : Nat}
    {a : α} (h : l[i]? = some a) :
    ∃ x, (l.map f).sum = x + f a ∧ ∀ b, ((l.set i b).map f).sum = x + f b := by
  induction l generalizing i with
  | nil => simp at h
  | cons c l ih =>
    cases i with
    | zero =>
      obtain rfl : c = a := by simpa using h
      exact ⟨(l.map f).sum, by simp [add_comm], fun b => by simp [add_comm]⟩
    | succ i =>
      obtain ⟨x, hx, hb⟩ := ih (i := i) (by simpa using h)
      exact ⟨f c + x, by simp [hx, add_assoc], fun b => by
        simp only [List.set_cons_succ, List.map_cons, List.sum_cons, hb, add_assoc]⟩

namespace Machine

variable {V W : Type} {M : Type*} [AddCommMonoid M]

/-- The weight of the tasks in the queues and of the reactions that wait. -/
def total (f : Job V W → M) (r : (Outcome V → Job V W) → M) (m : Machine V W) : M :=
  (m.queues.toList.map fun q => (q.tasks.map f).sum).sum +
    (m.cells.toList.map fun c => (c.reactions.map r).sum).sum

/-- Tasks at the end of a queue are a change of that queue. -/
theorem append_eq_set {m : Machine V W} {q : QueueId} {c : Queue V W}
    (h : m.queues[q.index]? = some c) (tasks : List (Job V W)) :
    m.append q tasks = { m with queues := m.queues.set! q.index (c.append tasks) } := by
  unfold append
  congr 1
  refine Array.ext_getElem? fun i => ?_
  rw [Array.getElem?_modify, Array.set!_eq_setIfInBounds, Array.getElem?_setIfInBounds]
  by_cases hi : q.index = i
  · subst hi
    obtain ⟨hlt, hc⟩ := Array.getElem?_eq_some_iff.mp h
    simp [hlt, hc]
  · simp [hi]

/-- Tasks for a queue that does not exist are lost. -/
theorem append_of_none {m : Machine V W} {q : QueueId} (h : m.queues[q.index]? = none)
    (tasks : List (Job V W)) : m.append q tasks = m := by
  unfold append
  congr 1
  refine Array.ext_getElem? fun i => ?_
  rw [Array.getElem?_modify]
  by_cases hi : q.index = i
  · subst hi
    simp [h]
  · simp [hi]

variable (f : Job V W → M) (r : (Outcome V → Job V W) → M) (m : Machine V W)

@[simp] theorem total_newQueue : m.newQueue.2.total f r = m.total f r := by
  simp [newQueue, total]

@[simp] theorem total_newPromise (q : QueueId) : (m.newPromise q).2.total f r = m.total f r := by
  simp [newPromise, total]

@[simp] theorem total_newGather (size : Nat) : (m.newGather size).2.total f r = m.total f r := rfl

@[simp] theorem total_fill (g : GatherId) (slot : Nat) (v : V) :
    (m.fill g slot v).2.total f r = m.total f r := by
  unfold fill
  split <;> rfl

@[simp] theorem total_setWorld (w : W) : total f r { m with world := w } = m.total f r := rfl

/-- The weight of a queue beside that of the rest, whatever the queue is replaced with. -/
theorem exists_total_set_queue {q : QueueId} {c : Queue V W} (h : m.queues[q.index]? = some c) :
    ∃ x, m.total f r = x + (c.tasks.map f).sum ∧
      ∀ c', total f r { m with queues := m.queues.set! q.index c' } =
        x + (c'.tasks.map f).sum := by
  obtain ⟨x, hx, hset⟩ := exists_sum_map_set (fun q : Queue V W => (q.tasks.map f).sum)
    (l := m.queues.toList) (i := q.index) (by simpa using h)
  refine ⟨x + (m.cells.toList.map fun c => (c.reactions.map r).sum).sum, ?_, fun c' => ?_⟩
  · rw [total, hx]
    abel
  · simp only [total, Array.set!_eq_setIfInBounds, Array.toList_setIfInBounds, hset]
    abel

/-- The weight of the reactions to a promise beside that of the rest, whatever the promise is
replaced with. -/
theorem exists_total_set_cell {p : Promise} {c : Cell V W} (h : m.cells[p.index]? = some c) :
    ∃ x, m.total f r = x + (c.reactions.map r).sum ∧
      ∀ c', total f r { m with cells := m.cells.set! p.index c' } =
        x + (c'.reactions.map r).sum := by
  obtain ⟨x, hx, hset⟩ := exists_sum_map_set (fun c : Cell V W => (c.reactions.map r).sum)
    (l := m.cells.toList) (i := p.index) (by simpa using h)
  refine ⟨(m.queues.toList.map fun q => (q.tasks.map f).sum).sum + x, ?_, fun c' => ?_⟩
  · rw [total, hx]
    abel
  · simp only [total, Array.set!_eq_setIfInBounds, Array.toList_setIfInBounds, hset]
    abel

/-- **Taking a task takes its weight.** -/
theorem total_pop? {q : QueueId} {task : Job V W} {m' : Machine V W}
    (h : m.pop? q = some (task, m')) : m.total f r = m'.total f r + f task := by
  obtain ⟨⟨t, rest⟩, hp, he⟩ := Option.map_eq_some_iff.mp h
  cases he
  have htasks := ((Queue.pop?_eq_some_iff _ _ _).mp hp).1
  cases hq : m.queues[q.index]? with
  | none => simp [queue, hq] at htasks
  | some c =>
    obtain ⟨x, hx, hset⟩ := exists_total_set_queue f r m hq
    simp only [queue, hq, Option.getD_some] at htasks
    rw [hset, hx, htasks, List.map_cons, List.sum_cons]
    abel

variable [PartialOrder M] [CanonicallyOrderedAdd M]

/-- Tasks at the end of a queue add at most their weight. -/
theorem total_append_le (q : QueueId) (tasks : List (Job V W)) :
    (m.append q tasks).total f r ≤ m.total f r + (tasks.map f).sum := by
  cases hq : m.queues[q.index]? with
  | none =>
    rw [append_of_none hq]
    exact le_self_add
  | some c =>
    obtain ⟨x, hx, hset⟩ := exists_total_set_queue f r m hq
    rw [append_eq_set hq, hset, hx]
    simp [add_assoc]

/-- **Settling a promise moves its reactions**: their weight is replaced by at most the weight of
the tasks that they come to. -/
theorem total_settle (p : Promise) (o : Outcome V) :
    ∃ (rs : List (Outcome V → Job V W)) (x : M), m.total f r = x + (rs.map r).sum ∧
      (m.settle p o).2.total f r ≤ x + (rs.map fun k => f (k o)).sum := by
  unfold settle
  split
  · rename_i home rs hc
    obtain ⟨x, hx, hset⟩ := exists_total_set_cell f r m hc
    refine ⟨rs, x, hx, (total_append_le f r _ _ _).trans ?_⟩
    rw [hset, List.map_map]
    simp [Function.comp_def]
  · exact ⟨[], m.total f r, by simp, by simp⟩

/-- **A reaction waits, or is put on a queue as a task.** -/
theorem total_subscribe (p : Promise) (k : Outcome V → Job V W) :
    (m.subscribe p k).total f r ≤ m.total f r + r k ∨
      ∃ o, (m.subscribe p k).total f r ≤ m.total f r + f (k o) := by
  unfold subscribe
  split
  · rename_i home o _ _
    exact .inr ⟨o, by simpa [enqueue] using total_append_le f r m home [k o]⟩
  · rename_i home rs hc
    obtain ⟨x, hx, hset⟩ := exists_total_set_cell f r m hc
    refine .inl ?_
    rw [hset, hx]
    simp [add_assoc]
  · exact .inl le_self_add

end Machine

end EntityQuery
