import EntityQuery.Proofs.Promise.Ending
import EntityQuery.Proofs.Promise.Requests
import EntityQuery.Proofs.Promise.Total

/-!
# One run in two worlds

Two machines may hold the same tasks and reactions in two forms, for worlds of two kinds. As long as
both are given the same requests, they stay alike in all but their worlds.

* `Twins`: tasks and reactions with two forms. `Sheet`: where they are.
* **`Twins.Match`**: two machines that hold what a sheet says. One lemma for each request.
* `Ended.Both`: runs that end alike. **`Machine.drain_both`**: drains of machines that stay related.
-/

namespace EntityQuery

variable {V W W' : Type}

/-- Tasks and reactions that have two forms, for worlds of two kinds. -/
structure Twins (V W W' : Type) where
  Task : Type
  Reaction : Type
  /-- The task that a reaction comes to. -/
  fire : Reaction → Outcome V → Task
  left : Task → Job V W
  right : Task → Job V W'

/-- The tasks of each queue, and the reactions to each promise. -/
structure Sheet (D : Twins V W W') where
  tasks : QueueId → List D.Task
  reactions : Promise → List D.Reaction

namespace Sheet

variable {D : Twins V W W'} (S : Sheet D)

/-- Tasks at the end of a queue. -/
def append (q : QueueId) (ts : List D.Task) : Sheet D :=
  { S with tasks := Function.update S.tasks q (S.tasks q ++ ts) }

/-- Tasks that are left in a queue. -/
def rest (q : QueueId) (ts : List D.Task) : Sheet D :=
  { S with tasks := Function.update S.tasks q ts }

/-- One more reaction to a promise. -/
def react (p : Promise) (r : D.Reaction) : Sheet D :=
  { S with reactions := Function.update S.reactions p (S.reactions p ++ [r]) }

/-- No reactions to a promise. -/
def drop (p : Promise) : Sheet D :=
  { S with reactions := Function.update S.reactions p [] }

/-- The reactions to a promise come to tasks at the end of a queue. -/
def release (p : Promise) (q : QueueId) (o : Outcome V) : Sheet D :=
  (S.append q ((S.reactions p).map (D.fire · o))).drop p

@[simp] theorem tasks_append (q q' : QueueId) (ts : List D.Task) :
    (S.append q ts).tasks q' = if q' = q then S.tasks q' ++ ts else S.tasks q' := by
  by_cases h : q' = q
  · subst h
    simp [append]
  · simp [append, h]

@[simp] theorem reactions_append (q : QueueId) (ts : List D.Task) (p : Promise) :
    (S.append q ts).reactions p = S.reactions p := rfl

@[simp] theorem tasks_rest (q q' : QueueId) (ts : List D.Task) :
    (S.rest q ts).tasks q' = if q' = q then ts else S.tasks q' := by
  by_cases h : q' = q
  · subst h
    simp [rest]
  · simp [rest, h]

@[simp] theorem reactions_rest (q : QueueId) (ts : List D.Task) (p : Promise) :
    (S.rest q ts).reactions p = S.reactions p := rfl

@[simp] theorem tasks_react (p : Promise) (r : D.Reaction) (q : QueueId) :
    (S.react p r).tasks q = S.tasks q := rfl

@[simp] theorem reactions_react (p p' : Promise) (r : D.Reaction) :
    (S.react p r).reactions p' =
      if p' = p then S.reactions p' ++ [r] else S.reactions p' := by
  by_cases h : p' = p
  · subst h
    simp [react]
  · simp [react, h]

@[simp] theorem tasks_drop (p : Promise) (q : QueueId) : (S.drop p).tasks q = S.tasks q := rfl

@[simp] theorem reactions_drop (p p' : Promise) :
    (S.drop p).reactions p' = if p' = p then [] else S.reactions p' := by
  by_cases h : p' = p
  · subst h
    simp [drop]
  · simp [drop, h]

theorem mem_tasks_append {q q' : QueueId} {ts : List D.Task} {t : D.Task} :
    t ∈ (S.append q ts).tasks q' ↔ t ∈ S.tasks q' ∨ q' = q ∧ t ∈ ts := by
  rw [tasks_append]
  split <;> simp [*]

theorem mem_tasks_rest {q q' : QueueId} {t t' : D.Task} {ts : List D.Task}
    (hq : S.tasks q = t' :: ts) (ht : t ∈ (S.rest q ts).tasks q') : t ∈ S.tasks q' := by
  rw [tasks_rest] at ht
  by_cases hq' : q' = q
  · rw [if_pos hq'] at ht
    rw [hq', hq]
    exact List.mem_cons_of_mem _ ht
  · rwa [if_neg hq'] at ht

theorem mem_reactions_react {p p' : Promise} {r r' : D.Reaction} :
    r' ∈ (S.react p r).reactions p' ↔ r' ∈ S.reactions p' ∨ p' = p ∧ r' = r := by
  rw [reactions_react]
  split <;> simp [*]

theorem mem_reactions_drop {p p' : Promise} {r : D.Reaction} :
    r ∈ (S.drop p).reactions p' ↔ p' ≠ p ∧ r ∈ S.reactions p' := by
  rw [reactions_drop]
  split <;> simp [*]

end Sheet

namespace Twins

/-- Two machines that hold what a sheet says, and are alike in all but their worlds. -/
structure Match (D : Twins V W W') (S : Sheet D) (m : Machine V W) (m' : Machine V W') : Prop where
  gathers : m'.gathers = m.gathers
  queues : m'.queues.size = m.queues.size
  cells : m'.cells.size = m.cells.size
  ticks : ∀ q, m'.ticks q = m.ticks q
  outcome : ∀ p, m'.outcome? p = m.outcome? p
  home : ∀ p, m'.home p = m.home p
  tasks : ∀ q, m.tasks q = (S.tasks q).map D.left
  tasks' : ∀ q, m'.tasks q = (S.tasks q).map D.right
  reactions : ∀ p, m.reactions p = (S.reactions p).map fun r o => D.left (D.fire r o)
  reactions' : ∀ p, m'.reactions p = (S.reactions p).map fun r o => D.right (D.fire r o)

namespace Match

variable {D : Twins V W W'} {S : Sheet D} {m : Machine V W} {m' : Machine V W'}

theorem open_iff (h : D.Match S m m') (p : Promise) : m'.Open p ↔ m.Open p := by
  rw [Machine.Open, Machine.Open, h.cells, h.outcome]

theorem newQueue (h : D.Match S m m') :
    m'.newQueue.1 = m.newQueue.1 ∧ D.Match S m.newQueue.2 m'.newQueue.2 :=
  ⟨congrArg QueueId.mk h.queues, { h with
    queues := by simp [Machine.newQueue, h.queues]
    ticks := fun q => by simp [h.ticks]
    tasks := fun q => by simp [h.tasks]
    tasks' := fun q => by simp [h.tasks'] }⟩

theorem newPromise (h : D.Match S m m') (q : QueueId) :
    (m'.newPromise q).1 = (m.newPromise q).1 ∧
      D.Match S (m.newPromise q).2 (m'.newPromise q).2 :=
  ⟨congrArg Promise.mk h.cells, { h with
    cells := by simp [Machine.newPromise, h.cells]
    outcome := fun p => by simp [h.outcome]
    home := fun p => by
      simp only [Machine.newPromise, Machine.home, Array.getElem?_push, h.cells]
      split
      · rfl
      · exact h.home p
    reactions := fun p => by simp [h.reactions]
    reactions' := fun p => by simp [h.reactions'] }⟩

theorem newGather (h : D.Match S m m') (size : Nat) :
    (m'.newGather size).1 = (m.newGather size).1 ∧
      D.Match S (m.newGather size).2 (m'.newGather size).2 :=
  ⟨by simp [Machine.newGather, h.gathers],
    { h with gathers := by simp [Machine.newGather, h.gathers] }⟩

theorem fill (h : D.Match S m m') (g : GatherId) (slot : Nat) (v : V) :
    (m'.fill g slot v).1 = (m.fill g slot v).1 ∧
      D.Match S (m.fill g slot v).2 (m'.fill g slot v).2 := by
  have hg : m'.gathers = m.gathers := h.gathers
  cases hc : m.gathers[g.index]? with
  | none =>
    simp only [Machine.fill, hg, hc]
    exact ⟨trivial, h⟩
  | some gather =>
    simp only [Machine.fill, hg, hc]
    exact ⟨trivial, { h with gathers := by simp }⟩

/-- The worlds may be any. -/
theorem setWorld (h : D.Match S m m') (w : W) (w' : W') :
    D.Match S { m with world := w } { m' with world := w' } :=
  { h with }

theorem append (h : D.Match S m m') {q : QueueId} (hq : q.index < m.queues.size)
    (ts : List D.Task) :
    D.Match (S.append q ts) (m.append q (ts.map D.left)) (m'.append q (ts.map D.right)) :=
  { h with
    queues := by simp [Machine.append, h.queues]
    ticks := fun q' => by simp [h.ticks]
    tasks := fun q' => by
      rw [Machine.tasks_append, Sheet.tasks_append, h.tasks]
      by_cases hq' : q' = q <;> simp [hq', hq]
    tasks' := fun q' => by
      rw [Machine.tasks_append, Sheet.tasks_append, h.tasks', h.queues]
      by_cases hq' : q' = q <;> simp [hq', hq] }

/-- A promise takes a new state. -/
theorem setCell (h : D.Match S m m') (p : Promise) (o : Option (Outcome V))
    (hp : p.index < m.cells.size) (S' : Sheet D) (hS : ∀ q, S'.tasks q = S.tasks q)
    (hS' : ∀ p', p' ≠ p → S'.reactions p' = S.reactions p') :
    D.Match S'
      { m with
        cells := m.cells.set! p.index
          ⟨m.home p, o, (S'.reactions p).map fun r o => D.left (D.fire r o)⟩ }
      { m' with
        cells := m'.cells.set! p.index
          ⟨m.home p, o, (S'.reactions p).map fun r o => D.right (D.fire r o)⟩ } :=
  { h with
    cells := by simp [h.cells]
    outcome := fun y => by
      rw [Machine.outcome?_setCell, Machine.outcome?_setCell, h.outcome, h.cells]
    home := fun y => by
      rw [Machine.home_setCell, Machine.home_setCell, h.home, h.cells]
    tasks := fun q => (h.tasks q).trans (by rw [hS])
    tasks' := fun q => (h.tasks' q).trans (by rw [hS])
    reactions := fun y => by
      rw [Machine.reactions_setCell]
      by_cases hy : y = p
      · rw [if_pos ⟨hy, hp⟩, hy]
      · rw [if_neg (by simp [hy]), h.reactions, hS' y hy]
    reactions' := fun y => by
      rw [Machine.reactions_setCell]
      by_cases hy : y = p
      · rw [if_pos ⟨hy, h.cells ▸ hp⟩, hy]
      · rw [if_neg (by simp [hy]), h.reactions', hS' y hy] }

/-- **Settling a promise puts the same tasks on its queue.** -/
theorem settle (h : D.Match S m m') {p : Promise} (hopen : m.Open p) (o : Outcome V) :
    ∃ S', (S' = S.release p (m.home p) o ∧ (m.home p).index < m.queues.size ∨
        S' = S.drop p ∧ ¬(m.home p).index < m.queues.size) ∧
      (m'.settle p o).1 = (m.settle p o).1 ∧ D.Match S' (m.settle p o).2 (m'.settle p o).2 := by
  have hopen' : m'.Open p := (h.open_iff p).mpr hopen
  have hset := h.setCell p (some o) hopen.1 (S.drop p) (fun _ => rfl) fun p' hp' => by
    simp [hp']
  have hnone : (S.drop p).reactions p = [] := by simp
  simp only [hnone, List.map_nil] at hset
  rw [Machine.settle_of_open hopen, Machine.settle_of_open hopen', h.home, h.reactions,
    h.reactions', List.map_map, List.map_map]
  by_cases hq : (m.home p).index < m.queues.size
  · refine ⟨_, .inl ⟨rfl, hq⟩, rfl, ?_⟩
    have happend := hset.append (q := m.home p) hq ((S.reactions p).map (D.fire · o))
    rw [List.map_map, List.map_map] at happend
    exact happend
  · refine ⟨_, .inr ⟨rfl, hq⟩, rfl, ?_⟩
    rw [Machine.append_of_none (by simpa using hq),
      Machine.append_of_none (by simpa [h.queues] using hq)]
    exact hset

/-- **A reaction to a pending promise waits for it.** -/
theorem subscribe (h : D.Match S m m') {p : Promise} (hopen : m.Open p) (r : D.Reaction) :
    D.Match (S.react p r) (m.subscribe p fun o => D.left (D.fire r o))
      (m'.subscribe p fun o => D.right (D.fire r o)) := by
  have hset := h.setCell p none hopen.1 (S.react p r) (fun _ => rfl) fun p' hp' => by
    simp [hp']
  rw [Machine.subscribe_of_open hopen, Machine.subscribe_of_open ((h.open_iff p).mpr hopen),
    h.home, h.reactions, h.reactions']
  simpa using hset

/-- **Both machines take the oldest task of a queue.** -/
theorem pop? (h : D.Match S m m') (q : QueueId) :
    (m.pop? q = none ∧ m'.pop? q = none) ∨
      ∃ t ts m₁ m₁', S.tasks q = t :: ts ∧ m.pop? q = some (D.left t, m₁) ∧
        m'.pop? q = some (D.right t, m₁') ∧ m₁.world = m.world ∧ m₁'.world = m'.world ∧
          D.Match (S.rest q ts) m₁ m₁' := by
  cases hS : S.tasks q with
  | nil =>
    refine .inl ⟨(m.pop?_eq_none_iff q).mpr ?_, (m'.pop?_eq_none_iff q).mpr ?_⟩
    · exact (h.tasks q).trans (by rw [hS]; rfl)
    · exact (h.tasks' q).trans (by rw [hS]; rfl)
  | cons t ts =>
    have htasks : m.tasks q = D.left t :: ts.map D.left := (h.tasks q).trans (by rw [hS]; rfl)
    have htasks' : m'.tasks q = D.right t :: ts.map D.right := (h.tasks' q).trans (by rw [hS]; rfl)
    obtain ⟨m₁, hpop⟩ := Machine.exists_pop? htasks
    obtain ⟨m₁', hpop'⟩ := Machine.exists_pop? htasks'
    obtain ⟨hrest, hother, hcells, hgathers, hsize⟩ := Machine.tasks_pop? hpop
    obtain ⟨hrest', hother', hcells', hgathers', hsize'⟩ := Machine.tasks_pop? hpop'
    obtain ⟨hticks, hticksOther, hworld⟩ := Machine.ticks_pop? hpop
    obtain ⟨hticks', hticksOther', hworld'⟩ := Machine.ticks_pop? hpop'
    refine .inr ⟨t, ts, m₁, m₁', rfl, hpop, hpop', hworld, hworld', ?_⟩
    exact {
      gathers := by rw [hgathers, hgathers', h.gathers]
      queues := by rw [hsize, hsize', h.queues]
      cells := by rw [hcells, hcells', h.cells]
      ticks := fun q' => by
        by_cases hq' : q' = q
        · subst hq'
          rw [hticks', hticks, h.ticks]
        · rw [hticksOther' q' hq', hticksOther q' hq', h.ticks]
      outcome := fun p => by
        rw [Machine.outcome?, hcells', ← Machine.outcome?, h.outcome, Machine.outcome?, ← hcells]
        rfl
      home := fun p => by
        rw [Machine.home, hcells', ← Machine.home, h.home, Machine.home, ← hcells]
        rfl
      tasks := fun q' => by
        rw [Sheet.tasks_rest]
        by_cases hq' : q' = q
        · subst hq'
          rw [htasks] at hrest
          simpa using (List.cons.inj hrest).2.symm
        · rw [if_neg hq', hother q' hq', h.tasks]
      tasks' := fun q' => by
        rw [Sheet.tasks_rest]
        by_cases hq' : q' = q
        · subst hq'
          rw [htasks'] at hrest'
          simpa using (List.cons.inj hrest').2.symm
        · rw [if_neg hq', hother' q' hq', h.tasks']
      reactions := fun p => by
        rw [Machine.reactions, hcells, ← Machine.reactions, h.reactions]
        rfl
      reactions' := fun p => by
        rw [Machine.reactions, hcells', ← Machine.reactions, h.reactions']
        rfl }

end Match

end Twins

/-! ## Runs -/

/-- Two runs that end with the same answer, or are halted alike, and leave machines that are related. -/
inductive Ended.Both {α : Type} (R : Machine V W → Machine V W' → Prop) :
    Ended V W α → Ended V W' α → Prop
  | done (a : α) {m : Machine V W} {m' : Machine V W'} (h : R m m') : Both R (.done a m) (.done a m')
  | halted (c : Halt) {m : Machine V W} {m' : Machine V W'} (h : R m m') :
    Both R (.halted c m) (.halted c m')

section Runs

variable {R : Machine V W → Machine V W' → Prop} {α β : Type}
  {drain : QueueId → Drain → Machine V W → Ended V W Bool}
  {drain' : QueueId → Drain → Machine V W' → Ended V W' Bool}

/-- One run after another. -/
theorem Ended.Both.bind {s : Work V W α} {s' : Work V W' α} {m : Machine V W} {m' : Machine V W'}
    (h : Both R (s.run drain m) (s'.run drain' m')) {k : α → Work V W β} {k' : α → Work V W' β}
    (hk : ∀ a m m', R m m' → Both R ((k a).run drain m) ((k' a).run drain' m')) :
    Both R ((s.bind k).run drain m) ((s'.bind k').run drain' m') := by
  rw [Steps.run_bind, Steps.run_bind]
  revert h
  generalize s.run drain m = e
  generalize s'.run drain' m' = e'
  rintro (⟨a, h⟩ | ⟨c, h⟩)
  · exact hk a _ _ h
  · exact .halted c h

/-- Draining that goes on after a task. -/
theorem Ended.Both.ran {e : Ended V W Bool} {e' : Ended V W' Bool} : Both R e e' →
    Both R
      (match e with
        | .halted c m => .halted c m
        | .done _ m => .done true m)
      (match e' with
        | .halted c m => .halted c m
        | .done _ m => .done true m) := by
  rintro (⟨-, h⟩ | ⟨c, h⟩)
  · exact .done true h
  · exact .halted c h

/-- **Drains end alike**, if related machines take tasks that end alike. -/
theorem Machine.drain_both (hreached : ∀ m m' d, R m m' → m'.reached d = m.reached d)
    (hpop : ∀ m m' q, R m m' → (m.pop? q = none ∧ m'.pop? q = none) ∨
      ∃ t t' m₁ m₁', m.pop? q = some (t, m₁) ∧ m'.pop? q = some (t', m₁') ∧
        ∀ (drain : QueueId → Drain → Machine V W → Ended V W Bool)
          (drain' : QueueId → Drain → Machine V W' → Ended V W' Bool),
          (∀ q d m m', R m m' → Ended.Both R (drain q d m) (drain' q d m')) →
            Ended.Both R (t.steps.run drain m₁) (t'.steps.run drain' m₁'))
    (limit : Nat) (q : QueueId) (d : Drain) {m : Machine V W} {m' : Machine V W'} (h : R m m') :
    Ended.Both R (m.drain limit q d) (m'.drain limit q d) := by
  induction limit generalizing q d m m' with
  | zero => exact .halted .exhausted h
  | succ limit ih =>
    simp only [Machine.drain, hreached m m' d h]
    cases m.reached d with
    | true => exact .done false h
    | false =>
      rcases hpop m m' q h with ⟨hnone, hnone'⟩ | ⟨t, t', m₁, m₁', hsome, hsome', hrun⟩
      · rw [hnone, hnone']
        exact .done false h
      simp only [hsome, hsome']
      have htask := hrun _ _ fun q d m m' h => ih q d h
      revert htask
      generalize t.steps.run _ m₁ = e
      generalize t'.steps.run _ m₁' = e'
      rintro (@⟨⟨⟩, m₂, m₂', h₂⟩ | ⟨c, h₂⟩)
      · cases d with
        | once => exact .done true h₂
        | all => exact (ih q .all h₂).ran
        | «until» p => exact (ih q (.until p) h₂).ran
      · exact .halted c h₂

end Runs

end EntityQuery
