import EntityQuery.Proofs.Promise.Total

/-!
# What each request changes

The machine seen through its parts: the tasks of a queue, the outcome, the home and the reactions of
a promise. Each request changes few of them.

* `Machine.tasks`, `Machine.reactions`, `Machine.Open`.
* One equation for each request and part, such as **`Machine.tasks_settle`**.
-/

namespace EntityQuery

variable {V W : Type}

namespace Machine

/-- The tasks that wait in a queue. -/
def tasks (m : Machine V W) (q : QueueId) : List (Job V W) := (m.queue q).tasks

/-- The reactions that wait for a promise. -/
def reactions (m : Machine V W) (p : Promise) : List (Outcome V → Job V W) :=
  (m.cells[p.index]?.map Cell.reactions).getD []

/-- How many tasks of a queue have been started. -/
def ticks (m : Machine V W) (q : QueueId) : Nat := (m.queue q).ticks

/-- A promise is there, and nothing has settled it. -/
def Open (m : Machine V W) (p : Promise) : Prop := p.index < m.cells.size ∧ m.outcome? p = none

variable {m : Machine V W}

theorem Open.exists_cell {p : Promise} (h : m.Open p) :
    m.cells[p.index]? = some ⟨m.home p, none, m.reactions p⟩ := by
  obtain ⟨hlt, hp⟩ := h
  obtain ⟨⟨home, out, rs⟩, hc⟩ : ∃ c, m.cells[p.index]? = some c :=
    ⟨_, Array.getElem?_eq_getElem hlt⟩
  simp only [outcome?, hc, Option.bind_some] at hp
  subst hp
  simp [Machine.home, reactions, hc]

theorem open_of_cell {p : Promise} {home : QueueId} {rs : List (Outcome V → Job V W)}
    (h : m.cells[p.index]? = some ⟨home, none, rs⟩) :
    m.Open p ∧ m.home p = home ∧ m.reactions p = rs :=
  ⟨⟨(Array.getElem?_eq_some_iff.mp h).1, by simp [outcome?, h]⟩, by simp [Machine.home, h],
    by simp [reactions, h]⟩

theorem lt_of_mem_tasks {q : QueueId} {j : Job V W} (h : j ∈ m.tasks q) :
    q.index < m.queues.size := by
  by_contra hlt
  simp [tasks, queue, Array.getElem?_eq_none (Nat.le_of_not_lt hlt)] at h

/-! ## Putting tasks at the end of a queue -/

theorem tasks_append (q q' : QueueId) (ts : List (Job V W)) :
    (m.append q ts).tasks q' =
      if q' = q ∧ q.index < m.queues.size then m.tasks q' ++ ts else m.tasks q' := by
  obtain ⟨i⟩ := q
  obtain ⟨i'⟩ := q'
  simp only [tasks, queue, append, Array.getElem?_modify, QueueId.mk.injEq]
  by_cases hi : i = i'
  · subst hi
    by_cases hlt : i < m.queues.size
    · simp [hlt]
    · simp [hlt]
  · simp [hi, Ne.symm hi]

@[simp] theorem ticks_append (q q' : QueueId) (ts : List (Job V W)) :
    (m.append q ts).ticks q' = m.ticks q' := by
  simp only [ticks, queue, append, Array.getElem?_modify]
  split
  · cases m.queues[q'.index]? <;> rfl
  · rfl

@[simp] theorem outcome?_append (q : QueueId) (ts : List (Job V W)) (p : Promise) :
    (m.append q ts).outcome? p = m.outcome? p := rfl

@[simp] theorem home_append (q : QueueId) (ts : List (Job V W)) (p : Promise) :
    (m.append q ts).home p = m.home p := rfl

@[simp] theorem reactions_append (q : QueueId) (ts : List (Job V W)) (p : Promise) :
    (m.append q ts).reactions p = m.reactions p := rfl

/-! ## Making a promise -/

@[simp] theorem tasks_newPromise (q q' : QueueId) :
    (m.newPromise q).2.tasks q' = m.tasks q' := rfl

@[simp] theorem outcome?_newPromise (q : QueueId) (p : Promise) :
    (m.newPromise q).2.outcome? p = m.outcome? p := by
  simp only [newPromise, outcome?, Array.getElem?_push]
  split
  · rename_i h
    simp [h]
  · rfl

@[simp] theorem reactions_newPromise (q : QueueId) (p : Promise) :
    (m.newPromise q).2.reactions p = m.reactions p := by
  simp only [newPromise, reactions, Array.getElem?_push]
  split
  · rename_i h
    simp [h]
  · rfl

theorem home_newPromise (q : QueueId) {p : Promise} (h : p.index < m.cells.size) :
    (m.newPromise q).2.home p = m.home p := by
  simp [newPromise, home, Array.getElem?_push, Nat.ne_of_lt h]

@[simp] theorem home_newPromise_self (q : QueueId) :
    (m.newPromise q).2.home (m.newPromise q).1 = q := by
  simp [newPromise, home]

/-! ## Making a queue -/

@[simp] theorem tasks_newQueue (q : QueueId) : m.newQueue.2.tasks q = m.tasks q := by
  simp only [newQueue, tasks, queue, Array.getElem?_push]
  split
  · rename_i h
    simp [h]
  · rfl

@[simp] theorem ticks_newQueue (q : QueueId) : m.newQueue.2.ticks q = m.ticks q := by
  simp only [newQueue, ticks, queue, Array.getElem?_push]
  split
  · rename_i h
    simp [h]
  · rfl

/-! ## Changing the state of a promise -/

section SetCell

variable (x y : Promise) (c : Cell V W)

theorem getElem?_setCell :
    (m.cells.set! x.index c)[y.index]? =
      if y = x ∧ x.index < m.cells.size then some c else m.cells[y.index]? := by
  obtain ⟨i⟩ := x
  obtain ⟨j⟩ := y
  rw [Array.set!_eq_setIfInBounds, Array.getElem?_setIfInBounds]
  by_cases hi : i = j
  · subst hi
    by_cases hlt : i < m.cells.size <;> simp [hlt]
  · simp [hi, Ne.symm hi]

theorem outcome?_setCell :
    { m with cells := m.cells.set! x.index c }.outcome? y =
      if y = x ∧ x.index < m.cells.size then c.outcome? else m.outcome? y := by
  simp only [outcome?, getElem?_setCell]
  split <;> rfl

theorem home_setCell :
    { m with cells := m.cells.set! x.index c }.home y =
      if y = x ∧ x.index < m.cells.size then c.home else m.home y := by
  simp only [home, getElem?_setCell]
  split <;> rfl

theorem reactions_setCell :
    { m with cells := m.cells.set! x.index c }.reactions y =
      if y = x ∧ x.index < m.cells.size then c.reactions else m.reactions y := by
  simp only [reactions, getElem?_setCell]
  split <;> rfl

end SetCell

/-! ## Settling a promise -/

theorem settle_of_open {p : Promise} (h : m.Open p) (o : Outcome V) :
    m.settle p o = (true,
      append { m with cells := m.cells.set! p.index ⟨m.home p, some o, []⟩ } (m.home p)
        ((m.reactions p).map fun reaction => reaction o)) := by
  simp only [settle, h.exists_cell]

theorem settle_of_not_open {p : Promise} (h : ¬m.Open p) (o : Outcome V) :
    m.settle p o = (false, m) := by
  unfold settle
  split
  · rename_i hc
    exact absurd (open_of_cell hc).1 h
  · rfl

open Classical in
theorem outcome?_settle_eq (p p' : Promise) (o : Outcome V) :
    (m.settle p o).2.outcome? p' = if p' = p ∧ m.Open p then some o else m.outcome? p' := by
  by_cases h : m.Open p
  · by_cases hp : p' = p
    · subst hp
      simp [(outcome?_settle h.1 h.2 o).2, h]
    · have hi : p.index ≠ p'.index := fun he => hp (by cases p; cases p'; cases he; rfl)
      simp [outcome?_settle_of_ne hi, hp]
  · simp [settle_of_not_open h, h]

/-- A promise that has been settled is not pending. -/
theorem outcome?_settle_ne_none {p : Promise} (h : p.index < m.cells.size) (o : Outcome V) :
    (m.settle p o).2.outcome? p ≠ none := by
  intro hnone
  rw [outcome?_settle_eq] at hnone
  split at hnone
  · cases hnone
  · rename_i hopen
    exact hopen ⟨rfl, h, hnone⟩

open Classical in
theorem reactions_settle (p p' : Promise) (o : Outcome V) :
    (m.settle p o).2.reactions p' = if p' = p ∧ m.Open p then [] else m.reactions p' := by
  by_cases h : m.Open p
  · rw [settle_of_open h, reactions_append]
    by_cases hp : p' = p
    · subst hp
      simp [reactions, Array.set!_eq_setIfInBounds, h.1, h]
    · have hi : p.index ≠ p'.index := fun he => hp (by cases p; cases p'; cases he; rfl)
      simp [reactions, Array.set!_eq_setIfInBounds, Array.getElem?_setIfInBounds_ne hi, hp]
  · simp [settle_of_not_open h, h]

@[simp] theorem home_settle (p p' : Promise) (o : Outcome V) :
    (m.settle p o).2.home p' = m.home p' := by
  by_cases h : m.Open p
  · rw [settle_of_open h, home_append]
    by_cases hp : p' = p
    · subst hp
      simp [home, Array.set!_eq_setIfInBounds, h.1]
    · have hi : p.index ≠ p'.index := fun he => hp (by cases p; cases p'; cases he; rfl)
      simp [home, Array.set!_eq_setIfInBounds, Array.getElem?_setIfInBounds_ne hi]
  · rw [settle_of_not_open h]

@[simp] theorem ticks_settle (p : Promise) (o : Outcome V) (q : QueueId) :
    (m.settle p o).2.ticks q = m.ticks q := by
  unfold settle
  split
  · exact ticks_append ..
  · rfl

@[simp] theorem size_queues_settle (p : Promise) (o : Outcome V) :
    (m.settle p o).2.queues.size = m.queues.size := by
  unfold settle
  split
  · simp [append]
  · rfl

@[simp] theorem size_cells_settle (p : Promise) (o : Outcome V) :
    (m.settle p o).2.cells.size = m.cells.size := by
  unfold settle
  split
  · simp [append]
  · rfl

@[simp] theorem gathers_settle (p : Promise) (o : Outcome V) :
    (m.settle p o).2.gathers = m.gathers := by
  unfold settle
  split <;> rfl

open Classical in
/-- **Settling a promise puts its reactions on its queue.** -/
theorem tasks_settle (p : Promise) (o : Outcome V) (q : QueueId) :
    (m.settle p o).2.tasks q =
      if m.Open p ∧ q = m.home p ∧ q.index < m.queues.size then
        m.tasks q ++ (m.reactions p).map fun r => r o
      else m.tasks q := by
  by_cases h : m.Open p
  · rw [settle_of_open h, tasks_append]
    by_cases hq : q = m.home p
    · subst hq
      simp [h]
      rfl
    · simp [hq]
      rfl
  · simp [settle_of_not_open h, h]

/-! ## Subscribing to a promise -/

theorem subscribe_of_open {p : Promise} (h : m.Open p) (r : Outcome V → Job V W) :
    m.subscribe p r =
      { m with cells := m.cells.set! p.index ⟨m.home p, none, m.reactions p ++ [r]⟩ } := by
  simp only [subscribe, h.exists_cell]

theorem subscribe_of_settled {p : Promise} {o : Outcome V} (h : m.outcome? p = some o)
    (r : Outcome V → Job V W) : m.subscribe p r = m.enqueue (m.home p) (r o) := by
  unfold outcome? at h
  unfold subscribe home
  cases hc : m.cells[p.index]? with
  | none => simp [hc] at h
  | some c =>
    obtain ⟨home, out, rs⟩ := c
    simp only [hc, Option.bind_some] at h
    subst h
    rfl

theorem subscribe_of_ge {p : Promise} (h : m.cells.size ≤ p.index) (r : Outcome V → Job V W) :
    m.subscribe p r = m := by
  simp only [subscribe, Array.getElem?_eq_none h]

/-- A promise is open, is settled or is not there. -/
theorem open_or (m : Machine V W) (p : Promise) :
    m.Open p ∨ (∃ o, m.outcome? p = some o) ∨ m.cells.size ≤ p.index := by
  rcases Nat.lt_or_ge p.index m.cells.size with hlt | hge
  · cases ho : m.outcome? p with
    | none => exact .inl ⟨hlt, ho⟩
    | some o => exact .inr (.inl ⟨o, rfl⟩)
  · exact .inr (.inr hge)

@[simp] theorem outcome?_subscribe (p p' : Promise) (r : Outcome V → Job V W) :
    (m.subscribe p r).outcome? p' = m.outcome? p' := by
  rcases m.open_or p with h | ⟨o, h⟩ | h
  · rw [subscribe_of_open h]
    by_cases hp : p' = p
    · subst hp
      simp only [outcome?, Array.set!_eq_setIfInBounds, h.exists_cell,
        Array.getElem?_setIfInBounds_self_of_lt h.1]
      rfl
    · have hi : p.index ≠ p'.index := fun he => hp (by cases p; cases p'; cases he; rfl)
      simp [outcome?, Array.set!_eq_setIfInBounds, Array.getElem?_setIfInBounds_ne hi]
  · rw [subscribe_of_settled h]
    rfl
  · rw [subscribe_of_ge h]

@[simp] theorem home_subscribe (p p' : Promise) (r : Outcome V → Job V W) :
    (m.subscribe p r).home p' = m.home p' := by
  rcases m.open_or p with h | ⟨o, h⟩ | h
  · rw [subscribe_of_open h]
    by_cases hp : p' = p
    · subst hp
      simp [home, Array.set!_eq_setIfInBounds, h.1]
    · have hi : p.index ≠ p'.index := fun he => hp (by cases p; cases p'; cases he; rfl)
      simp [home, Array.set!_eq_setIfInBounds, Array.getElem?_setIfInBounds_ne hi]
  · rw [subscribe_of_settled h]
    rfl
  · rw [subscribe_of_ge h]

open Classical in
theorem reactions_subscribe (p p' : Promise) (r : Outcome V → Job V W) :
    (m.subscribe p r).reactions p' =
      if p' = p ∧ m.Open p then m.reactions p' ++ [r] else m.reactions p' := by
  rcases m.open_or p with h | ⟨o, h⟩ | h
  · rw [subscribe_of_open h]
    by_cases hp : p' = p
    · subst hp
      simp [reactions, Array.set!_eq_setIfInBounds, h.1, h]
    · have hi : p.index ≠ p'.index := fun he => hp (by cases p; cases p'; cases he; rfl)
      simp [reactions, Array.set!_eq_setIfInBounds, Array.getElem?_setIfInBounds_ne hi, hp]
  · have hn : ¬m.Open p := fun hn => by simp [hn.2] at h
    simp [subscribe_of_settled h, hn, enqueue]
  · have hn : ¬m.Open p := fun hn => absurd hn.1 (Nat.not_lt.mpr h)
    simp [subscribe_of_ge h, hn]

/-- **A reaction to a settled promise is put on its queue.** -/
theorem tasks_subscribe (p : Promise) (r : Outcome V → Job V W) (q : QueueId) :
    (m.subscribe p r).tasks q = m.tasks q ++ (match m.outcome? p with
      | some o => if q = m.home p ∧ q.index < m.queues.size then [r o] else []
      | none => []) := by
  rcases m.open_or p with h | ⟨o, h⟩ | h
  · rw [subscribe_of_open h, h.2]
    simp
    rfl
  · rw [subscribe_of_settled h, h, enqueue, tasks_append]
    by_cases hq : q = m.home p
    · subst hq
      simp only [true_and]
      split <;> simp
    · simp [hq]
  · have : m.outcome? p = none := by simp [outcome?, Array.getElem?_eq_none h]
    rw [subscribe_of_ge h, this]
    simp

@[simp] theorem ticks_subscribe (p : Promise) (r : Outcome V → Job V W) (q : QueueId) :
    (m.subscribe p r).ticks q = m.ticks q := by
  unfold subscribe
  split
  · exact ticks_append ..
  · rfl
  · rfl

@[simp] theorem size_queues_subscribe (p : Promise) (r : Outcome V → Job V W) :
    (m.subscribe p r).queues.size = m.queues.size := by
  unfold subscribe
  split <;> simp [enqueue, append]

@[simp] theorem size_cells_subscribe (p : Promise) (r : Outcome V → Job V W) :
    (m.subscribe p r).cells.size = m.cells.size := by
  unfold subscribe
  split <;> simp [enqueue, append]

@[simp] theorem gathers_subscribe (p : Promise) (r : Outcome V → Job V W) :
    (m.subscribe p r).gathers = m.gathers := by
  unfold subscribe
  split <;> rfl

/-! ## Gathering a list -/

theorem getElem?_gathers_newGather (size : Nat) {g : GatherId} (h : g.index < m.gathers.size) :
    (m.newGather size).2.gathers[g.index]? = m.gathers[g.index]? := by
  simp [newGather, Array.getElem?_push, Nat.ne_of_lt h]

section Fill

variable (g : GatherId) (i : Nat) (v : V)

@[simp] theorem tasks_fill (q : QueueId) : (m.fill g i v).2.tasks q = m.tasks q := by
  unfold fill
  split <;> rfl

@[simp] theorem ticks_fill (q : QueueId) : (m.fill g i v).2.ticks q = m.ticks q := by
  unfold fill
  split <;> rfl

@[simp] theorem outcome?_fill (p : Promise) : (m.fill g i v).2.outcome? p = m.outcome? p := by
  unfold fill
  split <;> rfl

@[simp] theorem home_fill (p : Promise) : (m.fill g i v).2.home p = m.home p := by
  unfold fill
  split <;> rfl

@[simp] theorem reactions_fill (p : Promise) : (m.fill g i v).2.reactions p = m.reactions p := by
  unfold fill
  split <;> rfl

@[simp] theorem cells_fill : (m.fill g i v).2.cells = m.cells := by
  unfold fill
  split <;> rfl

@[simp] theorem queues_fill : (m.fill g i v).2.queues = m.queues := by
  unfold fill
  split <;> rfl

@[simp] theorem size_gathers_fill : (m.fill g i v).2.gathers.size = m.gathers.size := by
  unfold fill
  split <;> simp

variable {g}

theorem fill_eq {c : Gather V} (h : m.gathers[g.index]? = some c) :
    m.fill g i v = ((c.fill i v).values?,
      { m with gathers := m.gathers.set! g.index (c.fill i v) }) := by
  simp only [fill, h]

theorem getElem?_gathers_fill_self {c : Gather V} (h : m.gathers[g.index]? = some c) :
    (m.fill g i v).2.gathers[g.index]? = some (c.fill i v) := by
  have hlt : g.index < m.gathers.size := (Array.getElem?_eq_some_iff.mp h).1
  rw [fill_eq i v h]
  simp [Array.set!_eq_setIfInBounds, hlt]

theorem getElem?_gathers_fill_of_ne {g' : GatherId} (hne : g' ≠ g) :
    (m.fill g i v).2.gathers[g'.index]? = m.gathers[g'.index]? := by
  have hi : g.index ≠ g'.index := fun he => hne (by cases g; cases g'; cases he; rfl)
  unfold fill
  split
  · simp [Array.set!_eq_setIfInBounds, Array.getElem?_setIfInBounds_ne hi]
  · rfl

end Fill

/-! ## Taking a task -/

/-- **Taking a task leaves the tasks after it.** -/
theorem tasks_pop? {q : QueueId} {j : Job V W} {m' : Machine V W} (h : m.pop? q = some (j, m')) :
    m.tasks q = j :: m'.tasks q ∧ (∀ q', q' ≠ q → m'.tasks q' = m.tasks q') ∧
      m'.cells = m.cells ∧ m'.gathers = m.gathers ∧ m'.queues.size = m.queues.size := by
  obtain ⟨⟨t, rest⟩, hp, he⟩ := Option.map_eq_some_iff.mp h
  cases he
  have htasks := ((Queue.pop?_eq_some_iff _ _ _).mp hp).1
  have hlt : q.index < m.queues.size := lt_of_mem_tasks (m := m) (j := j) (by simp [tasks, htasks])
  refine ⟨?_, fun q' hq => ?_, rfl, rfl, by simp⟩
  · simp only [tasks, htasks]
    simp [queue, Array.set!_eq_setIfInBounds, hlt]
  · have hi : q.index ≠ q'.index := fun he => hq (by cases q; cases q'; cases he; rfl)
    simp [tasks, queue, Array.set!_eq_setIfInBounds, Array.getElem?_setIfInBounds_ne hi]

/-- Taking a task counts it as started. -/
theorem ticks_pop? {q : QueueId} {j : Job V W} {m' : Machine V W} (h : m.pop? q = some (j, m')) :
    m'.ticks q = min (m.ticks q + 1) Queue.maxTicks ∧ (∀ q', q' ≠ q → m'.ticks q' = m.ticks q') ∧
      m'.world = m.world := by
  obtain ⟨⟨t, rest⟩, hp, he⟩ := Option.map_eq_some_iff.mp h
  cases he
  obtain ⟨htasks, hticks⟩ := (Queue.pop?_eq_some_iff _ _ _).mp hp
  have hlt : q.index < m.queues.size := lt_of_mem_tasks (m := m) (j := j) (by simp [tasks, htasks])
  refine ⟨?_, fun q' hq => ?_, rfl⟩
  · simp only [ticks, ← hticks]
    simp [queue, Array.set!_eq_setIfInBounds, hlt]
  · have hi : q.index ≠ q'.index := fun he => hq (by cases q; cases q'; cases he; rfl)
    simp [ticks, queue, Array.set!_eq_setIfInBounds, Array.getElem?_setIfInBounds_ne hi]

/-- A queue with tasks has one to take. -/
theorem exists_pop? {q : QueueId} {j : Job V W} {js : List (Job V W)} (h : m.tasks q = j :: js) :
    ∃ m', m.pop? q = some (j, m') := by
  have hq : (m.queue q).tasks = j :: js := h
  simp [pop?, Queue.pop?, hq]

end Machine

end EntityQuery
