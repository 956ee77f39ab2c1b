import EntityQuery.Proofs.Promise.Heap
import EntityQuery.Proofs.Promise.Journal
import EntityQuery.Proofs.Promise.Requests
import EntityQuery.Proofs.Promise.Twins

/-!
# Watching a promise

A program that keeps a journal of a promise runs as it does without one, and the journal is lawful:
the machine with the journal follows the machine without it, request by request.

* `Marked`: the reactions among the tasks of a queue. `Watches.Pending`, `Watches.Settled`: where
  the reactions are.
* `Watches`: a machine, and the same machine with the journal. One lemma for each request.
* **`Watches.run`**: watched runs end as the others do.
-/

namespace EntityQuery

variable {V W : Type}

/-! ## Machines with a journal -/

/-- Tasks of a queue and what they are with a journal: those in it that are reactions have the
numbers from `n` up to `k`, in order. -/
inductive Marked (p : Promise) (o : Outcome V) (k : Nat) :
    Nat → List (Job V W) → List (Job V (Watched V W)) → Prop
  | nil : Marked p o k k [] []
  | plain {n : Nat} (t : Job V W) {ts : List (Job V W)} {ts' : List (Job V (Watched V W))}
      (h : Marked p o k n ts ts') : Marked p o k n (t :: ts) (t.watched p :: ts')
  | reaction {n : Nat} (t : Job V W) {ts : List (Job V W)} {ts' : List (Job V (Watched V W))}
      (h : Marked p o k (n + 1) ts ts') :
      Marked p o k n (t :: ts) (Watched.reaction n o (t.watched p) :: ts')

section

variable (p : Promise) (q : QueueId)

/-- Where the promise is pending, no reaction has started, and the registered ones wait for it. -/
structure Watches.Pending (m : Machine V W) (m' : Machine V (Watched V W)) : Prop where
  waiting : m'.reactions p = (m.reactions p).mapIdx fun n r o =>
    Watched.reaction n o ((r o).watched p)
  registered : m'.world.journal.registered.length = (m.reactions p).length
  unstarted : m'.world.journal.reactions = []
  tasks : m'.tasks q = (m.tasks q).map (Job.watched p)

/-- Where the promise is settled, the registered reactions have started or are on its queue. -/
structure Watches.Settled (o : Outcome V) (m : Machine V W) (m' : Machine V (Watched V W)) : Prop where
  waiting : m.reactions p = []
  waiting' : m'.reactions p = []
  tasks : Marked p o m'.world.journal.registered.length m'.world.journal.reactions.length
    (m.tasks q) (m'.tasks q)

/-- A machine, and the same machine with a journal of what happens to a promise of a queue. -/
structure Watches (m : Machine V W) (m' : Machine V (Watched V W)) : Prop where
  world : m'.world.world = m.world
  gathers : m'.gathers = m.gathers
  queues : m'.queues.size = m.queues.size
  cells : m'.cells.size = m.cells.size
  ticks : ∀ x, m'.ticks x = m.ticks x
  outcome : ∀ x, m'.outcome? x = m.outcome? x
  home : ∀ x, m'.home x = m.home x
  known : p.index < m.cells.size
  house : m.home p = q
  housed : q.index < m.queues.size
  reactions : ∀ x, x ≠ p → m'.reactions x = (m.reactions x).map fun r o => (r o).watched p
  tasks : ∀ x, x ≠ q → m'.tasks x = (m.tasks x).map (Job.watched p)
  lawful : m'.world.journal.Lawful
  state : m'.world.journal.outcome? = m.outcome? p
  pending : m.outcome? p = none → Watches.Pending p q m m'
  settled : ∀ o, m.outcome? p = some o → Watches.Settled p q o m m'

end

namespace Marked

variable {p : Promise} {o : Outcome V} {k n : Nat} {ts : List (Job V W)}
  {ts' : List (Job V (Watched V W))}

theorem of_map (ts : List (Job V W)) : Marked p o n n ts (ts.map (Job.watched p)) := by
  induction ts with
  | nil => exact .nil
  | cons t ts ih => exact .plain t ih

theorem le (h : Marked p o k n ts ts') : n ≤ k := by
  induction h with
  | nil => exact le_rfl
  | plain _ _ ih => exact ih
  | reaction _ _ ih => exact Nat.le_of_succ_le ih

theorem eq_nil (h : Marked p o k n [] ts') : ts' = [] ∧ n = k := by
  cases h
  exact ⟨rfl, rfl⟩

theorem exists_cons {t : Job V W} (h : Marked p o k n (t :: ts) ts') :
    ∃ t' us', ts' = t' :: us' ∧
      (t' = t.watched p ∧ Marked p o k n ts us' ∨
        t' = Watched.reaction n o (t.watched p) ∧ Marked p o k (n + 1) ts us') := by
  cases h with
  | plain _ h => exact ⟨_, _, rfl, .inl ⟨rfl, h⟩⟩
  | reaction _ h => exact ⟨_, _, rfl, .inr ⟨rfl, h⟩⟩

theorem append_plain (h : Marked p o k n ts ts') (us : List (Job V W)) :
    Marked p o k n (ts ++ us) (ts' ++ us.map (Job.watched p)) := by
  induction h with
  | nil => exact .of_map us
  | plain t _ ih => exact .plain t ih
  | reaction t _ ih => exact .reaction t ih

/-- One more reaction goes to the end. -/
theorem append_reaction (h : Marked p o k n ts ts') (t : Job V W) :
    Marked p o (k + 1) n (ts ++ [t]) (ts' ++ [Watched.reaction k o (t.watched p)]) := by
  induction h with
  | nil => exact .reaction t .nil
  | plain t _ ih => exact .plain t ih
  | reaction t _ ih => exact .reaction t ih

/-- Reactions numbered from `k` on go to the end, in order. -/
theorem append_reactions (h : Marked p o k n ts ts') (rs : List (Outcome V → Job V W)) :
    Marked p o (k + rs.length) n (ts ++ rs.map fun r => r o)
      (ts' ++ rs.mapIdx fun i r => Watched.reaction (k + i) o ((r o).watched p)) := by
  induction rs using List.reverseRecOn with
  | nil => simpa using h
  | append_singleton rs r ih => simpa [← add_assoc] using ih.append_reaction (r o)

end Marked

namespace Watches

variable {p : Promise} {q : QueueId} {m : Machine V W} {m' : Machine V (Watched V W)}

theorem open_iff (h : Watches p q m m') (x : Promise) : m'.Open x ↔ m.Open x := by
  rw [Machine.Open, Machine.Open, h.cells, h.outcome]

/-! ### Requests that concern other things -/

theorem newQueue (h : Watches p q m m') :
    m'.newQueue.1 = m.newQueue.1 ∧ Watches p q m.newQueue.2 m'.newQueue.2 := by
  refine ⟨congrArg QueueId.mk h.queues, ?_⟩
  exact {
    h with
    queues := by simp [Machine.newQueue, h.queues]
    ticks := by simpa using h.ticks
    housed := Nat.lt_of_lt_of_le h.housed (by simp [Machine.newQueue])
    tasks := fun x hx => by simpa using h.tasks x hx
    pending := fun ho => { h.pending ho with tasks := by simpa using (h.pending ho).tasks }
    settled := fun o ho => { h.settled o ho with
      tasks := by
        rw [Machine.tasks_newQueue, Machine.tasks_newQueue]
        exact (h.settled o ho).tasks } }

theorem newPromise (h : Watches p q m m') (x : QueueId) :
    (m'.newPromise x).1 = (m.newPromise x).1 ∧
      Watches p q (m.newPromise x).2 (m'.newPromise x).2 := by
  refine ⟨congrArg Promise.mk h.cells, ?_⟩
  exact {
    world := h.world
    gathers := h.gathers
    queues := h.queues
    cells := by simp [Machine.newPromise, h.cells]
    ticks := h.ticks
    outcome := by simpa using h.outcome
    home := fun y => by
      simp only [Machine.newPromise, Machine.home, Array.getElem?_push, h.cells]
      split
      · rfl
      · exact h.home y
    known := Nat.lt_of_lt_of_le h.known (by simp [Machine.newPromise])
    house := (Machine.home_newPromise x h.known).trans h.house
    housed := h.housed
    reactions := fun y hy => by simpa using h.reactions y hy
    tasks := h.tasks
    lawful := h.lawful
    state := h.state.trans (Machine.outcome?_newPromise x p).symm
    pending := fun ho => by
      obtain ⟨hw, hn, hs, ht⟩ := h.pending (by simpa using ho)
      exact ⟨by simpa using hw, hn.trans (by simp), hs, ht⟩
    settled := fun o ho => by
      obtain ⟨hw, hw', ht⟩ := h.settled o (by simpa using ho)
      exact ⟨by simpa using hw, by simpa using hw', ht⟩ }

theorem append (h : Watches p q m m') (x : QueueId) (ts : List (Job V W)) :
    Watches p q (m.append x ts) (m'.append x (ts.map (Job.watched p))) where
  world := h.world
  gathers := h.gathers
  queues := by simp [Machine.append, h.queues]
  cells := h.cells
  ticks := by simpa using h.ticks
  outcome := h.outcome
  home := h.home
  known := h.known
  house := h.house
  housed := by simpa [Machine.append] using h.housed
  reactions := h.reactions
  tasks := fun y hy => by
    rw [Machine.tasks_append, Machine.tasks_append, h.queues, h.tasks y hy]
    split <;> simp
  lawful := h.lawful
  state := h.state
  pending := fun ho => by
    obtain ⟨hw, hn, hs, ht⟩ := h.pending ho
    refine ⟨hw, hn, hs, ?_⟩
    rw [Machine.tasks_append, Machine.tasks_append, h.queues, ht]
    split <;> simp
  settled := fun o ho => by
    obtain ⟨hw, hw', ht⟩ := h.settled o ho
    refine ⟨hw, hw', ?_⟩
    rw [Machine.tasks_append, Machine.tasks_append, h.queues]
    split
    · exact ht.append_plain ts
    · exact ht

theorem fill (h : Watches p q m m') (g : GatherId) (slot : Nat) (v : V) :
    (m'.fill g slot v).1 = (m.fill g slot v).1 ∧
      Watches p q (m.fill g slot v).2 (m'.fill g slot v).2 := by
  have hg : m'.gathers = m.gathers := h.gathers
  cases hc : m.gathers[g.index]? with
  | none =>
    simp only [Machine.fill, hg, hc]
    exact ⟨trivial, h⟩
  | some gather =>
    simp only [Machine.fill, hg, hc]
    exact ⟨trivial, { h with
      gathers := by simp
      pending := fun ho => { h.pending ho with }
      settled := fun o ho => { h.settled o ho with } }⟩

theorem newGather (h : Watches p q m m') (size : Nat) :
    (m'.newGather size).1 = (m.newGather size).1 ∧
      Watches p q (m.newGather size).2 (m'.newGather size).2 :=
  ⟨by simp [Machine.newGather, h.gathers], { h with
    gathers := by simp [Machine.newGather, h.gathers]
    pending := fun ho => { h.pending ho with }
    settled := fun o ho => { h.settled o ho with } }⟩

theorem setWorld (h : Watches p q m m') (w : W) :
    Watches p q { m with world := w } { m' with world := { m'.world with world := w } } :=
  { h with
    world := rfl
    pending := fun ho => { h.pending ho with }
    settled := fun o ho => { h.settled o ho with } }

/-- Another promise takes a new state, with reactions that keep no notes of their own. -/
theorem setCell (h : Watches p q m m') {x : Promise} (hx : x ≠ p) (o : Option (Outcome V))
    (rs : List (Outcome V → Job V W)) :
    Watches p q { m with cells := m.cells.set! x.index ⟨m.home x, o, rs⟩ }
      { m' with
        cells := m'.cells.set! x.index ⟨m.home x, o, rs.map fun r o => (r o).watched p⟩ } where
  world := h.world
  gathers := h.gathers
  queues := h.queues
  cells := by simp [h.cells]
  ticks := h.ticks
  outcome := fun y => by
    rw [Machine.outcome?_setCell, Machine.outcome?_setCell, h.outcome, h.cells]
  home := fun y => by
    rw [Machine.home_setCell, Machine.home_setCell, h.home, h.cells]
  known := by simpa using h.known
  house := by rw [Machine.home_setCell, if_neg (by simp [hx.symm]), h.house]
  housed := h.housed
  reactions := fun y hy => by
    rw [Machine.reactions_setCell, Machine.reactions_setCell, h.reactions y hy, h.cells]
    split <;> rfl
  tasks := h.tasks
  lawful := h.lawful
  state := by
    rw [Machine.outcome?_setCell, if_neg (by simp [hx.symm])]
    exact h.state
  pending := fun ho => by
    rw [Machine.outcome?_setCell, if_neg (by simp [hx.symm])] at ho
    obtain ⟨hw, hn, hs, ht⟩ := h.pending ho
    refine ⟨?_, ?_, hs, ht⟩
    · rwa [Machine.reactions_setCell, Machine.reactions_setCell, if_neg (by simp [hx.symm]),
        if_neg (by simp [hx.symm])]
    · rwa [Machine.reactions_setCell, if_neg (by simp [hx.symm])]
  settled := fun o' ho => by
    rw [Machine.outcome?_setCell, if_neg (by simp [hx.symm])] at ho
    obtain ⟨hw, hw', ht⟩ := h.settled o' ho
    refine ⟨?_, ?_, ht⟩
    · rwa [Machine.reactions_setCell, if_neg (by simp [hx.symm])]
    · rwa [Machine.reactions_setCell, if_neg (by simp [hx.symm])]

theorem settle_of_ne (h : Watches p q m m') {x : Promise} (hx : x ≠ p) (o : Outcome V) :
    (m'.settle x o).1 = (m.settle x o).1 ∧
      Watches p q (m.settle x o).2 (m'.settle x o).2 := by
  by_cases hopen : m.Open x
  · have hopen' : m'.Open x := (h.open_iff x).mpr hopen
    have hmoved : (m'.reactions x).map (fun r => r o) =
        ((m.reactions x).map fun r => r o).map (Job.watched p) := by
      simp [h.reactions x hx, Function.comp_def]
    rw [Machine.settle_of_open hopen, Machine.settle_of_open hopen', h.home, hmoved]
    exact ⟨rfl, (h.setCell hx (some o) []).append (m.home x) _⟩
  · have hopen' : ¬m'.Open x := fun hn => hopen ((h.open_iff x).mp hn)
    rw [Machine.settle_of_not_open hopen, Machine.settle_of_not_open hopen']
    exact ⟨rfl, h⟩

theorem subscribe_of_ne (h : Watches p q m m') {x : Promise} (hx : x ≠ p)
    (r : Outcome V → Job V W) :
    Watches p q (m.subscribe x r) (m'.subscribe x fun o => (r o).watched p) := by
  rcases m.open_or x with hopen | ⟨o, ho⟩ | hge
  · rw [Machine.subscribe_of_open hopen, Machine.subscribe_of_open ((h.open_iff x).mpr hopen),
      h.home, h.reactions x hx]
    simpa using h.setCell hx none (m.reactions x ++ [r])
  · rw [Machine.subscribe_of_settled ho, Machine.subscribe_of_settled ((h.outcome x).trans ho),
      h.home]
    exact h.append (m.home x) [r o]
  · rw [Machine.subscribe_of_ge hge, Machine.subscribe_of_ge (h.cells ▸ hge)]
    exact h

/-! ### The promise that is watched -/

/-- A notice that tells nothing new leaves the rest as it is. -/
theorem noted (h : Watches p q m m') {notice : Notice V}
    (hlaw : notice.Follows m'.world.journal)
    (hstate : (m'.world.journal.outcome?).or (notice.attempt?.map Prod.fst) =
      m'.world.journal.outcome?)
    (hn : notice.registered? = none) (hr : notice.reaction? = none) :
    Watches p q m { m' with world := m'.world.note notice } :=
  { h with
    lawful := h.lawful.snoc hlaw
    state := by simpa [Watched.note, hstate] using h.state
    pending := fun ho => { h.pending ho with
      registered := by simpa [Watched.note, hn] using (h.pending ho).registered
      unstarted := by simpa [Watched.note, hr] using (h.pending ho).unstarted }
    settled := fun o ho => { h.settled o ho with
      tasks := by
        change Marked p o (Journal.registered (m'.world.journal ++ [notice])).length
          (Journal.reactions (m'.world.journal ++ [notice])).length (m.tasks q) (m'.tasks q)
        simpa [hn, hr] using (h.settled o ho).tasks } }

/-- **The first attempt settles the promise and puts its reactions on the queue**; later ones change
nothing. -/
theorem attempt (h : Watches p q m m') (o : Outcome V) :
    (m'.settle p o).1 = (m.settle p o).1 ∧
      Watches p q (m.settle p o).2
        { (m'.settle p o).2 with
          world := m'.world.note (.attempt o (m.settle p o).1 0) } := by
  classical
  by_cases hopen : m.Open p
  · have hopen' : m'.Open p := (h.open_iff p).mpr hopen
    obtain ⟨hw, hn, hs, ht⟩ := h.pending hopen.2
    have hfresh : (m.settle p o).1 = true := by rw [Machine.settle_of_open hopen]
    have hj : m'.world.journal.outcome? = none := h.state.trans hopen.2
    have houtcome : (m.settle p o).2.outcome? p = some o :=
      (Machine.outcome?_settle h.known hopen.2 o).2
    rw [hfresh]
    refine ⟨by rw [Machine.settle_of_open hopen'], ?_⟩
    exact {
      world := by simp [Watched.note, h.world]
      gathers := by simp [h.gathers]
      queues := by simp [h.queues]
      cells := by simp [h.cells]
      ticks := fun x => by
        change (m'.settle p o).2.ticks x = _
        rw [Machine.ticks_settle, Machine.ticks_settle, h.ticks]
      outcome := fun x => by
        change (m'.settle p o).2.outcome? x = _
        simp only [Machine.outcome?_settle_eq, h.outcome, hopen, hopen']
      home := fun x => by
        change (m'.settle p o).2.home x = _
        rw [Machine.home_settle, Machine.home_settle, h.home]
      known := by simpa using h.known
      house := by simpa using h.house
      housed := by simpa using h.housed
      reactions := fun x hx => by
        change (m'.settle p o).2.reactions x = _
        rw [Machine.reactions_settle, Machine.reactions_settle, if_neg (by simp [hx]),
          if_neg (by simp [hx])]
        exact h.reactions x hx
      tasks := fun x hx => by
        change (m'.settle p o).2.tasks x = _
        rw [Machine.tasks_settle, Machine.tasks_settle, h.home, h.house, if_neg (by simp [hx]),
          if_neg (by simp [hx])]
        exact h.tasks x hx
      lawful := h.lawful.snoc ⟨by simp [hj], rfl⟩
      state := by simp [Watched.note, hj, houtcome, Notice.attempt?]
      pending := fun hnone => by simp [houtcome] at hnone
      settled := fun o' ho' => by
        obtain rfl : o = o' := Option.some.inj (houtcome.symm.trans ho')
        refine ⟨?_, ?_, ?_⟩
        · simp [Machine.reactions_settle, hopen]
        · change (m'.settle p o).2.reactions p = []
          simp [Machine.reactions_settle, hopen']
        · change Marked p o _ _ _ ((m'.settle p o).2.tasks q)
          have hmoved : (m'.reactions p).map (fun r => r o) =
              (m.reactions p).mapIdx fun i r => Watched.reaction i o ((r o).watched p) := by
            simp [hw, List.mapIdx_eq_zipIdx_map]
          rw [Machine.tasks_settle, Machine.tasks_settle, h.home, h.house, h.queues,
            if_pos ⟨hopen, rfl, h.housed⟩, if_pos ⟨hopen', rfl, h.housed⟩, ht, hmoved]
          have := (Marked.of_map (p := p) (o := o) (n := 0) (m.tasks q)).append_reactions
            (m.reactions p)
          simpa [Watched.note, hs, hn, Notice.registered?, Notice.reaction?] using this }
  · have hopen' : ¬m'.Open p := fun hn => hopen ((h.open_iff p).mp hn)
    obtain ⟨o', ho'⟩ : ∃ o', m.outcome? p = some o' :=
      Option.ne_none_iff_exists'.mp fun hn => hopen ⟨h.known, hn⟩
    have hj : m'.world.journal.outcome? = some o' := h.state.trans ho'
    rw [Machine.settle_of_not_open hopen, Machine.settle_of_not_open hopen']
    refine ⟨rfl, h.noted ⟨by simp [hj], rfl⟩ ?_ rfl rfl⟩
    simp [hj]

/-- Each look at the promise is at its state. -/
theorem look (h : Watches p q m m') :
    Watches p q m { m' with world := m'.world.note (.look (m.outcome? p)) } :=
  h.noted h.state.symm (by simp [Notice.attempt?]) rfl rfl

/-- **A registered reaction waits for the promise, or goes to the end of the queue.** -/
theorem registration (h : Watches p q m m') (r : Outcome V → Job V W) :
    Watches p q (m.subscribe p r)
      { m'.subscribe p fun o =>
          Watched.reaction m'.world.journal.registered.length o ((r o).watched p) with
        world := m'.world.note (.registration m'.world.journal.registered.length 0) } := by
  classical
  set n := m'.world.journal.registered.length with hn
  set r' : Outcome V → Job V (Watched V W) := fun o => Watched.reaction n o ((r o).watched p)
  exact {
    world := by simp [Watched.note, h.world]
    gathers := by simp [h.gathers]
    queues := by simp [h.queues]
    cells := by simp [h.cells]
    ticks := fun x => by
      change (m'.subscribe p r').ticks x = _
      rw [Machine.ticks_subscribe, Machine.ticks_subscribe, h.ticks]
    outcome := fun x => by
      change (m'.subscribe p r').outcome? x = _
      rw [Machine.outcome?_subscribe, Machine.outcome?_subscribe, h.outcome]
    home := fun x => by
      change (m'.subscribe p r').home x = _
      rw [Machine.home_subscribe, Machine.home_subscribe, h.home]
    known := by simpa using h.known
    house := by simpa using h.house
    housed := by simpa using h.housed
    reactions := fun x hx => by
      change (m'.subscribe p r').reactions x = _
      rw [Machine.reactions_subscribe, Machine.reactions_subscribe, if_neg (by simp [hx]),
        if_neg (by simp [hx])]
      exact h.reactions x hx
    tasks := fun x hx => by
      change (m'.subscribe p r').tasks x = _
      rw [Machine.tasks_subscribe, Machine.tasks_subscribe, h.home, h.house, h.tasks x hx]
      cases m.outcome? p <;> cases m'.outcome? p <;> simp [hx]
    lawful := h.lawful.snoc ⟨hn, rfl⟩
    state := by simpa [Watched.note, Notice.attempt?] using h.state
    pending := fun ho => by
      rw [Machine.outcome?_subscribe] at ho
      have hopen : m.Open p := ⟨h.known, ho⟩
      obtain ⟨hw, hlen, hs, ht⟩ := h.pending ho
      refine ⟨?_, ?_, ?_, ?_⟩
      · change (m'.subscribe p r').reactions p = _
        simp only [Machine.reactions_subscribe, hopen, (h.open_iff p).mpr hopen, and_self, if_true,
          hw, List.mapIdx_append]
        simp [r', hn, hlen]
      · simp [Watched.note, Machine.reactions_subscribe, hopen, Notice.registered?, hlen]
      · simpa [Watched.note, Notice.reaction?] using hs
      · change (m'.subscribe p r').tasks q = _
        simp [Machine.tasks_subscribe, h.outcome, ho, ht]
    settled := fun o ho => by
      rw [Machine.outcome?_subscribe] at ho
      have hopen : ¬m.Open p := fun hopen => by simp [hopen.2] at ho
      obtain ⟨hw, hw', ht⟩ := h.settled o ho
      refine ⟨?_, ?_, ?_⟩
      · simpa [Machine.reactions_subscribe, hopen] using hw
      · change (m'.subscribe p r').reactions p = _
        simpa [Machine.reactions_subscribe, mt (h.open_iff p).mp hopen] using hw'
      · change Marked p o (Journal.registered (m'.world.journal ++ [.registration n 0])).length
          (Journal.reactions (m'.world.journal ++ [.registration n 0])).length _
          ((m'.subscribe p r').tasks q)
        rw [Machine.tasks_subscribe, Machine.tasks_subscribe, h.outcome, ho, h.home, h.house,
          h.queues]
        simpa [h.housed, Notice.registered?, Notice.reaction?] using ht.append_reaction (r o) }

/-! ### Taking a task -/

/-- Taking a task changes the tasks of its queue only. -/
theorem taken (h : Watches p q m m') {x : QueueId} {t : Job V W} {t' : Job V (Watched V W)}
    {m₁ : Machine V W} {m₁' : Machine V (Watched V W)} (hpop : m.pop? x = some (t, m₁))
    (hpop' : m'.pop? x = some (t', m₁')) (j : Journal V) (hlaw : j.Lawful)
    (hstate : j.outcome? = m'.world.journal.outcome?)
    (hregistered : j.registered = m'.world.journal.registered)
    (htasks : ∀ y, y ≠ q ∨ m.outcome? p = none →
      m₁'.tasks y = (m₁.tasks y).map (Job.watched p))
    (hpending : m.outcome? p = none → j.reactions = [])
    (hsettled : ∀ o, m.outcome? p = some o →
      Marked p o m'.world.journal.registered.length j.reactions.length (m₁.tasks q)
        (m₁'.tasks q)) :
    Watches p q m₁ { m₁' with world := ⟨m.world, j⟩ } := by
  obtain ⟨-, hother, hcells, hgathers, hqueues⟩ := Machine.tasks_pop? hpop
  obtain ⟨-, hother', hcells', hgathers', hqueues'⟩ := Machine.tasks_pop? hpop'
  obtain ⟨htick, hticks, hworld⟩ := Machine.ticks_pop? hpop
  obtain ⟨htick', hticks', -⟩ := Machine.ticks_pop? hpop'
  have houtcome : ∀ y, m₁.outcome? y = m.outcome? y := fun y => by
    rw [Machine.outcome?, hcells, Machine.outcome?]
  have hreactions : ∀ y, m₁.reactions y = m.reactions y := fun y => by
    rw [Machine.reactions, hcells, Machine.reactions]
  have hreactions' : ∀ y, m₁'.reactions y = m'.reactions y := fun y => by
    rw [Machine.reactions, hcells', Machine.reactions]
  have hhome : ∀ y, m₁.home y = m.home y := fun y => by rw [Machine.home, hcells, Machine.home]
  exact {
    world := hworld.symm
    gathers := by rw [hgathers', h.gathers, hgathers]
    queues := by rw [hqueues', h.queues, hqueues]
    cells := by rw [hcells', h.cells, hcells]
    ticks := fun y => by
      change m₁'.ticks y = _
      by_cases hy : y = x
      · subst hy
        rw [htick', htick, h.ticks]
      · rw [hticks' y hy, hticks y hy, h.ticks]
    outcome := fun y => by
      rw [houtcome, ← h.outcome, Machine.outcome?, Machine.outcome?, hcells']
    home := fun y => by rw [hhome, ← h.home, Machine.home, Machine.home, hcells']
    known := by rw [hcells]; exact h.known
    house := (hhome p).trans h.house
    housed := by rw [hqueues]; exact h.housed
    reactions := fun y hy => by
      change m₁'.reactions y = _
      rw [hreactions', hreactions, h.reactions y hy]
    tasks := fun y hy => htasks y (.inl hy)
    lawful := hlaw
    state := by rw [houtcome, ← h.state, ← hstate]
    pending := fun ho => by
      rw [houtcome] at ho
      obtain ⟨hw, hn, -, -⟩ := h.pending ho
      refine ⟨?_, ?_, hpending ho, htasks q (.inr ho)⟩
      · change m₁'.reactions p = _
        rw [hreactions', hw, hreactions]
      · rw [hreactions, ← hn, ← hregistered]
    settled := fun o ho => by
      rw [houtcome] at ho
      obtain ⟨hw, hw', -⟩ := h.settled o ho
      refine ⟨(hreactions p).trans hw, (hreactions' p).trans hw', ?_⟩
      change Marked p o j.registered.length j.reactions.length (m₁.tasks q) (m₁'.tasks q)
      rw [hregistered]
      exact hsettled o ho }

/-- The tasks of a queue are watched ones, unless reactions may be among them. -/
theorem tasks_eq (h : Watches p q m m') {x : QueueId} (hx : x ≠ q ∨ m.outcome? p = none) :
    m'.tasks x = (m.tasks x).map (Job.watched p) := by
  by_cases hq : x = q
  · subst hq
    exact (h.pending (hx.resolve_left fun hne => hne rfl)).tasks
  · exact h.tasks x hq

/-- The machines after the same task has been taken from both: the watched one runs like the task of
the other one, with the journal. -/
def Takes (p : Promise) (q : QueueId) (m : Machine V W) (m' : Machine V (Watched V W))
    (x : QueueId) : Prop :=
  ∃ t m₁ t' m₁' m₂', m.pop? x = some (t, m₁) ∧ m'.pop? x = some (t', m₁') ∧
    Watches p q m₁ m₂' ∧ ∀ drain, t'.steps.run drain m₁' = (t.watched p).steps.run drain m₂'

/-- A task that is no reaction is taken as it is. -/
theorem takes_plain (h : Watches p q m m') {x : QueueId} {t : Job V W} {ts : List (Job V W)}
    {ts' : List (Job V (Watched V W))} (ht : m.tasks x = t :: ts)
    (ht' : m'.tasks x = t.watched p :: ts')
    (hrest : x ≠ q ∨ m.outcome? p = none → ts' = ts.map (Job.watched p))
    (hmarked : ∀ o, m.outcome? p = some o → x = q →
      Marked p o m'.world.journal.registered.length m'.world.journal.reactions.length ts ts') :
    Takes p q m m' x := by
  obtain ⟨m₁, hpop⟩ := Machine.exists_pop? ht
  obtain ⟨m₁', hpop'⟩ := Machine.exists_pop? ht'
  obtain ⟨hhead, hother, -⟩ := Machine.tasks_pop? hpop
  obtain ⟨hhead', hother', -⟩ := Machine.tasks_pop? hpop'
  have hts : m₁.tasks x = ts := (List.cons_inj_right _).mp (hhead.symm.trans ht)
  have hts' : m₁'.tasks x = ts' := (List.cons_inj_right _).mp (hhead'.symm.trans ht')
  have hsame : m₁'.world = ⟨m.world, m'.world.journal⟩ := by
    rw [(Machine.ticks_pop? hpop').2.2, ← h.world]
  refine ⟨t, m₁, _, m₁', _, hpop, hpop',
    h.taken hpop hpop' m'.world.journal h.lawful rfl rfl (fun y hy => ?_)
      (fun ho => (h.pending ho).unstarted) (fun o ho => ?_), fun drain => by rw [← hsame]⟩
  · by_cases hyx : y = x
    · subst hyx
      rw [hts, hts', hrest hy]
    · rw [hother y hyx, hother' y hyx]
      exact h.tasks_eq hy
  · by_cases hqx : q = x
    · subst hqx
      rw [hts, hts']
      exact hmarked o ho rfl
    · rw [hother q hqx, hother' q hqx]
      exact (h.settled o ho).tasks

/-- **A reaction that is taken is the next one**, and notes that it starts. -/
theorem takes_reaction (h : Watches p q m m') {o : Outcome V} (ho : m.outcome? p = some o)
    {t : Job V W} {ts : List (Job V W)} {ts' : List (Job V (Watched V W))}
    (ht : m.tasks q = t :: ts)
    (ht' : m'.tasks q =
      Watched.reaction m'.world.journal.reactions.length o (t.watched p) :: ts')
    (hmarked : Marked p o m'.world.journal.registered.length
      (m'.world.journal.reactions.length + 1) ts ts') : Takes p q m m' q := by
  obtain ⟨m₁, hpop⟩ := Machine.exists_pop? ht
  obtain ⟨m₁', hpop'⟩ := Machine.exists_pop? ht'
  obtain ⟨hhead, hother, -⟩ := Machine.tasks_pop? hpop
  obtain ⟨hhead', hother', -⟩ := Machine.tasks_pop? hpop'
  have hts : m₁.tasks q = ts := (List.cons_inj_right _).mp (hhead.symm.trans ht)
  have hts' : m₁'.tasks q = ts' := (List.cons_inj_right _).mp (hhead'.symm.trans ht')
  set n := m'.world.journal.reactions.length with hn
  have hfollows : (Notice.reaction n o).Follows m'.world.journal :=
    ⟨hn, hmarked.le, h.state.trans ho⟩
  have hsame : m₁'.world = ⟨m.world, m'.world.journal⟩ := by
    rw [(Machine.ticks_pop? hpop').2.2, ← h.world]
  refine ⟨t, m₁, _, m₁', _, hpop, hpop',
    h.taken hpop hpop' (m'.world.journal ++ [.reaction n o]) (h.lawful.snoc hfollows)
      (by simp [Notice.attempt?]) (by simp [Notice.registered?]) (fun y hy => ?_)
      (fun hnone => by simp [hnone] at ho) (fun o' ho' => ?_), fun drain => ?_⟩
  · have hyq : y ≠ q := hy.resolve_right (by simp [ho])
    rw [hother y hyq, hother' y hyq]
    exact h.tasks y hyq
  · obtain rfl : o = o' := Option.some.inj (ho.symm.trans ho')
    rw [hts, hts']
    simpa [Notice.reaction?] using hmarked
  · change (t.watched p).steps.run drain { m₁' with world := m₁'.world.note (.reaction n o) } = _
    rw [hsame]
    rfl

/-- **Both machines take the same task**, or none. -/
theorem pop? (h : Watches p q m m') (x : QueueId) :
    (m.pop? x = none ∧ m'.pop? x = none) ∨ Takes p q m m' x := by
  have hempty : m.tasks x = [] → m'.tasks x = [] → m.pop? x = none ∧ m'.pop? x = none :=
    fun ht ht' => ⟨(Machine.pop?_eq_none_iff m x).mpr ht, (Machine.pop?_eq_none_iff m' x).mpr ht'⟩
  by_cases hx : x ≠ q ∨ m.outcome? p = none
  · have hmap := h.tasks_eq hx
    cases ht : m.tasks x with
    | nil => exact .inl (hempty ht (by rw [hmap, ht, List.map_nil]))
    | cons t ts =>
      refine .inr (h.takes_plain ht (by rw [hmap, ht, List.map_cons]) (fun _ => rfl) ?_)
      intro o ho hxq
      simp [ho, hxq] at hx
  · obtain ⟨hxq, ho⟩ := not_or.mp hx
    obtain rfl := not_not.mp hxq
    obtain ⟨o, ho⟩ := Option.ne_none_iff_exists'.mp ho
    have hmarked := (h.settled o ho).tasks
    cases ht : m.tasks x with
    | nil => exact .inl (hempty ht (ht ▸ hmarked).eq_nil.1)
    | cons t ts =>
      obtain ⟨t', ts', ht', ⟨rfl, hrest⟩ | ⟨rfl, hrest⟩⟩ := (ht ▸ hmarked).exists_cons
      · refine .inr (h.takes_plain ht ht' (fun hno => absurd hno hx) fun o' ho' _ => ?_)
        obtain rfl : o = o' := Option.some.inj (ho.symm.trans ho')
        exact hrest
      · exact .inr (h.takes_reaction ho ht ht' hrest)

end Watches

/-! ## Runs -/

/-- A run, and the same run with a journal: they end with the same answer, or are halted alike. -/
inductive Ended.Watched {α : Type} (p : Promise) (q : QueueId) :
    Ended V W α → Ended V (EntityQuery.Watched V W) α → Prop
  | done (a : α) {m : Machine V W} {m' : Machine V (EntityQuery.Watched V W)}
      (h : Watches p q m m') : Ended.Watched p q (.done a m) (.done a m')
  | halted (c : Halt) {m : Machine V W} {m' : Machine V (EntityQuery.Watched V W)}
      (h : Watches p q m m') : Ended.Watched p q (.halted c m) (.halted c m')

theorem Ended.watched_iff_both {α : Type} {p : Promise} {q : QueueId} {e : Ended V W α}
    {e' : Ended V (EntityQuery.Watched V W) α} :
    Ended.Watched p q e e' ↔ Ended.Both (EntityQuery.Watches p q) e e' := by
  constructor
  · rintro (⟨a, h⟩ | ⟨c, h⟩)
    · exact .done a h
    · exact .halted c h
  · rintro (⟨a, h⟩ | ⟨c, h⟩)
    · exact .done a h
    · exact .halted c h

namespace Watches

variable {p : Promise} {q : QueueId} {m : Machine V W} {m' : Machine V (Watched V W)}

/-- Watched steps end as the others do, if the drains that they start do. -/
theorem steps_run {drain : QueueId → Drain → Machine V W → Ended V W Bool}
    {drain' : QueueId → Drain → Machine V (Watched V W) → Ended V (Watched V W) Bool}
    (hdrain : ∀ x d m m', Watches p q m m' → Ended.Watched p q (drain x d m) (drain' x d m'))
    (s : Work V W Unit) (h : Watches p q m m') :
    Ended.Watched p q (s.run drain m) ((s.watched p).run drain' m') := by
  induction s generalizing m m' with
  | pure a => exact .done a h
  | halt c => exact .halted c h
  | newQueue next ih =>
    obtain ⟨hq, h⟩ := h.newQueue
    simp only [Steps.watched, Steps.run, hq]
    exact ih _ h
  | newPromise x next ih =>
    obtain ⟨hp, h⟩ := h.newPromise x
    simp only [Steps.watched, Steps.run, hp]
    exact ih _ h
  | outcome x next ih =>
    by_cases hx : x = p
    · subst hx
      simp only [Steps.watched, if_true, Watched.look, Steps.run, h.outcome]
      exact ih _ h.look
    · simp only [Steps.watched, if_neg hx, Steps.run, h.outcome]
      exact ih _ h
  | home x next ih =>
    simp only [Steps.watched, Steps.run, h.home]
    exact ih _ h
  | settle x o next ih =>
    by_cases hx : x = p
    · subst hx
      obtain ⟨hfresh, h⟩ := h.attempt o
      simp only [Steps.watched, if_true, Watched.attempt, Steps.run, hfresh]
      simpa [Watched.since] using ih _ h
    · obtain ⟨hfresh, h⟩ := h.settle_of_ne hx o
      simp only [Steps.watched, if_neg hx, Steps.run, hfresh]
      exact ih _ h
  | subscribe x r next ih =>
    by_cases hx : x = p
    · subst hx
      simp only [Steps.watched, if_true, Watched.registration, Steps.run]
      simpa [Watched.since] using ih (h.registration r)
    · simp only [Steps.watched, if_neg hx, Steps.run]
      exact ih (h.subscribe_of_ne hx r)
  | enqueue x t next ih => exact ih (h.append x [t])
  | drain x d next ih =>
    have hended := hdrain x d m m' h
    simp only [Steps.watched, Steps.run]
    revert hended
    generalize drain x d m = e
    generalize drain' x d m' = e'
    rintro (⟨ran, h⟩ | ⟨c, h⟩)
    · exact ih ran h
    · exact .halted c h
  | ticks x next ih =>
    simp only [Steps.watched, Steps.run]
    rw [show (m'.queue x).ticks = (m.queue x).ticks from h.ticks x]
    exact ih _ h
  | newGather size next ih =>
    obtain ⟨hg, h⟩ := h.newGather size
    simp only [Steps.watched, Steps.run, hg]
    exact ih _ h
  | fill g slot v next ih =>
    obtain ⟨hvs, h⟩ := h.fill g slot v
    simp only [Steps.watched, Steps.run, hvs]
    exact ih _ h
  | getWorld next ih =>
    simp only [Steps.watched, Steps.run, h.world]
    exact ih _ h
  | setWorld w next ih => exact ih (h.setWorld w)

theorem reached (h : Watches p q m m') (d : Drain) : m'.reached d = m.reached d := by
  cases d with
  | «until» x => exact congrArg Option.isSome (h.outcome x)
  | once => rfl
  | all => rfl

/-- Watched drains end as the others do. -/
theorem drain (limit : Nat) (x : QueueId) (d : Drain) (h : Watches p q m m') :
    Ended.Watched p q (m.drain limit x d) (m'.drain limit x d) := by
  refine Ended.watched_iff_both.mpr
    (Machine.drain_both (fun _ _ d h => h.reached d) (fun m m' x h => ?_) limit x d h)
  refine (h.pop? x).imp_right ?_
  rintro ⟨⟨s⟩, m₁, t', m₁', m₂', hpop, hpop', h₁, hrun⟩
  refine ⟨_, t', m₁, m₁', hpop, hpop', fun drain drain' hdrain => ?_⟩
  rw [hrun]
  exact Ended.watched_iff_both.mp
    (h₁.steps_run (fun x d m m' h => Ended.watched_iff_both.mpr (hdrain x d m m' h)) s)

/-- **Watched runs end as the others do**, with a lawful journal. -/
theorem run (limit : Nat) (s : Work V W Unit) (h : Watches p q m m') :
    Ended.Watched p q (m.run limit s) (m'.run limit (s.watched p)) :=
  h.steps_run (fun x d _ _ h => h.drain limit x d) s

/-- A promise that nothing waits for is watched from an empty journal on. -/
theorem start (hopen : m.Open p) (hreactions : m.reactions p = [])
    (hhome : (m.home p).index < m.queues.size) : Watches p (m.home p) m (m.watched p) := by
  have hcell : ∀ x : Promise, (m.watched p).cells[x.index]? =
      m.cells[x.index]?.map fun c => ⟨c.home, c.outcome?, c.reactions.map fun r o =>
        (r o).watched p⟩ := fun x => by simp [Machine.watched]
  have hqueue : ∀ x : QueueId, (m.watched p).queues[x.index]? =
      m.queues[x.index]?.map fun x => ⟨x.tasks.map (Job.watched p), x.ticks⟩ := fun x => by
    simp [Machine.watched]
  have hrs : ∀ x, (m.watched p).reactions x = (m.reactions x).map fun r o => (r o).watched p := by
    intro x
    simp only [Machine.reactions, hcell]
    cases m.cells[x.index]? <;> rfl
  have hts : ∀ x, (m.watched p).tasks x = (m.tasks x).map (Job.watched p) := by
    intro x
    simp only [Machine.tasks, Machine.queue, hqueue]
    cases m.queues[x.index]? <;> rfl
  exact {
    world := rfl
    gathers := rfl
    queues := by simp [Machine.watched]
    cells := by simp [Machine.watched]
    ticks := fun x => by
      simp only [Machine.ticks, Machine.queue, hqueue]
      cases m.queues[x.index]? <;> rfl
    outcome := fun x => by
      simp only [Machine.outcome?, hcell]
      cases m.cells[x.index]? <;> rfl
    home := fun x => by
      simp only [Machine.home, hcell]
      cases m.cells[x.index]? <;> rfl
    known := hopen.1
    house := rfl
    housed := hhome
    reactions := fun x _ => hrs x
    tasks := fun x _ => hts x
    lawful := Journal.lawful_nil
    state := hopen.2.symm
    pending := fun _ => ⟨by simp [hrs, hreactions], by simp [hreactions, Machine.watched]; rfl, rfl,
      hts _⟩
    settled := fun o ho => by simp [hopen.2] at ho }

end Watches

end EntityQuery
