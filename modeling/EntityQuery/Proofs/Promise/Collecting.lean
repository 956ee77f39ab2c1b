import EntityQuery.Proofs.Promise.Seating

/-!
# Items of a list come in

A program that gathers a list runs without notes and with them. Whatever it does, the notes tell what
has happened to the list.

* `Thenable.Comes`: an outcome of an item. `Supplier.Stems`: the supplier of an item is made from it.
* **`Collecting`**: the two machines, the places of the items and the slots of the list. One lemma for
  each request.
* **`Collected`**: the promise of the list has settled with what the notes make of it, or is pending.
* **`Collected.steps_run`**, **`Collected.run`**: that stays so in every run.
-/

namespace EntityQuery

variable {V W : Type} {α : Type} {L : Roll V W} {ps : List (Supplier V)}

/-! ## Later machines -/

namespace Machine

variable {m m' : Machine V W}

theorem later_of_cells (hcells : m'.cells = m.cells) (hqueues : m.queues.size ≤ m'.queues.size) :
    m.Later m' where
  cells := hcells ▸ le_rfl
  queues := hqueues
  outcome p o ho := by rwa [outcome?, hcells]
  home p _ := by rw [home, hcells, home]

theorem later_newPromise (q : QueueId) : m.Later (m.newPromise q).2 where
  cells := by simp [newPromise]
  queues := le_rfl
  outcome p o ho := by rwa [outcome?_newPromise]
  home p hp := home_newPromise q hp

theorem outcome?_settle_self {p : Promise} (hp : p.index < m.cells.size) (o : Outcome V) :
    (m.settle p o).2.outcome? p = (m.outcome? p).or (some o) := by
  rw [outcome?_settle_eq]
  cases ho : m.outcome? p with
  | none => rw [if_pos ⟨rfl, hp, ho⟩, Option.none_or]
  | some o' =>
    rw [if_neg, Option.some_or]
    rintro ⟨-, hopen⟩
    cases ho.symm.trans hopen.2

theorem outcome?_settle_ne {p p' : Promise} (hne : p' ≠ p) (o : Outcome V) :
    (m.settle p o).2.outcome? p' = m.outcome? p' := by
  rw [outcome?_settle_eq, if_neg fun h => hne h.1]

theorem later_settle (p : Promise) (o : Outcome V) : m.Later (m.settle p o).2 where
  cells := by simp
  queues := by simp
  outcome p' o' ho := by
    rw [outcome?_settle_eq, if_neg, ho]
    rintro ⟨rfl, hopen⟩
    simp [hopen.2] at ho
  home p' _ := home_settle p p' o

theorem later_subscribe (p : Promise) (r : Outcome V → Job V W) : m.Later (m.subscribe p r) where
  cells := by simp
  queues := by simp
  outcome p' o ho := by rwa [outcome?_subscribe]
  home p' _ := home_subscribe p p' r

end Machine

/-! ## Filling a slot -/

namespace Promise

variable {m : Machine V W} {drain : QueueId → Drain → Machine V W → Ended V W Bool}
  {bundle : List V → V} {target : Promise} {g : GatherId} {slot : Nat} {v : V}

theorem run_fillSlot_of_none (h : (m.fill g slot v).1 = none) :
    (fillSlot bundle target g slot v).run drain m = .done () (m.fill g slot v).2 := by
  simp only [fillSlot, Bind.bind, Steps.bind, Steps.run, h]
  rfl

theorem run_fillSlot_of_some {vs : List V} (h : (m.fill g slot v).1 = some vs) :
    (fillSlot bundle target g slot v).run drain m =
      .done () ((m.fill g slot v).2.settle target (.ok (bundle vs))).2 := by
  simp only [fillSlot, Bind.bind, Steps.bind, Steps.run, h]
  rfl

end Promise

/-! ## What items come to -/

/-- An outcome of an item: its value, what its promise has settled with, or what its work has come to.
A promise of another queue that nothing settles comes to a failure of its own. -/
def Thenable.Comes (m : Machine V W) (answers : Arrivals V) (i : Nat) :
    Thenable V W → Outcome V → Prop
  | value v, o => o = .ok v
  | promise s, o => m.outcome? s = some o ∨ o = .error WaitFault.stalled.failure
  | deferred _, o => (i, o) ∈ answers

theorem Thenable.Comes.later {m m' : Machine V W} (hm : m.Later m') {a a' : Arrivals V}
    (ha : ∀ x ∈ a, x ∈ a') {i : Nat} {item : Thenable V W} {o : Outcome V}
    (h : item.Comes m a i o) : item.Comes m' a' i o := by
  cases item with
  | value v => exact h
  | promise s => exact h.imp_left (hm.outcome s o)
  | deferred steps => exact ha _ h

namespace Supplier

/-- A promise that gathering has made stands for an item: it settles with outcomes of the item. -/
def Ward (L : Roll V W) (m : Machine V W) (answers : Arrivals V) (i : Nat) (item : Thenable V W)
    (x : Supplier V) : Prop :=
  ∃ p, x = .promise p ∧ (p ∈ L.made ∧ p ≠ L.target) ∧
    (p.index < m.cells.size ∧ m.home p = L.queue) ∧
      ∀ o, m.outcome? p = some o → item.Comes m answers i o

/-- The supplier of an item: its value, its promise if that is of the queue of the list, or else a
promise that stands for it. -/
def Stems (L : Roll V W) (m : Machine V W) (answers : Arrivals V) (i : Nat) :
    Thenable V W → Supplier V → Prop
  | .value v, x => x = .value v
  | .promise s, x => s.index < m.cells.size ∧ (m.home s = L.queue ∧ x = .promise s ∨
      m.home s ≠ L.queue ∧ x.Ward L m answers i (.promise s))
  | .deferred steps, x => x.Ward L m answers i (.deferred steps)

variable {m m' : Machine V W} {a a' : Arrivals V} {i : Nat} {item : Thenable V W} {x : Supplier V}

theorem Ward.later (h : x.Ward L m a i item) (hm : m.Later m') (ha : ∀ y ∈ a, y ∈ a')
    (hmade : ∀ p, x = .promise p → p ∈ L.made → p ≠ L.target → ∀ o, m'.outcome? p = some o →
      m.outcome? p = some o ∨ item.Comes m a i o) : x.Ward L m' a' i item := by
  obtain ⟨p, rfl, ⟨hp, hne⟩, ⟨hlt, hhome⟩, hcomes⟩ := h
  refine ⟨p, rfl, ⟨hp, hne⟩, ⟨hlt.trans_le hm.cells, (hm.home p hlt).trans hhome⟩,
    fun o ho => Thenable.Comes.later hm ha ?_⟩
  exact (hmade p rfl hp hne o ho).elim (hcomes o) id

theorem Stems.later (h : x.Stems L m a i item) (hm : m.Later m') (ha : ∀ y ∈ a, y ∈ a')
    (hmade : ∀ p, x = .promise p → p ∈ L.made → p ≠ L.target → ∀ o, m'.outcome? p = some o →
      m.outcome? p = some o ∨ item.Comes m a i o) : x.Stems L m' a' i item := by
  cases item with
  | value v => exact h
  | promise s =>
    obtain ⟨hs, h⟩ := h
    refine ⟨hs.trans_le hm.cells, ?_⟩
    rw [hm.home s hs]
    exact h.imp_right (And.imp_right fun h => h.later hm ha hmade)
  | deferred steps => exact Ward.later h hm ha hmade

end Supplier

/-! ## The invariant -/

/-- **A program that gathers a list, without notes and with them**: the machines are alike, the items
are in their places, and the slots hold the values that have come in. -/
structure Collecting (S : Sheet L.attendance) (ps : List (Supplier V)) (m : Machine V W)
    (m' : Machine V (Attended V W)) : Prop where
  alike : L.attendance.Match S m m'
  world : m'.world.world = m.world
  target : L.target.index < m.cells.size
  seating : Seating ps S m m'.world.arrivals
  list : ∃ c, m.gathers[L.slots.index]? = some c ∧ c.Shows m'.world.arrivals L.items.length
  /-- No item waits for a promise that has settled. -/
  idle : ∀ i p, .item i ∈ S.reactions p → m.outcome? p = none
  apart : ∀ (i j : Nat) p, ps[i]? = some (Supplier.promise p) →
    ps[j]? = some (Supplier.promise p) → p ∈ L.made → i = j
  stems : ∀ (i : Nat) item x, L.items[i]? = some item → ps[i]? = some x →
    x.Stems L m m'.world.answers i item

namespace Collecting

variable {S S' : Sheet L.attendance} {m m₁ : Machine V W} {m' m₁' : Machine V (Attended V W)}

/-- The machines go on, and nothing settles. -/
theorem later (h : Collecting S ps m m') (halike : L.attendance.Match S' m₁ m₁')
    (hm : m.Later m₁) (hworld : m₁'.world = { m'.world with world := m₁.world })
    (hseating : Seating ps S' m m'.world.arrivals)
    (hidle : ∀ i p, .item i ∈ S'.reactions p → .item i ∈ S.reactions p)
    (houtcome : ∀ p, m₁.outcome? p = m.outcome? p)
    (hlist : m₁.gathers[L.slots.index]? = m.gathers[L.slots.index]?) :
    Collecting S' ps m₁ m₁' where
  alike := halike
  world := by rw [hworld]
  target := h.target.trans_le hm.cells
  seating := by
    rw [hworld]
    exact hseating.later hm
  list := by
    rw [hlist, hworld]
    exact h.list
  idle i p hi := (houtcome p).trans (h.idle i p (hidle i p hi))
  apart := h.apart
  stems i item x hi hx := by
    rw [hworld]
    refine (h.stems i item x hi hx).later hm (fun _ hy => hy) fun p _ _ _ o ho => ?_
    exact .inl ((houtcome p).symm.trans ho)

theorem newQueue (h : Collecting S ps m m') : Collecting S ps m.newQueue.2 m'.newQueue.2 :=
  h.later h.alike.newQueue.2 (Machine.later_of_cells rfl (by simp [Machine.newQueue]))
    (congrArg (Attended.mk · _ _) h.world) h.seating (fun _ _ hi => hi) (fun _ => rfl) rfl

theorem newPromise (h : Collecting S ps m m') (q : QueueId) :
    Collecting S ps (m.newPromise q).2 (m'.newPromise q).2 :=
  h.later (h.alike.newPromise q).2 (Machine.later_newPromise q)
    (congrArg (Attended.mk · _ _) h.world) h.seating (fun _ _ hi => hi)
    (Machine.outcome?_newPromise q) rfl

theorem lt_of_list (h : Collecting S ps m m') : L.slots.index < m.gathers.size := by
  obtain ⟨c, hc, -⟩ := h.list
  exact (Array.getElem?_eq_some_iff.mp hc).1

theorem newGather (h : Collecting S ps m m') (size : Nat) :
    Collecting S ps (m.newGather size).2 (m'.newGather size).2 :=
  h.later (h.alike.newGather size).2 (Machine.later_of_cells rfl le_rfl)
    (congrArg (Attended.mk · _ _) h.world) h.seating (fun _ _ hi => hi) (fun _ => rfl)
    (Machine.getElem?_gathers_newGather size h.lt_of_list)

theorem fill_of_ne (h : Collecting S ps m m') {g : GatherId} (hg : g ≠ L.slots) (slot : Nat)
    (v : V) : Collecting S ps (m.fill g slot v).2 (m'.fill g slot v).2 :=
  h.later (h.alike.fill g slot v).2
    (Machine.later_of_cells (Machine.cells_fill g slot v) (by simp))
    (by simp [← h.world]) h.seating (fun _ _ hi => hi) (Machine.outcome?_fill g slot v)
    (Machine.getElem?_gathers_fill_of_ne slot v hg.symm)

theorem setWorld (h : Collecting S ps m m') (w : W) :
    Collecting S ps { m with world := w } { m' with world := { m'.world with world := w } } :=
  h.later (h.alike.setWorld w _) (Machine.later_of_cells rfl le_rfl) rfl h.seating
    (fun _ _ hi => hi) (fun _ => rfl) rfl

/-- A task that no item waits for. -/
theorem append (h : Collecting S ps m m') {q : QueueId} {t : Arriving V W}
    (hduty : t.duty? L = none) (ht : t.Fits L ps m q) :
    ∃ S' : Sheet L.attendance, Collecting S' ps (m.append q [t.plain L]) (m'.append q [t.noting L]) := by
  by_cases hq : q.index < m.queues.size
  · exact ⟨_, h.later (h.alike.append hq [t])
      (Machine.later_of_cells rfl (by simp [Machine.append]))
      (congrArg (Attended.mk · _ _) h.world) (h.seating.append hduty ht) (fun _ _ hi => hi)
      (fun _ => rfl) rfl⟩
  · refine ⟨S, ?_⟩
    rw [Machine.append_of_none (by simpa using hq),
      Machine.append_of_none (by simpa [h.alike.queues] using hq)]
    exact h

/-- Another reaction to a promise. -/
theorem subscribe (h : Collecting S ps m m') (p : Promise) {r : Outcome V → Job V W}
    (hr : ∀ o, L.Spared (r o).steps) :
    ∃ S' : Sheet L.attendance, Collecting S' ps (m.subscribe p r) (m'.subscribe p fun o => (r o).attended) := by
  rcases m.open_or p with hopen | ⟨o, ho⟩ | hge
  · refine ⟨_, h.later (h.alike.subscribe hopen (.other r)) (Machine.later_subscribe p r)
      (by simp [← h.world]) (h.seating.react hr p) (fun i p' hi => ?_)
      (fun p' => Machine.outcome?_subscribe p p' r)
      (congrArg (·[L.slots.index]?) (Machine.gathers_subscribe p r))⟩
    exact (S.mem_reactions_react.mp hi).resolve_right fun he => nomatch he.2
  · rw [Machine.subscribe_of_settled ho, Machine.subscribe_of_settled ((h.alike.outcome p).trans ho),
      h.alike.home]
    exact h.append (t := .other (r o)) rfl (hr o)
  · refine ⟨S, ?_⟩
    rw [Machine.subscribe_of_ge hge, Machine.subscribe_of_ge (h.alike.cells ▸ hge)]
    exact h

/-- **A promise settles.** Where it stands for an item, the outcome is one of the item. -/
theorem settle (h : Collecting S ps m m') (p : Promise) {o : Outcome V}
    (hp : p ∈ L.made → p ≠ L.target → ∀ (i : Nat) item, L.items[i]? = some item →
      ps[i]? = some (Supplier.promise p) → item.Comes m m'.world.answers i o) :
    (m'.settle p o).1 = (m.settle p o).1 ∧
      ∃ S' : Sheet L.attendance, Collecting S' ps (m.settle p o).2 (m'.settle p o).2 := by
  by_cases hopen : m.Open p
  swap
  · rw [Machine.settle_of_not_open hopen,
      Machine.settle_of_not_open fun hopen' => hopen ((h.alike.open_iff p).mp hopen')]
    exact ⟨rfl, S, h⟩
  obtain ⟨S', hS', hfresh, halike⟩ := h.alike.settle hopen o
  have hlater := Machine.later_settle (m := m) p o
  have hsettled : (m.settle p o).2.outcome? p = some o := by
    rw [Machine.outcome?_settle_self hopen.1, hopen.2, Option.none_or]
  refine ⟨hfresh, S', ?_⟩
  exact {
    alike := halike
    world := by simp [h.world]
    target := by simpa using h.target
    seating := by
      have hseating : Seating ps S (m.settle p o).2 m'.world.arrivals := h.seating.later hlater
      rw [Machine.world_settle]
      rcases hS' with ⟨rfl, -⟩ | ⟨rfl, hq⟩
      · have hrelease := hseating.release hsettled
        rwa [Machine.home_settle] at hrelease
      · exact hseating.drop (by simpa using hq)
    list := by
      rw [Machine.gathers_settle, Machine.world_settle]
      exact h.list
    idle := fun i p' hi => by
      have hmem : p' ≠ p ∧ .item i ∈ S.reactions p' := by
        rcases hS' with ⟨rfl, -⟩ | ⟨rfl, -⟩
        · exact S.mem_reactions_drop.mp hi
        · exact S.mem_reactions_drop.mp hi
      rw [Machine.outcome?_settle_ne hmem.1]
      exact h.idle i p' hmem.2
    apart := h.apart
    stems := fun i item x hi hx => by
      rw [Machine.world_settle]
      refine (h.stems i item x hi hx).later hlater (fun _ hy => hy) ?_
      rintro p' rfl hmade hne o' ho'
      by_cases hpp : p' = p
      · subst hpp
        obtain rfl := Option.some.inj (hsettled.symm.trans ho')
        exact .inr (hp hmade hne i item hi hx)
      · rw [Machine.outcome?_settle_ne hpp] at ho'
        exact .inl ho' }

/-- What the work of an item has come to is noted. -/
theorem answer (h : Collecting S ps m m') (i : Nat) (o : Outcome V) :
    Collecting S ps m
      { m' with world := { m'.world with answers := m'.world.answers ++ [(i, o)] } } where
  alike := h.alike.setWorld m.world _
  world := h.world
  target := h.target
  seating := h.seating
  list := h.list
  idle := h.idle
  apart := h.apart
  stems j item x hj hx := (h.stems j item x hj hx).later (Machine.later_of_cells rfl le_rfl)
    (fun _ hy => List.mem_append_left _ hy) fun _ _ _ _ _ ho => .inl ho

/-- An item comes in. -/
theorem arrive (h : Collecting S ps m m') (hn : ps.length ≤ L.items.length) {q : QueueId} {i : Nat}
    {o : Outcome V} {ts : List (Arriving V W)} (hq : S.tasks q = .item i o :: ts)
    (halike : L.attendance.Match (S.rest q ts) m₁ m₁') (hm : m.Later m₁)
    (houtcome : ∀ p, m₁.outcome? p = m.outcome? p)
    (hworld : m₁'.world =
      { m'.world with world := m₁.world, arrivals := m'.world.arrivals ++ [(i, o)] })
    (hlist : ∃ c, m₁.gathers[L.slots.index]? = some c ∧
      c.Shows (m'.world.arrivals ++ [(i, o)]) L.items.length) :
    Collecting (S.rest q ts) ps m₁ m₁' where
  alike := halike
  world := by rw [hworld]
  target := h.target.trans_le hm.cells
  seating := by
    rw [hworld]
    exact (h.seating.arrive hn hq).2.later hm
  list := by rwa [hworld]
  idle j p hj := (houtcome p).trans (h.idle j p hj)
  apart := h.apart
  stems j item x hj hx := by
    rw [hworld]
    refine (h.stems j item x hj hx).later hm (fun _ hy => hy) fun p _ _ _ o ho => ?_
    exact .inl ((houtcome p).symm.trans ho)

end Collecting

/-! ## The promise of the list -/

variable (L ps) in
/-- **A list with all its suppliers**: its promise has settled with what the items make of it that have
come in, or is pending. -/
structure Collected (m : Machine V W) (m' : Machine V (Attended V W)) : Prop where
  collecting : ∃ S : Sheet L.attendance, Collecting S ps m m'
  full : ps.length = L.items.length
  target : L.target ∈ L.made
  made : ∀ p ∈ L.made, p.index < m.cells.size
  decided : m.outcome? L.target =
    (m'.world.arrivals.verdict? L.items.length).map (Except.map L.bundle)

namespace Collected

variable {m m₁ : Machine V W} {m' m₁' : Machine V (Attended V W)}
  {drain : QueueId → Drain → Machine V W → Ended V W Bool}
  {drain' : QueueId → Drain → Machine V (Attended V W) → Ended V (Attended V W) Bool}

/-- The machines go on, and what has come in by then decides. -/
theorem next (h : Collected L ps m m') (hcollecting : ∃ S : Sheet L.attendance, Collecting S ps m₁ m₁')
    (hcells : m.cells.size ≤ m₁.cells.size)
    (hdecided : m₁.outcome? L.target =
      (m₁'.world.arrivals.verdict? L.items.length).map (Except.map L.bundle)) :
    Collected L ps m₁ m₁' where
  collecting := hcollecting
  full := h.full
  target := h.target
  made p hp := (h.made p hp).trans_le hcells
  decided := hdecided

/-- The machines go on, and nothing comes in. -/
theorem later (h : Collected L ps m m')
    (hcollecting : ∃ S : Sheet L.attendance, Collecting S ps m₁ m₁')
    (hcells : m.cells.size ≤ m₁.cells.size) (htarget : m₁.outcome? L.target = m.outcome? L.target)
    (harrivals : m₁'.world.arrivals = m'.world.arrivals) : Collected L ps m₁ m₁' :=
  h.next hcollecting hcells (by rw [htarget, harrivals, h.decided])

/-- An item has come in, and the promise of the list is settled with what is made of that; it stays as it
is if that has been decided before. -/
theorem settled (h : Collected L ps m m') {S : Sheet L.attendance} (hS : Collecting S ps m₁ m₁')
    (hcells : m.cells.size ≤ m₁.cells.size) (htarget : m₁.outcome? L.target = m.outcome? L.target)
    {x : Except Failure (List V)} (hverdict : m₁'.world.arrivals.verdict? L.items.length =
      (m'.world.arrivals.verdict? L.items.length).or (some x)) :
    Collected L ps (m₁.settle L.target (x.map L.bundle)).2
      (m₁'.settle L.target (x.map L.bundle)).2 := by
  obtain ⟨-, hsettled⟩ := hS.settle L.target (o := x.map L.bundle) fun _ hne => absurd rfl hne
  refine h.next hsettled (by simpa using hcells) ?_
  rw [Machine.outcome?_settle_self hS.target, htarget, h.decided, Machine.world_settle, hverdict,
    Option.map_or]
  rfl

/-- **Other programs leave the list alone.** -/
theorem steps_run (hdrain : ∀ q d m m', Collected L ps m m' →
      Ended.Both (Collected L ps) (drain q d m) (drain' q d m'))
    {s : Work V W α} (hs : L.Spared s) (h : Collected L ps m m') :
    Ended.Both (Collected L ps) (s.run drain m) (s.attended.run drain' m') := by
  induction hs generalizing m m' with
  | pure a => exact .done a h
  | halt c => exact .halted c h
  | newQueue _ ih =>
    obtain ⟨S, hS⟩ := h.collecting
    simp only [Steps.attended, Steps.run, hS.alike.newQueue.1]
    exact ih _ (h.later ⟨S, hS.newQueue⟩ le_rfl rfl rfl)
  | @newPromise _ q _ _ ih =>
    obtain ⟨S, hS⟩ := h.collecting
    simp only [Steps.attended, Steps.run, (hS.alike.newPromise q).1]
    refine ih _ (fun hmem => absurd (h.made _ hmem) (Nat.lt_irrefl _)) ?_
    exact h.later ⟨S, hS.newPromise q⟩ (by simp [Machine.newPromise]) (by simp) rfl
  | @outcome _ p _ _ ih =>
    obtain ⟨S, hS⟩ := h.collecting
    simp only [Steps.attended, Steps.run, hS.alike.outcome]
    exact ih _ h
  | @home _ p _ _ ih =>
    obtain ⟨S, hS⟩ := h.collecting
    simp only [Steps.attended, Steps.run, hS.alike.home]
    exact ih _ h
  | @settle _ p o _ hp _ ih =>
    obtain ⟨S, hS⟩ := h.collecting
    obtain ⟨hfresh, hS'⟩ := hS.settle p (o := o) fun hmade => absurd hmade hp
    simp only [Steps.attended, Steps.run, hfresh]
    have hne : L.target ≠ p := fun he => hp (he ▸ h.target)
    exact ih _ (h.later hS' (by simp) (Machine.outcome?_settle_ne hne o) (by simp))
  | @subscribe _ p r _ hr _ _ ih =>
    obtain ⟨S, hS⟩ := h.collecting
    exact ih (h.later (hS.subscribe p hr) (by simp) (by simp) (by simp))
  | @enqueue _ q t _ ht _ _ ih =>
    obtain ⟨S, hS⟩ := h.collecting
    exact ih (h.later (hS.append (t := .other t) rfl ht) le_rfl rfl rfl)
  | @drain _ q d _ _ ih =>
    have hended := hdrain q d m m' h
    simp only [Steps.attended, Steps.run]
    revert hended
    generalize drain q d m = e
    generalize drain' q d m' = e'
    rintro (⟨ran, h⟩ | ⟨c, h⟩)
    · exact ih ran h
    · exact .halted c h
  | @ticks _ q _ _ ih =>
    obtain ⟨S, hS⟩ := h.collecting
    simp only [Steps.attended, Steps.run]
    rw [show (m'.queue q).ticks = (m.queue q).ticks from hS.alike.ticks q]
    exact ih _ h
  | @newGather _ size _ _ ih =>
    obtain ⟨S, hS⟩ := h.collecting
    simp only [Steps.attended, Steps.run, (hS.alike.newGather size).1]
    refine ih _ (fun he => ?_) (h.later ⟨S, hS.newGather size⟩ le_rfl rfl rfl)
    exact Nat.lt_irrefl _ (he ▸ hS.lt_of_list : (m.newGather size).1.index < m.gathers.size)
  | @fill _ g slot v _ hg _ ih =>
    obtain ⟨S, hS⟩ := h.collecting
    simp only [Steps.attended, Steps.run, (hS.alike.fill g slot v).1]
    exact ih _ (h.later ⟨S, hS.fill_of_ne hg slot v⟩ (by simp) (by simp) (by simp))
  | getWorld _ ih =>
    obtain ⟨S, hS⟩ := h.collecting
    simp only [Steps.attended, Steps.run, hS.world]
    exact ih _ h
  | @setWorld _ w _ _ ih =>
    obtain ⟨S, hS⟩ := h.collecting
    exact ih (h.later ⟨S, hS.setWorld w⟩ le_rfl rfl rfl)

/-! ## Tasks that gathering puts off -/

variable (drain drain') in
/-- A promise that stands for an item is settled with an outcome of the item. -/
theorem settle_ward (h : Collected L ps m m') {i : Nat} {item : Thenable V W} {p : Promise}
    (hp : L.Stands ps i item p) {o : Outcome V} (ho : item.Comes m m'.world.answers i o) :
    Ended.Both (Collected L ps) ((Promise.ignore (p.settle o) : Work V W Unit).run drain m)
      ((Promise.ignore (p.settle o) : Work V (Attended V W) Unit).run drain' m') := by
  obtain ⟨S, hS⟩ := h.collecting
  obtain ⟨-, hS'⟩ := hS.settle p (o := o) fun hmade _ j item' hj hsupplier => by
    obtain rfl : j = i := hS.apart j i p hsupplier hp.supplier hmade
    obtain rfl : item' = item := Option.some.inj (hj.symm.trans hp.item)
    exact ho
  have h' : Collected L ps (m.settle p o).2 (m'.settle p o).2 :=
    h.later hS' (by simp) (Machine.outcome?_settle_ne hp.ne.symm o) (by simp)
  exact .done () h'

/-- **A promise that stands for one of another queue follows it.** -/
theorem follow_run (hdrain : ∀ q d m m', Collected L ps m m' →
      Ended.Both (Collected L ps) (drain q d m) (drain' q d m'))
    (h : Collected L ps m m') {i : Nat} {p source : Promise}
    (hp : L.Stands ps i (.promise source) p) :
    Ended.Both (Collected L ps) ((p.followForeign source : Job V W).steps.run drain m)
      ((p.followForeign source : Job V (Attended V W)).steps.run drain' m') := by
  obtain ⟨S, hS⟩ := h.collecting
  change Ended.Both _ ((Steps.drain (m.home source) (.until source) _).run drain m)
    ((Steps.drain (m'.home source) (.until source) _).run drain' m')
  have hended := hdrain (m.home source) (.until source) m m' h
  simp only [Steps.run, hS.alike.home]
  revert hended
  generalize drain (m.home source) (.until source) m = e
  generalize drain' (m.home source) (.until source) m' = e'
  rintro (@⟨ran, m₁, m₁', h₁⟩ | ⟨c, h₁⟩)
  swap
  · exact .halted c h₁
  obtain ⟨S₁, hS₁⟩ := h₁.collecting
  have hcomes : (Thenable.promise source : Thenable V W).Comes m₁ m₁'.world.answers i
      ((m₁.outcome? source).getD (.error WaitFault.stalled.failure)) := by
    cases ho : m₁.outcome? source with
    | none => exact .inr rfl
    | some o => exact .inl ho
  have hsettle := h₁.settle_ward drain drain' hp hcomes
  change Ended.Both _ ((Promise.ignore (p.settle ((m₁.outcome? source).getD _))).run drain m₁)
    ((Promise.ignore (p.settle ((m₁'.outcome? source).getD _))).run drain' m₁')
  rw [hS₁.alike.outcome]
  exact hsettle

/-- **A promise that stands for work takes what the work comes to.** -/
theorem work_run (hdrain : ∀ q d m m', Collected L ps m m' →
      Ended.Both (Collected L ps) (drain q d m) (drain' q d m'))
    (h : Collected L ps m m') {i : Nat} {p : Promise} {steps : Work V W (Outcome V)}
    (hp : L.Stands ps i (.deferred steps) p) (hspared : L.Spared steps) :
    Ended.Both (Collected L ps) (((Arriving.work i p steps).plain L).steps.run drain m)
      (((Arriving.work i p steps).noting L).steps.run drain' m') := by
  change Ended.Both _ ((steps.bind _).run drain m) (((steps.attended.bind _).bind _).run drain' m')
  rw [Steps.bind_assoc']
  refine (h.steps_run hdrain hspared).bind fun o m₁ m₁' h₁ => ?_
  obtain ⟨S, hS⟩ := h₁.collecting
  have h₂ := h₁.later ⟨S, hS.answer i o⟩ le_rfl rfl rfl
  exact h₂.settle_ward drain drain' hp (List.mem_append_right _ (List.mem_singleton_self _))

/-! ## Items come in -/

variable (drain drain') in
/-- **A value fills its slot**, which settles the promise of the list once no slot is empty. -/
theorem fill_run (h : Collected L ps m m') {S : Sheet L.attendance} {i : Nat} {v : V}
    (hS : Collecting S ps (m₁.fill L.slots i v).2 (m₁'.fill L.slots i v).2)
    (hsame : (m₁'.fill L.slots i v).1 = (m₁.fill L.slots i v).1)
    (hcells : m.cells.size ≤ m₁.cells.size) (htarget : m₁.outcome? L.target = m.outcome? L.target)
    (hverdict : m₁'.world.arrivals.verdict? L.items.length =
      (m'.world.arrivals.verdict? L.items.length).or ((m₁.fill L.slots i v).1.map .ok)) :
    Ended.Both (Collected L ps)
      ((Promise.fillSlot L.bundle L.target L.slots i v).run drain m₁)
      ((Promise.fillSlot L.bundle L.target L.slots i v).run drain' m₁') := by
  have hcells' : m.cells.size ≤ (m₁.fill L.slots i v).2.cells.size := by simpa
  have htarget' : (m₁.fill L.slots i v).2.outcome? L.target = m.outcome? L.target :=
    (Machine.outcome?_fill L.slots i v L.target).trans htarget
  cases hvs : (m₁.fill L.slots i v).1 with
  | none =>
    rw [hvs] at hsame hverdict
    rw [Promise.run_fillSlot_of_none hvs, Promise.run_fillSlot_of_none hsame]
    refine .done () (h.next ⟨S, hS⟩ hcells' ?_)
    rw [htarget', h.decided, Machine.world_fill, hverdict, Option.map_none, Option.or_none]
  | some vs =>
    rw [hvs] at hsame hverdict
    rw [Promise.run_fillSlot_of_some hvs, Promise.run_fillSlot_of_some hsame]
    exact .done () (h.settled (x := .ok vs) hS hcells' htarget' (by simpa using hverdict))

/-- **An item comes in**: its slot takes the value, or the failure settles the promise of the list. -/
theorem item_run (h : Collected L ps m m') {S : Sheet L.attendance} (hS : Collecting S ps m m')
    {q : QueueId} {i : Nat} {o : Outcome V} {ts : List (Arriving V W)}
    (hq : S.tasks q = .item i o :: ts) (halike : L.attendance.Match (S.rest q ts) m₁ m₁')
    (hcells : m₁.cells = m.cells) (hgathers : m₁.gathers = m.gathers)
    (hqueues : m.queues.size ≤ m₁.queues.size) (hworld : m₁.world = m.world)
    (hworld' : m₁'.world = m'.world) :
    Ended.Both (Collected L ps) (((Arriving.item i o).plain L).steps.run drain m₁)
      (((Arriving.item i o).noting L).steps.run drain' m₁') := by
  obtain ⟨⟨hi, hnew⟩, -⟩ := hS.seating.arrive h.full.le hq
  obtain ⟨c, hc, hshows⟩ := hS.list
  rw [← hgathers] at hc
  have houtcome : ∀ p, m₁.outcome? p = m.outcome? p := fun p => by
    rw [Machine.outcome?, hcells, Machine.outcome?]
  -- The machine with notes, once the item has been noted.
  let m₂' : Machine V (Attended V W) :=
    { m₁' with world := { m₁'.world with arrivals := m₁'.world.arrivals ++ [(i, o)] } }
  have halike' : L.attendance.Match (S.rest q ts) m₁ m₂' := halike.setWorld m₁.world _
  have hnoted : m₂'.world =
      { m'.world with world := m₁.world, arrivals := m'.world.arrivals ++ [(i, o)] } := by
    simp only [m₂', hworld', hworld, hS.world]
  cases o with
  | error f =>
    change Ended.Both _ (.done () (m₁.settle L.target (.error f)).2)
      (.done () (m₂'.settle L.target (.error f)).2)
    have h₁ : Collecting (S.rest q ts) ps m₁ m₂' :=
      hS.arrive h.full.le hq halike' (Machine.later_of_cells hcells hqueues) houtcome hnoted
        ⟨c, hc, hshows.fail⟩
    have hverdict : m₂'.world.arrivals.verdict? L.items.length =
        (m'.world.arrivals.verdict? L.items.length).or (some (.error f)) := by
      rw [hnoted, Arrivals.verdict?_snoc_error hi hnew]
    exact .done () (h.settled (x := .error f) h₁ (hcells ▸ le_rfl) (houtcome L.target) hverdict)
  | ok v =>
    change Ended.Both _ ((Promise.fillSlot L.bundle L.target L.slots i v).run drain m₁)
      ((Promise.fillSlot L.bundle L.target L.slots i v).run drain' m₂')
    obtain ⟨-, hfilled⟩ := hshows.fill (v := v) hi (Arrivals.value?_eq_none hnew)
    obtain ⟨hsame, halike₂⟩ := halike'.fill L.slots i v
    have h₁ : Collecting (S.rest q ts) ps (m₁.fill L.slots i v).2 (m₂'.fill L.slots i v).2 :=
      hS.arrive h.full.le hq halike₂
        (Machine.later_of_cells ((Machine.cells_fill L.slots i v).trans hcells) (by simpa))
        (fun p => (Machine.outcome?_fill L.slots i v p).trans (houtcome p)) (by simp [hnoted])
        ⟨_, m₁.getElem?_gathers_fill_self i v hc, hfilled⟩
    have hverdict : m₂'.world.arrivals.verdict? L.items.length =
        (m'.world.arrivals.verdict? L.items.length).or ((m₁.fill L.slots i v).1.map .ok) := by
      rw [hnoted, Arrivals.verdict?_snoc_ok hi hnew, Machine.fill_eq i v hc, ← hfilled.values?_eq]
    exact h.fill_run drain drain' h₁ hsame (hcells ▸ le_rfl) (houtcome L.target) hverdict

/-! ## Runs -/

/-- **Both machines take the same task**, which ends alike. -/
theorem pop? (h : Collected L ps m m') (q : QueueId) :
    (m.pop? q = none ∧ m'.pop? q = none) ∨
      ∃ t t' m₁ m₁', m.pop? q = some (t, m₁) ∧ m'.pop? q = some (t', m₁') ∧
        ∀ (drain : QueueId → Drain → Machine V W → Ended V W Bool)
          (drain' : QueueId → Drain → Machine V (Attended V W) → Ended V (Attended V W) Bool),
          (∀ q d m m', Collected L ps m m' →
            Ended.Both (Collected L ps) (drain q d m) (drain' q d m')) →
            Ended.Both (Collected L ps) (t.steps.run drain m₁) (t'.steps.run drain' m₁') := by
  obtain ⟨S, hS⟩ := h.collecting
  refine (hS.alike.pop? q).imp_right ?_
  rintro ⟨t, ts, m₁, m₁', hq, hpop, hpop', hworld, hworld', halike⟩
  obtain ⟨-, -, hcells, hgathers, hqueues⟩ := Machine.tasks_pop? hpop
  have houtcome : ∀ p, m₁.outcome? p = m.outcome? p := fun p => by
    rw [Machine.outcome?, hcells, Machine.outcome?]
  -- A task that no item waits for leaves the list as it is.
  have hother : t.duty? L = none → Collected L ps m₁ m₁' := fun hduty => by
    refine h.later ⟨_, hS.later halike (Machine.later_of_cells hcells hqueues.ge) ?_
      (hS.seating.rest hq hduty) (fun _ _ hi => hi) houtcome (by rw [hgathers])⟩ (hcells ▸ le_rfl)
      (houtcome _) (by rw [hworld'])
    rw [hworld', hworld, ← hS.world]
  have hfits := hS.seating.tasks q t (hq ▸ List.mem_cons_self)
  refine ⟨_, _, m₁, m₁', hpop, hpop', fun drain drain' hdrain => ?_⟩
  cases t with
  | other j =>
    change Ended.Both _ (j.steps.run drain m₁) (j.attended.steps.run drain' m₁')
    rw [Job.steps_attended]
    exact (hother rfl).steps_run hdrain hfits
  | follow p source =>
    obtain ⟨i, hstands⟩ := hfits
    exact (hother rfl).follow_run hdrain hstands
  | work i p steps => exact (hother rfl).work_run hdrain hfits.1 hfits.2
  | item i o => exact h.item_run hS hq halike hcells hgathers hqueues.ge hworld hworld'

/-- **Drains end alike**, with notes that tell what has happened to the list. -/
theorem drain_both (limit : Nat) (q : QueueId) (d : Drain) (h : Collected L ps m m') :
    Ended.Both (Collected L ps) (m.drain limit q d) (m'.drain limit q d) := by
  refine Machine.drain_both (fun m m' d h => ?_) (fun _ _ q h => h.pop? q) limit q d h
  obtain ⟨S, hS⟩ := h.collecting
  cases d with
  | «until» p => exact congrArg Option.isSome (hS.alike.outcome p)
  | once => rfl
  | all => rfl

/-- **Runs end alike**, with notes that tell what has happened to the list. -/
theorem run (h : Collected L ps m m') (limit : Nat) {s : Work V W α} (hs : L.Spared s) :
    Ended.Both (Collected L ps) (m.run limit s) (m'.run limit s.attended) :=
  h.steps_run (fun q d _ _ h => h.drain_both limit q d) hs

end Collected

end EntityQuery
