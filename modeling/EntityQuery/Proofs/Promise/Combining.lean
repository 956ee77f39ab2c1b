import EntityQuery.Proofs.Promise.Collecting
import EntityQuery.Proofs.Promise.Reactions

/-!
# The promise of all values

A list of thenables is gathered in any machine, and then any program goes on, under any limit.

* `Machine.roll`: what gathering a list makes.
* `Opening`: the list gets its suppliers one by one. **`Opening.run`**: until it has all of them.
* `Roll.Reports`: what the notes say of the list, of its slots and of its promise.
* **`Promise.gather_reports`**: every run of every program that goes on with the promise of a list.
-/

namespace EntityQuery

variable {V W : Type} {α : Type} {L : Roll V W} {ps : List (Supplier V)}

/-- Whether gathering on a queue makes a promise for an item. -/
def Thenable.isAdopted (m : Machine V W) (q : QueueId) : Thenable V W → Bool
  | value _ => false
  | promise s => m.home s ≠ q
  | deferred _ => true

theorem Thenable.countP_isAdopted {m m' : Machine V W} (hm : m.Later m') (q : QueueId)
    {items : List (Thenable V W)} (hitems : ∀ s, .promise s ∈ items → s.index < m.cells.size) :
    items.countP (·.isAdopted m' q) = items.countP (·.isAdopted m q) := by
  refine List.countP_congr fun item hitem => ?_
  cases item with
  | value | deferred => rfl
  | promise s => simp only [isAdopted, hm.home s (hitems s hitem)]

/-- What gathering a list makes. -/
def Machine.roll (m : Machine V W) (q : QueueId) (bundle : List V → V)
    (items : List (Thenable V W)) : Roll V W where
  bundle := bundle
  queue := q
  items := items
  target := ⟨m.cells.size⟩
  slots := ⟨m.gathers.size⟩
  made := { p | m.cells.size ≤ p.index ∧
    p.index < m.cells.size + 1 + items.countP (·.isAdopted m q) }

/-! ## One more supplier -/

theorem Collecting.snoc {S S' : Sheet L.attendance} {m m₁ : Machine V W}
    {m' m₁' : Machine V (Attended V W)} (h : Collecting S ps m m') {x : Supplier V}
    {l : Arrivals V} (halike : L.attendance.Match S' m₁ m₁') (hm : m.Later m₁)
    (houtcome : ∀ p, m₁.outcome? p = m.outcome? p)
    (hworld : m₁'.world = { m'.world with world := m₁.world, arrivals := l })
    (hseating : Seating (ps ++ [x]) S' m₁ l)
    (hlist : ∃ c, m₁.gathers[L.slots.index]? = some c ∧ c.Shows l L.items.length)
    (hidle : ∀ i p, .item i ∈ S'.reactions p → .item i ∈ S.reactions p ∨ m.outcome? p = none)
    (hapart : ∀ p, x = .promise p → p ∈ L.made → .promise p ∉ ps)
    (hstems : ∀ item, L.items[ps.length]? = some item →
      x.Stems L m₁ m'.world.answers ps.length item) :
    Collecting S' (ps ++ [x]) m₁ m₁' where
  alike := halike
  world := by rw [hworld]
  target := h.target.trans_le hm.cells
  seating := by rwa [hworld]
  list := by rwa [hworld]
  idle i p hi := (houtcome p).trans ((hidle i p hi).elim (h.idle i p) id)
  apart i j p hi hj hp := by
    rcases getElem?_snoc_eq_some hi with hi | ⟨rfl, hx⟩ <;>
      rcases getElem?_snoc_eq_some hj with hj | ⟨rfl, hx'⟩
    · exact h.apart i j p hi hj hp
    · exact absurd (List.mem_of_getElem? hi) (hapart p hx' hp)
    · exact absurd (List.mem_of_getElem? hj) (hapart p hx hp)
    · rfl
  stems i item y hi hy := by
    rw [hworld]
    rcases getElem?_snoc_eq_some hy with hy | ⟨rfl, rfl⟩
    · refine (h.stems i item y hi hy).later hm (fun _ hz => hz) fun p _ _ _ o ho => ?_
      exact .inl ((houtcome p).symm.trans ho)
    · exact hstems item hi

/-- **A list gets its suppliers one by one.** Until then nothing has failed, and its promise is
pending. -/
structure Opening (L : Roll V W) (ps : List (Supplier V)) (items : List (Thenable V W))
    (m : Machine V W) (m' : Machine V (Attended V W)) : Prop where
  collecting : ∃ S : Sheet L.attendance, Collecting S ps m m'
  le : ps.length ≤ L.items.length
  rest : L.items.drop ps.length = items
  values : m'.world.arrivals.failure? = none
  pending : m.outcome? L.target = none
  queue : L.queue.index < m.queues.size
  made : ∀ p, p ∈ L.made ↔ L.target.index ≤ p.index ∧
    p.index < m.cells.size + items.countP (·.isAdopted m L.queue)
  promises : ∀ s, .promise s ∈ items →
    s.index < L.target.index ∧ (m.home s).index < m.queues.size
  spared : ∀ item ∈ items, L.SparedItem item

namespace Opening

variable {item : Thenable V W} {items : List (Thenable V W)} {m m₁ : Machine V W}
  {m' m₁' : Machine V (Attended V W)}

theorem item_eq (h : Opening L ps (item :: items) m m') : L.items[ps.length]? = some item := by
  have hget := congrArg (·[0]?) h.rest
  simpa using hget

theorem lt (h : Opening L ps (item :: items) m m') : ps.length < L.items.length :=
  (List.getElem?_eq_some_iff.mp h.item_eq).1

/-- The list has got its next supplier. -/
theorem next (h : Opening L ps (item :: items) m m') {x : Supplier V}
    (hcollecting : ∃ S : Sheet L.attendance, Collecting S (ps ++ [x]) m₁ m₁') (hm : m.Later m₁)
    (hcells : m₁.cells.size = m.cells.size + if item.isAdopted m L.queue then 1 else 0)
    (houtcome : ∀ p, m₁.outcome? p = m.outcome? p) (hvalues : m₁'.world.arrivals.failure? = none) :
    Opening L (ps ++ [x]) items m₁ m₁' where
  collecting := hcollecting
  le := by
    rw [List.length_append]
    exact h.lt
  rest := by
    rw [List.length_append, List.length_singleton, ← List.tail_drop, h.rest]
    rfl
  values := hvalues
  pending := (houtcome _).trans h.pending
  queue := h.queue.trans_le hm.queues
  made p := by
    obtain ⟨S, hS⟩ := h.collecting
    have hcount := Thenable.countP_isAdopted hm L.queue fun s hs =>
      (h.promises s (List.mem_cons_of_mem _ hs)).1.trans hS.target
    rw [h.made p, hcells, hcount, List.countP_cons]
    omega
  promises s hs := by
    obtain ⟨S, hS⟩ := h.collecting
    obtain ⟨hlt, hq⟩ := h.promises s (List.mem_cons_of_mem _ hs)
    rw [hm.home s (hlt.trans hS.target)]
    exact ⟨hlt, hq.trans_le hm.queues⟩
  spared item hitem := h.spared item (List.mem_cons_of_mem _ hitem)

/-- **A value at hand** takes its slot at once. -/
theorem value {v : V} (h : Opening L ps (.value v :: items) m m')
    (hm₁' : m₁' = { m' with world :=
      { m'.world with arrivals := m'.world.arrivals ++ [(ps.length, .ok v)] } }) :
    (m₁'.fill L.slots ps.length v).1 = (m.fill L.slots ps.length v).1 ∧
      (m.fill L.slots ps.length v).1 = m₁'.world.arrivals.values? L.items.length ∧
        Opening L (ps ++ [.value v]) items (m.fill L.slots ps.length v).2
          (m₁'.fill L.slots ps.length v).2 := by
  obtain ⟨S, hS⟩ := h.collecting
  obtain ⟨c, hc, hshows⟩ := hS.list
  obtain ⟨hnew, hseating⟩ := hS.seating.value h.lt v
  obtain ⟨-, hfilled⟩ := hshows.fill (v := v) h.lt (Arrivals.value?_eq_none hnew)
  have halike : L.attendance.Match S m m₁' := hm₁' ▸ hS.alike.setWorld m.world _
  have hworld : m₁'.world =
      { m'.world with arrivals := m'.world.arrivals ++ [(ps.length, .ok v)] } := by rw [hm₁']
  obtain ⟨hsame, halike'⟩ := halike.fill L.slots ps.length v
  have hlater : m.Later (m.fill L.slots ps.length v).2 :=
    Machine.later_of_cells (Machine.cells_fill L.slots ps.length v) (by simp)
  refine ⟨hsame, ?_, h.next ⟨S, ?_⟩ hlater (by simp [Thenable.isAdopted])
    (Machine.outcome?_fill L.slots ps.length v) ?_⟩
  · rw [Machine.fill_eq ps.length v hc, hworld, ← hfilled.values?_eq]
  · refine hS.snoc halike' hlater (Machine.outcome?_fill L.slots ps.length v) ?_
      (hseating.later hlater) ⟨_, m.getElem?_gathers_fill_self ps.length v hc, hfilled⟩
      (fun _ _ hi => .inl hi) nofun fun item hitem => ?_
    · simp [hworld, ← hS.world]
    · obtain rfl := Option.some.inj (h.item_eq.symm.trans hitem)
      rfl
  · rw [Machine.world_fill, hworld, Arrivals.failure?_snoc, h.values]
    rfl

/-- **A promise of the queue** supplies its item itself. -/
theorem own {s : Promise} (h : Opening L ps (.promise s :: items) m m')
    (hs : m.home s = L.queue) :
    Opening L (ps ++ [.promise s]) items
      (m.subscribe s (fillJob L.bundle L.target L.slots ps.length))
      (m'.subscribe s fun o => (Arriving.item ps.length o).noting L) := by
  obtain ⟨S, hS⟩ := h.collecting
  obtain ⟨hlt, hq⟩ := h.promises s List.mem_cons_self
  have hlt' : s.index < m.cells.size := hlt.trans hS.target
  have hlater := Machine.later_subscribe (m := m) s (fillJob L.bundle L.target L.slots ps.length)
  have hworld : (m'.subscribe s fun o => (Arriving.item ps.length o).noting L).world =
      { m'.world with
        world := (m.subscribe s (fillJob L.bundle L.target L.slots ps.length)).world } := by
    simp [← hS.world]
  refine h.next ?_ hlater (by simp [Thenable.isAdopted, hs])
    (fun p => Machine.outcome?_subscribe s p _) (by rw [hworld]; exact h.values)
  -- What is the same whether the promise has settled or not.
  have hsnoc : ∀ S' : Sheet L.attendance,
      L.attendance.Match S' (m.subscribe s (fillJob L.bundle L.target L.slots ps.length))
        (m'.subscribe s fun o => (Arriving.item ps.length o).noting L) →
      Seating (ps ++ [.promise s]) S' m m'.world.arrivals →
      (∀ i p, .item i ∈ S'.reactions p → .item i ∈ S.reactions p ∨ m.outcome? p = none) →
      ∃ S' : Sheet L.attendance, Collecting S' (ps ++ [.promise s])
        (m.subscribe s (fillJob L.bundle L.target L.slots ps.length))
        (m'.subscribe s fun o => (Arriving.item ps.length o).noting L) := by
    intro S' halike hseating hidle
    refine ⟨S', hS.snoc halike hlater (fun p => Machine.outcome?_subscribe s p _) hworld
      (hseating.later hlater) ?_ hidle (fun p hp hmade => ?_) fun item hitem => ?_⟩
    · rw [Machine.gathers_subscribe]
      exact hS.list
    · obtain rfl := Supplier.promise.inj hp
      exact absurd ((h.made s).mp hmade).1 (Nat.not_le.mpr hlt)
    · obtain rfl := Option.some.inj (h.item_eq.symm.trans hitem)
      exact ⟨hlt'.trans_le hlater.cells, .inl ⟨(hlater.home s hlt').trans hs, rfl⟩⟩
  cases ho : m.outcome? s with
  | none =>
    refine hsnoc _ (hS.alike.subscribe ⟨hlt', ho⟩ (.item ps.length)) (hS.seating.promise ⟨hlt', hq⟩
      (fun _ _ ht => .inl ht) (fun p r hr => ?_) (.inl rfl) (S.ledger_react s (.item ps.length)))
      fun i p hi => ?_
    · exact (S.mem_reactions_react.mp hr).imp_right And.symm
    · refine (S.mem_reactions_react.mp hi).imp_right ?_
      rintro ⟨rfl, -⟩
      exact ho
  | some o =>
    have halike := hS.alike.append hq [.item ps.length o]
    refine hsnoc (S.append (m.home s) [.item ps.length o]) ?_ (hS.seating.promise ⟨hlt', hq⟩
      (fun q t ht => ?_) (fun _ _ hr => .inl hr) (.inr rfl)
      (S.ledger_append (m.home s) (.item ps.length o))) fun _ _ hi => .inl hi
    · rw [Machine.subscribe_of_settled ho,
        Machine.subscribe_of_settled ((hS.alike.outcome s).trans ho), hS.alike.home]
      exact halike
    · refine (S.mem_tasks_append.mp ht).imp_right ?_
      rintro ⟨rfl, hmem⟩
      exact ⟨o, List.mem_singleton.mp hmem, rfl, ho⟩

/-- **A promise that gathering makes** stands for another item, and a task is to settle it. -/
theorem adopted (h : Opening L ps (item :: items) m m') (hitem : item.isAdopted m L.queue = true)
    {p : Promise} (hp : p = (m.newPromise L.queue).1) {t : Arriving V W}
    (hduty : t.duty? L = none)
    (hfits : ∀ m₁ : Machine V W, L.Stands (ps ++ [.promise p]) ps.length item p →
      t.Fits L (ps ++ [.promise p]) m₁ L.queue) :
    Opening L (ps ++ [.promise p]) items
      (((m.newPromise L.queue).2.append L.queue [t.plain L]).subscribe p
        (fillJob L.bundle L.target L.slots ps.length))
      (((m'.newPromise L.queue).2.append L.queue [t.noting L]).subscribe p
        fun o => (Arriving.item ps.length o).noting L) := by
  obtain ⟨S, hS⟩ := h.collecting
  set m₁ := (m.newPromise L.queue).2 with hm₁
  set m₂ := (m₁.append L.queue [t.plain L]).subscribe p
    (fillJob L.bundle L.target L.slots ps.length) with hm₂
  have hlater₁ : m.Later m₁ := Machine.later_newPromise L.queue
  have hlater₂ : m₁.Later m₂ :=
    { Machine.later_subscribe (m := m₁.append L.queue [t.plain L]) p
        (fillJob L.bundle L.target L.slots ps.length) with
      queues := by simp [m₂, Machine.append] }
  have hlater : m.Later m₂ := hlater₁.trans hlater₂
  have houtcome : ∀ p', m₂.outcome? p' = m.outcome? p' := fun p' => by
    rw [hm₂, Machine.outcome?_subscribe, Machine.outcome?_append, hm₁, Machine.outcome?_newPromise]
  have hindex : p.index = m.cells.size := congrArg Promise.index hp
  have hlt : p.index < m₁.cells.size := by simp [m₁, Machine.newPromise, hindex]
  have hhome : m₁.home p = L.queue := by rw [hp, hm₁, Machine.home_newPromise_self]
  have hnone : m.outcome? p = none := by
    rw [Machine.outcome?, Array.getElem?_eq_none hindex.ge]
    rfl
  have hne : p ≠ L.target := by
    rintro rfl
    exact absurd hS.target (Nat.not_lt.mpr hindex.ge)
  have hmade : p ∈ L.made := by
    refine (h.made p).mpr ⟨hindex ▸ hS.target.le, ?_⟩
    rw [List.countP_cons, if_pos hitem]
    omega
  have hstands : L.Stands (ps ++ [.promise p]) ps.length item p := ⟨h.item_eq, by simp, hmade, hne⟩
  have hcells : m₂.cells.size = m.cells.size + 1 := by
    simp [m₂, m₁, Machine.append, Machine.newPromise]
  refine h.next ?_ hlater (by rw [hcells, if_pos hitem]) houtcome ?_
  swap
  · simpa [Machine.append, Machine.newPromise] using h.values
  have halike := ((hS.alike.newPromise L.queue).2.append (q := L.queue) h.queue [t]).subscribe
    (p := p) ⟨hlt, by rw [Machine.outcome?_append, Machine.outcome?_newPromise, hnone]⟩
    (.item ps.length)
  have hseating : Seating (ps ++ [.promise p]) ((S.append L.queue [t]).react p (.item ps.length)) m₁
      m'.world.arrivals := by
    refine Seating.append (S := S.react p (.item ps.length)) ?_ hduty (hfits m₁ hstands)
    refine (hS.seating.later hlater₁).promise ⟨hlt, hhome ▸ h.queue⟩ (fun _ _ ht => .inl ht)
      (fun p' r hr => ?_) (.inl rfl) (S.ledger_react p (.item ps.length))
    exact (S.mem_reactions_react.mp hr).imp_right And.symm
  refine ⟨_, hS.snoc halike hlater houtcome ?_ (hseating.later hlater₂) ?_ (fun i p' hi => ?_)
    (fun p' hp' _ hmem => ?_) fun item' hitem' => ?_⟩
  · simp [m₂, m₁, Machine.append, Machine.newPromise, ← hS.world]
  · rw [hm₂, Machine.gathers_subscribe]
    exact hS.list
  · refine ((S.append L.queue [t]).mem_reactions_react.mp hi).imp_right ?_
    rintro ⟨rfl, -⟩
    exact hnone
  · obtain rfl := Supplier.promise.inj hp'
    obtain ⟨i, hi⟩ := List.getElem?_of_mem hmem
    exact absurd (hS.seating.known i p hi).1 (Nat.not_lt.mpr hindex.ge)
  · obtain rfl := Option.some.inj (h.item_eq.symm.trans hitem')
    have hward : (Supplier.promise p).Ward L m₂ m'.world.answers ps.length item :=
      ⟨p, rfl, ⟨hmade, hne⟩, ⟨by omega, (hlater₂.home p hlt).trans hhome⟩, fun o ho => by
        rw [houtcome, hnone] at ho
        cases ho⟩
    cases item with
    | value v => cases hitem
    | deferred steps => exact hward
    | promise s =>
      have hs : s.index < m.cells.size := (h.promises s List.mem_cons_self).1.trans hS.target
      refine ⟨hs.trans_le hlater.cells, .inr ⟨?_, hward⟩⟩
      rw [hlater.home s hs]
      simpa [Thenable.isAdopted] using hitem

variable {drain : QueueId → Drain → Machine V W → Ended V W Bool}
  {drain' : QueueId → Drain → Machine V (Attended V W) → Ended V (Attended V W) Bool}

variable (drain drain') in
/-- Adopting an item that is no value, and waiting for it. -/
theorem seat (h : Opening L ps (item :: items) m m') (hitem : ∀ v, item ≠ .value v) :
    ∃ p m₁ m₁', Opening L (ps ++ [.promise p]) items m₁ m₁' ∧
      m₁'.world.arrivals = m'.world.arrivals ∧
      (∀ next : Work V W α, ((Promise.adopt L.queue item).bind fun p =>
        .subscribe p (fillJob L.bundle L.target L.slots ps.length) next).run drain m =
          next.run drain m₁) ∧
      ∀ next : Work V (Attended V W) α,
        ((Promise.adopt L.queue (item.attended ps.length)).bind fun p =>
          .subscribe p (fun o => (Arriving.item ps.length o).noting L) next).run drain' m' =
            next.run drain' m₁' := by
  obtain ⟨S, hS⟩ := h.collecting
  obtain ⟨hsame, -⟩ := hS.alike.newPromise L.queue
  cases item with
  | value v => exact absurd rfl (hitem v)
  | deferred steps =>
    have hspared : L.Spared steps := h.spared _ List.mem_cons_self
    have hopen := h.adopted (t := .work ps.length (m.newPromise L.queue).1 steps) rfl rfl rfl
      fun _ hstands => ⟨hstands, hspared⟩
    refine ⟨_, _, _, hopen, by simp [Machine.append, Machine.newPromise], fun next => ?_,
      fun next => ?_⟩
    · change next.run drain (((m.newPromise L.queue).2.append
        ((m.newPromise L.queue).2.home (m.newPromise L.queue).1) _).subscribe _ _) = _
      rw [Machine.home_newPromise_self]
      rfl
    · change next.run drain' (((m'.newPromise L.queue).2.append
        ((m'.newPromise L.queue).2.home (m'.newPromise L.queue).1) _).subscribe _ _) = _
      rw [Machine.home_newPromise_self, ← hsame]
      rfl
  | promise s =>
    by_cases hs : m.home s = L.queue
    · refine ⟨s, _, _, h.own hs, by simp, fun next => ?_, fun next => ?_⟩
      · change Steps.run drain (Steps.bind (if m.home s = L.queue then .pure s else _) _) m = _
        rw [if_pos hs]
        rfl
      · change Steps.run drain' (Steps.bind (if m'.home s = L.queue then .pure s else _) _) m' = _
        rw [hS.alike.home, if_pos hs]
        rfl
    · have hopen := h.adopted (t := .follow (m.newPromise L.queue).1 s)
        (by simp [Thenable.isAdopted, hs]) rfl rfl fun _ hstands => ⟨_, hstands⟩
      refine ⟨_, _, _, hopen, by simp [Machine.append, Machine.newPromise], fun next => ?_,
        fun next => ?_⟩
      · change Steps.run drain (Steps.bind (if m.home s = L.queue then .pure s else _) _) m = _
        rw [if_neg hs]
        rfl
      · change Steps.run drain' (Steps.bind (if m'.home s = L.queue then .pure s else _) _) m' = _
        rw [hS.alike.home, if_neg hs, ← hsame]
        rfl

/-- **All items get their suppliers.** -/
theorem run (h : Opening L ps items m m') :
    ∃ ps' m₁ m₁', Opening L ps' [] m₁ m₁' ∧
      (Promise.gatherFrom L.queue L.bundle L.target L.slots ps.length items
        (m'.world.arrivals.values? L.items.length)).run drain m =
          .done (m₁'.world.arrivals.values? L.items.length) m₁ ∧
      (Promise.collectFrom L.queue L.bundle L.target L.slots ps.length items
        (m'.world.arrivals.values? L.items.length)).run drain' m' =
          .done (m₁'.world.arrivals.values? L.items.length) m₁' := by
  induction items generalizing ps m m' with
  | nil => exact ⟨ps, m, m', h, rfl, rfl⟩
  | cons item items ih =>
    have hseat : (∀ v, item ≠ .value v) → ∃ ps' m₁ m₁', Opening L ps' [] m₁ m₁' ∧
        ((Promise.adopt L.queue item).bind fun p =>
          .subscribe p (fillJob L.bundle L.target L.slots ps.length)
            (Promise.gatherFrom L.queue L.bundle L.target L.slots (ps.length + 1) items
              (m'.world.arrivals.values? L.items.length))).run drain m =
            .done (m₁'.world.arrivals.values? L.items.length) m₁ ∧
        ((Promise.adopt L.queue (item.attended ps.length)).bind fun p =>
          .subscribe p (fun o => (Arriving.item ps.length o).noting L)
            (Promise.collectFrom L.queue L.bundle L.target L.slots (ps.length + 1) items
              (m'.world.arrivals.values? L.items.length))).run drain' m' =
            .done (m₁'.world.arrivals.values? L.items.length) m₁' := fun hitem => by
      obtain ⟨p, m₁, m₁', h₁, harrivals, hrun, hrun'⟩ :=
        h.seat drain drain' hitem
      have hrest := ih h₁
      rw [List.length_append, List.length_singleton, harrivals] at hrest
      obtain ⟨ps', m₂, m₂', h₂, hdone, hdone'⟩ := hrest
      exact ⟨ps', m₂, m₂', h₂, (hrun _).trans hdone, (hrun' _).trans hdone'⟩
    cases item with
    | value v =>
      obtain ⟨hsame, hvalues, h₁⟩ := h.value rfl
      have hrest := ih h₁
      rw [List.length_append, List.length_singleton, Machine.world_fill] at hrest
      obtain ⟨ps', m₂, m₂', h₂, hdone, hdone'⟩ := hrest
      refine ⟨ps', m₂, m₂', h₂, Eq.trans ?_ hdone, Eq.trans ?_ hdone'⟩
      · rw [← hvalues]
        rfl
      · rw [← hvalues, ← hsame]
        rfl
    | deferred steps => exact hseat nofun
    | promise s => exact hseat nofun

end Opening

/-! ## The start -/

namespace Machine

variable {m : Machine V W} {q : QueueId} {bundle : List V → V} {items : List (Thenable V W)}

/-- The tasks and reactions of a machine, none of which is about the list. -/
def sheet (L : Roll V W) (m : Machine V W) : Sheet L.attendance where
  tasks q := (m.tasks q).map Arriving.other
  reactions p := (m.reactions p).map Awaiting.other

theorem match_attended (L : Roll V W) (m : Machine V W) :
    L.attendance.Match (m.sheet L) m m.attended := by
  have hcell : ∀ p : Promise, m.attended.cells[p.index]? = m.cells[p.index]?.map fun c =>
      ⟨c.home, c.outcome?, c.reactions.map fun r o => (r o).attended⟩ := fun p => by
    simp [attended]
  have hqueue : ∀ q : QueueId, m.attended.queues[q.index]? = m.queues[q.index]?.map fun q =>
      ⟨q.tasks.map Job.attended, q.ticks⟩ := fun q => by simp [attended]
  exact {
    gathers := rfl
    queues := by simp [attended]
    cells := by simp [attended]
    ticks := fun q => by
      simp only [ticks, queue, hqueue]
      cases m.queues[q.index]? <;> rfl
    outcome := fun p => by
      simp only [outcome?, hcell]
      cases m.cells[p.index]? <;> rfl
    home := fun p => by
      simp only [home, hcell]
      cases m.cells[p.index]? <;> rfl
    tasks := fun q => by
      rw [sheet, List.map_map]
      exact (List.map_id _).symm
    tasks' := fun q => by
      rw [sheet, List.map_map]
      simp only [tasks, queue, hqueue]
      cases m.queues[q.index]? <;> rfl
    reactions := fun p => by
      rw [sheet, List.map_map]
      exact (List.map_id _).symm
    reactions' := fun p => by
      rw [sheet, List.map_map]
      simp only [reactions, hcell]
      cases m.cells[p.index]? <;> rfl }

/-- **No item has a supplier yet.** -/
theorem opening (hq : q.index < m.queues.size)
    (hitems : ∀ s, .promise s ∈ items → s.index < m.cells.size ∧ (m.home s).index < m.queues.size)
    (hm : (m.roll q bundle items).SparedBy m)
    (hspared : ∀ item ∈ items, (m.roll q bundle items).SparedItem item) :
    Opening (m.roll q bundle items) [] items ((m.newPromise q).2.newGather items.length).2
      ((m.attended.newPromise q).2.newGather items.length).2 := by
  set L := m.roll q bundle items
  have halike := (((match_attended L m).newPromise q).2.newGather items.length).2
  have hlater : m.Later ((m.newPromise q).2.newGather items.length).2 :=
    (later_newPromise q).trans (later_of_cells rfl le_rfl)
  have harrivals : ((m.attended.newPromise q).2.newGather items.length).2.world.arrivals = [] := rfl
  have hledger : ∀ x i, some (.slot L.slots i) ∉ (m.sheet L).ledger x := by
    intro x i
    cases x with
    | queue q => simp [Sheet.ledger, sheet, Arriving.duty?]
    | promise p => simp [Sheet.ledger, sheet, Awaiting.duty?]
  have hreactions : ∀ p, ∀ r ∈ (m.sheet L).reactions p, ∃ r', r' ∈ m.reactions p ∧ r = .other r' :=
    fun p r hr => by
      obtain ⟨r', hr', rfl⟩ := List.mem_map.mp hr
      exact ⟨r', hr', rfl⟩
  exact {
    collecting := ⟨m.sheet L, {
      alike := halike
      world := rfl
      target := by simp [L, roll, newPromise, newGather]
      seating := {
        known := by simp
        tasks := fun q t ht => by
          obtain ⟨j, hj, rfl⟩ := List.mem_map.mp ht
          exact hm.tasks q j hj
        reactions := fun p r hr => by
          obtain ⟨r', hr', rfl⟩ := hreactions p r hr
          exact hm.reactions p r' hr'
        seats := {
          sole := fun i => ⟨none, fun x => by simpa using List.count_eq_zero.mpr (hledger x i)⟩
          away := by simp [harrivals]
          waits := by simp }
        once := ⟨List.nodup_nil, by simp [harrivals]⟩
        given := by simp [harrivals]
        values := by simp }
      list := ⟨_, by simp [L, roll, newGather, newPromise], Gather.Shows.start items.length⟩
      idle := fun i p hi => by
        obtain ⟨r', -, he⟩ := hreactions p _ hi
        cases he
      apart := by simp
      stems := by simp }⟩
    le := Nat.zero_le _
    rest := rfl
    values := rfl
    pending := by
      change (m.newPromise q).2.outcome? L.target = none
      rw [outcome?_newPromise]
      simp [outcome?, L, roll]
    queue := hq
    made := fun p => by
      have hcount := Thenable.countP_isAdopted hlater q fun s hs => (hitems s hs).1
      have hcells : ((m.newPromise q).2.newGather items.length).2.cells.size =
          m.cells.size + 1 := by simp [newPromise, newGather]
      rw [hcells]
      exact hcount ▸ Iff.rfl
    promises := fun s hs => by
      obtain ⟨hlt, hhome⟩ := hitems s hs
      rw [hlater.home s hlt]
      exact ⟨hlt, hhome⟩
    spared := hspared }

end Machine

/-! ## Gathering -/

section Gathering

variable {m : Machine V W} {q : QueueId} {bundle : List V → V} {items : List (Thenable V W)}
  {drain : QueueId → Drain → Machine V W → Ended V W Bool}
  {drain' : QueueId → Drain → Machine V (Attended V W) → Ended V (Attended V W) Bool}

theorem Opening.collected {m' : Machine V (Attended V W)} (h : Opening L ps [] m m')
    (hpending : m'.world.arrivals.values? L.items.length = none) : Collected L ps m m' := by
  obtain ⟨S, hS⟩ := h.collecting
  exact {
    collecting := ⟨S, hS⟩
    full := le_antisymm h.le (List.drop_eq_nil_iff.mp h.rest)
    target := (h.made _).mpr ⟨le_rfl, hS.target⟩
    made := fun p hp => ((h.made p).mp hp).2
    decided := by
      rw [h.pending, Arrivals.verdict?, h.values, hpending]
      rfl }

/-- The values at hand are all values, so that the promise of the list is settled with them. -/
theorem Opening.fulfilled {m' : Machine V (Attended V W)} (h : Opening L ps [] m m') {vs : List V}
    (hvalues : m'.world.arrivals.values? L.items.length = some vs) :
    Collected L ps (m.settle L.target (.ok (L.bundle vs))).2
      (m'.settle L.target (.ok (L.bundle vs))).2 := by
  obtain ⟨S, hS⟩ := h.collecting
  obtain ⟨-, hsettled⟩ := hS.settle L.target (o := .ok (L.bundle vs)) fun _ hne => absurd rfl hne
  exact {
    collecting := hsettled
    full := le_antisymm h.le (List.drop_eq_nil_iff.mp h.rest)
    target := (h.made _).mpr ⟨le_rfl, hS.target⟩
    made := fun p hp => by simpa using ((h.made p).mp hp).2
    decided := by
      rw [Machine.outcome?_settle_self hS.target, h.pending, Machine.world_settle,
        Arrivals.verdict?, h.values, hvalues]
      rfl }

variable (drain drain') in
/-- **Gathering a list**, without notes and with them. -/
theorem Promise.gather_run (hq : q.index < m.queues.size)
    (hitems : ∀ s, .promise s ∈ items → s.index < m.cells.size ∧ (m.home s).index < m.queues.size)
    (hm : (m.roll q bundle items).SparedBy m)
    (hspared : ∀ item ∈ items, (m.roll q bundle items).SparedItem item) :
    ∃ ps m₁ m₁', Collected (m.roll q bundle items) ps m₁ m₁' ∧
      (gather q bundle items).run drain m = .done (m.roll q bundle items).target m₁ ∧
      (collect q bundle items).run drain' m.attended =
        .done (m.roll q bundle items).target m₁' := by
  set L := m.roll q bundle items with hL
  obtain ⟨ps, m₁, m₁', h, hrun, hrun'⟩ : ∃ ps m₁ m₁', Opening L ps [] m₁ m₁' ∧
      (gatherFrom q bundle L.target L.slots 0 items (Arrivals.values? [] items.length)).run drain
          ((m.newPromise q).2.newGather items.length).2 =
        .done (m₁'.world.arrivals.values? L.items.length) m₁ ∧
      (collectFrom q bundle L.target L.slots 0 items (Arrivals.values? [] items.length)).run drain'
          ((m.attended.newPromise q).2.newGather items.length).2 =
        .done (m₁'.world.arrivals.values? L.items.length) m₁' :=
    (Machine.opening hq hitems hm hspared).run
  have hstart : Arrivals.values? [] items.length =
      (if items.isEmpty then some [] else none : Option (List V)) := by
    cases items with
    | nil => rfl
    | cons item items => exact Arrivals.values?_nil_of_pos (Nat.succ_pos _)
  have hcells : m.attended.cells.size = m.cells.size := by simp [Machine.attended]
  have htarget' : (m.attended.newPromise q).1 = L.target := congrArg Promise.mk hcells
  rw [hstart] at hrun hrun'
  have hgather : (gather q bundle items).run drain m = Steps.run drain
      ((gatherFrom q bundle L.target L.slots 0 items
        (if items.isEmpty then some [] else none)).bind _)
          ((m.newPromise q).2.newGather items.length).2 := rfl
  have hcollect : (collect q bundle items).run drain' m.attended = Steps.run drain'
      ((collectFrom q bundle (m.attended.newPromise q).1 L.slots 0 items
        (if items.isEmpty then some [] else none)).bind _)
          ((m.attended.newPromise q).2.newGather items.length).2 := rfl
  rw [htarget'] at hcollect
  rw [hgather, hcollect, Steps.run_bind, Steps.run_bind, hrun, hrun']
  cases hvs : m₁'.world.arrivals.values? L.items.length with
  | none =>
    exact ⟨ps, m₁, m₁', h.collected hvs, rfl, congrArg (Ended.done · m₁') htarget'⟩
  | some vs =>
    exact ⟨ps, _, _, h.fulfilled hvs, rfl, congrArg (fun p =>
      Ended.done p (m₁'.settle p (.ok (bundle vs))).2) htarget'⟩

end Gathering

/-! ## What the notes say -/

/-- What the notes of a run say of the list that it has gathered. -/
structure Roll.Reports (L : Roll V W) (m : Machine V W) (w : Attended V W) : Prop where
  /-- The slots hold the values that have come in. The count is that of the empty slots, and each
  value has taken one from it. -/
  slots : ∃ c, m.gathers[L.slots.index]? = some c ∧ c.slots.length = L.items.length ∧
    (∀ (i : Nat) v, c.slots[i]? = some (some v) ↔ (i, .ok v) ∈ w.arrivals) ∧
      c.remaining = c.slots.countP Option.isNone ∧
        c.remaining + w.arrivals.countP (fun a => a.2.isOk) = L.items.length
  /-- Each item comes in once at most. -/
  once : (w.arrivals.map Prod.fst).Nodup
  /-- It comes in with its value, with what its promise has settled with, or with what its work has
  come to. Only a promise of another queue may come to nothing, which is a failure. -/
  given : ∀ i o, (i, o) ∈ w.arrivals → ∃ item, L.items[i]? = some item ∧
    item.Comes m w.answers i o ∧
      ∀ s, item = .promise s → m.home s = L.queue → m.outcome? s = some o
  /-- Once the queue is empty, an item has come in, or its promise is pending, or the one that
  gathering has made to stand for it. -/
  complete : m.tasks L.queue = [] → ∀ i < L.items.length, (∃ o, (i, o) ∈ w.arrivals) ∨
    ∃ p, m.outcome? p = none ∧ m.home p = L.queue ∧
      (L.items[i]? = some (.promise p) ∨ p ∈ L.made ∧ p ≠ L.target)
  /-- The promise of the list is fulfilled exactly when all items have come in with values, with these
  values in the order of the items. -/
  fulfilled : ∀ v, m.outcome? L.target = some (.ok v) ↔ ∃ vs, v = L.bundle vs ∧
    vs.length = L.items.length ∧ ∀ (i : Nat) u, vs[i]? = some u → (i, .ok u) ∈ w.arrivals
  /-- It is rejected exactly when an item has failed, with the failure of the first one. -/
  rejected : ∀ f, m.outcome? L.target = some (.error f) ↔ ∃ before i after,
    w.arrivals = before ++ (i, .error f) :: after ∧ ∀ a ∈ before, ∃ v, a.2 = .ok v
  /-- No later outcome changes that. -/
  final : ∀ o o', m.outcome? L.target = some o → m.settle L.target o' = (false, m)

namespace Collected

variable {m : Machine V W} {m' : Machine V (Attended V W)}

theorem exists_supplier (h : Collected L ps m m') {i : Nat} (hi : i < L.items.length) :
    ∃ item x, L.items[i]? = some item ∧ ps[i]? = some x ∧
      x.Stems L m m'.world.answers i item := by
  obtain ⟨S, hS⟩ := h.collecting
  have hitem := List.getElem?_eq_getElem hi
  have hx := List.getElem?_eq_getElem (h.full ▸ hi)
  exact ⟨_, _, hitem, hx, hS.stems i _ _ hitem hx⟩

/-- What has come in has been given by the item. -/
theorem given (h : Collected L ps m m') {i : Nat} {o : Outcome V}
    (ho : (i, o) ∈ m'.world.arrivals) : ∃ item, L.items[i]? = some item ∧
      item.Comes m m'.world.answers i o ∧
        ∀ s, item = .promise s → m.home s = L.queue → m.outcome? s = some o := by
  obtain ⟨S, hS⟩ := h.collecting
  obtain ⟨y, hy, hgives⟩ := hS.seating.given i o ho
  obtain ⟨item, x, hitem, hx, hstems⟩ := h.exists_supplier (hS.seating.once.lt _ ho)
  obtain rfl : y = x := Option.some.inj (hy.symm.trans hx)
  refine ⟨item, hitem, ?_⟩
  cases item with
  | value v =>
    obtain rfl : y = .value v := hstems
    exact ⟨hgives, nofun⟩
  | deferred steps =>
    obtain ⟨p, rfl, -, -, hcomes⟩ := hstems
    exact ⟨hcomes o hgives, nofun⟩
  | promise s =>
    obtain ⟨-, ⟨hs, rfl⟩ | ⟨hs, p, rfl, -, -, hcomes⟩⟩ := hstems
    · refine ⟨.inl hgives, ?_⟩
      rintro _ ⟨⟩ -
      exact hgives
    · refine ⟨hcomes o hgives, ?_⟩
      rintro _ ⟨⟩ hhome
      exact absurd hhome hs

/-- An item that has not come in waits for a promise that is pending, or for the queue. -/
theorem complete (h : Collected L ps m m') (hqueue : m.tasks L.queue = []) {i : Nat}
    (hi : i < L.items.length) : (∃ o, (i, o) ∈ m'.world.arrivals) ∨
      ∃ p, m.outcome? p = none ∧ m.home p = L.queue ∧
        (L.items[i]? = some (.promise p) ∨ p ∈ L.made ∧ p ≠ L.target) := by
  obtain ⟨S, hS⟩ := h.collecting
  obtain ⟨item, x, hitem, hx, hstems⟩ := h.exists_supplier hi
  have hpromise : ∀ p, x = .promise p → m.home p = L.queue →
      (L.items[i]? = some (.promise p) ∨ p ∈ L.made ∧ p ≠ L.target) →
      (∃ o, (i, o) ∈ m'.world.arrivals) ∨ ∃ p, m.outcome? p = none ∧ m.home p = L.queue ∧
        (L.items[i]? = some (.promise p) ∨ p ∈ L.made ∧ p ≠ L.target) := by
    rintro p rfl hhome hp
    rcases hS.seating.seats.waits i p hx with hcome | hmem | hmem
    · exact .inl hcome
    · exact .inr ⟨p, hS.idle i p (S.slot_mem_promise.mp hmem), hhome, hp⟩
    · rw [hhome] at hmem
      obtain ⟨o, ho⟩ := S.slot_mem_queue.mp hmem
      rw [hS.alike.tasks] at hqueue
      rw [List.map_eq_nil_iff.mp hqueue] at ho
      cases ho
  cases item with
  | value v =>
    obtain rfl : x = .value v := hstems
    exact .inl ⟨_, hS.seating.values i v hx⟩
  | deferred steps =>
    obtain ⟨p, rfl, hmade, ⟨-, hhome⟩, -⟩ := hstems
    exact hpromise p rfl hhome (.inr hmade)
  | promise s =>
    obtain ⟨-, ⟨hs, rfl⟩ | ⟨-, p, rfl, hmade, ⟨-, hhome⟩, -⟩⟩ := hstems
    · exact hpromise s rfl hs (.inl hitem)
    · exact hpromise p rfl hhome (.inr hmade)

theorem reports (h : Collected L ps m m') : L.Reports m m'.world := by
  obtain ⟨S, hS⟩ := h.collecting
  have honce := hS.seating.once
  exact {
    slots := by
      obtain ⟨c, hc, hshows⟩ := hS.list
      refine ⟨c, hc, by simp [hshows.slots], fun i v => ?_, hshows.remaining, hshows.counted⟩
      rw [← honce.value?_eq_some_iff, hshows.slots, List.getElem?_map]
      rcases Nat.lt_or_ge i L.items.length with hi | hi
      · rw [List.getElem?_range hi]
        exact ⟨Option.some.inj, congrArg some⟩
      · rw [List.getElem?_eq_none (by simpa using hi), Arrivals.value?_eq_none fun o ho =>
          absurd (honce.lt _ ho) (Nat.not_lt.mpr hi)]
        exact iff_of_false (by simp) (by simp)
    once := honce.nodup
    given := fun _ _ => h.given
    complete := fun hqueue _ => h.complete hqueue
    fulfilled := fun v => by
      simp only [h.decided, ← honce.verdict?_ok_iff]
      constructor
      · intro hv
        obtain ⟨o | vs, ho, he⟩ := Option.map_eq_some_iff.mp hv
        · cases he
        · exact ⟨vs, (Except.ok.inj he).symm, ho⟩
      · rintro ⟨vs, rfl, hvs⟩
        rw [hvs]
        rfl
    rejected := fun f => by
      rw [h.decided, ← Arrivals.verdict?_error_iff (n := L.items.length)]
      constructor
      · intro hf
        obtain ⟨f' | vs, ho, he⟩ := Option.map_eq_some_iff.mp hf
        · cases he
          exact ho
        · cases he
      · intro hf
        rw [hf]
        rfl
    final := fun _ o' ho => Machine.settle_of_settled ho o' }

end Collected

/-- **The promise of a list is right under every order of events.** A list of thenables is gathered in
any machine: values, work that is put off, and promises, of its queue or of others, also one promise
more than once. Then any program goes on with the promise of the list, and so may the tasks and
reactions that the machine has already, as long as nobody but gathering settles the promises that it
makes. However far the run gets, the notes beside it, which change nothing, bear out what is said of
the slots, of the items that have come in, and of the promise of the list. Where all items are values,
that promise is fulfilled as soon as it is made. -/
theorem Promise.gather_reports {m : Machine V W} {q : QueueId} {bundle : List V → V}
    {items : List (Thenable V W)} (hq : q.index < m.queues.size)
    (hitems : ∀ s, .promise s ∈ items → s.index < m.cells.size ∧ (m.home s).index < m.queues.size)
    (hm : (m.roll q bundle items).SparedBy m)
    (hspared : ∀ item ∈ items, (m.roll q bundle items).SparedItem item) :
    (∀ (rest : Promise → Work V W α) (limit : Nat),
      (m.roll q bundle items).Spared (rest (m.roll q bundle items).target) →
        let plain := m.run limit ((gather q bundle items).bind rest)
        let noted := m.attended.run limit
          ((collect q bundle items).bind fun p => (rest p).attended)
        (noted.answer = plain.answer ∧ noted.machine.world.world = plain.machine.world ∧
            ∀ p, noted.machine.outcome? p = plain.machine.outcome? p) ∧
          (m.roll q bundle items).Reports plain.machine noted.machine.world) ∧
      ∀ vs, items = vs.map .value → ∀ limit,
        (m.run limit (gather q bundle items)).answer = .ok (m.roll q bundle items).target ∧
          (m.run limit (gather q bundle items)).machine.outcome? (m.roll q bundle items).target =
            some (.ok (bundle vs)) := by
  constructor
  · intro rest limit hrest plain noted
    obtain ⟨ps, m₁, m₁', h, hrun, hrun'⟩ := gather_run (Machine.drain limit)
      (Machine.drain limit) hq hitems hm hspared
    have hended : Ended.Both (Collected (m.roll q bundle items) ps) plain noted := by
      simp only [plain, noted, Machine.run, Steps.run_bind, hrun, hrun']
      exact h.run limit hrest
    clear_value plain noted
    cases hended with
    | done a h =>
      obtain ⟨S, hS⟩ := h.collecting
      exact ⟨⟨rfl, hS.world, hS.alike.outcome⟩, h.reports⟩
    | halted c h =>
      obtain ⟨S, hS⟩ := h.collecting
      exact ⟨⟨rfl, hS.world, hS.alike.outcome⟩, h.reports⟩
  · rintro vs rfl limit
    obtain ⟨ps, m₁, m₁', h, hrun, -⟩ := gather_run (Machine.drain limit)
      (Machine.drain limit) hq hitems hm hspared
    rw [Machine.run, hrun]
    refine ⟨rfl, (h.reports.fulfilled _).mpr ⟨vs, rfl, by simp [Machine.roll], fun i u hu => ?_⟩⟩
    obtain ⟨S, hS⟩ := h.collecting
    have hi : i < (m.roll q bundle (vs.map .value)).items.length := by
      simpa [Machine.roll] using (List.getElem?_eq_some_iff.mp hu).1
    obtain ⟨item, x, hitem, hx, hstems⟩ := h.exists_supplier hi
    obtain rfl : .value u = item := by simpa [Machine.roll, hu] using hitem
    obtain rfl : x = .value u := hstems
    exact hS.seating.values i u hx

namespace Sample

/-- Two queues, each with a pending promise. The second one has a task that resolves its promise. -/
def twoQueues : Machine Nat Unit :=
  (((Machine.start ()).newQueue.2.newQueue.2.newPromise ⟨0⟩).2.newPromise ⟨1⟩).2.enqueue ⟨1⟩
    (Promise.settleJob ⟨1⟩ (.ok 3))

/-- A value, the promise of the first queue, that of the second one, work, and the first one again. -/
def mixed : List (Thenable Nat Unit) :=
  [.value 1, .promise ⟨0⟩, .promise ⟨1⟩, .deferred (.pure (.ok 4)), .promise ⟨0⟩]

/-- The values as the digits of a number. -/
def digits (vs : List Nat) : Nat := vs.foldl (10 * · + ·) 0

/-- Drains the first queue, and once more after it has resolved its promise. -/
def resolving (_ : Promise) : Work Nat Unit Unit :=
  .drain ⟨0⟩ .all fun _ => .settle ⟨0⟩ (.ok 2) fun _ => .drain ⟨0⟩ .all fun _ => .pure ()

theorem spared_twoQueues : (twoQueues.roll ⟨0⟩ digits mixed).SparedBy twoQueues where
  tasks q j hj := by
    obtain ⟨i⟩ := q
    rcases i with _ | _ | i
    · cases hj
    · obtain rfl := List.mem_singleton.mp hj
      exact .settle (fun hmem => absurd hmem.1 (by decide)) fun _ => .pure ()
    · have hi : i + 2 < 2 := Machine.lt_of_mem_tasks hj
      omega
  reactions p r hr := by
    obtain ⟨i⟩ := p
    rcases i with _ | _ | i
    · cases hr
    · cases hr
    · simp [Machine.reactions, twoQueues, Machine.enqueue, Machine.append, Machine.newPromise,
        Machine.newQueue, Machine.start] at hr

end Sample

/-- The promise of the second queue and the work come in before the promise of the first queue, which
comes in twice. -/
theorem Promise.gather_reports_sample :
    let L := Sample.twoQueues.roll ⟨0⟩ Sample.digits Sample.mixed
    ((∀ s, .promise s ∈ Sample.mixed → s.index < Sample.twoQueues.cells.size ∧
        (Sample.twoQueues.home s).index < Sample.twoQueues.queues.size) ∧
      L.SparedBy Sample.twoQueues ∧ (∀ item ∈ Sample.mixed, L.SparedItem item) ∧
        L.Spared (Sample.resolving L.target)) ∧
      let plain := Sample.twoQueues.run 9
        ((gather ⟨0⟩ Sample.digits Sample.mixed).bind Sample.resolving)
      let noted := Sample.twoQueues.attended.run 9
        ((collect ⟨0⟩ Sample.digits Sample.mixed).bind fun p => (Sample.resolving p).attended)
      L.Reports plain.machine noted.machine.world ∧
        noted.machine.world.arrivals = [(0, .ok 1), (2, .ok 3), (3, .ok 4), (1, .ok 2), (4, .ok 2)] ∧
          plain.machine.outcome? L.target = some (.ok 12342) := by
  have hitems : ∀ s, .promise s ∈ Sample.mixed → s.index < Sample.twoQueues.cells.size ∧
      (Sample.twoQueues.home s).index < Sample.twoQueues.queues.size := fun s hs => by
    have hs : s = ⟨0⟩ ∨ s = ⟨1⟩ := by simpa [Sample.mixed, or_comm] using hs
    rcases hs with rfl | rfl <;> decide
  have hspared : ∀ item ∈ Sample.mixed,
      (Sample.twoQueues.roll ⟨0⟩ Sample.digits Sample.mixed).SparedItem item := fun item hitem => by
    cases item with
    | value | promise => trivial
    | deferred steps =>
      obtain rfl : steps = .pure (.ok 4) := by simpa [Sample.mixed] using hitem
      exact .pure _
  have hrest : (Sample.twoQueues.roll ⟨0⟩ Sample.digits Sample.mixed).Spared
      (Sample.resolving ⟨2⟩) :=
    .drain fun _ => .settle (fun hmem => absurd hmem.1 (by decide)) fun _ => .drain fun _ => .pure ()
  exact ⟨⟨hitems, Sample.spared_twoQueues, hspared, hrest⟩,
    ((Promise.gather_reports (by decide) hitems Sample.spared_twoQueues hspared).1
      Sample.resolving 9 hrest).2, by with_unfolding_all rfl, by with_unfolding_all rfl⟩

end EntityQuery
