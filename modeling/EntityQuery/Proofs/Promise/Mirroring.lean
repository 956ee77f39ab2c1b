import EntityQuery.Proofs.Promise.Lockstep
import EntityQuery.Proofs.Promise.Mirror
import EntityQuery.Proofs.Promise.Termination
import EntityQuery.Proofs.Promise.Requests

/-!
# Runs of steps that mirror each other

Two machines hold parts that stand for each other: promises with outcomes that are alike and reactions that
mirror each other, queues with tasks that do, lists with values that are alike. The first machine may hold other
things as well. Steps that mirror each other, run on such machines, leave such machines, and the first run
leaves alone what the pairing does not know.

* `Couples`: both runs end, or both end in a panic. **`Couples.bind`**: one after another.
* `Mirror.Sim`: machines whose parts stand for each other. The tasks of the main queues are left out.
* `Mirror.After`: what a run leaves; it spares other parts, and adds the same to the main queues.
  **`Mirror.After.trans`**: one run after another.
* One lemma for each request, such as `Mirror.Sim.append` and `Mirror.Sim.settle`.
* **`Mirror.Sim.ends_drain`**: two queues are drained alike.
* **`Mirrors.ends`**: steps that mirror each other end alike. **`Mirror.Sim.ends_drain_main`**: the main queues
  are drained alike, where nothing else is on them.
-/

namespace EntityQuery

variable {V W : Type} {α β γ δ : Type}

/-! ## Two runs -/

/-- With more reasons to be lax, a run ends all the more. -/
theorem EndsBy.weaken {H : Type} {halt : H → Halt} {lax lax' : Prop} {f : Nat → Ended V W α}
    {Q : α → Machine V W → Prop} (h : EndsBy halt lax f Q) (hlax : lax → lax') :
    EndsBy halt lax' f Q := by
  obtain ⟨N, hdone | ⟨hl, hhalted⟩⟩ := h
  · exact ⟨N, .inl hdone⟩
  · exact ⟨N, .inr ⟨hlax hl, hhalted⟩⟩

/-- Both runs end, with answers and machines that meet `Q`; or both end in a panic, if `halts`. -/
def Couples (halts : Prop) (f : Nat → Ended V W α) (f' : Nat → Ended V W β)
    (Q : α → Machine V W → β → Machine V W → Prop) : Prop :=
  Ends (halts ∧ Ends True f' fun _ _ => False) f fun a m => Ends False f' fun b m' => Q a m b m'

namespace Couples

variable {halts : Prop} {f : Nat → Ended V W α} {f' : Nat → Ended V W β}
  {g : Nat → Ended V W γ} {g' : Nat → Ended V W δ} {Q Q' : α → Machine V W → β → Machine V W → Prop}

theorem mono (h : Couples halts f f' Q) (hQ : ∀ a m b m', Q a m b m' → Q' a m b m') :
    Couples halts f f' Q' :=
  EndsBy.mono h fun a m hright => hright.mono fun b m' => hQ a m b m'

/-- **One after another**, on both sides; `t` and `u` say what becomes of the last answers. -/
theorem bind {α' β' : Type} {k : α → Machine V W → Nat → Ended V W α'}
    {k' : β → Machine V W → Nat → Ended V W β'} {t : α' → γ} {u : β' → δ}
    {R : γ → Machine V W → δ → Machine V W → Prop}
    (h : Couples halts f f' fun a m b m' =>
      Couples halts (k a m) (k' b m') fun c n d n' => R (t c) n (u d) n')
    (hg : ∀ {lax : Prop} {P : γ → Machine V W → Prop},
      (Ends lax f fun a m => Ends lax (k a m) fun c n => P (t c) n) → Ends lax g P)
    (hg' : ∀ {lax : Prop} {P : δ → Machine V W → Prop},
      (Ends lax f' fun b m => Ends lax (k' b m) fun d n => P (u d) n) → Ends lax g' P) :
    Couples halts g g' R := by
  refine hg ((EndsBy.weaken h fun ⟨hh, hp⟩ => ⟨hh, hg' (hp.mono fun _ _ => False.elim)⟩).mono
    fun a m hright => ?_)
  -- the second run has come as far, and both go on from there
  obtain ⟨N, ⟨b, m', hf', hk⟩ | ⟨hf, -⟩⟩ := hright
  · refine (EndsBy.weaken hk fun ⟨hh, hp⟩ => ⟨hh, hg' ⟨N, .inl ⟨b, m', hf', hp⟩⟩⟩).mono
      fun c n hright => hg' ⟨N, .inl ⟨b, m', hf', hright⟩⟩
  · exact hf.elim

/-- Runs that end as others do. -/
theorem map {Q : γ → Machine V W → δ → Machine V W → Prop} {f : Nat → Ended V W γ}
    {f' : Nat → Ended V W δ} (h : Couples halts f f' Q)
    (hg : ∀ {lax : Prop} {P : γ → Machine V W → Prop}, Ends lax f P → Ends lax g P)
    (hg' : ∀ {lax : Prop} {P : δ → Machine V W → Prop}, Ends lax f' P → Ends lax g' P) :
    Couples halts g g' Q :=
  hg ((EndsBy.weaken h fun ⟨hh, hp⟩ => ⟨hh, hg' hp⟩).mono fun _ _ => hg')

/-- What is known of the first run as well. -/
theorem and_left {P : α → Prop} (h : Couples halts f f' Q) (hP : ∀ limit a m, f limit = .done a m → P a) :
    Couples halts f f' fun a m b m' => P a ∧ Q a m b m' := by
  obtain ⟨N, ⟨a, m, hf, hright⟩ | hhalted⟩ := h
  · exact ⟨N, .inl ⟨a, m, hf, hright.mono fun _ _ hQ => ⟨hP N a m (hf N le_rfl), hQ⟩⟩⟩
  · exact ⟨N, .inr hhalted⟩

/-- The second one of the runs. -/
theorem right (h : Couples halts f f' Q) : Ends True f' fun b m' => ∃ a m, Q a m b m' := by
  obtain ⟨N, ⟨a, m, -, hright⟩ | ⟨⟨-, hhalted⟩, -⟩⟩ := h
  · exact EndsBy.mono (EndsBy.weaken hright False.elim) fun b m' hQ => ⟨a, m, hQ⟩
  · exact hhalted.mono fun _ _ => False.elim

/-- Runs of which neither ends in a panic. -/
theorem ends (h : Couples halts f f' Q) (hh : ¬halts) :
    Ends False f fun a m => Ends False f' fun b m' => Q a m b m' :=
  EndsBy.weaken h fun hl => hh hl.1

end Couples

/-- The same of steps. -/
abbrev Work.Couples (halts : Prop) (s : Work V W α) (s' : Work V W β) (m m' : Machine V W)
    (Q : α → Machine V W → β → Machine V W → Prop) : Prop :=
  EntityQuery.Couples halts (fun limit => m.run limit s) (fun limit => m'.run limit s') Q

theorem Work.Couples.bind {halts : Prop} {s : Work V W α} {s' : Work V W β} {m m' : Machine V W}
    {k : α → Work V W γ} {k' : β → Work V W δ} {R : γ → Machine V W → δ → Machine V W → Prop}
    (h : Work.Couples halts s s' m m' fun a n b n' => Work.Couples halts (k a) (k' b) n n' R) :
    Work.Couples halts (s.bind k) (s'.bind k') m m' R :=
  EntityQuery.Couples.bind (t := id) (u := id) h (fun h => Work.EndsBy.bind h)
    fun h => Work.EndsBy.bind h

theorem Work.couples_pure {halts : Prop} {a : α} {b : β} {m m' : Machine V W}
    {Q : α → Machine V W → β → Machine V W → Prop} (h : Q a m b m') :
    Work.Couples halts (.pure a) (.pure b) m m' Q :=
  Work.ends_pure (Work.ends_pure h)

namespace Machine

variable {m m₂ : Machine V W}

/-! ## What promises and queues nobody uses leave as it is -/

/-- A machine with more promises and queues, and perhaps another world; the new promises and queues are empty. -/
structure Littered (m m₂ : Machine V W) : Prop where
  cells_le : m.cells.size ≤ m₂.cells.size
  queues_le : m.queues.size ≤ m₂.queues.size
  cells : ∀ {i : Nat}, i < m.cells.size → m₂.cells[i]? = m.cells[i]?
  tasks : ∀ q, m₂.tasks q = m.tasks q
  gathers : m₂.gathers = m.gathers
  load : m₂.load = m.load

theorem Littered.refl (m : Machine V W) : m.Littered m :=
  ⟨le_rfl, le_rfl, fun _ => rfl, fun _ => rfl, rfl, rfl⟩

theorem Littered.trans {m₃ : Machine V W} (h : m.Littered m₂) (h' : m₂.Littered m₃) : m.Littered m₃ :=
  ⟨h.cells_le.trans h'.cells_le, h.queues_le.trans h'.queues_le,
    fun hi => (h'.cells (hi.trans_le h.cells_le)).trans (h.cells hi),
    fun q => (h'.tasks q).trans (h.tasks q), h'.gathers.trans h.gathers, h'.load.trans h.load⟩

theorem littered_newQueue (m : Machine V W) : m.Littered m.newQueue.2 :=
  ⟨le_rfl, by simp [newQueue], fun _ => rfl, fun q => tasks_newQueue q, rfl, by simp [load]⟩

theorem littered_newPromise (m : Machine V W) (q : QueueId) : m.Littered (m.newPromise q).2 :=
  ⟨by simp [newPromise], le_rfl,
    fun hi => by simp [newPromise, Array.getElem?_push, Nat.ne_of_lt hi],
    fun _ => rfl, rfl, by simp [load]⟩

theorem littered_setWorld (m : Machine V W) (w : W) : m.Littered { m with world := w } :=
  ⟨le_rfl, le_rfl, fun _ => rfl, fun _ => rfl, rfl, by simp [load]⟩

end Machine

open Machine

/-- **Steps that drift** leave litter and another world, and then go on. -/
theorem Steps.Drifts.exists_littered {w v : W} {s t : Work V W α} (h : Steps.Drifts w s v t)
    {m : Machine V W} (hw : m.world = w) :
    ∃ m₁ : Machine V W, m.Littered m₁ ∧ m₁.world = v ∧
      ∀ {lax : Prop} {Q : α → Machine V W → Prop}, Work.Ends lax t m₁ Q → Work.Ends lax s m Q := by
  induction h generalizing m with
  | here => exact ⟨m, .refl m, hw, id⟩
  | getWorld _ ih =>
    obtain ⟨m₁, hm, hv, ht⟩ := ih hw
    exact ⟨m₁, hm, hv, fun hQ => Work.ends_getWorld.mpr (hw ▸ ht hQ)⟩
  | @setWorld _ u _ _ _ _ ih =>
    obtain ⟨m₁, hm, hv, ht⟩ := ih (m := { m with world := u }) rfl
    exact ⟨m₁, (m.littered_setWorld u).trans hm, hv, fun hQ => Work.ends_setWorld.mpr (ht hQ)⟩
  | newQueue _ ih =>
    obtain ⟨m₁, hm, hv, ht⟩ := ih m.newQueue.1 (m := m.newQueue.2) hw
    exact ⟨m₁, m.littered_newQueue.trans hm, hv, fun hQ => Work.ends_newQueue.mpr (ht hQ)⟩
  | @newPromise _ _ q _ _ _ ih =>
    obtain ⟨m₁, hm, hv, ht⟩ := ih (m.newPromise q).1 (m := (m.newPromise q).2) hw
    exact ⟨m₁, (m.littered_newPromise q).trans hm, hv, fun hQ => Work.ends_newPromise.mpr (ht hQ)⟩

/-- What is put off after drifting was put off before. -/
theorem Steps.Drifts.pieces_subset {w v : W} {s t : Work V W α} (h : Steps.Drifts w s v t) :
    t.pieces ⊆ s.pieces := by
  induction h with
  | here => exact subset_rfl
  | getWorld _ ih => exact ih.trans (Set.subset_iUnion (fun w => Steps.pieces _) _)
  | setWorld _ ih => exact ih
  | newQueue _ ih => exact (ih ⟨0⟩).trans (Set.subset_iUnion (fun q => Steps.pieces _) _)
  | newPromise _ ih => exact (ih ⟨0⟩).trans (Set.subset_iUnion (fun p => Steps.pieces _) _)

namespace Mirror

variable (L : Mirror V W)

/-! ## Machines whose parts stand for each other -/

/-- A promise that stands for another one. -/
structure Promises (Γ : Pairing) (m m' : Machine V W) (p p' : Promise) : Prop where
  lt : p.index < m.cells.size
  lt' : p'.index < m'.cells.size
  home : Γ.queue (m.home p) (m'.home p')
  outcome : Option.Rel L.Outcomes (m.outcome? p) (m'.outcome? p')
  reactions : List.Forall₂ (L.Reactions Γ) (m.reactions p) (m'.reactions p')

/-- A queue that stands for another one. -/
structure Queues (Γ : Pairing) (m m' : Machine V W) (q q' : QueueId) : Prop where
  lt : q.index < m.queues.size
  lt' : q'.index < m'.queues.size
  tasks : q ≠ L.queue → List.Forall₂ (L.Jobs Γ) (m.tasks q) (m'.tasks q')

/-- A list that stands for another one. -/
structure Gathers (c c' : Gather V) : Prop where
  slots : List.Forall₂ (Option.Rel L.value) c.slots c'.slots
  remaining : c.remaining = c'.remaining

/-- The parts of two machines that stand for each other, by a pairing that is one to one. -/
structure Sim (Γ : Pairing) (m m' : Machine V W) : Prop where
  main : Γ.queue L.queue L.queue'
  promise_iff : ∀ {p p' r r'}, Γ.promise p p' → Γ.promise r r' → (p = r ↔ p' = r')
  queue_iff : ∀ {q q' r r'}, Γ.queue q q' → Γ.queue r r' → (q = r ↔ q' = r')
  gather_iff : ∀ {g g' r r'}, Γ.gather g g' → Γ.gather r r' → (g = r ↔ g' = r')
  promise : ∀ {p p'}, Γ.promise p p' → L.Promises Γ m m' p p'
  homed : ∀ {p q}, Γ.homed p q → (∃ p', Γ.promise p p') ∧ m.home p = q
  queue : ∀ {q q'}, Γ.queue q q' → L.Queues Γ m m' q q'
  gather : ∀ {g g'}, Γ.gather g g' → ∃ c c', m.gathers[g.index]? = some c ∧
    m'.gathers[g'.index]? = some c' ∧ L.Gathers c c'
  world : L.world m.world m'.world

/-- A run on the first machine leaves alone what the pairing does not know, and pairs nothing of it later. -/
structure Spares (Γ : Pairing) (m : Machine V W) (Γ₂ : Pairing) (m₂ : Machine V W) : Prop where
  cells_le : m.cells.size ≤ m₂.cells.size
  queues_le : m.queues.size ≤ m₂.queues.size
  gathers_le : m.gathers.size ≤ m₂.gathers.size
  cells : ∀ {p : Promise}, p.index < m.cells.size → (∀ p', ¬Γ.promise p p') →
    m₂.cells[p.index]? = m.cells[p.index]?
  tasks : ∀ {q : QueueId}, q.index < m.queues.size → (∀ q', ¬Γ.queue q q') → m₂.tasks q = m.tasks q
  gathers : ∀ {g : GatherId}, g.index < m.gathers.size → (∀ g', ¬Γ.gather g g') →
    m₂.gathers[g.index]? = m.gathers[g.index]?
  promise_new : ∀ {p p'}, Γ₂.promise p p' → Γ.promise p p' ∨ m.cells.size ≤ p.index
  queue_new : ∀ {q q'}, Γ₂.queue q q' → Γ.queue q q' ∨ m.queues.size ≤ q.index
  gather_new : ∀ {g g'}, Γ₂.gather g g' → Γ.gather g g' ∨ m.gathers.size ≤ g.index
  world : L.frame m.world m₂.world

/-- What two runs leave: machines whose parts stand for each other. The outcomes of the second machine are kept,
and the same has been added to both main queues. -/
structure After (Γ : Pairing) (m m' : Machine V W) (Γ₂ : Pairing) (m₂ m₂' : Machine V W) : Prop where
  le : Γ ≤ Γ₂
  sim : L.Sim Γ₂ m₂ m₂'
  spares : L.Spares Γ m Γ₂ m₂
  kept : ∀ {p' o}, m'.outcome? p' = some o → m₂'.outcome? p' = some o
  main : ∃ ts ts', m₂.tasks L.queue = m.tasks L.queue ++ ts ∧
    m₂'.tasks L.queue' = m'.tasks L.queue' ++ ts' ∧ List.Forall₂ (L.Jobs Γ₂) ts ts'

variable {L} {Γ Γ₁ Γ₂ : Pairing} {m m' m₁ m₁' m₂ m₂' : Machine V W}

theorem Jobs.mono {j j' : Job V W} (h : L.Jobs Γ j j') (hΓ : Γ ≤ Γ₂) : L.Jobs Γ₂ j j' :=
  Mirrors.mono h (grows_fixed _) hΓ

theorem Promises.of_cells {p p' : Promise} (h : L.Promises Γ m m' p p') (hΓ : Γ ≤ Γ₂)
    (hc : m₂.cells[p.index]? = m.cells[p.index]?)
    (hc' : m₂'.cells[p'.index]? = m'.cells[p'.index]?) : L.Promises Γ₂ m₂ m₂' p p' := by
  have lt_of : ∀ {i : Nat} {n n₂ : Machine V W}, n₂.cells[i]? = n.cells[i]? → i < n.cells.size →
      i < n₂.cells.size := fun {i n n₂} he hi => by
    by_contra hge
    rw [Array.getElem?_eq_none (Nat.le_of_not_lt hge), Array.getElem?_eq_getElem hi] at he
    cases he
  refine ⟨lt_of hc h.lt, lt_of hc' h.lt', ?_, ?_, ?_⟩
  · unfold Machine.home
    rw [hc, hc']
    exact hΓ.queue h.home
  · unfold Machine.outcome?
    rw [hc, hc']
    exact h.outcome
  · unfold Machine.reactions
    rw [hc, hc']
    exact h.reactions.imp fun r r' hr o o' ho => (hr o o' ho).mono hΓ

theorem Queues.of_tasks {q q' : QueueId} (h : L.Queues Γ m m' q q') (hΓ : Γ ≤ Γ₂)
    (hlt : m.queues.size ≤ m₂.queues.size) (hlt' : m'.queues.size ≤ m₂'.queues.size)
    (ht : m₂.tasks q = m.tasks q) (ht' : m₂'.tasks q' = m'.tasks q') : L.Queues Γ₂ m₂ m₂' q q' :=
  ⟨h.lt.trans_le hlt, h.lt'.trans_le hlt', fun hne => by
    rw [ht, ht']
    exact (h.tasks hne).imp fun _ _ hj => hj.mono hΓ⟩

theorem Promises.open_iff {p p' : Promise} (h : L.Promises Γ m m' p p') : m.Open p ↔ m'.Open p' := by
  have ho := h.outcome
  unfold Machine.Open
  rcases rel_cases ho with ⟨hn, hn'⟩ | ⟨o, o', hs, hs', -⟩
  · simp [hn, hn', h.lt, h.lt']
  · simp [hs, hs']

/-! ## One run after another -/

theorem Spares.refl (Γ : Pairing) (m : Machine V W) : L.Spares Γ m Γ m :=
  ⟨le_rfl, le_rfl, le_rfl, fun _ _ => rfl, fun _ _ => rfl, fun _ _ => rfl, .inl, .inl, .inl,
    L.frame_refl _⟩

theorem Spares.trans (h : L.Spares Γ m Γ₁ m₁) (h' : L.Spares Γ₁ m₁ Γ₂ m₂) : L.Spares Γ m Γ₂ m₂ where
  cells_le := h.cells_le.trans h'.cells_le
  queues_le := h.queues_le.trans h'.queues_le
  gathers_le := h.gathers_le.trans h'.gathers_le
  cells hp hn := (h'.cells (hp.trans_le h.cells_le) fun p' hp' =>
    (h.promise_new hp').elim (hn p') (Nat.not_le.mpr hp)).trans (h.cells hp hn)
  tasks hq hn := (h'.tasks (hq.trans_le h.queues_le) fun q' hq' =>
    (h.queue_new hq').elim (hn q') (Nat.not_le.mpr hq)).trans (h.tasks hq hn)
  gathers hg hn := (h'.gathers (hg.trans_le h.gathers_le) fun g' hg' =>
    (h.gather_new hg').elim (hn g') (Nat.not_le.mpr hg)).trans (h.gathers hg hn)
  promise_new hp := (h'.promise_new hp).elim h.promise_new fun hle => .inr (h.cells_le.trans hle)
  queue_new hq := (h'.queue_new hq).elim h.queue_new fun hle => .inr (h.queues_le.trans hle)
  gather_new hg := (h'.gather_new hg).elim h.gather_new fun hle => .inr (h.gathers_le.trans hle)
  world := L.frame_trans h.world h'.world

theorem After.refl (h : L.Sim Γ m m') : L.After Γ m m' Γ m m' :=
  ⟨le_rfl, h, .refl Γ m, id, [], [], by simp, by simp, .nil⟩

/-- **One run after another.** -/
theorem After.trans (h : L.After Γ m m' Γ₁ m₁ m₁') (h' : L.After Γ₁ m₁ m₁' Γ₂ m₂ m₂') :
    L.After Γ m m' Γ₂ m₂ m₂' := by
  obtain ⟨ts, ts', ht, ht', hts⟩ := h.main
  obtain ⟨us, us', hu, hu', hus⟩ := h'.main
  refine ⟨h.le.trans h'.le, h'.sim, h.spares.trans h'.spares, fun ho => h'.kept (h.kept ho),
    ts ++ us, ts' ++ us', by rw [hu, ht, List.append_assoc], by rw [hu', ht', List.append_assoc], ?_⟩
  exact List.rel_append (hts.imp fun _ _ hj => hj.mono h'.le) hus

/-! ## Requests -/

section

variable (h : L.Sim Γ m m')

include h

/-- Litter beside parts that stand for each other, in worlds that go on to be alike. -/
theorem Sim.littered (hm : m.Littered m₂) (hm' : m'.Littered m₂') (hw : L.world m₂.world m₂'.world) :
    L.Sim Γ m₂ m₂' :=
  { h with
    promise := fun hp => (h.promise hp).of_cells le_rfl (hm.cells (h.promise hp).lt)
      (hm'.cells (h.promise hp).lt')
    homed := fun {p q} hh => by
      obtain ⟨⟨p', hp⟩, he⟩ := h.homed hh
      refine ⟨⟨p', hp⟩, ?_⟩
      unfold Machine.home at he ⊢
      rw [hm.cells (h.promise hp).lt, he]
    queue := fun hq => (h.queue hq).of_tasks le_rfl hm.queues_le hm'.queues_le (hm.tasks _)
      (hm'.tasks _)
    gather := fun hg => by
      rw [hm.gathers, hm'.gathers]
      exact h.gather hg
    world := hw }

/-- What a run does that leaves only litter. -/
theorem Sim.litter (hm : m.Littered m₂) (hm' : m'.Littered m₂') (hw : L.world m₂.world m₂'.world)
    (hf : L.frame m.world m₂.world) : L.After Γ m m' Γ m₂ m₂' where
  le := le_rfl
  sim := h.littered hm hm' hw
  spares := ⟨hm.cells_le, hm.queues_le, by rw [hm.gathers], fun hlt _ => hm.cells hlt,
    fun _ _ => hm.tasks _, fun _ _ => by rw [hm.gathers], .inl, .inl, .inl, hf⟩
  kept := fun {p' o} ho => by
    unfold Machine.outcome? at ho ⊢
    by_cases hlt : p'.index < m'.cells.size
    · rw [hm'.cells hlt, ho]
    · rw [Array.getElem?_eq_none (Nat.le_of_not_lt hlt)] at ho
      cases ho
  main := ⟨[], [], by simp [hm.tasks], by simp [hm'.tasks], .nil⟩

/-- New queues stand for each other. -/
theorem Sim.newQueue : ∃ Γ₂, L.After Γ m m' Γ₂ m.newQueue.2 m'.newQueue.2 ∧
    Γ₂.queue m.newQueue.1 m'.newQueue.1 ∧ m.newQueue.1 ≠ L.queue := by
  have hold : ∀ {q q'}, Γ.queue q q' → q ≠ m.newQueue.1 ∧ q' ≠ m'.newQueue.1 := fun hq =>
    ⟨fun he => absurd (h.queue hq).lt (by simp [he, Machine.newQueue]),
      fun he => absurd (h.queue hq).lt' (by simp [he, Machine.newQueue])⟩
  have hle : Γ ≤ { Γ with
      queue := fun q q' => Γ.queue q q' ∨ q = m.newQueue.1 ∧ q' = m'.newQueue.1 } :=
    ⟨id, .inl, id, id⟩
  have hs := m.littered_newQueue
  have hs' := m'.littered_newQueue
  refine ⟨_, ⟨hle, ⟨.inl h.main, h.promise_iff, ?_, h.gather_iff, ?_, h.homed, ?_, h.gather, h.world⟩,
    ⟨hs.cells_le, hs.queues_le, le_rfl, fun _ _ => rfl, fun _ _ => hs.tasks _, fun _ _ => rfl,
      .inl, ?_, .inl, L.frame_refl _⟩, fun ho => ho, [], [], by simp [hs.tasks], by simp [hs'.tasks], .nil⟩,
    .inr ⟨rfl, rfl⟩, (hold h.main).1.symm⟩
  · rintro q q' r r' (hq | ⟨rfl, rfl⟩) (hr | ⟨rfl, rfl⟩)
    · exact h.queue_iff hq hr
    · exact iff_of_false (hold hq).1 (hold hq).2
    · exact iff_of_false (hold hr).1.symm (hold hr).2.symm
    · exact iff_of_true rfl rfl
  · exact fun hp => (h.promise hp).of_cells hle rfl rfl
  · rintro q q' (hq | ⟨rfl, rfl⟩)
    · exact (h.queue hq).of_tasks hle hs.queues_le hs'.queues_le (hs.tasks _) (hs'.tasks _)
    · refine ⟨by simp [Machine.newQueue], by simp [Machine.newQueue], fun _ => ?_⟩
      rw [hs.tasks, hs'.tasks]
      simp [Machine.tasks, Machine.queue, Machine.newQueue]
  · rintro q q' (hq | ⟨rfl, rfl⟩)
    · exact .inl hq
    · exact .inr le_rfl

/-- New promises of queues that stand for each other do so as well. -/
theorem Sim.newPromise {q q' : QueueId} (hq : Γ.queue q q') :
    ∃ Γ₂, L.After Γ m m' Γ₂ (m.newPromise q).2 (m'.newPromise q').2 ∧
      Γ₂.promise (m.newPromise q).1 (m'.newPromise q').1 := by
  have hold : ∀ {p p'}, Γ.promise p p' → p ≠ (m.newPromise q).1 ∧ p' ≠ (m'.newPromise q').1 :=
    fun hp => ⟨fun he => absurd (h.promise hp).lt (by simp [he, Machine.newPromise]),
      fun he => absurd (h.promise hp).lt' (by simp [he, Machine.newPromise])⟩
  have hle : Γ ≤ { Γ with
      promise := fun p p' => Γ.promise p p' ∨ p = (m.newPromise q).1 ∧ p' = (m'.newPromise q').1 } :=
    ⟨.inl, id, id, id⟩
  have hs := m.littered_newPromise q
  have hs' := m'.littered_newPromise q'
  refine ⟨_, ⟨hle, ⟨h.main, ?_, h.queue_iff, h.gather_iff, ?_, ?_, ?_, h.gather, h.world⟩,
    ⟨hs.cells_le, le_rfl, le_rfl, fun hlt _ => hs.cells hlt, fun _ _ => rfl, fun _ _ => rfl,
      ?_, .inl, .inl, L.frame_refl _⟩, fun ho => by rwa [outcome?_newPromise], [], [], by simp, by simp, .nil⟩,
    .inr ⟨rfl, rfl⟩⟩
  · rintro p p' r r' (hp | ⟨rfl, rfl⟩) (hr | ⟨rfl, rfl⟩)
    · exact h.promise_iff hp hr
    · exact iff_of_false (hold hp).1 (hold hp).2
    · exact iff_of_false (hold hr).1.symm (hold hr).2.symm
    · exact iff_of_true rfl rfl
  · rintro p p' (hp | ⟨rfl, rfl⟩)
    · exact (h.promise hp).of_cells hle (hs.cells (h.promise hp).lt) (hs'.cells (h.promise hp).lt')
    · refine ⟨by simp [Machine.newPromise], by simp [Machine.newPromise], ?_, ?_, ?_⟩
      · simpa only [home_newPromise_self] using hq
      · simp [Machine.outcome?, Machine.newPromise]
      · simp [Machine.reactions, Machine.newPromise]
  · intro p r hh
    obtain ⟨⟨p', hp⟩, he⟩ := h.homed hh
    exact ⟨⟨p', .inl hp⟩, (home_newPromise q (h.promise hp).lt).trans he⟩
  · exact fun hr => (h.queue hr).of_tasks hle le_rfl le_rfl rfl rfl
  · rintro p p' (hp | ⟨rfl, rfl⟩)
    · exact .inl hp
    · exact .inr le_rfl

/-- New lists stand for each other. -/
theorem Sim.newGather (size : Nat) :
    ∃ Γ₂, L.After Γ m m' Γ₂ (m.newGather size).2 (m'.newGather size).2 ∧
      Γ₂.gather (m.newGather size).1 (m'.newGather size).1 := by
  have hlt : ∀ {g g'}, Γ.gather g g' → g.index < m.gathers.size ∧ g'.index < m'.gathers.size :=
    fun hg => by
      obtain ⟨c, c', hc, hc', -⟩ := h.gather hg
      exact ⟨(Array.getElem?_eq_some_iff.mp hc).1, (Array.getElem?_eq_some_iff.mp hc').1⟩
  have hold : ∀ {g g'}, Γ.gather g g' → g ≠ (m.newGather size).1 ∧ g' ≠ (m'.newGather size).1 :=
    fun hg => ⟨fun he => absurd (hlt hg).1 (by simp [he, Machine.newGather]),
      fun he => absurd (hlt hg).2 (by simp [he, Machine.newGather])⟩
  have hle : Γ ≤ { Γ with
      gather := fun g g' => Γ.gather g g' ∨ g = (m.newGather size).1 ∧ g' = (m'.newGather size).1 } :=
    ⟨id, id, .inl, id⟩
  refine ⟨_, ⟨hle, ⟨h.main, h.promise_iff, h.queue_iff, ?_, ?_, h.homed, ?_, ?_, h.world⟩,
    ⟨le_rfl, le_rfl, by simp [Machine.newGather], fun _ _ => rfl, fun _ _ => rfl,
      fun hg _ => getElem?_gathers_newGather size hg, .inl, .inl, ?_, L.frame_refl _⟩,
      fun ho => ho, [], [], by simp [Machine.newGather, Machine.tasks, Machine.queue],
      by simp [Machine.newGather, Machine.tasks, Machine.queue], .nil⟩,
    .inr ⟨rfl, rfl⟩⟩
  · rintro g g' r r' (hg | ⟨rfl, rfl⟩) (hr | ⟨rfl, rfl⟩)
    · exact h.gather_iff hg hr
    · exact iff_of_false (hold hg).1 (hold hg).2
    · exact iff_of_false (hold hr).1.symm (hold hr).2.symm
    · exact iff_of_true rfl rfl
  · exact fun hp => (h.promise hp).of_cells hle rfl rfl
  · exact fun hq => (h.queue hq).of_tasks hle le_rfl le_rfl rfl rfl
  · rintro g g' (hg | ⟨rfl, rfl⟩)
    · rw [getElem?_gathers_newGather size (hlt hg).1, getElem?_gathers_newGather size (hlt hg).2]
      exact h.gather hg
    · refine ⟨.ofSize size, .ofSize size, by simp [Machine.newGather], by simp [Machine.newGather], ?_, rfl⟩
      exact List.forall₂_same.mpr fun o ho => by
        rw [List.eq_of_mem_replicate ho]
        exact .none
  · rintro g g' (hg | ⟨rfl, rfl⟩)
    · exact .inl hg
    · exact .inr le_rfl

/-- The queue of a promise is known from now on. -/
theorem Sim.home {p p' : Promise} (hp : Γ.promise p p') :
    ∃ Γ₂, L.After Γ m m' Γ₂ m m' ∧ Γ₂.homed p (m.home p) := by
  have hle : Γ ≤ { Γ with homed := fun r q => Γ.homed r q ∨ r = p ∧ q = m.home p } :=
    ⟨id, id, id, .inl⟩
  refine ⟨_, ⟨hle, ⟨h.main, h.promise_iff, h.queue_iff, h.gather_iff, ?_, ?_, ?_, h.gather, h.world⟩,
    ⟨le_rfl, le_rfl, le_rfl, fun _ _ => rfl, fun _ _ => rfl, fun _ _ => rfl, .inl, .inl, .inl,
      L.frame_refl _⟩, id, [], [], by simp, by simp, .nil⟩, .inr ⟨rfl, rfl⟩⟩
  · exact fun hr => (h.promise hr).of_cells hle rfl rfl
  · rintro r q (hh | ⟨rfl, rfl⟩)
    · exact h.homed hh
    · exact ⟨⟨p', hp⟩, rfl⟩
  · exact fun hq => (h.queue hq).of_tasks hle le_rfl le_rfl rfl rfl

/-- Tasks at the end of queues that stand for each other. -/
theorem Sim.append {q q' : QueueId} (hq : Γ.queue q q') {ts ts' : List (Job V W)}
    (hts : List.Forall₂ (L.Jobs Γ) ts ts') : L.After Γ m m' Γ (m.append q ts) (m'.append q' ts') := by
  have hlt := (h.queue hq).lt
  have hlt' := (h.queue hq).lt'
  have hsize : (m.append q ts).queues.size = m.queues.size := by simp [Machine.append]
  have hsize' : (m'.append q' ts').queues.size = m'.queues.size := by simp [Machine.append]
  have htasks : ∀ {r r'}, Γ.queue r r' →
      (r = q ∧ (m.append q ts).tasks r = m.tasks r ++ ts ∧
        (m'.append q' ts').tasks r' = m'.tasks r' ++ ts') ∨
      (m.append q ts).tasks r = m.tasks r ∧ (m'.append q' ts').tasks r' = m'.tasks r' := by
    intro r r' hr
    rw [tasks_append, tasks_append]
    by_cases he : r = q
    · obtain rfl := he
      obtain rfl := (h.queue_iff hr hq).mp rfl
      exact .inl ⟨rfl, by simp [hlt], by simp [hlt']⟩
    · have he' : r' ≠ q' := fun hr' => he ((h.queue_iff hr hq).mpr hr')
      exact .inr ⟨by simp [he], by simp [he']⟩
  refine ⟨le_rfl, { h with promise := ?_, queue := ?_ },
    ⟨le_rfl, hsize.ge, le_rfl, fun _ _ => rfl, ?_, fun _ _ => rfl, .inl, .inl, .inl, L.frame_refl _⟩,
    fun ho => ho, ?_⟩
  · exact fun hp => (h.promise hp).of_cells le_rfl rfl rfl
  · intro r r' hr
    refine ⟨hsize ▸ (h.queue hr).lt, hsize' ▸ (h.queue hr).lt', fun hne => ?_⟩
    have hold := (h.queue hr).tasks hne
    rcases htasks hr with ⟨-, ht, ht'⟩ | ⟨ht, ht'⟩
    · rw [ht, ht']
      exact List.rel_append hold hts
    · rw [ht, ht']
      exact hold
  · intro r _ hn
    rw [tasks_append, if_neg]
    rintro ⟨rfl, -⟩
    exact hn q' hq
  · rcases htasks h.main with ⟨-, ht, ht'⟩ | ⟨ht, ht'⟩
    · exact ⟨ts, ts', ht, ht', hts⟩
    · exact ⟨[], [], by simp [ht], by simp [ht'], .nil⟩

/-- Other states of pending promises that stand for each other. -/
theorem Sim.setCell {p p' : Promise} (hp : Γ.promise p p') (hopen : m'.Open p')
    {o o' : Option (Outcome V)} (ho : Option.Rel L.Outcomes o o')
    {rs rs' : List (Outcome V → Job V W)} (hrs : List.Forall₂ (L.Reactions Γ) rs rs') :
    L.After Γ m m' Γ { m with cells := m.cells.set! p.index ⟨m.home p, o, rs⟩ }
      { m' with cells := m'.cells.set! p'.index ⟨m'.home p', o', rs'⟩ } := by
  have hpp := h.promise hp
  have hsize : ∀ (n : Machine V W) (r : Promise) (c : Cell V W),
      (n.cells.set! r.index c).size = n.cells.size := fun n r c => by
    simp [Array.set!_eq_setIfInBounds]
  refine ⟨le_rfl, { h with promise := ?_, homed := ?_, queue := ?_ },
    ⟨(hsize _ _ _).ge, le_rfl, le_rfl, ?_, fun _ _ => rfl, fun _ _ => rfl, .inl, .inl, .inl,
      L.frame_refl _⟩, ?_, [], [], (List.append_nil _).symm, (List.append_nil _).symm, .nil⟩
  · intro r r' hr
    by_cases he : r = p
    · obtain rfl := he
      obtain rfl := (h.promise_iff hr hp).mp rfl
      refine ⟨(hsize _ _ _).symm ▸ hpp.lt, (hsize _ _ _).symm ▸ hpp.lt', ?_, ?_, ?_⟩
      · simpa only [home_setCell, hpp.lt, hpp.lt', and_self, if_true] using hpp.home
      · simpa only [outcome?_setCell, hpp.lt, hpp.lt', and_self, if_true] using ho
      · simpa only [reactions_setCell, hpp.lt, hpp.lt', and_self, if_true] using hrs
    · have he' : r' ≠ p' := fun hr' => he ((h.promise_iff hr hp).mpr hr')
      refine (h.promise hr).of_cells le_rfl ?_ ?_
      · simp only [getElem?_setCell, he, false_and, if_false]
      · simp only [getElem?_setCell, he', false_and, if_false]
  · intro r q hh
    obtain ⟨hr, he⟩ := h.homed hh
    refine ⟨hr, ?_⟩
    rw [home_setCell]
    split
    · next hrp => exact (congrArg m.home hrp.1).symm.trans he
    · exact he
  · exact fun hq => (h.queue hq).of_tasks le_rfl le_rfl le_rfl rfl rfl
  · intro r _ hn
    rw [getElem?_setCell, if_neg]
    rintro ⟨rfl, -⟩
    exact hn p' hp
  · intro r' u hu
    rw [outcome?_setCell, if_neg]
    · exact hu
    · rintro ⟨rfl, -⟩
      rw [hopen.2] at hu
      cases hu

/-- **Settling promises that stand for each other.** -/
theorem Sim.settle {p p' : Promise} (hp : Γ.promise p p') {o o' : Outcome V} (ho : L.Outcomes o o') :
    (m.settle p o).1 = (m'.settle p' o').1 ∧
      L.After Γ m m' Γ (m.settle p o).2 (m'.settle p' o').2 := by
  have hpp := h.promise hp
  by_cases hopen : m.Open p
  · have hopen' := hpp.open_iff.mp hopen
    rw [settle_of_open hopen, settle_of_open hopen']
    have hset := h.setCell hp hopen' (.some ho) .nil
    refine ⟨rfl, hset.trans (hset.sim.append hpp.home ?_)⟩
    rw [List.forall₂_map_left_iff, List.forall₂_map_right_iff]
    exact hpp.reactions.imp fun _ _ hr => hr o o' ho
  · have hopen' := mt hpp.open_iff.mpr hopen
    rw [settle_of_not_open hopen, settle_of_not_open hopen']
    exact ⟨rfl, .refl h⟩

/-- Subscribing to promises that stand for each other. -/
theorem Sim.subscribe {p p' : Promise} (hp : Γ.promise p p') {r r' : Outcome V → Job V W}
    (hr : L.Reactions Γ r r') : L.After Γ m m' Γ (m.subscribe p r) (m'.subscribe p' r') := by
  have hpp := h.promise hp
  rcases rel_cases hpp.outcome with ⟨hn, hn'⟩ | ⟨o, o', hs, hs', ho⟩
  · rw [subscribe_of_open ⟨hpp.lt, hn⟩, subscribe_of_open ⟨hpp.lt', hn'⟩]
    exact h.setCell hp ⟨hpp.lt', hn'⟩ .none (List.rel_append hpp.reactions (.cons hr .nil))
  · rw [subscribe_of_settled hs, subscribe_of_settled hs']
    exact h.append hpp.home (.cons (hr o o' ho) .nil)

/-- Filling slots of lists that stand for each other. -/
theorem Sim.fill {g g' : GatherId} (hg : Γ.gather g g') (slot : Nat) {v v' : V} (hv : L.value v v') :
    Option.Rel (List.Forall₂ L.value) (m.fill g slot v).1 (m'.fill g' slot v').1 ∧
      L.After Γ m m' Γ (m.fill g slot v).2 (m'.fill g' slot v').2 := by
  obtain ⟨c, c', hc, hc', hcc⟩ := h.gather hg
  have hslots : List.Forall₂ (Option.Rel L.value) (c.fill slot v).slots (c'.fill slot v').slots :=
    forall₂_set hcc.slots slot (.some hv)
  have hremaining : (c.fill slot v).remaining = (c'.fill slot v').remaining :=
    congrArg (· - 1) hcc.remaining
  constructor
  · rw [fill_eq slot v hc, fill_eq slot v' hc']
    simp only [Gather.values?, ← hremaining]
    split
    · exact .some (List.rel_filterMap (fun _ _ ho => ho) hslots)
    · exact .none
  · refine ⟨le_rfl, { h with promise := ?_, homed := ?_, queue := ?_, gather := ?_, world := ?_ },
      ⟨by simp, by simp, by simp, ?_, fun _ _ => tasks_fill g slot v _, ?_, .inl, .inl, .inl, ?_⟩,
      ?_, [], [], by simp, by simp, .nil⟩
    · exact fun hp => (h.promise hp).of_cells le_rfl (by simp) (by simp)
    · intro p q hh
      simpa using h.homed hh
    · exact fun hq => (h.queue hq).of_tasks le_rfl (by simp) (by simp) (by simp) (by simp)
    · intro r r' hr
      by_cases he : r = g
      · obtain rfl := he
        obtain rfl := (h.gather_iff hr hg).mp rfl
        exact ⟨_, _, getElem?_gathers_fill_self slot v hc, getElem?_gathers_fill_self slot v' hc',
          hslots, hremaining⟩
      · have he' : r' ≠ g' := fun hr' => he ((h.gather_iff hr hg).mpr hr')
        rw [getElem?_gathers_fill_of_ne slot v he, getElem?_gathers_fill_of_ne slot v' he']
        exact h.gather hr
    · rw [fill_eq slot v hc, fill_eq slot v' hc']
      exact h.world
    · intro p _ _
      simp
    · intro r _ hn
      exact getElem?_gathers_fill_of_ne slot v fun he => hn g' (he ▸ hg)
    · rw [fill_eq slot v hc]
      exact L.frame_refl _
    · intro p' o ho
      simpa using ho

/-- Taking the oldest tasks of queues that stand for each other. -/
theorem Sim.pop {q q' : QueueId} (hq : Γ.queue q q') {j j' : Job V W}
    (hpop : m.pop? q = some (j, m₁)) (hpop' : m'.pop? q' = some (j', m₁')) :
    L.Sim Γ m₁ m₁' ∧ L.Spares Γ m Γ m₁ := by
  obtain ⟨ht, hother, hc, hg, hn⟩ := tasks_pop? hpop
  obtain ⟨ht', hother', hc', hg', hn'⟩ := tasks_pop? hpop'
  have hw := (ticks_pop? hpop).2.2
  have hw' := (ticks_pop? hpop').2.2
  refine ⟨{ h with promise := ?_, homed := ?_, queue := ?_, gather := ?_, world := ?_ },
    ⟨hc ▸ le_rfl, hn.ge, hg ▸ le_rfl, fun _ _ => by rw [hc], ?_, fun _ _ => by rw [hg], .inl, .inl,
      .inl, hw ▸ L.frame_refl _⟩⟩
  · exact fun hp => (h.promise hp).of_cells le_rfl (by rw [hc]) (by rw [hc'])
  · intro p r hh
    have hh := h.homed hh
    unfold Machine.home at hh ⊢
    rwa [hc]
  · intro r r' hr
    refine ⟨hn ▸ (h.queue hr).lt, hn' ▸ (h.queue hr).lt', fun hne => ?_⟩
    have hold := (h.queue hr).tasks hne
    by_cases he : r = q
    · obtain rfl := he
      obtain rfl := (h.queue_iff hr hq).mp rfl
      rw [ht, ht'] at hold
      exact (List.forall₂_cons.mp hold).2
    · rw [hother r he, hother' r' fun he' => he ((h.queue_iff hr hq).mpr he')]
      exact hold
  · intro g g' hgg
    rw [hg, hg']
    exact h.gather hgg
  · rw [hw, hw']
    exact h.world
  · intro r _ hr
    exact hother r fun he => hr q' (he ▸ hq)

/-- The same for queues that are not the main ones. -/
theorem Sim.after_pop {q q' : QueueId} (hq : Γ.queue q q') (hne : q ≠ L.queue) {j j' : Job V W}
    (hpop : m.pop? q = some (j, m₁)) (hpop' : m'.pop? q' = some (j', m₁')) :
    L.After Γ m m' Γ m₁ m₁' := by
  obtain ⟨hsim, hspares⟩ := h.pop hq hpop hpop'
  have hne' : L.queue' ≠ q' := fun he => hne ((h.queue_iff h.main hq).mpr he).symm
  refine ⟨le_rfl, hsim, hspares, fun {p' o} ho => ?_, [], [], ?_, ?_, .nil⟩
  · unfold Machine.outcome? at ho ⊢
    rwa [(tasks_pop? hpop').2.2.1]
  · rw [(tasks_pop? hpop).2.1 _ hne.symm, List.append_nil]
  · rw [(tasks_pop? hpop').2.1 _ hne', List.append_nil]

end

end Mirror

open Mirror

variable {L : Mirror V W} {Γ Γ₁ : Pairing} {m m' m₁ m₁' : Machine V W}
  {R : Pairing → α → β → Prop}

/-! ## Runs -/

variable (L R) in
/-- Both steps end; what they leave stands for each other, their answers are related, and of what the first
ones have put off nothing is as deep as `κ`. Or both end in a panic. -/
def Mirror.Runs (Lo : Multiset Ordinal.{0}) (κ : Ordinal.{0}) (Γ : Pairing) (m m' : Machine V W)
    (s : Work V W α) (s' : Work V W β) (m₁ m₁' : Machine V W) : Prop :=
  Work.Couples L.halts s s' m₁ m₁' fun a m₂ b m₂' =>
    ∃ Γ₂, L.After Γ m m' Γ₂ m₂ m₂' ∧ R Γ₂ a b ∧ Beneath Lo κ m₂.load

theorem Mirror.Runs.after {Lo : Multiset Ordinal.{0}} {κ : Ordinal.{0}} {s : Work V W α}
    {s' : Work V W β} {m₂ m₂' : Machine V W} (h : L.Runs R Lo κ Γ₁ m₁ m₁' s s' m₂ m₂')
    (hstep : L.After Γ m m' Γ₁ m₁ m₁') : L.Runs R Lo κ Γ m m' s s' m₂ m₂' :=
  Couples.mono h fun _ _ _ _ ⟨Γ₂, hafter, hR⟩ => ⟨Γ₂, hstep.trans hafter, hR⟩

/-- How draining a queue beside the one that it stands for ends. -/
def Mirror.Drains (L : Mirror V W) (Γ : Pairing) (m m' : Machine V W) (q q' : QueueId)
    (p p' : Promise) : Prop :=
  Couples L.halts (fun limit => m.drain limit q (.until p)) (fun limit => m'.drain limit q' (.until p'))
    fun ran m₂ ran' m₂' => ran = ran' ∧ ∃ Γ₂, L.After Γ m m' Γ₂ m₂ m₂' ∧ Lighter m₂.load m.load

/-- **Steps that mirror each other end alike** where the drains that they start do. The induction is on the
steps; the pairing grows on the way. -/
theorem Mirrors.runs {s : Work V W α} {s' : Work V W β} (h : Mirrors L R Γ s s')
    {Lo : Multiset Ordinal.{0}} {κ : Ordinal.{0}} (hκ : ∀ x ∈ s.pieces, x.rank < κ)
    (hdrain : ∀ {Γ m m' q q' p p'}, L.Sim Γ m m' → m.load.IsDershowitzMannaLT (Lo + {κ}) →
      Γ.queue q q' → q ≠ L.queue → Γ.promise p p' → L.Drains Γ m m' q q' p p')
    (hm : L.Sim Γ m m') (hload : Beneath Lo κ m.load) : L.Runs R Lo κ Γ m m' s s' m m' := by
  induction h generalizing m m' with
  | pure h => exact Work.couples_pure ⟨_, .refl hm, h, hload⟩
  | halt h => exact Work.ends_halt ⟨h, Work.ends_halt trivial⟩
  | drift hs hs' hw _ ih =>
    have hww := hm.world
    obtain ⟨m₁, hlit, hv, hgo⟩ := (hs _ _ hww).exists_littered rfl
    obtain ⟨m₁', hlit', hv', hgo'⟩ := (hs' _ _ hww).exists_littered rfl
    have hstep := hm.litter hlit hlit' (by rw [hv, hv']; exact (hw _ _ hww).1)
      (by rw [hv]; exact (hw _ _ hww).2)
    exact ((ih _ _ hww (fun x hx => hκ x ((hs _ _ hww).pieces_subset hx)) hstep.sim
      (hlit.load ▸ hload)).after hstep).map hgo hgo'
  | newQueue _ ih =>
    obtain ⟨Γ₁, hstep, hq, hne⟩ := hm.newQueue
    exact ((ih Γ₁ _ _ hstep.le hq hne (fun x hx => hκ x (Set.mem_iUnion.mpr ⟨_, hx⟩)) hstep.sim
      (by simpa [Machine.load] using hload)).after hstep).map Work.ends_newQueue.mpr Work.ends_newQueue.mpr
  | newPromise hq _ ih =>
    obtain ⟨Γ₁, hstep, hp⟩ := hm.newPromise hq
    exact ((ih Γ₁ _ _ hstep.le hp (fun x hx => hκ x (Set.mem_iUnion.mpr ⟨_, hx⟩)) hstep.sim
      (by simpa [Machine.load] using hload)).after hstep).map Work.ends_newPromise.mpr
        Work.ends_newPromise.mpr
  | outcome hp _ ih =>
    exact Couples.map (ih _ _ (hm.promise hp).outcome
      (fun x hx => hκ x (Set.mem_iUnion.mpr ⟨_, hx⟩)) hm hload) Work.ends_outcome.mpr Work.ends_outcome.mpr
  | @home _ _ _ _ p p' _ _ hp _ ih =>
    obtain ⟨Γ₁, hstep, hh⟩ := hm.home hp
    have hq := (hm.promise hp).home
    exact ((ih Γ₁ _ _ hstep.le (hstep.le.queue hq) hh (fun r hr => (hm.homed hr).2.symm)
      (hm.queue_iff hq hm.main) (fun x hx => hκ x (Set.mem_iUnion.mpr ⟨_, hx⟩)) hstep.sim
      hload).after hstep).map Work.ends_home.mpr Work.ends_home.mpr
  | settle hp ho _ ih =>
    obtain ⟨hfresh, hstep⟩ := hm.settle hp ho
    exact ((ih _ (fun x hx => hκ x (Set.mem_iUnion.mpr ⟨_, hx⟩)) hstep.sim
      (hload.lighter (Machine.load_settle _ _))).after hstep).map Work.ends_settle.mpr
        fun hgo => Work.ends_settle.mpr (hfresh ▸ hgo)
  | subscribe hp hr _ _ ih =>
    have hstep := hm.subscribe hp hr
    exact ((ih (fun x hx => hκ x (.inr hx)) hstep.sim
      ((hload.add (hκ _ (.inl rfl))).lighter (Machine.load_subscribe _ _))).after hstep).map
        Work.ends_subscribe.mpr Work.ends_subscribe.mpr
  | enqueue hq hj _ _ ih =>
    have hstep := hm.append hq (.cons hj .nil)
    exact ((ih (fun x hx => hκ x (.inr hx)) hstep.sim
      ((hload.add (hκ _ (.inl rfl))).lighter (Machine.load_append_le _ _))).after hstep).map
        Work.ends_enqueue.mpr Work.ends_enqueue.mpr
  | drain hq hne hp _ ih =>
    refine Couples.bind (t := id) (u := id) (Couples.mono (hdrain hm hload.lt hq hne hp) ?_)
      Work.ends_drain Work.ends_drain
    rintro ran m₁ _ m₁' ⟨rfl, Γ₁, hstep, hl⟩
    exact (ih Γ₁ ran hstep.le (fun x hx => hκ x (Set.mem_iUnion.mpr ⟨_, hx⟩)) hstep.sim
      (hload.lighter hl)).after hstep
  | ticks _ ih =>
    exact Couples.map (ih _ _ (fun x hx => hκ x (Set.mem_iUnion.mpr ⟨_, hx⟩)) hm hload)
      Work.ends_ticks.mpr Work.ends_ticks.mpr
  | newGather _ ih =>
    obtain ⟨Γ₁, hstep, hg⟩ := hm.newGather _
    exact ((ih Γ₁ _ _ hstep.le hg (fun x hx => hκ x (Set.mem_iUnion.mpr ⟨_, hx⟩)) hstep.sim
      hload).after hstep).map Work.ends_newGather.mpr Work.ends_newGather.mpr
  | fill hg hv _ ih =>
    obtain ⟨hvs, hstep⟩ := hm.fill hg _ hv
    exact ((ih _ _ hvs (fun x hx => hκ x (Set.mem_iUnion.mpr ⟨_, hx⟩)) hstep.sim
      (by simpa [Machine.load] using hload)).after hstep).map Work.ends_fill.mpr Work.ends_fill.mpr

/-- **Queues that stand for each other are drained alike**, until promises that do are settled. The induction is
on what the first machine has left to do. -/
theorem Mirror.Sim.ends_drain (hm : L.Sim Γ m m') {q q' : QueueId} (hq : Γ.queue q q')
    (hne : q ≠ L.queue) {p p' : Promise} (hp : Γ.promise p p') : L.Drains Γ m m' q q' p p' := by
  induction hL : m.load using
    (Multiset.wellFounded_isDershowitzMannaLT (α := Ordinal.{0})).induction
    generalizing Γ m m' q q' p p' with
  | _ load ih =>
    subst hL
    rcases rel_cases (hm.promise hp).outcome with ⟨hn, hn'⟩ | ⟨o, o', hs, hs', -⟩
    · have htasks := (hm.queue hq).tasks hne
      cases ht : m.tasks q with
      | nil =>
        rw [ht, List.forall₂_nil_left_iff] at htasks
        exact ends_drain_of_empty ht
          (ends_drain_of_empty htasks ⟨rfl, Γ, .refl hm, .refl _⟩)
      | cons j rest =>
        rw [ht] at htasks
        obtain ⟨j', rest', hj, -, ht'⟩ := List.forall₂_cons_left_iff.mp htasks
        obtain ⟨m₁, hpop⟩ := exists_pop? ht
        obtain ⟨m₁', hpop'⟩ := exists_pop? ht'
        have hstep := hm.after_pop hq hne hpop hpop'
        have hload : m.load = m₁.load + {(Piece.task j).rank} := total_pop? _ _ _ hpop
        have hrun := hj.runs (fun x hx => Piece.rank_lt (y := .task j) hx)
          (fun hm hlt hq hne hp => ih _ (hload ▸ hlt) hm hq hne hp rfl) hstep.sim .self
        refine Couples.bind (t := fun _ : Bool => true) (u := fun _ : Bool => true)
          (Couples.mono hrun ?_) (ends_drain_of_pop hn hpop) (ends_drain_of_pop hn' hpop')
        rintro - m₂ - m₂' ⟨Γ₂, hafter, -, hbelow⟩
        have hle := hstep.trans hafter
        have hlt := hload ▸ hbelow.lt
        refine Couples.mono (ih _ hlt hafter.sim (hle.le.queue hq) hne (hle.le.promise hp) rfl) ?_
        rintro - m₃ - m₃' ⟨-, Γ₃, hafter₃, hl⟩
        exact ⟨rfl, Γ₃, hle.trans hafter₃, hl.trans (.inr hlt)⟩
    · exact ends_drain_of_reached (by simp [reached, hs])
        (ends_drain_of_reached (by simp [reached, hs']) ⟨rfl, Γ, .refl hm, .refl _⟩)

/-- **Steps that mirror each other end alike**, on machines whose parts stand for each other. -/
theorem Mirrors.ends {s : Work V W α} {s' : Work V W β} (h : Mirrors L R Γ s s')
    (hm : L.Sim Γ m m') {κ : Ordinal.{0}} (hκ : ∀ x ∈ s.pieces, x.rank < κ) :
    L.Runs R m.load κ Γ m m' s s' m m' :=
  h.runs hκ (fun hm _ hq hne hp => hm.ends_drain hq hne hp) hm .self

/-- What they leave. -/
theorem Mirrors.ends_after {s : Work V W α} {s' : Work V W β} (h : Mirrors L R Γ s s')
    (hm : L.Sim Γ m m') : Work.Couples L.halts s s' m m' fun a m₂ b m₂' =>
      ∃ Γ₂, L.After Γ m m' Γ₂ m₂ m₂' ∧ R Γ₂ a b := by
  have hκ : ∀ x ∈ s.pieces, x.rank < ⨆ x : Piece V W, Order.succ x.rank := fun x _ =>
    (Order.lt_succ x.rank).trans_le (Ordinal.le_iSup (fun x : Piece V W => Order.succ x.rank) x)
  exact Couples.mono (h.ends hm hκ) fun _ _ _ _ ⟨Γ₂, hafter, hR, _⟩ => ⟨Γ₂, hafter, hR⟩

/-- **The main queues are drained alike**, until promises that stand for each other are settled, where nothing
else is on them. The induction is on what the first machine has left to do. -/
theorem Mirror.Sim.ends_drain_main (hm : L.Sim Γ m m')
    (htasks : List.Forall₂ (L.Jobs Γ) (m.tasks L.queue) (m'.tasks L.queue')) {p p' : Promise}
    (hp : Γ.promise p p') :
    Couples L.halts (fun limit => m.drain limit L.queue (.until p))
      (fun limit => m'.drain limit L.queue' (.until p')) fun _ m₂ _ m₂' =>
        ∃ Γ₂, Γ ≤ Γ₂ ∧ L.Sim Γ₂ m₂ m₂' := by
  induction hL : m.load using
    (Multiset.wellFounded_isDershowitzMannaLT (α := Ordinal.{0})).induction
    generalizing Γ m m' with
  | _ load ih =>
    subst hL
    rcases rel_cases (hm.promise hp).outcome with ⟨hn, hn'⟩ | ⟨o, o', hs, hs', -⟩
    · cases ht : m.tasks L.queue with
      | nil =>
        rw [ht, List.forall₂_nil_left_iff] at htasks
        exact ends_drain_of_empty ht (ends_drain_of_empty htasks ⟨Γ, le_rfl, hm⟩)
      | cons j rest =>
        rw [ht] at htasks
        obtain ⟨j', rest', hj, hrest, ht'⟩ := List.forall₂_cons_left_iff.mp htasks
        obtain ⟨m₁, hpop⟩ := exists_pop? ht
        obtain ⟨m₁', hpop'⟩ := exists_pop? ht'
        obtain ⟨hm₁, -⟩ := hm.pop hm.main hpop hpop'
        rw [(tasks_pop? hpop).1] at ht
        rw [(tasks_pop? hpop').1] at ht'
        -- the task is off the queue by now: what it adds ranks below it, so the load goes down
        have hload : m.load = m₁.load + {(Piece.task j).rank} := total_pop? _ _ _ hpop
        have hrun := hj.ends hm₁ fun x hx => Piece.rank_lt (y := .task j) hx
        refine Couples.bind (t := fun _ : Bool => true) (u := fun _ : Bool => true)
          (Couples.mono hrun ?_) (ends_drain_of_pop hn hpop) (ends_drain_of_pop hn' hpop')
        rintro - m₂ - m₂' ⟨Γ₂, hafter, -, hbelow⟩
        obtain ⟨ts, ts', hts, hts', hnew⟩ := hafter.main
        have htasks₂ : List.Forall₂ (L.Jobs Γ₂) (m₂.tasks L.queue) (m₂'.tasks L.queue') := by
          rw [hts, hts', (List.cons.inj ht).2, (List.cons.inj ht').2]
          exact List.rel_append (hrest.imp fun _ _ hj => hj.mono hafter.le) hnew
        exact Couples.mono (ih _ (hload ▸ hbelow.lt) hafter.sim htasks₂ (hafter.le.promise hp) rfl)
          fun _ _ _ _ ⟨Γ₃, hle, h₃⟩ => ⟨Γ₃, hafter.le.trans hle, h₃⟩
    · exact ends_drain_of_reached (by simp [reached, hs])
        (ends_drain_of_reached (by simp [reached, hs']) ⟨Γ, le_rfl, hm⟩)

end EntityQuery
