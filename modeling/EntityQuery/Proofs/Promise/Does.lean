import EntityQuery.Proofs.Promise.Ending
import EntityQuery.Proofs.Promise.Heap
import Mathlib.Algebra.Order.Group.Multiset

/-!
# What steps do

Steps are described by what they do to the parts of a machine that they are given, in whatever
machine these are found: which tasks they put on one queue, which parts they leave or make, and what
they do to the world. All other parts stay as they are.

* `Terms`: the queue, and what may be done to the world.
* **`Does`**: what steps do, given some parts. `Does.bind`: one after another; `Does.frame`: beside
  other parts.
* One rule for each request, such as `does_settle` and `does_subscribe_of_pending`.
-/

namespace EntityQuery

universe u v

/-- The terms on which tasks run: their queue, whether they may be halted or wait forever and what may
halt them, which worlds are good, and which effects `E` they may have on a world. -/
structure Terms (W E : Type) [AddCommMonoid E] where
  queue : QueueId
  lax : Prop
  /-- What halts tasks. -/
  Halting : Type
  halt : Halting → Halt
  Good : W → Prop
  Step : E → W → W → Prop
  step_zero : ∀ {w}, Good w → Step 0 w w
  step_add : ∀ {d d' w w' w''}, Step d w w' → Step d' w' w'' → Step (d + d') w w''
  good_of_step : ∀ {d w w'}, Good w → Step d w w' → Good w'

variable {V W E : Type} [AddCommMonoid E] {α : Type u} {β : Type v}

namespace Terms

variable (C : Terms W E)

/-- The parts of a machine other than the queue. -/
def view (m : Machine V W) : Heap V W := m.heap.erase (.queue C.queue)

/-- The queue is there and the world is good. -/
def Ready (m : Machine V W) : Prop :=
  (∃ c, m.heap (.queue C.queue) = some (.queue c)) ∧ C.Good m.world

/-- From one machine to the next, parts not in `h` stay as they are, tasks are put on the queue, and
the world changes by an effect. -/
structure Evolves (h : Heap V W) (m m' : Machine V W) (tasks : Multiset (Job V W)) (d : E) :
    Prop where
  keeps : ∀ x, h x = none → C.view m x ≠ none → C.view m' x = C.view m x
  queue : ∃ (c : Queue V W) (added : List (Job V W)), m.heap (.queue C.queue) = some (.queue c) ∧
    m'.heap (.queue C.queue) = some (.queue (c.append added)) ∧
    (added : Multiset (Job V W)) = tasks
  step : C.Step d m.world m'.world

variable {C} {h h' k : Heap V W} {m m' m'' : Machine V W} {T T' : Multiset (Job V W)} {d d' : E}

@[simp] theorem view_queue : C.view m (.queue C.queue) = none := Heap.erase_self _ _

theorem view_of_ne {x : Part} (hx : x ≠ .queue C.queue) : C.view m x = m.heap x :=
  Heap.erase_of_ne hx _

theorem ne_queue_of_view {x : Part} (hx : C.view m x ≠ none) : x ≠ .queue C.queue := by
  rintro rfl
  exact hx view_queue

theorem heap_of_view {x : Part} {c : Content V W} (hx : C.view m x = some c) :
    m.heap x = some c := by
  rw [← view_of_ne (C := C) (ne_queue_of_view (by rw [hx]; simp))]
  exact hx

/-- Setting a part other than the queue. -/
theorem view_set {x : Part} (hx : x ≠ .queue C.queue) {c : Content V W}
    (hm : m'.heap = Function.update m.heap x (some c)) : C.view m' = (C.view m).set x c := by
  funext y
  by_cases hy : y = .queue C.queue
  · subst hy
    rw [view_queue, Heap.set_of_ne hx.symm, view_queue]
  · rw [view_of_ne hy, hm]
    by_cases hyx : y = x
    · subst hyx
      rw [Function.update_self, Heap.set_self]
    · rw [Function.update_of_ne hyx, Heap.set_of_ne hyx, view_of_ne hy]

/-- Setting the queue. -/
theorem view_set_queue {c : Content V W}
    (hm : m'.heap = Function.update m.heap (.queue C.queue) (some c)) : C.view m' = C.view m := by
  funext y
  by_cases hy : y = .queue C.queue
  · subst hy
    rw [view_queue, view_queue]
  · rw [view_of_ne hy, view_of_ne hy, hm, Function.update_of_ne hy]

namespace Evolves

theorem refl (hm : C.Ready m) (h : Heap V W) : C.Evolves h m m 0 0 := by
  obtain ⟨⟨c, hc⟩, hg⟩ := hm
  exact ⟨fun _ _ _ => rfl, ⟨c, [], hc, by simpa [Queue.append] using hc, rfl⟩, C.step_zero hg⟩

theorem ready (he : C.Evolves h m m' T d) (hm : C.Ready m) : C.Ready m' := by
  obtain ⟨c, added, -, hc, -⟩ := he.queue
  exact ⟨⟨_, hc⟩, C.good_of_step hm.2 he.step⟩

theorem trans (he : C.Evolves h m m' T d) (hf : h'.From h (C.view m))
    (he' : C.Evolves h' m' m'' T' d') : C.Evolves h m m'' (T + T') (d + d') := by
  refine ⟨fun x hx hv => ?_, ?_, C.step_add he.step he'.step⟩
  · have hk := he.keeps x hx hv
    rw [he'.keeps x (hf x hx hv) (by rw [hk]; exact hv), hk]
  · obtain ⟨c, added, hc, hc', rfl⟩ := he.queue
    obtain ⟨c₁, added', hc₁, hc₁', rfl⟩ := he'.queue
    rw [hc'] at hc₁
    cases hc₁
    exact ⟨c, added ++ added', hc, by simpa [Queue.append] using hc₁', rfl⟩

/-- What was new later is new, or was given. -/
theorem from_trans (he : C.Evolves h m m' T d) (hf : h'.From h (C.view m))
    (hf' : k.From h' (C.view m')) : k.From h (C.view m) := by
  intro x hx hv
  have hk := he.keeps x hx hv
  exact hf' x (hf x hx hv) (by rw [hk]; exact hv)

theorem within (he : C.Evolves h m m' T d) (hk : k.Within (C.view m)) (ha : k.Apart h) :
    k.Within (C.view m') := by
  intro x c hx
  have hn : h x = none := ha.eq_none (by rw [hx]; simp)
  rw [he.keeps x hn (by rw [hk x c hx]; simp)]
  exact hk x c hx

end Evolves

end Terms

open Terms

/-- From the parts `h` of one machine to the parts `h'` of the next, with an answer, new tasks and an
effect that meet `Q`. -/
def Terms.Reaches (C : Terms W E) (h : Heap V W) (m : Machine V W)
    (Q : α → Multiset (Job V W) → Heap V W → E → Prop) (a : α) (m' : Machine V W) : Prop :=
  ∃ T h' d, C.Evolves h m m' T d ∧ h'.Within (C.view m') ∧ h'.From h (C.view m) ∧ Q a T h' d

theorem Terms.Reaches.after {C : Terms W E} {h h₀ : Heap V W} {m m₁ m' : Machine V W} {a : α}
    {b : β} {Q : α → Multiset (Job V W) → Heap V W → E → Prop}
    {Q' : β → Multiset (Job V W) → Heap V W → E → Prop} {T₀ : Multiset (Job V W)} {d₀ : E}
    (hr : C.Reaches h m₁ Q a m') (he : C.Evolves h₀ m m₁ T₀ d₀) (hf : h.From h₀ (C.view m))
    (hQ : ∀ T h d, Q a T h d → Q' b (T₀ + T) h (d₀ + d)) : C.Reaches h₀ m Q' b m' := by
  obtain ⟨T, h', d, he', hw', hf', hq⟩ := hr
  exact ⟨T₀ + T, h', d₀ + d, he.trans hf he', hw', he.from_trans hf hf', hQ T h' d hq⟩

/-- Given the parts `h`, the steps `w` end with an answer `a`, new tasks `T` on the queue, the parts
`h'` and an effect `d` such that `Q a T h' d`; parts that were there and are not in `h` stay as they
are. -/
def Does (C : Terms W E) (h : Heap V W) (w : Work V W α)
    (Q : α → Multiset (Job V W) → Heap V W → E → Prop) : Prop :=
  ∀ m, C.Ready m → h.Within (C.view m) → w.EndsBy C.halt C.lax m (C.Reaches h m Q)

/-- Given the parts `h`, draining the queue `q` until a promise is settled does what `Q` says. -/
def Drains (C : Terms W E) (h : Heap V W) (q : QueueId) (p : Promise)
    (Q : Bool → Multiset (Job V W) → Heap V W → E → Prop) : Prop :=
  ∀ m, C.Ready m → h.Within (C.view m) →
    EndsBy C.halt C.lax (fun limit => m.drain limit q (.until p)) (C.Reaches h m Q)

section

variable {C : Terms W E} {h : Heap V W} {w : Work V W α}
  {Q Q' : α → Multiset (Job V W) → Heap V W → E → Prop}

theorem Does.mono (hw : Does C h w Q) (hQ : ∀ a T h d, Q a T h d → Q' a T h d) :
    Does C h w Q' := by
  intro m hm hh
  refine (hw m hm hh).mono fun a _ => ?_
  rintro ⟨T, h', d, he, hw', hf, hq⟩
  exact ⟨T, h', d, he, hw', hf, hQ a T h' d hq⟩

theorem Drains.mono {q : QueueId} {p : Promise}
    {R R' : Bool → Multiset (Job V W) → Heap V W → E → Prop} (hd : Drains C h q p R)
    (hR : ∀ a T h d, R a T h d → R' a T h d) : Drains C h q p R' := by
  intro m hm hh
  refine (hd m hm hh).mono fun a _ => ?_
  rintro ⟨T, h', d, he, hw', hf, hr⟩
  exact ⟨T, h', d, he, hw', hf, hR a T h' d hr⟩

/-- Steps that go on from a machine that the given one has become. -/
theorem Does.after (hw : Does C h w Q) {h₀ : Heap V W} {m m₁ : Machine V W}
    {T₀ : Multiset (Job V W)} {d₀ : E} (hm : C.Ready m) (he : C.Evolves h₀ m m₁ T₀ d₀)
    (hh : h.Within (C.view m₁)) (hf : h.From h₀ (C.view m))
    (hQ : ∀ a T h d, Q a T h d → Q' a (T₀ + T) h (d₀ + d)) :
    w.EndsBy C.halt C.lax m₁ (C.Reaches h₀ m Q') :=
  (hw m₁ (he.ready hm) hh).mono fun a _ hr => hr.after he hf (hQ a)

theorem does_pure {a : α} (hQ : Q a 0 h 0) : Does C h (.pure a) Q := fun _ hm hh =>
  Work.ends_pure ⟨0, h, 0, .refl hm h, hh, .refl h _, hQ⟩

theorem does_halt (hl : C.lax) {p : C.Halting} : Does C h (.halt (C.halt p)) Q := fun _ _ _ =>
  Work.ends_halt hl

/-- **One after another.** -/
theorem Does.bind {k : α → Work V W β} {R : β → Multiset (Job V W) → Heap V W → E → Prop}
    (hw : Does C h w fun a T h d =>
      Does C h (k a) fun b T' h' d' => R b (T + T') h' (d + d')) :
    Does C h (w.bind k) R := by
  intro m hm hh
  refine Work.EndsBy.bind ((hw m hm hh).mono fun a m' => ?_)
  rintro ⟨T, h', d, he, hw', hf, hk⟩
  exact hk.after hm he hw' hf fun _ _ _ _ hr => hr

/-- One after another, where the effect of the first precedes that of the second. -/
theorem Does.bind_of_steps {k : α → Work V W β}
    {R : β → Multiset (Job V W) → Heap V W → E → Prop} {B : E → E → Prop}
    (hB : ∀ {d d' w w' w''}, C.Step d w w' → C.Step d' w' w'' → B d d')
    (hw : Does C h w fun a T h d =>
      Does C h (k a) fun b T' h' d' => B d d' → R b (T + T') h' (d + d')) :
    Does C h (w.bind k) R := by
  intro m hm hh
  refine Work.EndsBy.bind ((hw m hm hh).mono fun a m' => ?_)
  rintro ⟨T, h', d, he, hw', hf, hk⟩
  refine (hk m' (he.ready hm) hw').mono fun b m'' => ?_
  rintro ⟨T', h'', d', he', hw'', hf', hr⟩
  exact ⟨T + T', h'', d + d', he.trans hf he', hw'', he.from_trans hf hf', hr (hB he.step he'.step)⟩

theorem Terms.Reaches.frame {m m' : Machine V W} {a : α} (hr : C.Reaches h m Q a m')
    {k : Heap V W} (ha : h.Apart k) (hk : k.Within (C.view m)) :
    C.Reaches (h.union k) m
      (fun a T h' d => ∃ h₁, h' = h₁.union k ∧ h₁.Apart k ∧ Q a T h₁ d) a m' := by
  obtain ⟨T, h', d, he, hw', hf, hq⟩ := hr
  have hk' := he.within hk ha.symm
  refine ⟨T, h'.union k, d, ⟨fun x hx hv => he.keeps x (Heap.union_eq_none.mp hx).1 hv, he.queue,
    he.step⟩, hw'.union hk', fun x hx hv => ?_, h', rfl, hf.apart ha hk, hq⟩
  obtain ⟨h₁, h₂⟩ := Heap.union_eq_none.mp hx
  exact Heap.union_eq_none.mpr ⟨hf x h₁ hv, h₂⟩

/-- **Beside other parts.** -/
theorem Does.frame (hw : Does C h w Q) {k : Heap V W} (ha : h.Apart k) :
    Does C (h.union k) w fun a T h' d =>
      ∃ h₁, h' = h₁.union k ∧ h₁.Apart k ∧ Q a T h₁ d := fun m hm hh =>
  (hw m hm ((Heap.within_union_left h k).trans hh)).mono fun _ _ hr =>
    hr.frame ha (ha.within_union_right.trans hh)

theorem Drains.frame {q : QueueId} {p : Promise}
    {R : Bool → Multiset (Job V W) → Heap V W → E → Prop} (hd : Drains C h q p R) {k : Heap V W}
    (ha : h.Apart k) :
    Drains C (h.union k) q p fun a T h' d =>
      ∃ h₁, h' = h₁.union k ∧ h₁.Apart k ∧ R a T h₁ d := fun m hm hh =>
  (hd m hm ((Heap.within_union_left h k).trans hh)).mono fun _ _ hr =>
    hr.frame ha (ha.within_union_right.trans hh)

/-- Beside one other part. -/
theorem Does.beside (hw : Does C h w Q) {x : Part} (hx : h x = none) (c : Content V W) :
    Does C (h.set x c) w fun a T h' d => ∃ h₁, h' = h₁.set x c ∧ h₁ x = none ∧ Q a T h₁ d := by
  have hf := hw.frame (Heap.apart_single (c := c).mpr hx)
  rw [Heap.union_single hx] at hf
  refine hf.mono ?_
  rintro a T h' d ⟨h₁, rfl, ha, hq⟩
  have hn := Heap.apart_single.mp ha
  exact ⟨h₁, Heap.union_single hn c, hn, hq⟩

/-- Parts that are not needed any more may be left out. -/
theorem Does.drop (hw : Does C h w Q)
    (hQ : ∀ a T h d, Q a T h d → ∃ h', h'.Within h ∧ Q' a T h' d) : Does C h w Q' := by
  intro m hm hh
  refine (hw m hm hh).mono fun a _ => ?_
  rintro ⟨T, h', d, he, hw', hf, hq⟩
  obtain ⟨h'', hw'', hq'⟩ := hQ a T h' d hq
  exact ⟨T, h'', d, he, hw''.trans hw', fun x hx hv => hw''.eq_none (hf x hx hv), hq'⟩

end

/-! ## One rule for each request -/

section

variable {C : Terms W E} {h : Heap V W}
  {Q : α → Multiset (Job V W) → Heap V W → E → Prop}

/-- A request that sets one part of those given, or makes a new one. -/
theorem Does.of_set {next : Work V W α} {x : Part} {c : Content V W} (hx : x ≠ .queue C.queue)
    (hnext : Does C (h.set x c) next Q) {m m₁ : Machine V W} (hm : C.Ready m)
    (hh : h.Within (C.view m)) (hheap : m₁.heap = Function.update m.heap x (some c))
    (hworld : m₁.world = m.world) (hnew : h x = none → m.heap x = none) :
    next.EndsBy C.halt C.lax m₁ (C.Reaches h m Q) := by
  have hv := view_set hx hheap
  have he : C.Evolves h m m₁ 0 0 := by
    refine ⟨fun y hy hvy => ?_, ?_, ?_⟩
    · have hyx : y ≠ x := by
        rintro rfl
        rw [view_of_ne hx, hnew hy] at hvy
        exact hvy rfl
      rw [hv, Heap.set_of_ne hyx]
    · obtain ⟨⟨c', hc'⟩, -⟩ := hm
      refine ⟨c', [], hc', ?_, rfl⟩
      rw [hheap, Function.update_of_ne hx.symm, hc']
      simp [Queue.append]
    · rw [hworld]
      exact C.step_zero hm.2
  refine hnext.after hm he ?_ ?_ fun a T h' d hq => by simpa using hq
  · rw [hv]
    exact hh.set x c
  · intro y hy hvy
    have hyx : y ≠ x := by
      rintro rfl
      rw [view_of_ne hx, hnew hy] at hvy
      exact hvy rfl
    rw [Heap.set_of_ne hyx]
    exact hy

theorem does_newPromise {q : QueueId} {next : Promise → Work V W α}
    (hnext : ∀ p, h (.promise p) = none →
      Does C (h.set (.promise p) (.cell ⟨q, none, []⟩)) (next p) Q) :
    Does C h (.newPromise q next) Q := by
  intro m hm hh
  rw [Work.ends_newPromise]
  have hn : h (.promise (m.newPromise q).1) = none :=
    hh.eq_none (by rw [view_of_ne (by simp)]; exact Machine.fresh_newPromise)
  exact (hnext _ hn).of_set (by simp) hm hh Machine.heap_newPromise rfl
    fun _ => Machine.fresh_newPromise

theorem does_newGather {size : Nat} {next : GatherId → Work V W α}
    (hnext : ∀ g, h (.gather g) = none →
      Does C (h.set (.gather g) (.gather (.ofSize size))) (next g) Q) :
    Does C h (.newGather size next) Q := by
  intro m hm hh
  rw [Work.ends_newGather]
  have hn : h (.gather (m.newGather size).1) = none :=
    hh.eq_none (by rw [view_of_ne (by simp)]; exact Machine.fresh_newGather)
  exact (hnext _ hn).of_set (by simp) hm hh Machine.heap_newGather rfl
    fun _ => Machine.fresh_newGather

theorem does_newQueue {next : QueueId → Work V W α}
    (hnext : ∀ q, q ≠ C.queue → h (.queue q) = none →
      Does C (h.set (.queue q) (.queue {})) (next q) Q) :
    Does C h (.newQueue next) Q := by
  intro m hm hh
  rw [Work.ends_newQueue]
  have hne : m.newQueue.1 ≠ C.queue := by
    intro he
    obtain ⟨⟨c, hc⟩, -⟩ := hm
    rw [← he, Machine.fresh_newQueue] at hc
    cases hc
  have hne' : Part.queue m.newQueue.1 ≠ .queue C.queue := by simpa using hne
  have hn : h (.queue m.newQueue.1) = none :=
    hh.eq_none (by rw [view_of_ne hne']; exact Machine.fresh_newQueue)
  exact (hnext _ hne hn).of_set hne' hm hh Machine.heap_newQueue rfl
    fun _ => Machine.fresh_newQueue

theorem does_outcome {p : Promise} {c : Cell V W} (hp : h (.promise p) = some (.cell c))
    {next : Option (Outcome V) → Work V W α} (hnext : Does C h (next c.outcome?) Q) :
    Does C h (.outcome p next) Q := by
  intro m hm hh
  rw [Work.ends_outcome, Machine.outcome?_of_heap (heap_of_view (hh _ _ hp))]
  exact hnext m hm hh

theorem does_home {p : Promise} {c : Cell V W} (hp : h (.promise p) = some (.cell c))
    {next : QueueId → Work V W α} (hnext : Does C h (next c.home) Q) :
    Does C h (.home p next) Q := by
  intro m hm hh
  rw [Work.ends_home, Machine.home_of_heap (heap_of_view (hh _ _ hp))]
  exact hnext m hm hh

theorem does_ticks {next : Nat → Work V W α} (hnext : ∀ n, Does C h (next n) Q) :
    Does C h (.ticks C.queue next) Q := by
  intro m hm hh
  rw [Work.ends_ticks]
  exact hnext _ m hm hh

theorem does_fill {g : GatherId} {c : Gather V} (hg : h (.gather g) = some (.gather c))
    {slot : Nat} {v : V} {next : Option (List V) → Work V W α}
    (hnext : Does C (h.set (.gather g) (.gather (c.fill slot v))) (next (c.fill slot v).values?) Q) :
    Does C h (.fill g slot v next) Q := by
  intro m hm hh
  obtain ⟨hv, hheap⟩ := Machine.heap_fill (heap_of_view (hh _ _ hg)) slot v
  rw [Work.ends_fill, hv]
  refine hnext.of_set (by simp) hm hh hheap Machine.world_fill fun hn => ?_
  rw [hg] at hn
  cases hn

/-- A request that puts tasks on the queue. -/
theorem Does.of_append {next : Work V W α} {tasks : List (Job V W)}
    {Q' : α → Multiset (Job V W) → Heap V W → E → Prop} (hnext : Does C h next Q')
    (hQ : ∀ a T h d, Q' a T h d → Q a (↑tasks + T) h d) {m m₁ : Machine V W} (hm : C.Ready m)
    (hh : h.Within (C.view m)) {c : Queue V W}
    (hc : m.heap (.queue C.queue) = some (.queue c))
    (hheap : m₁.heap = Function.update m.heap (.queue C.queue) (some (.queue (c.append tasks))))
    (hworld : m₁.world = m.world) :
    next.EndsBy C.halt C.lax m₁ (C.Reaches h m Q) := by
  have hv := view_set_queue hheap
  have he : C.Evolves h m m₁ (↑tasks) 0 := by
    refine ⟨fun y _ _ => by rw [hv], ⟨c, tasks, hc, ?_, rfl⟩, ?_⟩
    · rw [hheap, Function.update_self]
    · rw [hworld]
      exact C.step_zero hm.2
  refine hnext.after hm he (by rw [hv]; exact hh) (.refl h _) fun a T h' d hq => ?_
  rw [zero_add]
  exact hQ a T h' d hq

theorem does_enqueue {t : Job V W} {next : Work V W α}
    (hnext : Does C h next fun a T h d => Q a ({t} + T) h d) :
    Does C h (.enqueue C.queue t next) Q := by
  intro m hm hh
  obtain ⟨c, hc⟩ := hm.1
  rw [Work.ends_enqueue]
  exact hnext.of_append (fun _ _ _ _ hq => hq) hm hh hc (Machine.heap_append hc [t]) rfl

theorem does_enqueue_of_other {q : QueueId} {c : Queue V W}
    (hc : h (.queue q) = some (.queue c)) {t : Job V W} {next : Work V W α}
    (hnext : Does C (h.set (.queue q) (.queue (c.append [t]))) next Q) :
    Does C h (.enqueue q t next) Q := by
  intro m hm hh
  rw [Work.ends_enqueue]
  refine hnext.of_set (ne_queue_of_view (hh.ne_none (by simp [hc]))) hm hh
    (Machine.heap_append (heap_of_view (hh _ _ hc)) [t]) rfl fun hn => ?_
  rw [hc] at hn
  cases hn

/-- A reaction to a pending promise waits. -/
theorem does_subscribe_of_pending {p : Promise} {q : QueueId}
    {reactions : List (Outcome V → Job V W)}
    (hp : h (.promise p) = some (.cell ⟨q, none, reactions⟩)) {r : Outcome V → Job V W}
    {next : Work V W α}
    (hnext : Does C (h.set (.promise p) (.cell ⟨q, none, reactions ++ [r]⟩)) next Q) :
    Does C h (.subscribe p r next) Q := by
  intro m hm hh
  rw [Work.ends_subscribe]
  refine hnext.of_set (by simp) hm hh
    (Machine.heap_subscribe_of_pending (heap_of_view (hh _ _ hp)) r) Machine.world_subscribe
    fun hn => ?_
  rw [hp] at hn
  cases hn

/-- A reaction to a settled promise is put on the queue. -/
theorem does_subscribe_of_settled {p : Promise} {o : Outcome V}
    {reactions : List (Outcome V → Job V W)}
    (hp : h (.promise p) = some (.cell ⟨C.queue, some o, reactions⟩)) {r : Outcome V → Job V W}
    {next : Work V W α} (hnext : Does C h next fun a T h d => Q a ({r o} + T) h d) :
    Does C h (.subscribe p r next) Q := by
  intro m hm hh
  obtain ⟨c, hc⟩ := hm.1
  rw [Work.ends_subscribe]
  exact hnext.of_append (fun _ _ _ _ hq => hq) hm hh hc
    (Machine.heap_subscribe_of_settled (heap_of_view (hh _ _ hp)) hc r) Machine.world_subscribe

/-- Settling a pending promise puts its reactions on the queue, and changes no other part. -/
theorem Terms.evolves_settle {p : Promise} {reactions : List (Outcome V → Job V W)}
    (hp : h (.promise p) = some (.cell ⟨C.queue, none, reactions⟩)) {m : Machine V W} (hm : C.Ready m)
    (hh : h.Within (C.view m)) (o : Outcome V) :
    C.Evolves h m (m.settle p o).2 (↑(reactions.map fun r => r o)) 0 ∧
      C.view (m.settle p o).2 = (C.view m).set (.promise p) (.cell ⟨C.queue, some o, []⟩) := by
  obtain ⟨c, hc⟩ := hm.1
  have hp' := heap_of_view (hh _ _ hp)
  have hheap := Machine.heap_settle hp' hc o
  have hne : Part.promise p ≠ .queue C.queue := by simp
  refine ⟨⟨fun y hy hvy => ?_, ⟨c, _, hc, ?_, rfl⟩, ?_⟩, ?_⟩
  · have hyp : y ≠ .promise p := by
      rintro rfl
      rw [hp] at hy
      cases hy
    have hyq := ne_queue_of_view hvy
    rw [view_of_ne hyq, view_of_ne hyq, hheap, Function.update_of_ne hyq,
      Function.update_of_ne hyp]
  · rw [hheap, Function.update_self]
  · rw [Machine.world_settle]
    exact C.step_zero hm.2
  · funext y
    by_cases hyq : y = .queue C.queue
    · subst hyq
      rw [view_queue, Heap.set_of_ne hne.symm, view_queue]
    · rw [view_of_ne hyq, hheap, Function.update_of_ne hyq]
      by_cases hyp : y = .promise p
      · subst hyp
        rw [Function.update_self, Heap.set_self]
      · rw [Function.update_of_ne hyp, Heap.set_of_ne hyp, view_of_ne hyq]

/-- Settling a pending promise puts its reactions on the queue. -/
theorem does_settle {p : Promise} {reactions : List (Outcome V → Job V W)}
    (hp : h (.promise p) = some (.cell ⟨C.queue, none, reactions⟩)) {o : Outcome V}
    {next : Bool → Work V W α}
    (hnext : ∀ fresh, Does C (h.set (.promise p) (.cell ⟨C.queue, some o, []⟩)) (next fresh)
      fun a T h d => Q a (↑(reactions.map fun r => r o) + T) h d) :
    Does C h (.settle p o next) Q := by
  intro m hm hh
  obtain ⟨he, hview⟩ := evolves_settle hp hm hh o
  rw [Work.ends_settle]
  refine (hnext _).after hm he ?_ ?_ fun a T h' d hq => ?_
  · rw [hview]
    exact hh.set _ _
  · intro y hy _
    have hyp : y ≠ .promise p := by
      rintro rfl
      rw [hp] at hy
      cases hy
    rw [Heap.set_of_ne hyp]
    exact hy
  · rw [zero_add]
    exact hq

/-- Settling a promise of another queue, where no reaction waits. -/
theorem does_settle_of_other {p : Promise} {q : QueueId} {c : Queue V W}
    (hp : h (.promise p) = some (.cell ⟨q, none, []⟩)) (hc : h (.queue q) = some (.queue c))
    {o : Outcome V} {next : Bool → Work V W α}
    (hnext : ∀ fresh, Does C (h.set (.promise p) (.cell ⟨q, some o, []⟩)) (next fresh) Q) :
    Does C h (.settle p o next) Q := by
  intro m hm hh
  have hp' := heap_of_view (hh _ _ hp)
  have hc' := heap_of_view (hh _ _ hc)
  rw [Work.ends_settle]
  have hheap : (m.settle p o).2.heap =
      Function.update m.heap (.promise p) (some (.cell ⟨q, some o, []⟩)) := by
    rw [Machine.heap_settle hp' hc' o]
    funext y
    by_cases hyq : y = .queue q
    · subst hyq
      rw [Function.update_self, Function.update_of_ne (by simp), hc']
      simp [Queue.append]
    · rw [Function.update_of_ne hyq]
  refine (hnext _).of_set (by simp) hm hh hheap Machine.world_settle fun hn => ?_
  rw [hp] at hn
  cases hn

/-! ### Draining another queue -/

theorem does_drain {q : QueueId} {p : Promise} {next : Bool → Work V W α}
    (hd : Drains C h q p fun ran T h d =>
      Does C h (next ran) fun a T' h' d' => Q a (T + T') h' (d + d')) :
    Does C h (.drain q (.until p) next) Q := by
  intro m hm hh
  refine Work.ends_drain ((hd m hm hh).mono fun ran m' => ?_)
  rintro ⟨T, h', d, he, hw', hf, hnext⟩
  exact hnext.after hm he hw' hf fun _ _ _ _ hq => hq

variable {q : QueueId} {p : Promise} {c : Cell V W}
  {R : Bool → Multiset (Job V W) → Heap V W → E → Prop}

theorem drains_of_settled (hp : h (.promise p) = some (.cell c)) (ho : c.outcome?.isSome = true)
    (hR : R false 0 h 0) : Drains C h q p R := by
  intro m hm hh
  refine Machine.ends_drain_of_reached ?_ ⟨0, h, 0, .refl hm h, hh, .refl h _, hR⟩
  rw [Machine.reached, Machine.outcome?_of_heap (heap_of_view (hh _ _ hp)), ho]

theorem drains_of_empty {ticks : Nat} (hq : h (.queue q) = some (.queue ⟨[], ticks⟩))
    (hR : R false 0 h 0) : Drains C h q p R := by
  intro m hm hh
  refine Machine.ends_drain_of_empty ?_ ⟨0, h, 0, .refl hm h, hh, .refl h _, hR⟩
  rw [Machine.queue_of_heap (heap_of_view (hh _ _ hq))]

/-- The oldest task of the other queue, and what the drain does after it. -/
theorem drains_of_pop (hp : h (.promise p) = some (.cell c))
    (ho : c.outcome? = none) {task : Job V W} {rest : List (Job V W)} {ticks : Nat}
    (hq : h (.queue q) = some (.queue ⟨task :: rest, ticks⟩))
    (ht : Does C (h.set (.queue q) (.queue ⟨rest, min (ticks + 1) Queue.maxTicks⟩)) task.steps
      fun _ T h d => Drains C h q p fun _ T' h' d' => R true (T + T') h' (d + d')) :
    Drains C h q p R := by
  intro m hm hh
  have hpm := Machine.outcome?_of_heap (heap_of_view (hh _ _ hp))
  obtain ⟨m₁, hpop, hworld, hheap⟩ := Machine.pop?_of_heap (heap_of_view (hh _ _ hq))
  refine Machine.ends_drain_of_pop (by rw [hpm, ho]) hpop ?_
  have hnew : h (.queue q) = none → m.heap (.queue q) = none := fun hn => by
    rw [hq] at hn
    cases hn
  have hne : Part.queue q ≠ .queue C.queue := ne_queue_of_view (hh.ne_none (by simp [hq]))
  refine (ht.of_set hne hm hh hheap hworld hnew).mono fun _ m' => ?_
  rintro ⟨T, h', d, he, hw', hf, hd⟩
  exact (hd m' (he.ready hm) hw').mono fun _ _ hr => hr.after he hf fun _ _ _ hr => hr

/-! ### The world -/

/-- Steps that look at the world and replace it. -/
theorem does_getWorld {next : W → Work V W α}
    (hf : ∀ w, C.Good w → ∃ d w' k, next w = .setWorld w' k ∧ C.Step d w w' ∧
      Does C h k fun a T h d' => Q a T h (d + d')) :
    Does C h (.getWorld next) Q := by
  intro m hm hh
  obtain ⟨d, w', k, hk, hs, hnext⟩ := hf m.world hm.2
  rw [Work.ends_getWorld, hk, Work.ends_setWorld]
  have he : C.Evolves h m { m with world := w' } 0 d := by
    obtain ⟨c, hc⟩ := hm.1
    exact ⟨fun _ _ _ => rfl, ⟨c, [], hc, by simpa [Machine.heap_setWorld, Queue.append] using hc,
      rfl⟩, hs⟩
  exact hnext.after hm he hh (.refl h _) fun _ _ _ _ _ => by rwa [zero_add]

end

end EntityQuery
