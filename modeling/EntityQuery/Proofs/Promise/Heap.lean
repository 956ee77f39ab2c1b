import EntityQuery.Promise.Combinators
import Mathlib.Logic.Function.Basic

/-!
# The heap of a machine

Promises, gathered lists and queues in one view: a machine's heap maps each part to what it holds.
Every request changes the heap at a few parts and leaves the others as they are.

* `Part`, `Content`, `Heap`, `Machine.heap`.
* One equation for each request, such as **`Machine.heap_settle`** and `Machine.heap_append`.
* `Heap.Within`, `Heap.Apart`, `Heap.union`: pieces of a heap and how they make it up.
-/

namespace EntityQuery

variable {V W : Type}

/-- A part of a machine. -/
inductive Part
  | promise (p : Promise)
  | gather (g : GatherId)
  | queue (q : QueueId)
  deriving DecidableEq

/-- What a part of a machine holds. -/
inductive Content (V W : Type)
  | cell (c : Cell V W)
  | gather (g : Gather V)
  | queue (q : Queue V W)

/-- What is known of the parts of a machine. -/
abbrev Heap (V W : Type) := Part → Option (Content V W)

namespace Machine

variable (m : Machine V W)

/-- What each part of a machine holds. -/
def heap : Heap V W
  | .promise p => m.cells[p.index]?.map .cell
  | .gather g => m.gathers[g.index]?.map .gather
  | .queue q => m.queues[q.index]?.map .queue

variable {m}

theorem cells_of_heap {p : Promise} {c : Cell V W} (h : m.heap (.promise p) = some (.cell c)) :
    m.cells[p.index]? = some c := by
  obtain ⟨c', hc, he⟩ := Option.map_eq_some_iff.mp h
  cases he
  exact hc

theorem gathers_of_heap {g : GatherId} {c : Gather V}
    (h : m.heap (.gather g) = some (.gather c)) : m.gathers[g.index]? = some c := by
  obtain ⟨c', hc, he⟩ := Option.map_eq_some_iff.mp h
  cases he
  exact hc

theorem queues_of_heap {q : QueueId} {c : Queue V W}
    (h : m.heap (.queue q) = some (.queue c)) : m.queues[q.index]? = some c := by
  obtain ⟨c', hc, he⟩ := Option.map_eq_some_iff.mp h
  cases he
  exact hc

theorem heap_of_queues {q : QueueId} {c : Queue V W} (h : m.queues[q.index]? = some c) :
    m.heap (.queue q) = some (.queue c) := by
  rw [heap, h]
  rfl

/-! ## Looking at a part -/

theorem outcome?_of_heap {p : Promise} {c : Cell V W}
    (h : m.heap (.promise p) = some (.cell c)) : m.outcome? p = c.outcome? := by
  simp only [outcome?, cells_of_heap h, Option.bind_some]

theorem home_of_heap {p : Promise} {c : Cell V W}
    (h : m.heap (.promise p) = some (.cell c)) : m.home p = c.home := by
  simp only [home, cells_of_heap h, Option.map_some, Option.getD_some]

theorem queue_of_heap {q : QueueId} {c : Queue V W}
    (h : m.heap (.queue q) = some (.queue c)) : m.queue q = c := by
  simp only [queue, queues_of_heap h, Option.getD_some]

/-! ## Making a part -/

theorem fresh_newQueue : m.heap (.queue m.newQueue.1) = none := by
  simp [heap, newQueue]

theorem heap_newQueue :
    m.newQueue.2.heap =
      Function.update m.heap (.queue m.newQueue.1) (some (.queue {})) := by
  funext x
  rcases x with p | g | ⟨⟨i⟩⟩
  · rw [Function.update_of_ne (by simp)]
    rfl
  · rw [Function.update_of_ne (by simp)]
    rfl
  · by_cases h : i = m.queues.size
    · subst h
      simp [heap, newQueue]
    · rw [Function.update_of_ne (by simpa [newQueue] using h)]
      simp [heap, newQueue, Array.getElem?_push, h]

theorem fresh_newPromise {q : QueueId} : m.heap (.promise (m.newPromise q).1) = none := by
  simp [heap, newPromise]

theorem heap_newPromise {q : QueueId} :
    (m.newPromise q).2.heap =
      Function.update m.heap (.promise (m.newPromise q).1) (some (.cell ⟨q, none, []⟩)) := by
  funext x
  rcases x with ⟨⟨i⟩⟩ | g | q'
  · by_cases h : i = m.cells.size
    · subst h
      simp [heap, newPromise]
    · rw [Function.update_of_ne (by simpa [newPromise] using h)]
      simp [heap, newPromise, Array.getElem?_push, h]
  · rw [Function.update_of_ne (by simp)]
    rfl
  · rw [Function.update_of_ne (by simp)]
    rfl

theorem fresh_newGather {size : Nat} : m.heap (.gather (m.newGather size).1) = none := by
  simp [heap, newGather]

theorem heap_newGather {size : Nat} :
    (m.newGather size).2.heap =
      Function.update m.heap (.gather (m.newGather size).1) (some (.gather (.ofSize size))) := by
  funext x
  rcases x with p | ⟨⟨i⟩⟩ | q
  · rw [Function.update_of_ne (by simp)]
    rfl
  · by_cases h : i = m.gathers.size
    · subst h
      simp [heap, newGather]
    · rw [Function.update_of_ne (by simpa [newGather] using h)]
      simp [heap, newGather, Array.getElem?_push, h]
  · rw [Function.update_of_ne (by simp)]
    rfl

/-! ## Changing a part -/

theorem heap_setCell {p : Promise} {c c' : Cell V W}
    (h : m.heap (.promise p) = some (.cell c)) :
    heap { m with cells := m.cells.set! p.index c' } =
      Function.update m.heap (.promise p) (some (.cell c')) := by
  have hlt : p.index < m.cells.size := (Array.getElem?_eq_some_iff.mp (cells_of_heap h)).1
  funext x
  rcases x with p' | g | q
  · by_cases hp : p' = p
    · subst hp
      simp [heap, Array.set!_eq_setIfInBounds, hlt]
    · have hi : p.index ≠ p'.index := fun he => hp (by cases p; cases p'; cases he; rfl)
      rw [Function.update_of_ne (by simpa using hp)]
      simp [heap, Array.set!_eq_setIfInBounds, Array.getElem?_setIfInBounds_ne hi]
  · rw [Function.update_of_ne (by simp)]
    rfl
  · rw [Function.update_of_ne (by simp)]
    rfl

theorem heap_append {q : QueueId} {c : Queue V W} (h : m.heap (.queue q) = some (.queue c))
    (tasks : List (Job V W)) :
    (m.append q tasks).heap =
      Function.update m.heap (.queue q) (some (.queue (c.append tasks))) := by
  funext x
  rcases x with p | g | q'
  · rw [Function.update_of_ne (by simp)]
    rfl
  · rw [Function.update_of_ne (by simp)]
    rfl
  · by_cases hq : q' = q
    · subst hq
      simp [heap, append, Array.getElem?_modify, queues_of_heap h]
    · have hi : q.index ≠ q'.index := fun he => hq (by cases q; cases q'; cases he; rfl)
      rw [Function.update_of_ne (by simpa using hq)]
      simp [heap, append, Array.getElem?_modify, hi]

/-- **What settling a pending promise does.** -/
theorem heap_settle {p : Promise} {q : QueueId} {reactions : List (Outcome V → Job V W)}
    {c : Queue V W} (hp : m.heap (.promise p) = some (.cell ⟨q, none, reactions⟩))
    (hq : m.heap (.queue q) = some (.queue c)) (o : Outcome V) :
    (m.settle p o).2.heap =
      Function.update (Function.update m.heap (.promise p) (some (.cell ⟨q, some o, []⟩)))
        (.queue q) (some (.queue (c.append (reactions.map fun reaction => reaction o)))) := by
  have hs : (m.settle p o).2 =
      append { m with cells := m.cells.set! p.index ⟨q, some o, []⟩ } q
        (reactions.map fun reaction => reaction o) := by
    simp only [settle, cells_of_heap hp]
  rw [hs, heap_append (c := c), heap_setCell hp]
  rw [heap_setCell hp, Function.update_of_ne (by simp)]
  exact hq

/-- A reaction to a pending promise waits. -/
theorem heap_subscribe_of_pending {p : Promise} {q : QueueId}
    {reactions : List (Outcome V → Job V W)}
    (hp : m.heap (.promise p) = some (.cell ⟨q, none, reactions⟩))
    (reaction : Outcome V → Job V W) :
    (m.subscribe p reaction).heap =
      Function.update m.heap (.promise p) (some (.cell ⟨q, none, reactions ++ [reaction]⟩)) := by
  rw [← heap_setCell hp]
  simp only [subscribe, cells_of_heap hp]

/-- A reaction to a settled promise is put on its queue. -/
theorem heap_subscribe_of_settled {p : Promise} {q : QueueId} {o : Outcome V}
    {reactions : List (Outcome V → Job V W)} {c : Queue V W}
    (hp : m.heap (.promise p) = some (.cell ⟨q, some o, reactions⟩))
    (hq : m.heap (.queue q) = some (.queue c)) (reaction : Outcome V → Job V W) :
    (m.subscribe p reaction).heap =
      Function.update m.heap (.queue q) (some (.queue (c.append [reaction o]))) := by
  rw [← heap_append hq]
  simp only [subscribe, cells_of_heap hp, enqueue]

theorem pop?_of_heap {q : QueueId} {task : Job V W} {rest : List (Job V W)} {ticks : Nat}
    (h : m.heap (.queue q) = some (.queue ⟨task :: rest, ticks⟩)) :
    ∃ m', m.pop? q = some (task, m') ∧ m'.world = m.world ∧
      m'.heap = Function.update m.heap (.queue q)
        (some (.queue ⟨rest, min (ticks + 1) Queue.maxTicks⟩)) := by
  have hlt : q.index < m.queues.size := (Array.getElem?_eq_some_iff.mp (queues_of_heap h)).1
  refine ⟨{ m with queues := m.queues.set! q.index ⟨rest, min (ticks + 1) Queue.maxTicks⟩ },
    ?_, rfl, ?_⟩
  · simp [pop?, queue_of_heap h, Queue.pop?]
  · funext x
    rcases x with p | g | q'
    · rw [Function.update_of_ne (by simp)]
      rfl
    · rw [Function.update_of_ne (by simp)]
      rfl
    · by_cases hq : q' = q
      · subst hq
        simp [heap, Array.set!_eq_setIfInBounds, hlt]
      · have hi : q.index ≠ q'.index := fun he => hq (by cases q; cases q'; cases he; rfl)
        rw [Function.update_of_ne (by simpa using hq)]
        simp [heap, Array.set!_eq_setIfInBounds, Array.getElem?_setIfInBounds_ne hi]

theorem heap_fill {g : GatherId} {c : Gather V} (h : m.heap (.gather g) = some (.gather c))
    (slot : Nat) (v : V) :
    (m.fill g slot v).1 = (c.fill slot v).values? ∧
      (m.fill g slot v).2.heap =
        Function.update m.heap (.gather g) (some (.gather (c.fill slot v))) := by
  obtain ⟨hlt, hc⟩ := Array.getElem?_eq_some_iff.mp (gathers_of_heap h)
  refine ⟨by simp only [fill, gathers_of_heap h], ?_⟩
  funext x
  rcases x with p | g' | q
  · rw [Function.update_of_ne (by simp)]
    simp only [fill, gathers_of_heap h, heap]
  · by_cases hg : g' = g
    · subst hg
      simp [fill, heap, Array.set!_eq_setIfInBounds, hlt, hc]
    · have hi : g.index ≠ g'.index := fun he => hg (by cases g; cases g'; cases he; rfl)
      rw [Function.update_of_ne (by simpa using hg)]
      simp [fill, gathers_of_heap h, heap, Array.set!_eq_setIfInBounds,
        Array.getElem?_setIfInBounds_ne hi]
  · rw [Function.update_of_ne (by simp)]
    simp only [fill, gathers_of_heap h, heap]

theorem heap_setWorld (w : W) : heap { m with world := w } = m.heap := rfl

/-! ## The world beside the heap -/

@[simp] theorem world_settle {p : Promise} {o : Outcome V} :
    (m.settle p o).2.world = m.world := by
  unfold settle
  split <;> rfl

@[simp] theorem world_subscribe {p : Promise} {reaction : Outcome V → Job V W} :
    (m.subscribe p reaction).world = m.world := by
  unfold subscribe
  split <;> rfl

@[simp] theorem world_fill {g : GatherId} {slot : Nat} {v : V} :
    (m.fill g slot v).2.world = m.world := by
  unfold fill
  split <;> rfl

end Machine

/-! ## Pieces of a heap -/

namespace Heap

variable {h g k : Heap V W}

/-- The heap without any part. -/
def empty : Heap V W := fun _ => none

/-- A heap with one part set. -/
def set (h : Heap V W) (x : Part) (c : Content V W) : Heap V W := Function.update h x (some c)

/-- A heap with one part left out. -/
def erase (h : Heap V W) (x : Part) : Heap V W := Function.update h x none

/-- One heap is a piece of another one. -/
def Within (h g : Heap V W) : Prop := ∀ x c, h x = some c → g x = some c

/-- Two heaps share no part. -/
def Apart (h g : Heap V W) : Prop := ∀ x, h x = none ∨ g x = none

/-- Two heaps as one; the first one goes before. -/
def union (h g : Heap V W) : Heap V W := fun x => (h x).or (g x)

/-- What is left of a heap without the parts of another one. -/
def diff (h g : Heap V W) : Heap V W := fun x => if g x = none then h x else none

/-- The parts of a heap are parts of another one, or new to a third one. -/
def From (h g k : Heap V W) : Prop := ∀ x, g x = none → k x ≠ none → h x = none

@[simp] theorem empty_apply (x : Part) : (empty : Heap V W) x = none := rfl

@[simp] theorem set_self (h : Heap V W) (x : Part) (c : Content V W) : h.set x c x = some c := by
  simp [set]

theorem set_of_ne {x y : Part} (hne : y ≠ x) (h : Heap V W) (c : Content V W) :
    h.set x c y = h y := Function.update_of_ne hne _ _

@[simp] theorem set_set (h : Heap V W) (x : Part) (c c' : Content V W) :
    (h.set x c).set x c' = h.set x c' := Function.update_idem _ _ _

theorem set_comm {x y : Part} (hne : x ≠ y) (h : Heap V W) (c c' : Content V W) :
    (h.set x c).set y c' = (h.set y c').set x c := Function.update_comm hne _ _ _

@[simp] theorem erase_self (h : Heap V W) (x : Part) : h.erase x x = none := by simp [erase]

theorem erase_of_ne {x y : Part} (hne : y ≠ x) (h : Heap V W) : h.erase x y = h y :=
  Function.update_of_ne hne _ _

theorem Within.refl (h : Heap V W) : h.Within h := fun _ _ hx => hx

theorem Within.trans (h₁ : h.Within g) (h₂ : g.Within k) : h.Within k :=
  fun x c hx => h₂ x c (h₁ x c hx)

theorem empty_within (h : Heap V W) : (empty : Heap V W).Within h := fun _ _ hx => by cases hx

theorem Within.eq_none (hw : h.Within g) {x : Part} (hx : g x = none) : h x = none := by
  cases hc : h x with
  | none => rfl
  | some c =>
    rw [hw x c hc] at hx
    cases hx

theorem Within.ne_none (hw : h.Within g) {x : Part} (hx : h x ≠ none) : g x ≠ none :=
  fun hg => hx (hw.eq_none hg)

theorem Within.set (hw : h.Within g) (x : Part) (c : Content V W) :
    (h.set x c).Within (g.set x c) := by
  intro y c' hy
  by_cases hyx : y = x
  · subst hyx
    rw [set_self] at hy ⊢
    exact hy
  · rw [set_of_ne hyx] at hy ⊢
    exact hw y c' hy

/-- A piece stays one where a part that it lacks is set. -/
theorem Within.set_right (hw : h.Within g) {x : Part} (hx : h x = none) (c : Content V W) :
    h.Within (g.set x c) := by
  intro y c' hy
  have hyx : y ≠ x := by
    rintro rfl
    rw [hx] at hy
    cases hy
  rw [set_of_ne hyx]
  exact hw y c' hy

theorem within_set_of_none {x : Part} (hx : h x = none) (c : Content V W) : h.Within (h.set x c) :=
  (Within.refl h).set_right hx c

theorem Apart.symm (ha : h.Apart g) : g.Apart h := fun x => (ha x).symm

theorem Apart.of_within (ha : g.Apart k) (hw : h.Within g) : h.Apart k :=
  fun x => (ha x).imp_left hw.eq_none

theorem Apart.set_right (ha : h.Apart g) {x : Part} (hx : h x = none) (c : Content V W) :
    h.Apart (g.set x c) := by
  intro y
  by_cases hy : y = x
  · exact .inl (hy ▸ hx)
  · rw [set_of_ne hy]
    exact ha y

theorem empty_apart (h : Heap V W) : (empty : Heap V W).Apart h := fun _ => .inl rfl

theorem Apart.eq_none (ha : h.Apart g) {x : Part} (hx : h x ≠ none) : g x = none :=
  (ha x).resolve_left hx

@[simp] theorem union_apply_of_none {x : Part} (hx : h x = none) (g : Heap V W) :
    h.union g x = g x := by
  simp [union, hx]

theorem union_apply_of_ne {x : Part} (hx : h x ≠ none) (g : Heap V W) : h.union g x = h x := by
  cases hc : h x with
  | none => exact absurd hc hx
  | some c => simp [union, hc]

theorem union_eq_none {x : Part} : h.union g x = none ↔ h x = none ∧ g x = none := by
  simp [union]

@[simp] theorem union_empty (h : Heap V W) : h.union empty = h := by
  funext x
  simp [union]

@[simp] theorem empty_union (h : Heap V W) : empty.union h = h := by
  funext x
  simp [union]

theorem union_assoc (h g k : Heap V W) : (h.union g).union k = h.union (g.union k) := by
  funext x
  simp [union, Option.or_assoc]

theorem Apart.union_comm (ha : h.Apart g) : h.union g = g.union h := by
  funext x
  rcases ha x with hx | hx
  · simp [union, hx]
  · simp [union, hx]

theorem within_union_left (h g : Heap V W) : h.Within (h.union g) := fun x c hx => by
  simp [union, hx]

theorem Apart.within_union_right (ha : h.Apart g) : g.Within (h.union g) := by
  rw [ha.union_comm]
  exact within_union_left g h

theorem Within.union (h₁ : h.Within k) (h₂ : g.Within k) : (h.union g).Within k := by
  intro x c hx
  by_cases hn : h x = none
  · rw [union_apply_of_none hn] at hx
    exact h₂ x c hx
  · rw [union_apply_of_ne hn] at hx
    exact h₁ x c hx

theorem Apart.union (h₁ : h.Apart k) (h₂ : g.Apart k) : (h.union g).Apart k := by
  intro x
  rcases h₁ x with hx | hx
  · exact (h₂ x).imp_left fun hg => union_eq_none.mpr ⟨hx, hg⟩
  · exact .inr hx

theorem set_union (h g : Heap V W) (x : Part) (c : Content V W) :
    (h.union g).set x c = (h.set x c).union g := by
  funext y
  by_cases hy : y = x
  · subst hy
    simp [Heap.union]
  · simp only [Heap.union, set_of_ne hy]

theorem apart_diff (h g : Heap V W) : g.Apart (h.diff g) := by
  intro x
  by_cases hx : g x = none
  · exact .inl hx
  · exact .inr (by simp [diff, hx])

theorem diff_within (h g : Heap V W) : (h.diff g).Within h := by
  intro x c hx
  simp only [diff] at hx
  split at hx
  · exact hx
  · cases hx

/-- A heap is a piece of it and what is left. -/
theorem Within.union_diff (hw : g.Within h) : g.union (h.diff g) = h := by
  funext x
  cases hx : g x with
  | none => simp [Heap.union, diff, hx]
  | some c => simp [Heap.union, hx, hw x c hx]

/-- A piece apart from another one lies in what is left without that. -/
theorem Within.diff (hw : h.Within g) (ha : h.Apart k) : h.Within (g.diff k) := by
  intro x c hx
  have hk : k x = none := ha.eq_none (by rw [hx]; simp)
  simp only [Heap.diff, hk, if_true]
  exact hw x c hx

theorem union_set {x : Part} (hx : h x = none) (g : Heap V W) (c : Content V W) :
    h.union (g.set x c) = (h.union g).set x c := by
  funext y
  by_cases hy : y = x
  · subst hy
    simp [hx]
  · simp only [Heap.union, set_of_ne hy]

theorem union_single {x : Part} (hx : h x = none) (c : Content V W) :
    h.union (empty.set x c) = h.set x c := by
  funext y
  by_cases hy : y = x
  · subst hy
    simp [hx]
  · rw [set_of_ne hy]
    simp [Heap.union, set_of_ne hy]

theorem apart_single {x : Part} {c : Content V W} : h.Apart (empty.set x c) ↔ h x = none := by
  refine ⟨fun ha => (ha x).resolve_right (by simp), fun hx y => ?_⟩
  by_cases hy : y = x
  · exact .inl (hy ▸ hx)
  · exact .inr (by rw [set_of_ne hy]; rfl)

theorem From.refl (h k : Heap V W) : h.From h k := fun _ hx _ => hx

/-- What was beside a piece is beside what has become of it. -/
theorem From.apart {h' : Heap V W} (hf : h'.From h g) (ha : h.Apart k) (hk : k.Within g) :
    h'.Apart k := by
  intro x
  by_cases hx : k x = none
  · exact .inr hx
  · exact .inl (hf x ((ha x).resolve_right hx) (hk.ne_none hx))

end Heap

end EntityQuery
