import EntityQuery.Promise.Combinators
import EntityQuery.Proofs.Promise.Ending
import EntityQuery.Proofs.Promise.Heap
import EntityQuery.Proofs.Promise.Requests
import Mathlib.Order.UpperLower.CompleteLattice

/-!
# What promises are known to settle with

A promise is made for something: what it settles with then holds of the world, whenever a reaction gets to see
it. The world only grows, and so does the list of promises with what each of them is made for.

* `Pledge`: what the values of a promise say of the world, from then on. `Stage`: the pledges of all promises
  beside the world, ordered by how both grow.
* `Steps.Honours`: steps that keep the pledges and an invariant of the world, in all that they put off as well,
  and may rely on both. `Steps.Honours.bind`: one after another.
* **`Machine.Honours.run`**: the pledges and the invariant are kept along every run, wherever it ends.
-/

namespace EntityQuery

variable {V W α β : Type}

/-! ## Stages -/

/-- What each outcome of a promise says of the world, from the time when it is settled with that on. -/
abbrev Pledge (V W : Type) [LE W] := Outcome V → UpperSet W

/-- What each value of a promise says of the world; a rejection says nothing. -/
def Pledge.ofValues [LE W] (T : V → UpperSet W) : Pledge V W
  | .ok v => T v
  | .error _ => ⊥

/-- The pledges of the promises, the oldest first, beside a world. -/
structure Stage (V W : Type) [LE W] where
  pledges : List (Pledge V W)
  world : W

section

variable [Preorder W]

@[simp] theorem Pledge.mem_ofValues_ok {T : V → UpperSet W} {v : V} {w : W} :
    w ∈ ofValues T (.ok v) ↔ w ∈ T v := Iff.rfl

@[simp] theorem Pledge.mem_ofValues_error {T : V → UpperSet W} {f : Failure} {w : W} :
    w ∈ ofValues T (.error f) := UpperSet.mem_bot

/-- Later on there are more promises, and the world has grown. -/
instance Stage.instPreorder : Preorder (Stage V W) where
  le g g' := g.pledges <+: g'.pledges ∧ g.world ≤ g'.world
  le_refl g := ⟨List.prefix_rfl, le_rfl⟩
  le_trans _ _ _ h h' := ⟨h.1.trans h'.1, h.2.trans h'.2⟩

namespace Stage

variable {g g' : Stage V W} {p : Promise} {T : Pledge V W} {w w' : W} {o : Outcome V}

/-- The promise is made for something. -/
def Pledged (g : Stage V W) (p : Promise) (T : Pledge V W) : Prop := g.pledges[p.index]? = some T

/-- The outcome is what the promise is made for. -/
def Meets (g : Stage V W) (p : Promise) (w : W) (o : Outcome V) : Prop := ∀ T, g.Pledged p T → w ∈ T o

theorem le_world (g : Stage V W) (h : g.world ≤ w) : g ≤ ⟨g.pledges, w⟩ := ⟨List.prefix_rfl, h⟩

theorem le_concat (g : Stage V W) (T : Pledge V W) : g ≤ ⟨g.pledges ++ [T], g.world⟩ :=
  ⟨List.prefix_append _ _, le_rfl⟩

theorem Pledged.mono (h : g.Pledged p T) (hle : g ≤ g') : g'.Pledged p T := by
  obtain ⟨rest, hrest⟩ := hle.1
  unfold Pledged at h ⊢
  rw [← hrest, List.getElem?_append_left (List.getElem?_eq_some_iff.mp h).1, h]

theorem Pledged.meets (h : g.Pledged p T) (ho : w ∈ T o) : g.Meets p w o := by
  intro T' hT'
  cases Option.some.inj (h.symm.trans hT')
  exact ho

/-- What a promise is made for holds from then on. -/
theorem Meets.grow (h : g.Meets p w o) (hle : w ≤ w') : g.Meets p w' o :=
  fun T hT => (T o).upper hle (h T hT)

/-- The pledge of a promise does not change. -/
theorem Meets.earlier (h : g'.Meets p w o) (hle : g ≤ g') : g.Meets p w o :=
  fun T hT => h T (hT.mono hle)

end Stage

/-! ## Steps -/

variable {I : W → Prop}

/-- Steps that at a stage settle promises with what these are made for only, let the world grow, within `I`,
and put off tasks that do so at any later stage; and the stage and the answer that they come to meet `Q`. -/
inductive Steps.Honours (I : W → Prop) :
    {α : Type} → Stage V W → (Stage V W → α → Prop) → Work V W α → Prop
  | pure {α : Type} {g : Stage V W} {Q : Stage V W → α → Prop} {a : α} (h : Q g a) : Honours I g Q (.pure a)
  | halt {α : Type} {g : Stage V W} {Q : Stage V W → α → Prop} (c : Halt) : Honours I g Q (.halt c)
  | newQueue {α : Type} {g : Stage V W} {Q : Stage V W → α → Prop} {next : QueueId → Work V W α}
    (h : ∀ q, Honours I g Q (next q)) : Honours I g Q (.newQueue next)
  | newPromise {α : Type} {g : Stage V W} {Q : Stage V W → α → Prop} {q : QueueId}
    {next : Promise → Work V W α} (T : Pledge V W)
    (h : ∀ p g', g ≤ g' → g'.Pledged p T → Honours I g' Q (next p)) : Honours I g Q (.newPromise q next)
  | outcome {α : Type} {g : Stage V W} {Q : Stage V W → α → Prop} {p : Promise}
    {next : Option (Outcome V) → Work V W α}
    (h : ∀ o, (∀ r, o = some r → g.Meets p g.world r) → Honours I g Q (next o)) :
    Honours I g Q (.outcome p next)
  | home {α : Type} {g : Stage V W} {Q : Stage V W → α → Prop} {p : Promise}
    {next : QueueId → Work V W α} (h : ∀ q, Honours I g Q (next q)) : Honours I g Q (.home p next)
  | settle {α : Type} {g : Stage V W} {Q : Stage V W → α → Prop} {p : Promise} {o : Outcome V}
    {next : Bool → Work V W α} (ho : g.Meets p g.world o) (h : ∀ b, Honours I g Q (next b)) :
    Honours I g Q (.settle p o next)
  | subscribe {α : Type} {g : Stage V W} {Q : Stage V W → α → Prop} {p : Promise}
    {r : Outcome V → Job V W} {next : Work V W α}
    (hr : ∀ g' o, g ≤ g' → g.Meets p g'.world o → Honours I g' (fun _ _ => True) (r o).steps)
    (h : Honours I g Q next) : Honours I g Q (.subscribe p r next)
  | enqueue {α : Type} {g : Stage V W} {Q : Stage V W → α → Prop} {q : QueueId} {t : Job V W}
    {next : Work V W α} (ht : ∀ g', g ≤ g' → Honours I g' (fun _ _ => True) t.steps)
    (h : Honours I g Q next) : Honours I g Q (.enqueue q t next)
  | drain {α : Type} {g : Stage V W} {Q : Stage V W → α → Prop} {q : QueueId} {d : Drain}
    {next : Bool → Work V W α} (h : ∀ b g', g ≤ g' → Honours I g' Q (next b)) :
    Honours I g Q (.drain q d next)
  | ticks {α : Type} {g : Stage V W} {Q : Stage V W → α → Prop} {q : QueueId} {next : Nat → Work V W α}
    (h : ∀ n, Honours I g Q (next n)) : Honours I g Q (.ticks q next)
  | newGather {α : Type} {g : Stage V W} {Q : Stage V W → α → Prop} {size : Nat}
    {next : GatherId → Work V W α} (h : ∀ i, Honours I g Q (next i)) : Honours I g Q (.newGather size next)
  | fill {α : Type} {g : Stage V W} {Q : Stage V W → α → Prop} {i : GatherId} {slot : Nat} {v : V}
    {next : Option (List V) → Work V W α} (h : ∀ vs, Honours I g Q (next vs)) :
    Honours I g Q (.fill i slot v next)
  | getWorld {α : Type} {g : Stage V W} {Q : Stage V W → α → Prop} {next : W → Work V W α}
    (h : I g.world → Honours I g Q (next g.world)) : Honours I g Q (.getWorld next)
  | setWorld {α : Type} {g : Stage V W} {Q : Stage V W → α → Prop} {w : W} {next : Work V W α}
    (hle : g.world ≤ w) (hw : I w) (h : Honours I ⟨g.pledges, w⟩ Q next) : Honours I g Q (.setWorld w next)

/-- A task that keeps the pledges at any stage from the given one on. -/
def Job.Honours (I : W → Prop) (g : Stage V W) (j : Job V W) : Prop :=
  ∀ g', g ≤ g' → j.steps.Honours I g' fun _ _ => True

/-- A reaction that keeps the pledges at any stage from the given one on, whatever it gets to see of the
promise. -/
def Reaction.Honours (I : W → Prop) (g : Stage V W) (p : Promise) (r : Outcome V → Job V W) : Prop :=
  ∀ g' o, g ≤ g' → g.Meets p g'.world o → (r o).steps.Honours I g' fun _ _ => True

namespace Steps.Honours

variable {g : Stage V W} {Q Q' : Stage V W → α → Prop} {R : Stage V W → β → Prop} {s : Work V W α}

/-- One after another. -/
theorem bind {k : α → Work V W β} (h : s.Honours I g Q)
    (hk : ∀ g' a, g ≤ g' → Q g' a → (k a).Honours I g' R) : (s.bind k).Honours I g R := by
  induction h with
  | pure ha => exact hk _ _ le_rfl ha
  | halt c => exact .halt c
  | newQueue _ ih => exact .newQueue fun q => ih q hk
  | newPromise T _ ih =>
    exact .newPromise T fun p g' hle hp => ih p g' hle hp fun g'' a hle' => hk g'' a (hle.trans hle')
  | outcome _ ih => exact .outcome fun o ho => ih o ho hk
  | home _ ih => exact .home fun q => ih q hk
  | settle ho _ ih => exact .settle ho fun b => ih b hk
  | subscribe hr _ _ ih => exact .subscribe hr (ih hk)
  | enqueue ht _ _ ih => exact .enqueue ht (ih hk)
  | drain _ ih => exact .drain fun b g' hle => ih b g' hle fun g'' a hle' => hk g'' a (hle.trans hle')
  | ticks _ ih => exact .ticks fun n => ih n hk
  | newGather _ ih => exact .newGather fun i => ih i hk
  | fill _ ih => exact .fill fun vs => ih vs hk
  | getWorld _ ih => exact .getWorld fun hw => ih hw hk
  | @setWorld _ g _ w _ hle hw _ ih =>
    exact .setWorld hle hw (ih fun g' a hle' => hk g' a ((g.le_world hle).trans hle'))

theorem mono (h : s.Honours I g Q) (hQ : ∀ g' a, g ≤ g' → Q g' a → Q' g' a) : s.Honours I g Q' := by
  rw [← bind_pure' s]
  exact h.bind fun g' a hle ha => .pure (hQ g' a hle ha)

theorem trivial (h : s.Honours I g Q) : s.Honours I g fun _ _ => True :=
  h.mono fun _ _ _ _ => True.intro

/-- Changing the world. -/
theorem stepWorld {f : W → α × W} (h : I g.world → g.world ≤ (f g.world).2 ∧ I (f g.world).2 ∧
    Q ⟨g.pledges, (f g.world).2⟩ (f g.world).1) : (Steps.stepWorld f : Work V W α).Honours I g Q :=
  .getWorld fun hw => .setWorld (h hw).1 (h hw).2.1 (.pure (h hw).2.2)

end Steps.Honours

/-! ## Runs -/

/-- The stage of a machine whose promises have the given pledges. -/
abbrev Machine.stage (m : Machine V W) (Γ : List (Pledge V W)) : Stage V W := ⟨Γ, m.world⟩

@[simp] theorem Machine.stage_settle (m : Machine V W) (Γ : List (Pledge V W)) (p : Promise)
    (o : Outcome V) : (m.settle p o).2.stage Γ = m.stage Γ := by
  rw [stage, world_settle]

@[simp] theorem Machine.stage_subscribe (m : Machine V W) (Γ : List (Pledge V W)) (p : Promise)
    (r : Outcome V → Job V W) : (m.subscribe p r).stage Γ = m.stage Γ := by
  rw [stage, world_subscribe]

@[simp] theorem Machine.stage_fill (m : Machine V W) (Γ : List (Pledge V W)) (i : GatherId) (slot : Nat)
    (v : V) : (m.fill i slot v).2.stage Γ = m.stage Γ := by
  rw [stage, world_fill]

/-- The world is in `I`, every promise has a pledge and has settled with nothing else, and all that the machine
has put off keeps to the pledges. -/
structure Machine.Honours (I : W → Prop) (Γ : List (Pledge V W)) (m : Machine V W) : Prop where
  world : I m.world
  size : m.cells.size = Γ.length
  settled : ∀ p o, m.outcome? p = some o → (m.stage Γ).Meets p m.world o
  reactions : ∀ p, m.Open p → ∀ r ∈ m.reactions p, Reaction.Honours I (m.stage Γ) p r
  tasks : ∀ q, ∀ j ∈ m.tasks q, j.Honours I (m.stage Γ)

/-- From a stage a run comes to a later one, where the pledges are kept, with an answer that meets `Q` if
there is one. -/
inductive Ended.Honours (I : W → Prop) (g : Stage V W) (Q : Stage V W → α → Prop) : Ended V W α → Prop
  | done {a : α} {m : Machine V W} (Γ : List (Pledge V W)) (hle : g ≤ m.stage Γ) (hm : m.Honours I Γ)
    (ha : Q (m.stage Γ) a) : Honours I g Q (.done a m)
  | halted {c : Halt} {m : Machine V W} (Γ : List (Pledge V W)) (hle : g ≤ m.stage Γ)
    (hm : m.Honours I Γ) : Honours I g Q (.halted c m)

theorem Ended.Honours.earlier {g g' : Stage V W} {Q : Stage V W → α → Prop} {e : Ended V W α}
    (h : e.Honours I g' Q) (hle : g ≤ g') : e.Honours I g Q := by
  cases h with
  | done Γ hle' hm ha => exact .done Γ (hle.trans hle') hm ha
  | halted Γ hle' hm => exact .halted Γ (hle.trans hle') hm

/-- The machine that a run leaves keeps the pledges of all promises made so far. -/
theorem Ended.Honours.machine {g : Stage V W} {Q : Stage V W → α → Prop} {e : Ended V W α}
    (h : e.Honours I g Q) : ∃ Γ, g ≤ e.machine.stage Γ ∧ e.machine.Honours I Γ := by
  cases h with
  | done Γ hle hm _ => exact ⟨Γ, hle, hm⟩
  | halted Γ hle hm => exact ⟨Γ, hle, hm⟩

theorem Ended.honours_of_machine {g : Stage V W} {e : Ended V W α} {Γ : List (Pledge V W)}
    (hle : g ≤ e.machine.stage Γ) (h : e.machine.Honours I Γ) : e.Honours I g fun _ _ => True := by
  cases e with
  | done a m => exact .done Γ hle h trivial
  | halted c m => exact .halted Γ hle h

theorem Job.Honours.later {g g' : Stage V W} {j : Job V W} (h : j.Honours I g) (hle : g ≤ g') :
    j.Honours I g' :=
  fun g'' hle' => h g'' (hle.trans hle')

theorem Reaction.Honours.later {g g' : Stage V W} {p : Promise} {r : Outcome V → Job V W}
    (h : Reaction.Honours I g p r) (hle : g ≤ g') : Reaction.Honours I g' p r :=
  fun g'' o hle' ho => h g'' o (hle.trans hle') (ho.earlier hle)

/-- A reaction to an outcome that meets the pledge is a task. -/
theorem Reaction.Honours.job {g : Stage V W} {p : Promise} {r : Outcome V → Job V W}
    (h : Reaction.Honours I g p r) {o : Outcome V} (ho : g.Meets p g.world o) : (r o).Honours I g :=
  fun g' hle => h g' o hle (ho.grow hle.2)

namespace Machine.Honours

variable {Γ : List (Pledge V W)} {m : Machine V W} {Q : Stage V W → α → Prop} {s : Work V W α}

/-- Where no task waits, the pledges are kept: nothing will settle the promises that are pending. -/
theorem idle (hw : I m.world) (h : ∀ q, m.tasks q = []) : ∃ Γ, m.Honours I Γ := by
  refine ⟨m.cells.toList.map fun c o => if c.outcome?.isSome then ⊥ else ⊤, hw, by simp, ?_, ?_, ?_⟩
  · intro p o ho T hT
    obtain ⟨c, hc, hout⟩ := Option.bind_eq_some_iff.mp ho
    have hT : some (fun o => if c.outcome?.isSome then ⊥ else ⊤) = some T := by
      simpa [Stage.Pledged, hc] using hT
    cases hT
    simp [hout]
  · intro p hp r _ g' o hle ho
    exact absurd (ho (fun _ => ⊤) (by simp [Stage.Pledged, hp.exists_cell])) UpperSet.notMem_top
  · intro q j hj
    rw [h q] at hj
    cases hj

theorem newQueue (h : m.Honours I Γ) : m.newQueue.2.Honours I Γ :=
  ⟨h.world, h.size, h.settled, h.reactions, fun q j hj => h.tasks q j (by simpa using hj)⟩

/-- A new promise takes any pledge. -/
theorem newPromise (h : m.Honours I Γ) (q : QueueId) (T : Pledge V W) :
    (m.newPromise q).2.Honours I (Γ ++ [T]) ∧
      ((m.newPromise q).2.stage (Γ ++ [T])).Pledged (m.newPromise q).1 T := by
  have hle : m.stage Γ ≤ (m.newPromise q).2.stage (Γ ++ [T]) := (m.stage Γ).le_concat T
  have hopen : ∀ p r, (m.newPromise q).2.Open p → r ∈ m.reactions p → m.Open p := by
    intro p r hp hr
    refine ⟨?_, by simpa using hp.2⟩
    by_contra hlt
    simp [Machine.reactions, Array.getElem?_eq_none (Nat.le_of_not_lt hlt)] at hr
  have pledged : ∀ p T', p.index < Γ.length →
      ((m.newPromise q).2.stage (Γ ++ [T])).Pledged p T' → (m.stage Γ).Pledged p T' := by
    intro p T' hlt hT'
    simpa [Stage.Pledged, List.getElem?_append_left hlt] using hT'
  refine ⟨⟨h.world, by simp [Machine.newPromise, h.size], fun p o ho T' hT' => ?_, ?_, ?_⟩, ?_⟩
  · rw [outcome?_newPromise] at ho
    obtain ⟨c, hc, -⟩ := Option.bind_eq_some_iff.mp ho
    have hlt : p.index < Γ.length := h.size ▸ (Array.getElem?_eq_some_iff.mp hc).1
    exact h.settled p o ho T' (pledged p T' hlt hT')
  · intro p hp r hr
    rw [reactions_newPromise] at hr
    exact (h.reactions p (hopen p r hp hr) r hr).later hle
  · exact fun q' j hj => (h.tasks q' j (by simpa using hj)).later hle
  · simp [Stage.Pledged, Machine.newPromise, h.size]

/-- Settling a promise with what it is made for. -/
theorem settle (h : m.Honours I Γ) {p : Promise} {o : Outcome V}
    (ho : (m.stage Γ).Meets p m.world o) : (m.settle p o).2.Honours I Γ := by
  refine ⟨by rw [world_settle]; exact h.world, by rw [size_cells_settle]; exact h.size, ?_, ?_, ?_⟩
  · intro p' o' ho'
    rw [stage_settle, world_settle]
    rw [outcome?_settle_eq] at ho'
    split at ho'
    · next hp =>
      cases ho'
      exact hp.1 ▸ ho
    · exact h.settled p' o' ho'
  · intro p' hp' r hr
    have hopen : m.Open p' := by
      refine ⟨by simpa using hp'.1, ?_⟩
      have hnone := hp'.2
      rw [outcome?_settle_eq] at hnone
      split at hnone
      · cases hnone
      · exact hnone
    rw [stage_settle]
    rw [reactions_settle] at hr
    split at hr
    · cases hr
    · exact h.reactions p' hopen r hr
  · intro q j hj
    rw [stage_settle]
    rw [tasks_settle] at hj
    split at hj
    · next hopen =>
      rcases List.mem_append.mp hj with hj | hj
      · exact h.tasks q j hj
      · obtain ⟨r, hr, rfl⟩ := List.mem_map.mp hj
        exact (h.reactions p hopen.1 r hr).job ho
    · exact h.tasks q j hj

/-- A reaction to a settled promise sees what the promise is made for. -/
theorem subscribe (h : m.Honours I Γ) {p : Promise} {r : Outcome V → Job V W}
    (hr : Reaction.Honours I (m.stage Γ) p r) : (m.subscribe p r).Honours I Γ := by
  refine ⟨by rw [world_subscribe]; exact h.world, by rw [size_cells_subscribe]; exact h.size, ?_, ?_, ?_⟩
  · intro p' o ho
    rw [stage_subscribe, world_subscribe]
    exact h.settled p' o (by simpa using ho)
  · intro p' hp' r' hr'
    have hopen : m.Open p' := ⟨by simpa using hp'.1, by simpa using hp'.2⟩
    rw [stage_subscribe]
    rw [reactions_subscribe] at hr'
    split at hr'
    · next hp =>
      rcases List.mem_append.mp hr' with hr' | hr'
      · exact h.reactions p' hopen r' hr'
      · cases List.mem_singleton.mp hr'
        exact hp.1 ▸ hr
    · exact h.reactions p' hopen r' hr'
  · intro q j hj
    rw [stage_subscribe]
    rw [tasks_subscribe] at hj
    rcases List.mem_append.mp hj with hj | hj
    · exact h.tasks q j hj
    · split at hj
      · next o ho =>
        split at hj
        · cases List.mem_singleton.mp hj
          exact hr.job (h.settled p _ ho)
        · cases hj
      · cases hj

theorem enqueue (h : m.Honours I Γ) (q : QueueId) {j : Job V W} (hj : j.Honours I (m.stage Γ)) :
    (m.enqueue q j).Honours I Γ := by
  refine ⟨h.world, h.size, h.settled, h.reactions, fun q' j' hj' => ?_⟩
  rw [Machine.enqueue, tasks_append] at hj'
  split at hj'
  · rcases List.mem_append.mp hj' with hj' | hj'
    · exact h.tasks q' j' hj'
    · cases List.mem_singleton.mp hj'
      exact hj
  · exact h.tasks q' j' hj'

theorem fill (h : m.Honours I Γ) (i : GatherId) (slot : Nat) (v : V) :
    (m.fill i slot v).2.Honours I Γ := by
  unfold Machine.fill
  split <;> exact ⟨h.world, h.size, h.settled, h.reactions, h.tasks⟩

/-- The world may grow. -/
theorem setWorld (h : m.Honours I Γ) {w : W} (hle : m.world ≤ w) (hw : I w) :
    ({ m with world := w } : Machine V W).Honours I Γ := by
  have later : m.stage Γ ≤ ({ m with world := w } : Machine V W).stage Γ := (m.stage Γ).le_world hle
  exact ⟨hw, h.size, fun p o ho => (h.settled p o ho).grow hle,
    fun p hp r hr => (h.reactions p hp r hr).later later, fun q j hj => (h.tasks q j hj).later later⟩

/-- What waits in a queue keeps the pledges, and so does the rest. -/
theorem pop? (h : m.Honours I Γ) {q : QueueId} {j : Job V W} {m' : Machine V W}
    (hpop : m.pop? q = some (j, m')) :
    j.Honours I (m.stage Γ) ∧ m'.Honours I Γ ∧ m'.world = m.world := by
  obtain ⟨hq, hother, hcells, -, -⟩ := tasks_pop? hpop
  have hworld := (ticks_pop? hpop).2.2
  have hstage : m'.stage Γ = m.stage Γ := by rw [Machine.stage, hworld]
  have houtcome : ∀ p, m'.outcome? p = m.outcome? p := fun p => by rw [outcome?, outcome?, hcells]
  refine ⟨h.tasks q j (by rw [hq]; exact List.mem_cons_self), ⟨by rw [hworld]; exact h.world,
    by rw [hcells]; exact h.size, ?_, ?_, ?_⟩, hworld⟩
  · intro p o ho
    rw [hstage, hworld]
    exact h.settled p o (houtcome p ▸ ho)
  · intro p hp r hr
    rw [hstage]
    refine h.reactions p ⟨by rw [← hcells]; exact hp.1, houtcome p ▸ hp.2⟩ r ?_
    simpa [Machine.reactions, hcells] using hr
  · intro q' j' hj'
    rw [hstage]
    by_cases he : q' = q
    · subst he
      exact h.tasks q' j' (by rw [hq]; exact List.mem_cons_of_mem _ hj')
    · exact h.tasks q' j' (by rwa [← hother q' he])

/-- Running steps, where draining keeps the pledges. -/
theorem steps_run {drain : QueueId → Drain → Machine V W → Ended V W Bool}
    (hdrain : ∀ q d m Γ, m.Honours I Γ → (drain q d m).Honours I (m.stage Γ) fun _ _ => True)
    (hs : s.Honours I (m.stage Γ) Q) (hm : m.Honours I Γ) :
    (s.run drain m).Honours I (m.stage Γ) Q := by
  generalize hg : m.stage Γ = g at hs
  induction hs generalizing m Γ with
  | pure ha => exact .done Γ hg.ge hm (hg ▸ ha)
  | halt c => exact .halted Γ hg.ge hm
  | newQueue _ ih => exact ih _ hm.newQueue hg
  | newPromise T _ ih =>
    subst hg
    obtain ⟨hm', hpledged⟩ := hm.newPromise _ T
    have hle := (m.stage Γ).le_concat T
    exact (ih _ _ hle hpledged hm' rfl).earlier hle
  | outcome _ ih => exact ih _ (fun o ho => hg ▸ hm.settled _ o ho) hm hg
  | home _ ih => exact ih _ hm hg
  | settle ho _ ih =>
    subst hg
    exact ih _ (hm.settle ho) (m.stage_settle Γ _ _)
  | subscribe hr _ _ ih =>
    subst hg
    exact ih (hm.subscribe hr) (m.stage_subscribe Γ _ _)
  | enqueue ht _ _ ih =>
    subst hg
    exact ih (hm.enqueue _ ht) rfl
  | @drain _ g _ q d next _ ih =>
    subst hg
    have h := hdrain q d m Γ hm
    simp only [Steps.run]
    revert h
    generalize drain q d m = e
    rintro (⟨Γ', hle, hm', -⟩ | ⟨Γ', hle, hm'⟩)
    · exact (ih _ _ hle hm' rfl).earlier hle
    · exact .halted Γ' hle hm'
  | ticks _ ih => exact ih _ hm hg
  | newGather _ ih => exact ih _ ⟨hm.world, hm.size, hm.settled, hm.reactions, hm.tasks⟩ hg
  | fill _ ih =>
    subst hg
    exact ih _ (hm.fill _ _ _) (m.stage_fill Γ _ _ _)
  | getWorld _ ih =>
    subst hg
    exact ih hm.world hm rfl
  | setWorld hle hw _ ih =>
    subst hg
    exact (ih (hm.setWorld hle hw) rfl).earlier ((m.stage Γ).le_world hle)

/-- Draining a queue keeps the pledges, as each task does at the stage where it starts. -/
theorem drain (limit : Nat) (q : QueueId) (d : Drain) (hm : m.Honours I Γ) :
    (m.drain limit q d).Honours I (m.stage Γ) fun _ _ => True := by
  let P (m m' : Machine V W) : Prop :=
    ∀ Γ, m.Honours I Γ → ∃ Γ', m.stage Γ ≤ m'.stage Γ' ∧ m'.Honours I Γ'
  have hleads : P m (m.drain limit q d).machine := by
    refine Machine.drain_leads (fun _ Γ hm => ⟨Γ, le_rfl, hm⟩) ?_ ?_ limit q d m
    · intro m₁ m₂ m₃ h h' Γ hm₁
      obtain ⟨Γ₂, hle, hm₂⟩ := h Γ hm₁
      obtain ⟨Γ₃, hle', hm₃⟩ := h' Γ₂ hm₂
      exact ⟨Γ₃, hle.trans hle', hm₃⟩
    · intro m q task m₁ hpop drain hdrain Γ hm
      obtain ⟨htask, hm₁, hworld⟩ := hm.pop? hpop
      have hstage : m₁.stage Γ = m.stage Γ := by rw [Machine.stage, hworld]
      rw [← hstage] at htask ⊢
      refine (hm₁.steps_run (fun q d m Γ hm => ?_) (htask _ le_rfl)).machine
      obtain ⟨Γ', hle, hm'⟩ := hdrain q d m Γ hm
      exact Ended.honours_of_machine hle hm'
  obtain ⟨Γ', hle, hm'⟩ := hleads Γ hm
  exact Ended.honours_of_machine hle hm'

/-- **Steps that keep the pledges keep them along every run.** -/
theorem run (limit : Nat) (hm : m.Honours I Γ) (hs : s.Honours I (m.stage Γ) Q) :
    (m.run limit s).Honours I (m.stage Γ) Q :=
  hm.steps_run (fun q d _ _ hm => hm.drain limit q d) hs

end Machine.Honours

end

end EntityQuery
