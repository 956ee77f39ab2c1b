import EntityQuery.Proofs.Promise.Requests
import Mathlib.Data.Set.Insert

/-!
# Tasks that keep to what is theirs

A task may be sure of the promises that it was given and of those that it has made. It has no way to
name any other.

* `Steps.Tame`: steps that never halt and settle, follow and fill only what they know of.
* `Job.Calm`: tasks that never halt.
* `Machine.Every`: a property of all that a machine has put off, kept by every request.
* `Machine.Tame`: all that a machine has put off keeps to the promises and lists that are there.
-/

namespace EntityQuery

variable {V W : Type}

/-- Steps that never halt, and that settle promises, subscribe to them and fill lists only where they
were given them or have made them. -/
inductive Steps.Tame : {α : Type} → Set Promise → Set GatherId → Work V W α → Prop
  | pure {α : Type} {ps gs} (a : α) : Tame ps gs (.pure a)
  | newQueue {α : Type} {ps gs} {next : QueueId → Work V W α} (h : ∀ q, Tame ps gs (next q)) :
    Tame ps gs (.newQueue next)
  | newPromise {α : Type} {ps gs} {q : QueueId} {next : Promise → Work V W α}
    (h : ∀ p, Tame (insert p ps) gs (next p)) : Tame ps gs (.newPromise q next)
  | outcome {α : Type} {ps gs} {p : Promise} {next : Option (Outcome V) → Work V W α}
    (h : ∀ o, Tame ps gs (next o)) : Tame ps gs (.outcome p next)
  | home {α : Type} {ps gs} {p : Promise} {next : QueueId → Work V W α}
    (h : ∀ q, Tame ps gs (next q)) : Tame ps gs (.home p next)
  | settle {α : Type} {ps gs} {p : Promise} {o : Outcome V} {next : Bool → Work V W α}
    (hp : p ∈ ps) (h : ∀ b, Tame ps gs (next b)) : Tame ps gs (.settle p o next)
  | subscribe {α : Type} {ps gs} {p : Promise} {r : Outcome V → Job V W} {next : Work V W α}
    (hp : p ∈ ps) (hr : ∀ o, Tame ps gs (r o).steps) (h : Tame ps gs next) :
    Tame ps gs (.subscribe p r next)
  | enqueue {α : Type} {ps gs} {q : QueueId} {t : Job V W} {next : Work V W α}
    (ht : Tame ps gs t.steps) (h : Tame ps gs next) : Tame ps gs (.enqueue q t next)
  | drain {α : Type} {ps gs} {q : QueueId} {d : Drain} {next : Bool → Work V W α}
    (h : ∀ b, Tame ps gs (next b)) : Tame ps gs (.drain q d next)
  | ticks {α : Type} {ps gs} {q : QueueId} {next : Nat → Work V W α}
    (h : ∀ n, Tame ps gs (next n)) : Tame ps gs (.ticks q next)
  | newGather {α : Type} {ps gs} {size : Nat} {next : GatherId → Work V W α}
    (h : ∀ g, Tame ps (insert g gs) (next g)) : Tame ps gs (.newGather size next)
  | fill {α : Type} {ps gs} {g : GatherId} {slot : Nat} {v : V}
    {next : Option (List V) → Work V W α} (hg : g ∈ gs) (h : ∀ vs, Tame ps gs (next vs)) :
    Tame ps gs (.fill g slot v next)
  | getWorld {α : Type} {ps gs} {next : W → Work V W α} (h : ∀ w, Tame ps gs (next w)) :
    Tame ps gs (.getWorld next)
  | setWorld {α : Type} {ps gs} {w : W} {next : Work V W α} (h : Tame ps gs next) :
    Tame ps gs (.setWorld w next)

namespace Steps.Tame

/-- What keeps to some promises keeps to more of them. -/
theorem mono {α : Type} {ps ps' : Set Promise} {gs gs' : Set GatherId} {s : Work V W α}
    (h : s.Tame ps gs) (hps : ps ⊆ ps') (hgs : gs ⊆ gs') : s.Tame ps' gs' := by
  induction h generalizing ps' gs' with
  | pure a => exact .pure a
  | newQueue _ ih => exact .newQueue fun q => ih q hps hgs
  | newPromise _ ih => exact .newPromise fun p => ih p (Set.insert_subset_insert hps) hgs
  | outcome _ ih => exact .outcome fun o => ih o hps hgs
  | home _ ih => exact .home fun q => ih q hps hgs
  | settle hp _ ih => exact .settle (hps hp) fun b => ih b hps hgs
  | subscribe hp _ _ ihr ih =>
    exact .subscribe (hps hp) (fun o => ihr o hps hgs) (ih hps hgs)
  | enqueue _ _ iht ih => exact .enqueue (iht hps hgs) (ih hps hgs)
  | drain _ ih => exact .drain fun b => ih b hps hgs
  | ticks _ ih => exact .ticks fun n => ih n hps hgs
  | newGather _ ih => exact .newGather fun g => ih g hps (Set.insert_subset_insert hgs)
  | fill hg _ ih => exact .fill (hgs hg) fun vs => ih vs hps hgs
  | getWorld _ ih => exact .getWorld fun w => ih w hps hgs
  | setWorld _ ih => exact .setWorld (ih hps hgs)

/-- One after another; what comes after knows of what was made before. -/
theorem bind {α β : Type} {ps : Set Promise} {gs : Set GatherId} {s : Work V W α}
    {k : α → Work V W β} (h : s.Tame ps gs)
    (hk : ∀ ps' gs', ps ⊆ ps' → gs ⊆ gs' → ∀ a, (k a).Tame ps' gs') : (s.bind k).Tame ps gs := by
  induction h with
  | pure a => exact hk _ _ subset_rfl subset_rfl a
  | newQueue _ ih => exact .newQueue fun q => ih q hk
  | newPromise _ ih =>
    exact .newPromise fun p => ih p fun ps' gs' hps => hk ps' gs' ((Set.subset_insert _ _).trans hps)
  | outcome _ ih => exact .outcome fun o => ih o hk
  | home _ ih => exact .home fun q => ih q hk
  | settle hp _ ih => exact .settle hp fun b => ih b hk
  | subscribe hp hr _ _ ih => exact .subscribe hp hr (ih hk)
  | enqueue ht _ _ ih => exact .enqueue ht (ih hk)
  | drain _ ih => exact .drain fun b => ih b hk
  | ticks _ ih => exact .ticks fun n => ih n hk
  | newGather _ ih =>
    exact .newGather fun g => ih g fun ps' gs' hps hgs =>
      hk ps' gs' hps ((Set.subset_insert _ _).trans hgs)
  | fill hg _ ih => exact .fill hg fun vs => ih vs hk
  | getWorld _ ih => exact .getWorld fun w => ih w hk
  | setWorld _ ih => exact .setWorld (ih hk)

end Steps.Tame

/-- Steps that never halt. -/
def Steps.Calm {α : Type} (s : Work V W α) : Prop := s.Tame Set.univ Set.univ

theorem Steps.Tame.calm {α : Type} {ps : Set Promise} {gs : Set GatherId} {s : Work V W α}
    (h : s.Tame ps gs) : s.Calm := h.mono (Set.subset_univ _) (Set.subset_univ _)

/-- A task that never halts. -/
def Job.Calm (j : Job V W) : Prop := j.steps.Calm

namespace Steps.Calm

theorem newPromise {α : Type} {q : QueueId} {next : Promise → Work V W α}
    (h : ∀ p, (next p).Calm) : Calm (.newPromise q next) :=
  Tame.newPromise fun p => Tame.mono (h p) (Set.subset_insert _ _) subset_rfl

theorem newGather {α : Type} {size : Nat} {next : GatherId → Work V W α}
    (h : ∀ g, (next g).Calm) : Calm (.newGather size next) :=
  Tame.newGather fun g => Tame.mono (h g) subset_rfl (Set.subset_insert _ _)

theorem settle {α : Type} {p : Promise} {o : Outcome V} {next : Bool → Work V W α}
    (h : ∀ b, (next b).Calm) : Calm (.settle p o next) :=
  Tame.settle trivial h

theorem subscribe {α : Type} {p : Promise} {r : Outcome V → Job V W} {next : Work V W α}
    (hr : ∀ o, (r o).Calm) (h : next.Calm) : Calm (.subscribe p r next) :=
  Tame.subscribe trivial hr h

/-- One after another. -/
theorem bind {α β : Type} {s : Work V W α} {k : α → Work V W β} (h : s.Calm)
    (hk : ∀ a, (k a).Calm) : (s.bind k).Calm :=
  Tame.bind h fun _ _ hps hgs a => Tame.mono (hk a) hps hgs

end Steps.Calm

namespace Machine

/-- Every task that waits has a property, and so has every task that a reaction may come to. -/
structure Every (P : Job V W → Prop) (m : Machine V W) : Prop where
  tasks : ∀ q, ∀ j ∈ m.tasks q, P j
  reactions : ∀ p, ∀ r ∈ m.reactions p, ∀ o, P (r o)

namespace Every

variable {P : Job V W → Prop} {m : Machine V W}

theorem mono {P' : Job V W → Prop} (h : m.Every P) (hP : ∀ j, P j → P' j) : m.Every P' :=
  ⟨fun q j hj => hP j (h.tasks q j hj), fun p r hr o => hP _ (h.reactions p r hr o)⟩

theorem start (world : W) : (Machine.start world : Machine V W).Every P :=
  ⟨fun q j hj => by simp [Machine.start, Machine.tasks, Machine.queue] at hj,
    fun p r hr => by simp [Machine.start, Machine.reactions] at hr⟩

theorem newQueue (h : m.Every P) : m.newQueue.2.Every P :=
  ⟨fun q j hj => h.tasks q j (by simpa using hj), h.reactions⟩

theorem newPromise (h : m.Every P) (q : QueueId) : (m.newPromise q).2.Every P :=
  ⟨h.tasks, fun p r hr => h.reactions p r (by simpa using hr)⟩

theorem append (h : m.Every P) (q : QueueId) {ts : List (Job V W)} (hts : ∀ t ∈ ts, P t) :
    (m.append q ts).Every P := by
  refine ⟨fun q' j hj => ?_, h.reactions⟩
  rw [tasks_append] at hj
  split at hj
  · exact (List.mem_append.mp hj).elim (h.tasks q' j) (hts j)
  · exact h.tasks q' j hj

theorem settle (h : m.Every P) (p : Promise) (o : Outcome V) : (m.settle p o).2.Every P := by
  refine ⟨fun q j hj => ?_, fun p' r hr => ?_⟩
  · rw [tasks_settle] at hj
    split at hj
    · rcases List.mem_append.mp hj with hj | hj
      · exact h.tasks q j hj
      · obtain ⟨r, hr, rfl⟩ := List.mem_map.mp hj
        exact h.reactions p r hr o
    · exact h.tasks q j hj
  · rw [reactions_settle] at hr
    split at hr
    · simp at hr
    · exact h.reactions p' r hr

theorem subscribe (h : m.Every P) (p : Promise) {r : Outcome V → Job V W} (hr : ∀ o, P (r o)) :
    (m.subscribe p r).Every P := by
  refine ⟨fun q j hj => ?_, fun p' r' hr' => ?_⟩
  · rw [tasks_subscribe] at hj
    rcases List.mem_append.mp hj with hj | hj
    · exact h.tasks q j hj
    · split at hj
      · split at hj
        · obtain rfl := List.mem_singleton.mp hj
          exact hr _
        · simp at hj
      · simp at hj
  · rw [reactions_subscribe] at hr'
    split at hr'
    · rcases List.mem_append.mp hr' with hr' | hr'
      · exact h.reactions p' r' hr'
      · obtain rfl := List.mem_singleton.mp hr'
        exact hr
    · exact h.reactions p' r' hr'

theorem fill (h : m.Every P) (g : GatherId) (slot : Nat) (v : V) : (m.fill g slot v).2.Every P := by
  unfold Machine.fill
  split <;> exact ⟨h.tasks, h.reactions⟩

/-- What a machine has put off is a task and what else it has put off. -/
theorem pop? (h : m.Every P) {q : QueueId} {j : Job V W} {m' : Machine V W}
    (hpop : m.pop? q = some (j, m')) : P j ∧ m'.Every P := by
  obtain ⟨hq, hother, hcells, -, -⟩ := tasks_pop? hpop
  refine ⟨h.tasks q j (by simp [hq]), fun q' j' hj' => ?_, fun p r hr => ?_⟩
  · by_cases he : q' = q
    · subst he
      exact h.tasks q' j' (by simp [hq, hj'])
    · exact h.tasks q' j' (by rwa [← hother q' he])
  · exact h.reactions p r (by simpa [Machine.reactions, hcells] using hr)

end Every

/-- All that a machine has put off never halts, and keeps to the promises and lists that are there. -/
def Tame (m : Machine V W) : Prop :=
  m.Every fun j => j.steps.Tame { p | p.index < m.cells.size } { g | g.index < m.gathers.size }

theorem Tame.calm {m : Machine V W} (h : m.Tame) : m.Every Job.Calm := h.mono fun _ hj => hj.calm

end Machine

end EntityQuery
