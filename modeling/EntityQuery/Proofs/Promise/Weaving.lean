import EntityQuery.Proofs.Promise.Mirroring
import Mathlib.Data.Set.Insert
import Mathlib.Logic.Function.Basic

/-!
# Runs that share a queue

Several runs go on on one machine and put their tasks on one main queue, in whatever order. Each of them mirrors
a run that has a machine to itself: what it owns of the shared machine stands for the parts of its own one, and
its tasks among those of the main queue are, in order, those of its own main queue. A run spares what the others
own, so whichever task comes next, its owner makes the step that it would make alone.

* `Pairing.Apart`: runs that own nothing in common but the queue. **`Mirror.Sim.beside`**: a run beside another
  one is as it was.
* `Machine.Ran`: tasks of a queue that have been run one by one. **`Machine.Ran.ends_drain`**: draining from
  there comes to the same.
* `Loom`, **`Woven`**: the runs, and what they share. `Woven.join`: one more run; `Woven.advance`: one of them
  goes on.
* **`Woven.ends_drain`**, **`Woven.ends_wait`**: waiting for one of the runs moves the others on, and gives what
  waiting for it alone gives.
-/

namespace EntityQuery

variable {V W ι : Type}

/-! ## Runs that own nothing in common -/

/-- Two pairings of one machine that have no part in common but a queue. -/
structure Pairing.Apart (q : QueueId) (Γ Δ : Pairing) : Prop where
  promise : ∀ {p a b}, Γ.promise p a → ¬Δ.promise p b
  queue : ∀ {r a b}, Γ.queue r a → Δ.queue r b → r = q
  gather : ∀ {g a b}, Γ.gather g a → ¬Δ.gather g b

theorem Pairing.Apart.symm {q : QueueId} {Γ Δ : Pairing} (h : Γ.Apart q Δ) : Δ.Apart q Γ :=
  ⟨fun hp hp' => h.promise hp' hp, fun hr hr' => h.queue hr' hr, fun hg hg' => h.gather hg' hg⟩

/-- The pairing of two main queues, and of nothing else. -/
def Pairing.main (q q' : QueueId) : Pairing where
  promise _ _ := False
  queue r r' := r = q ∧ r' = q'
  gather _ _ := False
  homed _ _ := False

theorem Pairing.apart_main (q q' : QueueId) (Γ : Pairing) : Γ.Apart q (.main q q') :=
  ⟨fun _ => id, fun _ hr => hr.1, fun _ => id⟩

namespace Mirror

open Machine

variable {L L' : Mirror V W} {Γ Γ₂ Δ : Pairing} {m m' m₂ : Machine V W}

/-- Two main queues, the second one without tasks, stand for each other. -/
theorem sim_main (hq : L.queue.index < m.queues.size) (hq' : L.queue'.index < m'.queues.size)
    (hw : L.world m.world m'.world) : L.Sim (.main L.queue L.queue') m m' where
  main := ⟨rfl, rfl⟩
  promise_iff h := h.elim
  queue_iff := by
    rintro _ _ _ _ ⟨rfl, rfl⟩ ⟨rfl, rfl⟩
    exact iff_of_true rfl rfl
  gather_iff h := h.elim
  promise h := h.elim
  homed h := h.elim
  queue := by
    rintro _ _ ⟨rfl, rfl⟩
    exact ⟨hq, hq', fun hne => absurd rfl hne⟩
  gather h := h.elim
  world := hw

section

variable (hs : L.Spares Γ m Γ₂ m₂) (h : L'.Sim Δ m m')

include hs h

/-- **A run beside another one** that owns nothing of it is as it was. -/
theorem Sim.beside (ha : Δ.Apart L'.queue Γ) (hw : L'.world m₂.world m'.world) :
    L'.Sim Δ m₂ m' :=
  { h with
    promise := fun hp => (h.promise hp).of_cells le_rfl
      (hs.cells (h.promise hp).lt fun _ => ha.promise hp) rfl
    homed := fun {p q} hh => by
      obtain ⟨⟨p', hp⟩, he⟩ := h.homed hh
      refine ⟨⟨p', hp⟩, ?_⟩
      unfold Machine.home at he ⊢
      rw [hs.cells (h.promise hp).lt fun _ => ha.promise hp, he]
    queue := fun {r r'} hr => ⟨(h.queue hr).lt.trans_le hs.queues_le, (h.queue hr).lt', fun hne => by
      rw [hs.tasks (h.queue hr).lt fun _ hr' => hne (ha.queue hr hr')]
      exact (h.queue hr).tasks hne⟩
    gather := fun hg => by
      obtain ⟨c, c', hc, hc', hcc⟩ := h.gather hg
      refine ⟨c, c', ?_, hc', hcc⟩
      rw [hs.gathers (Array.getElem?_eq_some_iff.mp hc).1 fun _ => ha.gather hg, hc]
    world := hw }

theorem Spares.apart (ha : Δ.Apart L'.queue Γ) : Δ.Apart L'.queue Γ₂ where
  promise hp hp' := (hs.promise_new hp').elim (ha.promise hp) (Nat.not_le.mpr (h.promise hp).lt)
  queue hr hr' := (hs.queue_new hr').elim (ha.queue hr) fun hle =>
    absurd (h.queue hr).lt (Nat.not_lt.mpr hle)
  gather hg hg' := (hs.gather_new hg').elim (ha.gather hg) fun hle => by
    obtain ⟨c, c', hc, -⟩ := h.gather hg
    exact absurd (Array.getElem?_eq_some_iff.mp hc).1 (Nat.not_lt.mpr hle)

end

end Mirror

/-! ## Tasks that have been run one by one -/

/-- The oldest tasks of a queue have been run one by one; what was settled before has stayed so. -/
inductive Machine.Ran (q : QueueId) : Machine V W → Machine V W → Prop
  | refl (m : Machine V W) : Ran q m m
  | step {m m₁ m₂ n : Machine V W} {j : Job V W} (hpop : m.pop? q = some (j, m₁))
      (hj : Work.Ends False j.steps m₁ fun _ m => m = m₂)
      (hkept : ∀ {p o}, m.outcome? p = some o → m₂.outcome? p = some o) (h : Ran q m₂ n) : Ran q m n

namespace Machine.Ran

variable {q : QueueId} {m n n₂ : Machine V W}

theorem trans (h : Ran q m n) (h' : Ran q n n₂) : Ran q m n₂ := by
  induction h with
  | refl => exact h'
  | step hpop hj hkept _ ih => exact .step hpop hj hkept (ih h')

theorem kept (h : Ran q m n) {p : Promise} {o : Outcome V} (ho : m.outcome? p = some o) :
    n.outcome? p = some o := by
  induction h with
  | refl => exact ho
  | step _ _ hkept _ ih => exact ih (hkept ho)

/-- **Draining from the start comes to the same**, if no task was left in the end or the promise was settled. -/
theorem ends_drain (h : Ran q m n) {p : Promise} (hend : n.outcome? p ≠ none ∨ n.tasks q = []) :
    Ends False (fun limit => m.drain limit q (.until p)) fun _ n' => n'.outcome? p = n.outcome? p := by
  induction h with
  | refl m =>
    cases ho : m.outcome? p with
    | some o => exact ends_drain_of_reached (by simp [reached, ho]) ho
    | none => exact ends_drain_of_empty (hend.resolve_left fun hne => hne ho) ho
  | @step m _ _ _ _ hpop hj hkept hran ih =>
    cases ho : m.outcome? p with
    | some o =>
      exact ends_drain_of_reached (by simp [reached, ho]) (ho.trans (hran.kept (hkept ho)).symm)
    | none => exact ends_drain_of_pop ho hpop (hj.mono fun _ _ he => he ▸ ih hend)

end Machine.Ran

/-! ## Owners of tasks -/

section

variable [DecidableEq ι]

/-- The tasks of one owner, in order. -/
def ownedBy (i : ι) (owned : List (ι × Job V W)) : List (Job V W) :=
  owned.filterMap fun x => if x.1 = i then some x.2 else none

variable {i j : ι} {owned : List (ι × Job V W)}

@[simp] theorem ownedBy_append (ts : List (ι × Job V W)) :
    ownedBy i (owned ++ ts) = ownedBy i owned ++ ownedBy i ts := List.filterMap_append

@[simp] theorem ownedBy_cons_self (t : Job V W) : ownedBy i ((i, t) :: owned) = t :: ownedBy i owned := by
  simp [ownedBy]

theorem ownedBy_cons_of_ne (h : i ≠ j) (t : Job V W) :
    ownedBy j ((i, t) :: owned) = ownedBy j owned := by
  simp [ownedBy, h]

@[simp] theorem ownedBy_map_self (ts : List (Job V W)) : ownedBy i (ts.map (i, ·)) = ts := by
  induction ts with
  | nil => rfl
  | cons t ts ih => rw [List.map_cons, ownedBy_cons_self, ih]

theorem ownedBy_map_of_ne (h : i ≠ j) (ts : List (Job V W)) : ownedBy j (ts.map (i, ·)) = [] := by
  induction ts with
  | nil => rfl
  | cons t ts ih => rw [List.map_cons, ownedBy_cons_of_ne h, ih]

end

/-! ## Runs that share a queue -/

/-- Runs that share a queue: which of them are under way, and what each of them mirrors. -/
structure Loom (ι V W : Type) where
  queue : QueueId
  here : Set ι
  mirror : ι → Mirror V W

/-- The loom with one more run. -/
def Loom.join [DecidableEq ι] (T : Loom ι V W) (i : ι) (L : Mirror V W) : Loom ι V W where
  queue := T.queue
  here := insert i T.here
  mirror := Function.update T.mirror i L

/-- The runs on a shared machine, and those that they mirror on their own machines; each task of the shared queue
has an owner. -/
structure Woven [DecidableEq ι] (T : Loom ι V W) (Γ : ι → Pairing) (m : Machine V W)
    (m' : ι → Machine V W) (owned : List (ι × Job V W)) : Prop where
  queue : ∀ i ∈ T.here, (T.mirror i).queue = T.queue
  calm : ∀ i ∈ T.here, ¬(T.mirror i).halts
  frame : ∀ i ∈ T.here, ∀ j ∈ T.here, i ≠ j → ∀ {w w₂ w'}, (T.mirror i).frame w w₂ →
    (T.mirror j).world w w' → (T.mirror j).world w₂ w'
  sim : ∀ i ∈ T.here, (T.mirror i).Sim (Γ i) m (m' i)
  apart : ∀ i ∈ T.here, ∀ j ∈ T.here, i ≠ j → (Γ i).Apart T.queue (Γ j)
  tasks : owned.map Prod.snd = m.tasks T.queue
  owner : ∀ x : ι × Job V W, x ∈ owned → x.1 ∈ T.here
  own : ∀ i ∈ T.here, List.Forall₂ ((T.mirror i).Jobs (Γ i)) (ownedBy i owned)
    ((m' i).tasks (T.mirror i).queue')

namespace Woven

open Machine Mirror

variable [DecidableEq ι] {T : Loom ι V W} {Γ : ι → Pairing} {m m₂ : Machine V W}
  {m' : ι → Machine V W} {owned owned₂ : List (ι × Job V W)}

/-- A queue that no run shares yet. -/
theorem start (hT : T.here = ∅) (hm : m.tasks T.queue = []) : Woven T Γ m m' [] where
  queue := by simp [hT]
  calm := by simp [hT]
  frame := by simp [hT]
  sim := by simp [hT]
  apart := by simp [hT]
  tasks := hm.symm
  owner := by simp
  own := by simp [hT]

/-- **One more run** that owns nothing yet. -/
theorem join (h : Woven T Γ m m' owned) {i : ι} (hi : i ∉ T.here) {L : Mirror V W}
    {n : Machine V W} (hq : L.queue = T.queue) (hcalm : ¬L.halts) (hlt : T.queue.index < m.queues.size)
    (hlt' : L.queue'.index < n.queues.size) (hn : n.tasks L.queue' = [])
    (hw : L.world m.world n.world)
    (hframe : ∀ j ∈ T.here, ∀ {w w₂ w'}, (T.mirror j).frame w w₂ → L.world w w' → L.world w₂ w')
    (hframe' : ∀ j ∈ T.here, ∀ {w w₂ w'}, L.frame w w₂ → (T.mirror j).world w w' →
      (T.mirror j).world w₂ w') :
    Woven (T.join i L) (Function.update Γ i (.main T.queue L.queue')) m (Function.update m' i n)
      owned := by
  have hne : ∀ {j}, j ∈ T.here → j ≠ i := fun hj he => hi (he ▸ hj)
  have hown : ownedBy i owned = [] := by
    refine List.filterMap_eq_nil_iff.mpr fun x hx => ?_
    rw [if_neg (hne (h.owner x hx))]
  refine ⟨?_, ?_, ?_, ?_, ?_, h.tasks, fun x hx => .inr (h.owner x hx), ?_⟩
  · rintro j (rfl | hj)
    · simpa [Loom.join] using hq
    · simpa [Loom.join, hne hj] using h.queue j hj
  · rintro j (rfl | hj)
    · simpa [Loom.join] using hcalm
    · simpa [Loom.join, hne hj] using h.calm j hj
  · rintro j (rfl | hj) k (rfl | hk) hjk w w₂ w'
    · exact absurd rfl hjk
    · simpa [Loom.join, hne hk] using hframe' k hk
    · simpa [Loom.join, hne hj] using hframe j hj
    · simpa [Loom.join, hne hj, hne hk] using h.frame j hj k hk hjk
  · rintro j (rfl | hj)
    · simpa [Loom.join, hq] using sim_main (L := L) (by rw [hq]; exact hlt) hlt' hw
    · simpa [Loom.join, hne hj] using h.sim j hj
  · rintro j (rfl | hj) k (rfl | hk) hjk
    · exact absurd rfl hjk
    · simpa [Loom.join, hne hk] using (Pairing.apart_main T.queue L.queue' (Γ k)).symm
    · simpa [Loom.join, hne hj] using Pairing.apart_main T.queue L.queue' (Γ j)
    · simpa [Loom.join, hne hj, hne hk] using h.apart j hj k hk hjk
  · rintro j (rfl | hj)
    · simp [Loom.join, hown, hn]
    · simpa [Loom.join, hne hj] using h.own j hj

/-- Litter on the shared machine. -/
theorem litter (h : Woven T Γ m m' owned) (hm : m.Littered m₂)
    (hw : ∀ i ∈ T.here, (T.mirror i).world m₂.world (m' i).world) : Woven T Γ m₂ m' owned :=
  { h with
    sim := fun i hi => (h.sim i hi).littered hm (.refl _) (hw i hi)
    tasks := h.tasks.trans (hm.tasks T.queue).symm }

/-- **One of the runs goes on**, from one task to the next. -/
theorem advance (h : Woven T Γ m m' owned) {i : ι} (hi : i ∈ T.here) {Γ₂ : Pairing}
    {n₂ : Machine V W} (hsim : (T.mirror i).Sim Γ₂ m₂ n₂)
    (hspares : (T.mirror i).Spares (Γ i) m Γ₂ m₂) (htasks : owned₂.map Prod.snd = m₂.tasks T.queue)
    (howner : ∀ x : ι × Job V W, x ∈ owned₂ → x.1 ∈ T.here)
    (hother : ∀ j, i ≠ j → ownedBy j owned₂ = ownedBy j owned)
    (hown : List.Forall₂ ((T.mirror i).Jobs Γ₂) (ownedBy i owned₂)
      (n₂.tasks (T.mirror i).queue')) :
    Woven T (Function.update Γ i Γ₂) m₂ (Function.update m' i n₂) owned₂ where
  queue := h.queue
  calm := h.calm
  frame := h.frame
  sim j hj := by
    by_cases he : j = i
    · subst he
      simpa using hsim
    · simp only [ne_eq, he, not_false_eq_true, Function.update_of_ne]
      exact Sim.beside hspares (h.sim j hj) ((h.queue j hj).symm ▸ h.apart j hj i hi he)
        (h.frame i hi j hj (Ne.symm he) hspares.world (h.sim j hj).world)
  apart := by
    have hnew : ∀ j ∈ T.here, j ≠ i → (Γ j).Apart T.queue Γ₂ := fun j hj he => by
      have hq := h.queue j hj
      exact hq ▸ hspares.apart (h.sim j hj) (hq.symm ▸ h.apart j hj i hi he)
    intro j hj k hk hjk
    by_cases hji : j = i
    · subst hji
      rw [Function.update_self, Function.update_of_ne hjk.symm]
      exact (hnew k hk hjk.symm).symm
    · rw [Function.update_of_ne hji]
      by_cases hki : k = i
      · subst hki
        rw [Function.update_self]
        exact hnew j hj hji
      · rw [Function.update_of_ne hki]
        exact h.apart j hj k hk hjk
  tasks := htasks
  owner := howner
  own j hj := by
    by_cases he : j = i
    · subst he
      simpa using hown
    · simp only [ne_eq, he, not_false_eq_true, Function.update_of_ne, hother j (Ne.symm he)]
      exact h.own j hj

/-- What one of the runs adds to the shared queue goes to its end. -/
theorem after (h : Woven T Γ m m' owned) {i : ι} (hi : i ∈ T.here) {Γ₂ : Pairing}
    {n₂ : Machine V W} (ha : (T.mirror i).After (Γ i) m (m' i) Γ₂ m₂ n₂) :
    ∃ owned₂, Woven T (Function.update Γ i Γ₂) m₂ (Function.update m' i n₂) owned₂ := by
  obtain ⟨ts, ts', ht, ht', hts⟩ := ha.main
  rw [h.queue i hi] at ht
  refine ⟨owned ++ ts.map (i, ·), h.advance hi ha.sim ha.spares ?_ ?_ ?_ ?_⟩
  · rw [ht, List.map_append, h.tasks]
    simp [Function.comp_def]
  · intro x hx
    rcases List.mem_append.mp hx with hx | hx
    · exact h.owner x hx
    · obtain ⟨t, -, rfl⟩ := List.mem_map.mp hx
      exact hi
  · intro j hij
    rw [ownedBy_append, ownedBy_map_of_ne hij, List.append_nil]
  · rw [ownedBy_append, ownedBy_map_self, ht']
    exact List.rel_append ((h.own i hi).imp fun _ _ hj => hj.mono ha.le) hts

/-- One more run, which goes on at once. -/
theorem enter (h : Woven T Γ m m' owned) {i : ι} (hi : i ∉ T.here) {L : Mirror V W} {n n₂ : Machine V W}
    (hq : L.queue = T.queue) (hcalm : ¬L.halts) (hlt : T.queue.index < m.queues.size)
    (hlt' : L.queue'.index < n.queues.size) (hn : n.tasks L.queue' = []) (hw : L.world m.world n.world)
    (hframe : ∀ j ∈ T.here, ∀ {w w₂ w'}, (T.mirror j).frame w w₂ → L.world w w' → L.world w₂ w')
    (hframe' : ∀ j ∈ T.here, ∀ {w w₂ w'}, L.frame w w₂ → (T.mirror j).world w w' →
      (T.mirror j).world w₂ w') {Γ₂ : Pairing} (ha : L.After (.main T.queue L.queue') m n Γ₂ m₂ n₂) :
    ∃ owned₂, Woven (T.join i L) (Function.update Γ i Γ₂) m₂ (Function.update m' i n₂) owned₂ := by
  have hjoin := h.join hi hq hcalm hlt hlt' hn hw hframe hframe'
  obtain ⟨owned₂, h₂⟩ := hjoin.after (.inl rfl) (by simpa [Loom.join] using ha)
  rw [Function.update_idem, Function.update_idem] at h₂
  exact ⟨owned₂, h₂⟩

/-- **The oldest task of the shared queue** is the oldest one of its owner. -/
theorem pop {x : ι × Job V W} (h : Woven T Γ m m' (x :: owned)) (hpop : m.pop? T.queue = some (x.2, m₂)) :
    ∃ t' n₂, (m' x.1).pop? (T.mirror x.1).queue' = some (t', n₂) ∧
      (T.mirror x.1).Jobs (Γ x.1) x.2 t' ∧
      Woven T Γ m₂ (Function.update m' x.1 n₂) owned := by
  obtain ⟨i, t⟩ := x
  have hi : i ∈ T.here := h.owner _ List.mem_cons_self
  have hown := h.own i hi
  rw [ownedBy_cons_self] at hown
  obtain ⟨t', rest', ht, hrest, ht'⟩ := List.forall₂_cons_left_iff.mp hown
  obtain ⟨n₂, hpop'⟩ := exists_pop? ht'
  have hq := h.queue i hi
  obtain ⟨hsim, hspares⟩ := (h.sim i hi).pop (h.sim i hi).main (hq.symm ▸ hpop) hpop'
  refine ⟨t', n₂, hpop', ht, ?_⟩
  have hw : Woven T (Function.update Γ i (Γ i)) m₂ (Function.update m' i n₂) owned := h.advance hi hsim hspares ?_
    (fun x hx => h.owner x (List.mem_cons_of_mem _ hx))
    (fun j hij => (ownedBy_cons_of_ne hij t).symm) ?_
  · rwa [Function.update_eq_self] at hw
  · have htasks := h.tasks
    rw [(tasks_pop? hpop).1] at htasks
    exact (List.cons.inj htasks).2
  · rw [(tasks_pop? hpop').1] at ht'
    rw [(List.cons.inj ht').2]
    exact hrest

/-- **Draining the shared queue moves each run on** as draining its own queue does. The induction is on what the
shared machine has left to do. -/
theorem ends_drain (h : Woven T Γ m m' owned) (p : Promise) :
    Ends False (fun limit => m.drain limit T.queue (.until p)) fun _ m₂ =>
      (m₂.outcome? p ≠ none ∨ m₂.tasks T.queue = []) ∧
      ∃ Γ₂ m₂' owned₂, Woven T Γ₂ m₂ m₂' owned₂ ∧
        ∀ i ∈ T.here, Γ i ≤ Γ₂ i ∧ Ran (T.mirror i).queue' (m' i) (m₂' i) := by
  induction hL : m.load using
    (Multiset.wellFounded_isDershowitzMannaLT (α := Ordinal.{0})).induction
    generalizing Γ m m' owned with
  | _ load ih =>
    subst hL
    have here : ∃ Γ₂ m₂' owned₂, Woven T Γ₂ m m₂' owned₂ ∧
        ∀ i ∈ T.here, Γ i ≤ Γ₂ i ∧ Ran (T.mirror i).queue' (m' i) (m₂' i) :=
      ⟨Γ, m', owned, h, fun i _ => ⟨le_rfl, .refl _⟩⟩
    cases ho : m.outcome? p with
    | some o => exact ends_drain_of_reached (by simp [reached, ho]) ⟨.inl (by simp [ho]), here⟩
    | none =>
      cases owned with
      | nil => exact ends_drain_of_empty h.tasks.symm ⟨.inr h.tasks.symm, here⟩
      | cons x rest =>
        obtain ⟨m₁, hpop⟩ := exists_pop? h.tasks.symm
        obtain ⟨t', n₁, hpop', hjob, h₁⟩ := h.pop hpop
        obtain ⟨i, t⟩ := x
        have hi : i ∈ T.here := h.owner _ List.mem_cons_self
        have hsim := h₁.sim i hi
        rw [Function.update_self] at hsim
        have hload : m.load = m₁.load + {(Piece.task t).rank} := total_pop? _ _ _ hpop
        -- only the owner of the task moves on; what it adds ranks below the task
        have hrun := (Mirrors.ends hjob hsim fun x hx => Piece.rank_lt (y := .task t) hx).ends (h.calm i hi)
        refine ends_drain_of_pop ho hpop (hrun.mono fun _ m₂ hright => ?_)
        obtain ⟨N, ⟨_, n₂, htask, Γ₂, hafter, -, hbelow⟩ | ⟨hf, -⟩⟩ := hright
        · obtain ⟨owned₂, h₂⟩ := h₁.after hi (by rwa [Function.update_self])
          rw [Function.update_idem] at h₂
          have hran : Ran (T.mirror i).queue' (m' i) n₂ := by
            refine .step hpop' ⟨N, .inl ⟨_, n₂, htask, rfl⟩⟩ (fun {p o} hp => hafter.kept ?_) (.refl _)
            unfold Machine.outcome? at hp ⊢
            rwa [(tasks_pop? hpop').2.2.1]
          refine (ih _ (hload ▸ hbelow.lt) h₂ rfl).mono fun _ m₃ hm₃ => ?_
          obtain ⟨hend, Γ₃, m₃', owned₃, h₃, hon⟩ := hm₃
          refine ⟨hend, Γ₃, m₃', owned₃, h₃, fun j hj => ?_⟩
          obtain ⟨hle, hran₃⟩ := hon j hj
          by_cases he : j = i
          · subst he
            rw [Function.update_self] at hle hran₃
            exact ⟨hafter.le.trans hle, hran.trans hran₃⟩
          · rw [Function.update_of_ne he] at hle hran₃
            exact ⟨hle, hran₃⟩
        · exact hf.elim

end Woven

/-! ## Waiting for one of the runs -/

/-- Likeness of the reasons why waiting for a promise gave no value. -/
inductive Mirror.WaitFaults (L : Mirror V W) : WaitFault → WaitFault → Prop
  | rejected {f f' : Failure} (h : L.failure f f') : WaitFaults L (.rejected f) (.rejected f')
  | stalled : WaitFaults L .stalled .stalled

/-- What waiting for a promise gives, once its queue has been drained. -/
def Promise.verdict : Option (Outcome V) → Except WaitFault V
  | some (.ok v) => .ok v
  | some (.error f) => .error (.rejected f)
  | none => .error .stalled

theorem Promise.ends_wait {lax : Prop} {q : QueueId} {p : Promise} {m : Machine V W}
    {Q : Except WaitFault V → Machine V W → Prop}
    (h : Ends lax (fun limit => m.drain limit q (.until p)) fun _ m => Q (verdict (m.outcome? p)) m) :
    Work.Ends lax (p.wait q) m Q := by
  refine Work.ends_drain (h.mono fun _ m hQ => Work.ends_outcome.mpr ?_)
  revert hQ
  generalize m.outcome? p = o
  rcases o with - | - | - <;> exact Work.ends_pure

/-- Waiting comes to the same where draining does. -/
theorem Promise.couples_wait {halts : Prop} {q q' : QueueId} {p p' : Promise} {m m' : Machine V W}
    {Q : Except WaitFault V → Machine V W → Except WaitFault V → Machine V W → Prop}
    (h : Couples halts (fun limit => m.drain limit q (.until p)) (fun limit => m'.drain limit q' (.until p'))
      fun _ n _ n' => Q (verdict (n.outcome? p)) n (verdict (n'.outcome? p')) n') :
    Work.Couples halts (p.wait q) (p'.wait q') m m' Q := by
  refine ends_wait ((EndsBy.weaken h ?_).mono fun _ n hright => ends_wait hright)
  exact fun ⟨hh, hp⟩ => ⟨hh, ends_wait (hp.mono fun _ _ => False.elim)⟩

theorem Mirror.verdict_of_outcome {L : Mirror V W} {o o' : Option (Outcome V)}
    (h : Option.Rel L.Outcomes o o') :
    ExceptRel L.WaitFaults L.value (Promise.verdict o) (Promise.verdict o') := by
  rcases h with ⟨⟨h⟩ | ⟨h⟩⟩ | _
  · exact .ok h
  · exact .error (.rejected h)
  · exact .error .stalled

/-- **Waiting for one of the runs** on the shared queue gives what waiting for it alone gives, and moves the
others on. -/
theorem Woven.ends_wait [DecidableEq ι] {T : Loom ι V W} {Γ : ι → Pairing} {m : Machine V W}
    {m' : ι → Machine V W} {owned : List (ι × Job V W)} (h : Woven T Γ m m' owned) {i : ι}
    (hi : i ∈ T.here) {p p' : Promise} (hp : (Γ i).promise p p') :
    Work.Ends False (p.wait T.queue) m fun r m₂ =>
      (∃ Γ₂ m₂' owned₂, Woven T Γ₂ m₂ m₂' owned₂ ∧
        ∀ i ∈ T.here, Γ i ≤ Γ₂ i ∧ Machine.Ran (T.mirror i).queue' (m' i) (m₂' i)) ∧
      ∀ n, Machine.Ran (T.mirror i).queue' n (m' i) →
        Work.Ends False (p'.wait (T.mirror i).queue') n fun r' _ =>
          ExceptRel (T.mirror i).WaitFaults (T.mirror i).value r r' := by
  refine Promise.ends_wait ((h.ends_drain p).mono fun _ m₂ hm₂ => ?_)
  obtain ⟨hend, Γ₂, m₂', owned₂, h₂, hon⟩ := hm₂
  refine ⟨⟨Γ₂, m₂', owned₂, h₂, hon⟩, fun n hn => ?_⟩
  obtain ⟨hle, hran⟩ := hon i hi
  have ho := ((h₂.sim i hi).promise (hle.promise hp)).outcome
  refine Promise.ends_wait (((hn.trans hran).ends_drain ?_).mono fun _ n' he => ?_)
  · rcases hend with hne | hempty
    · refine .inl fun hnone => hne ?_
      rw [hnone] at ho
      cases hm : m₂.outcome? p with
      | none => rfl
      | some o =>
        rw [hm] at ho
        cases ho
    · have hown := h₂.own i hi
      have htasks := h₂.tasks
      rw [hempty, List.map_eq_nil_iff] at htasks
      rw [htasks] at hown
      exact .inr (List.forall₂_nil_left_iff.mp hown)
  · rw [he]
    exact Mirror.verdict_of_outcome ho

end EntityQuery
