import EntityQuery.Proofs.Promise.Underway
import Mathlib.Data.List.Forall2

/-!
# Requests keep plans under way

What each request of a task does while plans are under way.

* `Plans.Underway.step`: what a request has to leave as it is.
* `Plans.Underway.discharge`: a duty is done once it is not pending any more, or is seen to again.
* One lemma for each request, such as **`Plans.Underway.settle`** and `Plans.Underway.subscribe`.
* `Plans.Underway.plan`, `Plans.Underway.planList`: a new promise or list with a plan.
* **`Plans.Underway.fill`**: a slot of a list is filled.
-/

namespace EntityQuery

variable {V W : Type} {n : Nat} {main : QueueId} {bundle : List V → V} {G G' : Plans V n main}
  {T T' : Ledger} {busy : Set Duty} {m m' : Machine V W}

namespace Plans

/-! ## What comes later -/

/-- Requests that make no plans leave outcomes and homes as they are. -/
theorem Later.of_machine (hcells : m.cells.size ≤ m'.cells.size)
    (hgathers : m.gathers.size ≤ m'.gathers.size) (hqueues : m.queues.size ≤ m'.queues.size)
    (houtcome : ∀ p o, m.outcome? p = some o → m'.outcome? p = some o)
    (hhome : ∀ p, p.index < m.cells.size → m'.home p = m.home p) : G.Later G m m' :=
  ⟨.refl G, fun _ _ h => h, fun _ _ h => h, hcells, hgathers, hqueues, houtcome, hhome⟩

theorem later_settle (p : Promise) (o : Outcome V) : G.Later G m (m.settle p o).2 := by
  refine .of_machine (by simp) (by simp) (by simp) (fun p' o' hp' => ?_) fun p' _ => by simp
  rw [Machine.outcome?_settle_eq, if_neg ?_, hp']
  rintro ⟨rfl, hopen⟩
  rw [hopen.2] at hp'
  cases hp'

theorem later_subscribe (p : Promise) (r : Outcome V → Job V W) :
    G.Later G m (m.subscribe p r) :=
  .of_machine (by simp) (by simp) (by simp) (fun p' o' hp' => by simpa using hp') fun p' _ => by simp

theorem later_append (q : QueueId) (ts : List (Job V W)) : G.Later G m (m.append q ts) :=
  .of_machine le_rfl le_rfl (by simp [Machine.append]) (fun _ _ h => h) fun _ _ => rfl

theorem later_fill (g : GatherId) (i : Nat) (v : V) : G.Later G m (m.fill g i v).2 :=
  .of_machine (by simp) (by simp) (by simp) (fun _ _ h => by simpa using h) fun _ _ => by simp

theorem later_newQueue : G.Later G m m.newQueue.2 :=
  .of_machine le_rfl le_rfl (by simp [Machine.newQueue]) (fun _ _ h => h) fun _ _ => rfl

theorem later_newPromise (q : QueueId) : G.Later G m (m.newPromise q).2 :=
  .of_machine (by simp [Machine.newPromise]) le_rfl le_rfl (fun _ _ h => by simpa using h)
    fun _ h => Machine.home_newPromise q h

theorem later_newGather (size : Nat) : G.Later G m (m.newGather size).2 :=
  .of_machine le_rfl (by simp [Machine.newGather]) le_rfl (fun _ _ h => h) fun _ _ => rfl

/-- A pending promise was pending before. -/
theorem Later.outcome_none (hl : G.Later G' m m') {p : Promise} (h : m'.outcome? p = none) :
    m.outcome? p = none := by
  cases ho : m.outcome? p with
  | none => rfl
  | some o =>
    rw [hl.outcome p o ho] at h
    cases h

/-- Whether slots are empty does not change with plans and promises. -/
theorem Vacant.later (hl : G.Later G' m m') {g : GatherId} {i : Nat}
    (hg : ∀ l, G.list g = some l → m'.gathers[g.index]? = m.gathers[g.index]?)
    (h : G.Vacant m g i) : G'.Vacant m' g i := by
  obtain ⟨l, c, hlist, hc, hi⟩ := h
  exact ⟨l, c, hl.list g l hlist, (hg l hlist).trans hc, hi⟩

theorem Filling.later (hl : G.Later G' m m') {l : ListPlan V} {c : Gather V}
    {plan : Plan V n main} (h : G.Filling bundle m l c plan) : G'.Filling bundle m' l c plan :=
  { h with filled := fun i S v hi hv => hl.toExtends.right hl.outcome (h.filled i S v hi hv) }

/-- What sees to a duty still does, where its tasks, what waits for pending promises and its lists
are the same. -/
theorem Held.later (hl : G.Later G' m m') {d : Duty}
    (hgathers : ∀ g l, G.list g = some l → d = .promise l.target →
      m'.gathers[g.index]? = m.gathers[g.index]?)
    (htask : ∀ q, some d ∈ T (.queue q) → some d ∈ T' (.queue q))
    (hreaction : ∀ s, m.outcome? s = none → some d ∈ T (.promise s) → G'.Held T' m' d)
    (h : G.Held T m d) : G'.Held T' m' d := by
  cases h with
  | task hd hmem => exact .task (hl.toExtends.duty hd) (htask _ hmem)
  | reaction hs hmem => exact hreaction _ hs hmem
  | list hg hv =>
    exact .list (hl.list _ _ hg) (hv.later hl fun l' hl' => by
      obtain rfl := Option.some_inj.mp (hg.symm.trans hl')
      exact hgathers _ _ hg rfl)

/-- A reaction comes to a task that does what the ledger says. -/
theorem Suits.fits (hl : G.Later G m m') {p : Promise} {r : Outcome V → Job V W}
    {t : Option Duty} (hr : G.Suits bundle m p r t) {o : Outcome V} (ho : m'.outcome? p = some o) :
    G.Fits bundle m' (r o) t := by
  cases t with
  | none => exact hl.stray (hr o)
  | some d =>
    obtain ⟨_, _, _, _, _, _, hserves⟩ := hr
    exact hserves _ hl.outcome o ho

/-- An entry of a slot is new to the ledger, and the slot is empty. -/
def Fresh (G : Plans V n main) (T : Ledger) (m : Machine V W) (t : Option Duty) : Prop :=
  ∀ g i, t = some (.slot g i) → G.Vacant m g i ∧ ∀ x, some (.slot g i) ∉ T x

namespace Underway

theorem mono (h : G.Underway bundle T busy m) {busy' : Set Duty} (hb : busy ⊆ busy') :
    G.Underway bundle T busy' m :=
  { h with held := fun d hd hn => h.held d hd fun hmem => hn (hb hmem) }

/-- **Duties are done once they are not pending any more, or are seen to again.** -/
theorem discharge {busy' : Set Duty} (h : G.Underway bundle T busy' m)
    (hd : ∀ d ∈ busy', d ∉ busy → G.Pending m d → G.Held T m d) : G.Underway bundle T busy m :=
  { h with
    held := fun d hp hn => by
      by_cases he : d ∈ busy'
      · exact hd d he hn hp
      · exact h.held d hp he }

/-- The duty that is busy is done once it is not pending any more, or is seen to again. -/
theorem discharge_insert {d : Duty} (h : G.Underway bundle T (insert d busy) m)
    (hd : G.Pending m d → G.Held T m d) : G.Underway bundle T busy m :=
  h.discharge fun d' hmem hn hp => by
    obtain rfl : d' = d := (Set.mem_insert_iff.mp hmem).resolve_right hn
    exact hd hp

/-- What a request that makes no plans has to leave as it is. -/
theorem step (h : G.Underway bundle T busy m) (hl : G.Later G m m')
    (hright : ∀ p plan o, G.promise p = some plan → m.outcome? p = none → m'.outcome? p = some o →
      Right bundle G m'.outcome? plan.rank (plan.Accepts bundle) o)
    (htasks : ∀ q, List.Forall₂ (G.Fits bundle m') (m'.tasks q) (T' (.queue q)))
    (hreactions : ∀ p, List.Forall₂ (G.Suits bundle m' p) (m'.reactions p) (T' (.promise p)))
    (hgathers : ∀ g l, G.list g = some l → m'.gathers[g.index]? = m.gathers[g.index]?)
    (hslots : ∀ x g i, some (.slot g i) ∈ T' x →
      (∃ y, some (.slot g i) ∈ T y) ∨ G.Vacant m g i)
    (hsole : ∀ g i, T'.Sole (.slot g i))
    (hheld : ∀ d, d ∉ busy → G.Pending m' d → G.Held T m d → G.Held T' m' d) :
    G.Underway bundle T' busy m' where
  queues := h.queues.trans hl.queues
  homes p plan hp := by
    obtain ⟨hlt, hhome, hq⟩ := h.homes p plan hp
    exact ⟨hlt.trans_le hl.cells, (hl.home p hlt).trans hhome, hq⟩
  scopes := h.scopes
  right p plan o hp ho := by
    cases hm : m.outcome? p with
    | none => exact hright p plan o hp hm ho
    | some o' =>
      obtain rfl : o' = o := Option.some_inj.mp ((hl.outcome p o' hm).symm.trans ho)
      exact hl.toExtends.right hl.outcome (h.right p plan o' hp hm)
  tasks := htasks
  reactions := hreactions
  lists g l hg := by
    obtain ⟨c, plan, hc, hp, hf⟩ := h.lists g l hg
    exact ⟨c, plan, (hgathers g l hg).trans hc, hp, hf.later hl⟩
  vacant x g i hmem := by
    refine Vacant.later hl (fun l => hgathers g l) ?_
    rcases hslots x g i hmem with ⟨y, hy⟩ | hv
    · exact h.vacant y g i hy
    · exact hv
  sole := hsole
  held d hd hb := by
    refine hheld d hb hd (h.held d ?_ hb)
    cases d with
    | promise p => exact ⟨hd.1, hl.outcome_none hd.2⟩
    | slot g i =>
      obtain ⟨⟨l, c, hg, hc, hi⟩, l', hg', ho⟩ := hd
      exact ⟨⟨l, c, hg, (hgathers g l hg).symm.trans hc, hi⟩, l', hg', hl.outcome_none ho⟩

/-- A request that puts nothing off and settles nothing. -/
theorem quiet (h : G.Underway bundle T busy m) (hl : G.Later G m m')
    (houtcome : ∀ p, m'.outcome? p = m.outcome? p) (htasks : ∀ q, m'.tasks q = m.tasks q)
    (hreactions : ∀ p, m'.reactions p = m.reactions p)
    (hgathers : ∀ g l, G.list g = some l → m'.gathers[g.index]? = m.gathers[g.index]?) :
    G.Underway bundle T busy m' := by
  refine h.step hl (fun p plan o _ hn ho => ?_) (fun q => ?_) (fun p => ?_) hgathers
    (fun x g i hmem => .inl ⟨x, hmem⟩) h.sole fun d _ _ hd => ?_
  · rw [houtcome, hn] at ho
    cases ho
  · rw [htasks]
    exact (h.tasks q).imp fun _ _ => hl.fits
  · rw [hreactions]
    exact (h.reactions p).imp fun _ _ => hl.suits
  · exact hd.later hl (fun g l hg _ => hgathers g l hg) (fun _ h => h) fun s hs hmem =>
      .reaction ((houtcome s).trans hs) hmem

/-! ## Putting off tasks and reactions -/

/-- **A task that does what the ledger is told.** -/
theorem enqueue (h : G.Underway bundle T busy m) {q : QueueId} (hq : q.index < m.queues.size)
    {j : Job V W} {t : Option Duty} (hj : G.Fits bundle m j t) (ht : G.Fresh T m t) :
    G.Underway bundle (T.push (.queue q) t) busy (m.enqueue q j) := by
  have hl : G.Later G m (m.enqueue q j) := later_append q [j]
  refine h.step hl (fun p plan o _ hn ho => ?_) (fun q' => ?_) (fun p => ?_) (fun _ _ _ => rfl)
    (fun x g i hmem => ?_) (fun g i => (h.sole g i).push _ fun he => (ht g i he).2)
    fun d _ _ hd => ?_
  · exact absurd (hn.symm.trans ho) (by simp)
  · rw [Machine.enqueue, Machine.tasks_append]
    by_cases he : q' = q
    · subst he
      rw [if_pos ⟨rfl, hq⟩, Ledger.push, Function.update_self]
      exact List.rel_append ((h.tasks q').imp fun _ _ => hl.fits) (.cons (hl.fits hj) .nil)
    · rw [if_neg fun hc => he hc.1, Ledger.push, Function.update_of_ne (by simpa using he)]
      exact (h.tasks q').imp fun _ _ => hl.fits
  · rw [Ledger.push, Function.update_of_ne (by simp)]
    exact (h.reactions p).imp fun _ _ => hl.suits
  · rcases Ledger.mem_push.mp hmem with hmem | ⟨-, he⟩
    · exact .inl ⟨x, hmem⟩
    · exact .inr (ht g i he.symm).1
  · exact hd.later hl (fun _ _ _ _ => rfl) (fun _ hmem => Ledger.mem_push.mpr (.inl hmem))
      fun s hs hmem => .reaction hs (Ledger.mem_push.mpr (.inl hmem))

/-- **A reaction that does what the ledger is told**: its duty is seen to. -/
theorem subscribe (h : G.Underway bundle T busy m) {p : Promise} {r : Outcome V → Job V W}
    {t : Option Duty} (hr : G.Suits bundle m p r t) (ht : G.Fresh T m t) :
    ∃ T', G.Underway bundle T' busy (m.subscribe p r) ∧
      (∀ x s, s ∈ T' x → s ∈ T x ∨ s = t) ∧ ∀ d, t = some d → G.Held T' (m.subscribe p r) d := by
  have hl : G.Later G m (m.subscribe p r) := later_subscribe p r
  rcases m.open_or p with hopen | ⟨o, ho⟩ | hge
  · refine ⟨T.push (.promise p) t, ?_, fun x s hs => ?_, fun d hd => ?_⟩
    · refine h.step hl (fun p plan o _ hn ho => ?_) (fun q => ?_) (fun p' => ?_)
        (fun _ _ _ => by simp) (fun x g i hmem => ?_)
        (fun g i => (h.sole g i).push _ fun he => (ht g i he).2) fun d _ _ hd => ?_
      · rw [Machine.outcome?_subscribe, hn] at ho
        cases ho
      · rw [Machine.tasks_subscribe, hopen.2, List.append_nil, Ledger.push,
          Function.update_of_ne (by simp)]
        exact (h.tasks q).imp fun _ _ => hl.fits
      · rw [Machine.reactions_subscribe]
        by_cases he : p' = p
        · subst he
          rw [if_pos ⟨rfl, hopen⟩, Ledger.push, Function.update_self]
          exact List.rel_append ((h.reactions p').imp fun _ _ => hl.suits)
            (.cons (hl.suits hr) .nil)
        · rw [if_neg fun hc => he hc.1, Ledger.push, Function.update_of_ne (by simpa using he)]
          exact (h.reactions p').imp fun _ _ => hl.suits
      · rcases Ledger.mem_push.mp hmem with hmem | ⟨-, he⟩
        · exact .inl ⟨x, hmem⟩
        · exact .inr (ht g i he.symm).1
      · exact hd.later hl (fun _ _ _ _ => by simp)
          (fun _ hmem => Ledger.mem_push.mpr (.inl hmem))
          fun s hs hmem => .reaction (by simpa using hs) (Ledger.mem_push.mpr (.inl hmem))
    · exact (Ledger.mem_push.mp hs).imp_right And.right
    · subst hd
      exact .reaction (by simpa using hopen.2) (Ledger.mem_push.mpr (.inr ⟨rfl, rfl⟩))
  · rw [Machine.subscribe_of_settled ho]
    by_cases hq : (m.home p).index < m.queues.size
    · refine ⟨_, h.enqueue hq (hr.fits (.refl G m) ho) ht, fun x s hs => ?_, fun d hd => ?_⟩
      · exact (Ledger.mem_push.mp hs).imp_right And.right
      · subst hd
        obtain ⟨source, plan, hs, hduty, hhome, -⟩ := hr
        refine .task hduty (Ledger.mem_push.mpr (.inr ⟨?_, rfl⟩))
        rw [(h.homes p source hs).2.1, hhome]
    · rw [Machine.enqueue, Machine.append_of_none (by simpa using hq)]
      refine ⟨T, h, fun _ _ hs => .inl hs, fun d hd => ?_⟩
      subst hd
      obtain ⟨source, plan, hs, -⟩ := hr
      obtain ⟨-, hhome, hlt⟩ := h.homes p source hs
      exact absurd (hhome ▸ hlt.trans_le h.queues) hq
  · rw [Machine.subscribe_of_ge hge]
    refine ⟨T, h, fun _ _ hs => .inl hs, fun d hd => ?_⟩
    subst hd
    obtain ⟨source, plan, hs, -⟩ := hr
    exact absurd (h.homes p source hs).1 (Nat.not_lt.mpr hge)

/-! ## Settling a promise -/

/-- The reactions to a promise without a plan have no duties. -/
theorem not_mem_of_none (h : G.Underway bundle T busy m) {p : Promise} (hp : G.promise p = none)
    (d : Duty) : some d ∉ T (.promise p) := fun hmem => by
  obtain ⟨r, -, source, plan, hs, -⟩ := exists_of_forall₂_mem (h.reactions p) hmem
  rw [hp] at hs
  cases hs

/-- What a promise takes is right for its plan. -/
theorem right_settle {p : Promise} {o : Outcome V}
    (ho : ∀ plan, G.promise p = some plan → m.outcome? p = none →
      Right bundle G m.outcome? plan.rank (plan.Accepts bundle) o)
    {p' : Promise} {plan : Plan V n main} {o' : Outcome V} (hp : G.promise p' = some plan)
    (hn : m.outcome? p' = none) (hs : (m.settle p o).2.outcome? p' = some o') :
    Right bundle G (m.settle p o).2.outcome? plan.rank (plan.Accepts bundle) o' := by
  rw [Machine.outcome?_settle_eq] at hs
  split at hs
  · rename_i he
    obtain ⟨rfl, -⟩ := he
    cases hs
    exact (Plans.Extends.refl G).right (later_settle (G := G) p' _).outcome (ho plan hp hn)
  · rw [hn] at hs
    cases hs

/-- The reactions to an open promise become tasks of its queue. -/
theorem settle_of_queue (h : G.Underway bundle T busy m) {p : Promise} {o : Outcome V}
    (hopen : m.Open p) (hq : (m.home p).index < m.queues.size)
    (ho : ∀ plan, G.promise p = some plan → m.outcome? p = none →
      Right bundle G m.outcome? plan.rank (plan.Accepts bundle) o) :
    G.Underway bundle (T.move (.promise p) (.queue (m.home p))) busy (m.settle p o).2 := by
  have hl : G.Later G m (m.settle p o).2 := later_settle p o
  have hnow : (m.settle p o).2.outcome? p = some o := by simp [Machine.outcome?_settle_eq, hopen]
  have hne : Place.promise p ≠ .queue (m.home p) := by simp
  refine h.step hl (fun p' plan o' => right_settle ho) (fun q => ?_) (fun p' => ?_)
    (fun _ _ _ => by simp) (fun x g i hmem => ?_) (fun g i => (h.sole g i).move hne)
    fun d _ _ hd => ?_
  · rw [Machine.tasks_settle, Ledger.move, Function.update_of_ne (by simp)]
    by_cases he : q = m.home p
    · subst he
      rw [if_pos ⟨hopen, rfl, hq⟩, Function.update_self]
      refine List.rel_append ((h.tasks _).imp fun _ _ => hl.fits) ?_
      rw [List.forall₂_map_left_iff]
      exact (h.reactions p).imp fun r t hr => hr.fits hl hnow
    · rw [if_neg fun hc => he hc.2.1, Function.update_of_ne (by simpa using he)]
      exact (h.tasks q).imp fun _ _ => hl.fits
  · rw [Machine.reactions_settle, Ledger.move]
    by_cases he : p' = p
    · subst he
      rw [if_pos ⟨rfl, hopen⟩, Function.update_self]
      exact .nil
    · rw [if_neg fun hc => he hc.1, Function.update_of_ne (by simpa using he),
        Function.update_of_ne (by simp)]
      exact (h.reactions p').imp fun _ _ => hl.suits
  · exact .inl (((Ledger.mem_move hne).mp hmem).elim (fun h => ⟨x, h.2⟩) fun h => ⟨_, h.2⟩)
  · refine hd.later hl (fun _ _ _ _ => by simp)
      (fun _ hmem => (Ledger.mem_move hne).mpr (.inl ⟨by simp, hmem⟩)) fun s hs hmem => ?_
    by_cases he : s = p
    · subst he
      obtain ⟨r, -, source, plan, hsource, hduty, hhome, -⟩ :=
        exists_of_forall₂_mem (h.reactions s) hmem
      refine .task hduty ((Ledger.mem_move hne).mpr (.inr ⟨?_, hmem⟩))
      rw [(h.homes s source hsource).2.1, hhome]
    · refine .reaction ?_ ((Ledger.mem_move hne).mpr (.inl ⟨by simpa using he, hmem⟩))
      rw [Machine.outcome?_settle_eq, if_neg fun hc => he hc.1, hs]

/-- Without a queue the reactions to a promise are lost. A promise with a plan has a queue. -/
theorem settle_of_no_queue (h : G.Underway bundle T busy m) {p : Promise} {o : Outcome V}
    (hopen : m.Open p) (hq : ¬(m.home p).index < m.queues.size) :
    G.Underway bundle (Function.update T (.promise p) []) busy (m.settle p o).2 := by
  have hl : G.Later G m (m.settle p o).2 := later_settle p o
  have hnone : G.promise p = none := by
    by_contra hne
    obtain ⟨plan, hp⟩ := Option.ne_none_iff_exists'.mp hne
    obtain ⟨-, hhome, hlt⟩ := h.homes p plan hp
    exact absurd (hhome ▸ hlt.trans_le h.queues) hq
  have hmem : ∀ d x, some d ∈ Function.update T (.promise p) [] x ↔ some d ∈ T x := fun d x => by
    by_cases hx : x = .promise p
    · subst hx
      simp [h.not_mem_of_none hnone d]
    · simp [hx]
  refine h.step hl (fun p' plan o' => right_settle fun plan hp => ?_) (fun q => ?_) (fun p' => ?_)
    (fun _ _ _ => by simp) (fun x g i hx => .inl ⟨x, (hmem _ x).mp hx⟩) (fun g i => ?_)
    fun d _ _ hd => ?_
  · rw [hnone] at hp
    cases hp
  · rw [Machine.tasks_settle, if_neg (by rintro ⟨-, rfl, hlt⟩; exact hq hlt),
      Function.update_of_ne (by simp)]
    exact (h.tasks q).imp fun _ _ => hl.fits
  · rw [Machine.reactions_settle]
    by_cases he : p' = p
    · subst he
      rw [if_pos ⟨rfl, hopen⟩, Function.update_self]
      exact .nil
    · rw [if_neg fun hc => he hc.1, Function.update_of_ne (by simpa using he)]
      exact (h.reactions p').imp fun _ _ => hl.suits
  · obtain ⟨y, hy⟩ := h.sole g i
    refine ⟨y, fun x => ?_⟩
    by_cases hx : x = .promise p
    · subst hx
      rw [← hy, List.count_eq_zero.mpr (h.not_mem_of_none hnone _)]
      simp
    · rw [Function.update_of_ne hx, hy]
  · refine hd.later hl (fun _ _ _ _ => by simp) (fun q hx => (hmem d _).mpr hx) fun s hs hx => ?_
    refine .reaction ?_ ((hmem d _).mpr hx)
    rw [Machine.outcome?_settle_eq, if_neg ?_, hs]
    rintro ⟨rfl, -⟩
    exact h.not_mem_of_none hnone d hx

/-- **Settling a promise with a right outcome**: its reactions become tasks with the same duties. -/
theorem settle (h : G.Underway bundle T busy m) {p : Promise} {o : Outcome V}
    (ho : ∀ plan, G.promise p = some plan → m.outcome? p = none →
      Right bundle G m.outcome? plan.rank (plan.Accepts bundle) o) :
    ∃ T', G.Underway bundle T' busy (m.settle p o).2 ∧
      ∀ t x, t ∈ T' x → ∃ y, t ∈ T y := by
  by_cases hopen : m.Open p
  swap
  · rw [Machine.settle_of_not_open hopen]
    exact ⟨T, h, fun t x hmem => ⟨x, hmem⟩⟩
  by_cases hq : (m.home p).index < m.queues.size
  · exact ⟨_, h.settle_of_queue hopen hq ho, fun t x hmem =>
      ((Ledger.mem_move (by simp)).mp hmem).elim (fun h => ⟨x, h.2⟩) fun h => ⟨_, h.2⟩⟩
  · refine ⟨_, h.settle_of_no_queue hopen hq, fun t x hmem => ⟨x, ?_⟩⟩
    by_cases hx : x = .promise p
    · subst hx
      simp at hmem
    · rwa [Function.update_of_ne hx] at hmem

/-! ## Taking a task -/

/-- **Taking a task**: what it is to do is busy then. -/
theorem pop? (h : G.Underway bundle T busy m) {q : QueueId} {j : Job V W}
    (hpop : m.pop? q = some (j, m')) :
    G.Later G m m' ∧ ∃ t T', G.Fits bundle m' j t ∧ G.Fresh T' m' t ∧
      G.Underway bundle T' { d | d ∈ busy ∨ t = some d } m' := by
  obtain ⟨hq, hother, hcells, hgathers, hsize⟩ := Machine.tasks_pop? hpop
  have houtcome : ∀ p, m'.outcome? p = m.outcome? p := fun p => by
    simp [Machine.outcome?, hcells]
  have hl : G.Later G m m' := .of_machine (by rw [hcells]) (by rw [hgathers]) hsize.ge
    (fun p o ho => (houtcome p).trans ho) fun p _ => by simp [Machine.home, hcells]
  have hT := h.tasks q
  rw [hq] at hT
  obtain ⟨t, ts, ht, hts, hTq⟩ := List.forall₂_cons_left_iff.mp hT
  refine ⟨hl, t, Function.update T (.queue q) ts, hl.fits ht, fun g i he => ⟨?_, ?_⟩, ?_⟩
  · refine (h.vacant (.queue q) g i ?_).later hl fun _ _ => by rw [hgathers]
    rw [hTq, he]
    exact List.mem_cons_self
  · exact ((h.sole g i).pop hTq).2 he
  have hsub : ∀ {s x}, s ∈ Function.update T (.queue q) ts x → s ∈ T x := by
    intro s x hs
    by_cases hx : x = .queue q
    · subst hx
      rw [Function.update_self] at hs
      rw [hTq]
      exact List.mem_cons_of_mem _ hs
    · rwa [Function.update_of_ne hx] at hs
  refine (h.mono fun d (hd : d ∈ busy) => Or.inl hd).step hl
    (fun p plan o _ hn ho => ?_) (fun q' => ?_) (fun p => ?_) (fun _ _ _ => by rw [hgathers])
    (fun x g i hmem => .inl ⟨x, hsub hmem⟩) (fun g i => ((h.sole g i).pop hTq).1)
    fun d hd _ hheld => ?_
  · rw [houtcome, hn] at ho
    cases ho
  · by_cases he : q' = q
    · subst he
      rw [Function.update_self]
      exact hts.imp fun _ _ => hl.fits
    · rw [hother q' he, Function.update_of_ne (by simpa using he)]
      exact (h.tasks q').imp fun _ _ => hl.fits
  · rw [Function.update_of_ne (by simp)]
    have hr : m'.reactions p = m.reactions p := by simp [Machine.reactions, hcells]
    rw [hr]
    exact (h.reactions p).imp fun _ _ => hl.suits
  · refine hheld.later hl (fun _ _ _ _ => by rw [hgathers]) (fun q' hmem => ?_) fun s hs hmem =>
      .reaction ((houtcome s).trans hs) (by rwa [Function.update_of_ne (by simp)])
    by_cases he : q' = q
    · subst he
      rw [Function.update_self]
      rw [hTq] at hmem
      exact (List.mem_cons.mp hmem).resolve_left fun hdt => hd (.inr hdt.symm)
    · rwa [Function.update_of_ne (by simpa using he)]

/-! ## Making plans -/

/-- What more plans leave as it is, apart from what is new. -/
theorem grow (h : G.Underway bundle T busy m) {busy' : Set Duty} (hl : G.Later G' m m')
    (houtcome : ∀ p, m'.outcome? p = m.outcome? p) (htasks : ∀ q, m'.tasks q = m.tasks q)
    (hreactions : ∀ p, m'.reactions p = m.reactions p)
    (hgathers : ∀ g l, G.list g = some l → m'.gathers[g.index]? = m.gathers[g.index]?)
    (hplans : ∀ p plan, G'.promise p = some plan → G.promise p = none →
      (p.index < m'.cells.size ∧ m'.home p = plan.home ∧ plan.home.index < n) ∧
        (∃ r < plan.rank, G'.Scoped plan.scope plan.env r) ∧ m'.outcome? p = none ∧
          .promise p ∈ busy')
    (hlists : ∀ g l, G'.list g = some l → G.list g = none → (∀ i, .slot g i ∈ busy') ∧
      ∃ c plan, m'.gathers[g.index]? = some c ∧ G'.promise l.target = some plan ∧
        G'.Filling bundle m' l c plan)
    (hbusy : busy ⊆ busy') : G'.Underway bundle T busy' m' where
  queues := h.queues.trans hl.queues
  homes p plan hp := by
    rcases hl.promise_or hp with hG | hG
    · obtain ⟨hlt, hhome, hq⟩ := h.homes p plan hG
      exact ⟨hlt.trans_le hl.cells, (hl.home p hlt).trans hhome, hq⟩
    · exact (hplans p plan hp hG).1
  scopes p plan hp := by
    rcases hl.promise_or hp with hG | hG
    · obtain ⟨r, hr, hs⟩ := h.scopes p plan hG
      exact ⟨r, hr, hl.toExtends.inScope le_rfl hs⟩
    · exact (hplans p plan hp hG).2.1
  right p plan o hp ho := by
    rcases hl.promise_or hp with hG | hG
    · exact hl.toExtends.right hl.outcome (h.right p plan o hG (by rwa [houtcome] at ho))
    · rw [(hplans p plan hp hG).2.2.1] at ho
      cases ho
  tasks q := by
    rw [htasks]
    exact (h.tasks q).imp fun _ _ => hl.fits
  reactions p := by
    rw [hreactions]
    exact (h.reactions p).imp fun _ _ => hl.suits
  lists g l hg := by
    rcases hl.list_or hg with hG | hG
    · obtain ⟨c, plan, hc, hp, hf⟩ := h.lists g l hG
      exact ⟨c, plan, (hgathers g l hG).trans hc, hl.promise _ _ hp, hf.later hl⟩
    · exact (hlists g l hg hG).2
  vacant x g i hmem := (h.vacant x g i hmem).later hl fun l => hgathers g l
  sole := h.sole
  held d hd hb := by
    refine (h.held d ?_ fun hmem => hb (hbusy hmem)).later hl (fun g l hg _ => hgathers g l hg)
      (fun _ hmem => hmem) fun s hs hmem => .reaction ((houtcome s).trans hs) hmem
    cases d with
    | promise p =>
      obtain ⟨⟨plan, hp⟩, ho⟩ := hd
      rcases hl.promise_or hp with hG | hG
      · exact ⟨⟨plan, hG⟩, (houtcome p).symm.trans ho⟩
      · exact absurd (hplans p plan hp hG).2.2.2 hb
    | slot g i =>
      obtain ⟨⟨l, c, hg, hc, hi⟩, l', hg', ho⟩ := hd
      obtain rfl := Option.some_inj.mp (hg.symm.trans hg')
      rcases hl.list_or hg with hG | hG
      · exact ⟨⟨l, c, hG, (hgathers g l hG).symm.trans hc, hi⟩, l, hG, (houtcome _).symm.trans ho⟩
      · exact absurd ((hlists g l hg hG).1 i) hb

end Underway

variable (G) in
/-- The plans with one more for a promise. -/
def addPromise (p : Promise) (plan : Plan V n main) : Plans V n main :=
  { G with promise := Function.update G.promise p (some plan) }

variable (G) in
/-- The plans with one more for a list. -/
def addList (g : GatherId) (l : ListPlan V) : Plans V n main :=
  { G with list := Function.update G.list g (some l) }

@[simp] theorem addPromise_self (p : Promise) (plan : Plan V n main) :
    (G.addPromise p plan).promise p = some plan := by
  simp [addPromise]

theorem addPromise_of_ne {p p' : Promise} (hne : p' ≠ p) (plan : Plan V n main) :
    (G.addPromise p plan).promise p' = G.promise p' := by
  simp [addPromise, hne]

@[simp] theorem addList_self (g : GatherId) (l : ListPlan V) : (G.addList g l).list g = some l := by
  simp [addList]

theorem addList_of_ne {g g' : GatherId} (hne : g' ≠ g) (l : ListPlan V) :
    (G.addList g l).list g' = G.list g' := by
  simp [addList, hne]

namespace Underway

/-- **A new promise with a plan**: to settle it is busy at first. -/
theorem plan (h : G.Underway bundle T busy m) (plan : Plan V n main)
    (hq : plan.home.index < n) (hs : ∃ r < plan.rank, G.Scoped plan.scope plan.env r) :
    ∃ G', G.Later G' m (m.newPromise plan.home).2 ∧
      G'.promise (m.newPromise plan.home).1 = some plan ∧
        G'.Underway bundle T (insert (.promise (m.newPromise plan.home).1) busy)
          (m.newPromise plan.home).2 := by
  have hnew : ∀ p : Promise, p.index < m.cells.size → p ≠ (m.newPromise plan.home).1 := by
    rintro p hp rfl
    exact lt_irrefl _ hp
  have hl : G.Later (G.addPromise (m.newPromise plan.home).1 plan) m (m.newPromise plan.home).2 :=
    { later_newPromise (G := G) plan.home with
      promise := fun p plan' hp =>
        (addPromise_of_ne (hnew p (h.homes p plan' hp).1) _).trans hp
      spared := fun p hlt hp => (addPromise_of_ne (hnew p hlt) _).trans hp }
  refine ⟨_, hl, addPromise_self .., h.grow hl (by simp) (by simp) (by simp)
    (fun _ _ _ => rfl) (fun p plan' hp hG => ?_) (fun g l hg hG => ?_) (Set.subset_insert _ _)⟩
  · by_cases hne : p = (m.newPromise plan.home).1
    · subst hne
      obtain rfl : plan = plan' := Option.some_inj.mp ((addPromise_self ..).symm.trans hp)
      obtain ⟨r, hr, hscope⟩ := hs
      refine ⟨⟨by simp [Machine.newPromise], by simp, hq⟩,
        ⟨r, hr, hl.toExtends.inScope le_rfl hscope⟩, ?_, Set.mem_insert _ _⟩
      simp [Machine.outcome?, Machine.newPromise]
    · exact absurd (hG.symm.trans ((addPromise_of_ne hne plan).symm.trans hp)) (by simp)
  · exact absurd (hG.symm.trans hg) (by simp)

/-- **A new list with a plan**: to fill its slots is busy at first. -/
theorem planList (h : G.Underway bundle T busy m) (l : ListPlan V) {plan : Plan V n main}
    (hp : G.promise l.target = some plan)
    (hvalues : ∀ a vs, List.Forall₂ (fun S v => S a (.ok v)) l.items vs →
      plan.Accepts bundle a (.ok (bundle vs)))
    (hfailure : ∀ a, ∀ S ∈ l.items, ∀ f, S a (.error f) → plan.Accepts bundle a (.error f)) :
    ∃ G', G.Later G' m (m.newGather l.items.length).2 ∧
      G'.list (m.newGather l.items.length).1 = some l ∧
      (∀ i, i < l.items.length → G'.Fresh T (m.newGather l.items.length).2
        (some (.slot (m.newGather l.items.length).1 i))) ∧
      G'.Underway bundle T (busy ∪ { d | ∃ i, d = .slot (m.newGather l.items.length).1 i })
        (m.newGather l.items.length).2 := by
  have hold : ∀ g : GatherId, g.index < m.gathers.size → g ≠ (m.newGather l.items.length).1 := by
    rintro g hg rfl
    exact lt_irrefl _ hg
  have hlt : ∀ g l, G.list g = some l → g.index < m.gathers.size := fun g l hg => by
    obtain ⟨c, -, hc, -⟩ := h.lists g l hg
    exact (Array.getElem?_eq_some_iff.mp hc).1
  have hl : G.Later (G.addList (m.newGather l.items.length).1 l) m
      (m.newGather l.items.length).2 :=
    { later_newGather (G := G) l.items.length with
      list := fun g l' hg => (addList_of_ne (hold g (hlt g l' hg)) _).trans hg
      sparedList := fun g hlt hg => (addList_of_ne (hold g hlt) _).trans hg }
  have hfresh : ∀ i, i < l.items.length →
      (G.addList (m.newGather l.items.length).1 l).Fresh T (m.newGather l.items.length).2
        (some (.slot (m.newGather l.items.length).1 i)) := by
    rintro i hi _ _ he
    cases he
    refine ⟨⟨l, .ofSize l.items.length, addList_self .., by simp [Machine.newGather],
      by simp [Gather.ofSize, hi]⟩, fun x hx => ?_⟩
    obtain ⟨l', c, hl', -, -⟩ := h.vacant x _ i hx
    exact lt_irrefl _ (hlt _ l' hl')
  refine ⟨_, hl, addList_self .., hfresh, h.grow hl (fun _ => rfl) (fun _ => rfl) (fun _ => rfl)
    (fun g l' hg => Machine.getElem?_gathers_newGather _ (hlt g l' hg))
    (fun p plan' hp hG => ?_) (fun g l' hg hG => ?_)
    Set.subset_union_left⟩
  · exact absurd (hG.symm.trans hp) (by simp)
  · by_cases hne : g = (m.newGather l.items.length).1
    · subst hne
      obtain rfl : l = l' := Option.some_inj.mp ((addList_self ..).symm.trans hg)
      refine ⟨fun i => .inr ⟨i, rfl⟩, .ofSize l.items.length, plan, by simp [Machine.newGather], hp,
        ⟨by simp [Gather.ofSize], by simp [Gather.ofSize, List.countP_replicate],
          fun i S v _ hv => ?_, hvalues, hfailure⟩⟩
      simp [Gather.ofSize, List.getElem?_replicate] at hv
    · exact absurd (hG.symm.trans ((addList_of_ne hne l).symm.trans hg)) (by simp)

end Underway

/-! ## Filling a slot -/

/-- A full list holds its values. -/
theorem map_some_filterMap {α : Type*} {l : List (Option α)} (h : ∀ x ∈ l, ¬x.isNone = true) :
    (l.filterMap id).map some = l := by
  induction l with
  | nil => rfl
  | cons x l ih =>
    obtain ⟨hx, hl⟩ := List.forall_mem_cons.mp h
    cases x with
    | none => simp at hx
    | some v => simpa using ih hl

/-- **The values of a full list are right for its promise.** -/
theorem Filling.right_values {l : ListPlan V} {c : Gather V} {plan : Plan V n main}
    (hf : G.Filling bundle m l c plan) {vs : List V} (hvs : c.values? = some vs) :
    Right bundle G m.outcome? plan.rank (plan.Accepts bundle) (.ok (bundle vs)) := by
  have hslots : c.slots = vs.map some := by
    rw [Gather.values?] at hvs
    split at hvs
    · rename_i hzero
      cases hvs
      exact (map_some_filterMap (List.countP_eq_zero.mp (hf.remaining.symm.trans hzero))).symm
    · cases hvs
  intro a ha hup
  refine hf.values a vs (List.forall₂_iff_get.mpr ⟨?_, fun i h₁ h₂ => ?_⟩)
  · rw [← hf.length, hslots, List.length_map]
  · refine hf.filled i _ _ (List.getElem?_eq_getElem h₁) ?_ a ha hup
    rw [hslots, List.getElem?_map, List.getElem?_eq_getElem h₂]
    rfl

/-- A list that is not full has an empty slot. -/
theorem Filling.exists_none {l : ListPlan V} {c : Gather V} {plan : Plan V n main}
    (hf : G.Filling bundle m l c plan) (hvs : c.values? = none) :
    ∃ i : Nat, c.slots[i]? = some none := by
  rw [Gather.values?] at hvs
  split at hvs
  · cases hvs
  · rename_i hzero
    rw [hf.remaining] at hzero
    obtain ⟨x, hx, hnone⟩ := List.countP_pos_iff.mp (Nat.pos_of_ne_zero hzero)
    obtain rfl := Option.isNone_iff_eq_none.mp hnone
    exact List.mem_iff_getElem?.mp hx

/-- A list with another slot filled. -/
theorem Filling.fill {l : ListPlan V} {c : Gather V} {plan : Plan V n main}
    (hf : G.Filling bundle m l c plan) {i : Nat} {S : Fate V → Outcome V → Prop} {v : V}
    (hi : l.items[i]? = some S) (hv : Right bundle G m.outcome? plan.rank S (.ok v))
    (hnone : c.slots[i]? = some none) : G.Filling bundle m l (c.fill i v) plan where
  length := by simp [Gather.fill, hf.length]
  remaining := by
    obtain ⟨hlt, hc⟩ := List.getElem?_eq_some_iff.mp hnone
    simp [Gather.fill, List.countP_set hlt, hc, hf.remaining]
  filled j S' v' hj hv' := by
    rw [Gather.fill, List.getElem?_set] at hv'
    split at hv'
    · rename_i he
      subst he
      obtain rfl : S = S' := Option.some_inj.mp (hi.symm.trans hj)
      split at hv'
      · cases hv'
        exact hv
      · cases hv'
    · exact hf.filled j S' v' hj hv'
  values := hf.values
  failure := hf.failure

variable (bundle G) in
/-- What filling a list has come to: the values of a full list, or an empty slot. -/
def Gathered (m : Machine V W) (g : GatherId) (plan : Plan V n main) : Option (List V) → Prop
  | some vs => Right bundle G m.outcome? plan.rank (plan.Accepts bundle) (.ok (bundle vs))
  | none => ∃ i, G.Vacant m g i

section Fill

variable {g : GatherId} {i : Nat} (v : V)

/-- Filling a slot leaves the other ones empty. -/
theorem Vacant.fill {g' : GatherId} {j : Nat} (h : G.Vacant m g' j)
    (hne : Duty.slot g' j ≠ .slot g i) : G.Vacant (m.fill g i v).2 g' j := by
  obtain ⟨l, c, hl, hc, hj⟩ := h
  by_cases he : g' = g
  · subst he
    have hji : j ≠ i := by simpa using hne
    exact ⟨l, c.fill i v, hl, Machine.getElem?_gathers_fill_self i v hc,
      by simp [Gather.fill, List.getElem?_set_ne hji.symm, hj]⟩
  · exact ⟨l, c, hl, (Machine.getElem?_gathers_fill_of_ne i v he).trans hc, hj⟩

/-- A slot that is empty after another one has been filled. -/
theorem Vacant.of_fill {c : Gather V} (hc : m.gathers[g.index]? = some c) {g' : GatherId} {j : Nat}
    (h : G.Vacant (m.fill g i v).2 g' j) : G.Vacant m g' j ∧ Duty.slot g' j ≠ .slot g i := by
  obtain ⟨l, c', hl, hc', hj⟩ := h
  by_cases he : g' = g
  · subst he
    obtain rfl := Option.some_inj.mp ((Machine.getElem?_gathers_fill_self i v hc).symm.trans hc')
    have hji : j ≠ i := by
      rintro rfl
      simp [Gather.fill, List.getElem?_set] at hj
    rw [Gather.fill, List.getElem?_set_ne hji.symm] at hj
    exact ⟨⟨l, c, hl, hc, hj⟩, by simpa using hji⟩
  · exact ⟨⟨l, c', hl, (Machine.getElem?_gathers_fill_of_ne i v he).symm.trans hc', hj⟩, by simp [he]⟩

/-- What is to be done once a slot has been filled was to be done before. -/
theorem Pending.of_fill {c : Gather V} (hc : m.gathers[g.index]? = some c) {d : Duty}
    (h : G.Pending (m.fill g i v).2 d) : G.Pending m d ∧ d ≠ .slot g i := by
  cases d with
  | promise p => exact ⟨by simpa [Pending] using h, by simp⟩
  | slot g' j =>
    obtain ⟨hv, l, hl, ho⟩ := h
    obtain ⟨hv, hne⟩ := hv.of_fill v hc
    exact ⟨⟨hv, l, hl, by simpa using ho⟩, hne⟩

/-- What filling a list comes to, once it is filled with right values. -/
theorem Filling.gathered {l : ListPlan V} {c : Gather V} {plan : Plan V n main}
    (hg : G.list g = some l) (hc : m.gathers[g.index]? = some c)
    (hf : G.Filling bundle m l (c.fill i v) plan) :
    G.Gathered bundle (m.fill g i v).2 g plan (m.fill g i v).1 := by
  rw [show (m.fill g i v).1 = (c.fill i v).values? from congrArg Prod.fst (Machine.fill_eq i v hc)]
  cases hvs : (c.fill i v).values? with
  | some vs => exact (Extends.refl G).right (later_fill (G := G) g i v).outcome (hf.right_values hvs)
  | none =>
    obtain ⟨j, hj⟩ := hf.exists_none hvs
    exact ⟨j, l, _, hg, Machine.getElem?_gathers_fill_self i v hc, hj⟩

end Fill

namespace Underway

/-- **Filling an empty slot with a right value**: the promise of the list is busy then, until it is
settled or another slot is seen to be empty. -/
theorem fill {g : GatherId} {i : Nat} (h : G.Underway bundle T (insert (.slot g i) busy) m)
    {l : ListPlan V} {plan : Plan V n main} {S : Fate V → Outcome V → Prop} {v : V}
    (hg : G.list g = some l) (hp : G.promise l.target = some plan) (hi : l.items[i]? = some S)
    (hv : Right bundle G m.outcome? plan.rank S (.ok v)) (hnew : G.Fresh T m (some (.slot g i))) :
    G.Underway bundle T (insert (.promise l.target) busy) (m.fill g i v).2 ∧
      G.Gathered bundle (m.fill g i v).2 g plan (m.fill g i v).1 := by
  obtain ⟨⟨l', c, hg', hc, hnone⟩, hgone⟩ := hnew g i rfl
  obtain rfl : l = l' := Option.some_inj.mp (hg.symm.trans hg')
  obtain ⟨c', plan', hc', hp', hf⟩ := h.lists g l hg
  obtain rfl : c = c' := Option.some_inj.mp (hc.symm.trans hc')
  obtain rfl : plan = plan' := Option.some_inj.mp (hp.symm.trans hp')
  have hl : G.Later G m (m.fill g i v).2 := later_fill g i v
  have hf' := hf.fill hi hv hnone
  refine ⟨⟨hl.queues.trans' h.queues, fun p plan hp => ?_, h.scopes, fun p plan o hp ho => ?_,
    fun q => ?_, fun p => ?_, fun g' l' hl' => ?_, fun x g' j hmem => ?_, h.sole,
    fun d hd hb => ?_⟩, hf'.gathered v hg hc⟩
  · simpa using h.homes p plan hp
  · rw [Machine.outcome?_fill] at ho
    exact (Extends.refl G).right hl.outcome (h.right p plan o hp ho)
  · rw [Machine.tasks_fill]
    exact (h.tasks q).imp fun _ _ => hl.fits
  · rw [Machine.reactions_fill]
    exact (h.reactions p).imp fun _ _ => hl.suits
  · by_cases he : g' = g
    · subst he
      obtain rfl : l = l' := Option.some_inj.mp (hg.symm.trans hl')
      exact ⟨_, plan, Machine.getElem?_gathers_fill_self i v hc, hp, hf'.later hl⟩
    · obtain ⟨c', plan', hc', hp', hf'⟩ := h.lists g' l' hl'
      exact ⟨c', plan', (Machine.getElem?_gathers_fill_of_ne i v he).trans hc', hp', hf'.later hl⟩
  · refine (h.vacant x g' j hmem).fill v fun he => hgone x ?_
    rwa [← he]
  · obtain ⟨hpend, hne⟩ := hd.of_fill v hc
    refine (h.held d hpend fun hmem => ?_).later hl (fun g' l' hl' he => ?_)
      (fun _ hmem => hmem) fun s hs hmem => .reaction (by simpa using hs) hmem
    · exact (Set.mem_insert_iff.mp hmem).elim hne fun hmem => hb (.inr hmem)
    · refine Machine.getElem?_gathers_fill_of_ne i v ?_
      rintro rfl
      obtain rfl : l = l' := Option.some_inj.mp (hg.symm.trans hl')
      exact hb (.inl he)

end Underway

end Plans

end EntityQuery
