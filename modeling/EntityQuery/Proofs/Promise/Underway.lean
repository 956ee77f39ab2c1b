import EntityQuery.Proofs.Promise.Plans
import Mathlib.Data.Set.Finite.Lemmas

/-!
# Plans under way

While plans are being carried out, everything that a machine has put off either carries out a duty or
is none of the business of the plans. A ledger says which: it lists the duties of the tasks and
reactions of the machine, place by place.

* `Place`, `Ledger`: where duties are kept. `Ledger.Sole`: a duty that is kept at one place at most.
* `Plans.Stray`: tasks that know nothing of the promises with plans.
* `Plans.Pending`, `Plans.Held`: what is still to be done, and what sees to it.
* **`Plans.Underway`**: the invariant. All that is to be done is seen to, but for what is `busy`.
* **`Plans.Underway.exists_task`**: while a promise is pending, there are tasks in its queue.
-/

namespace EntityQuery

variable {V W : Type} {n : Nat} {main : QueueId}

/-- A partner of an entry of the second one of two lists. -/
theorem exists_of_forall₂_mem {α β : Type*} {R : α → β → Prop} {as : List α} {bs : List β}
    (h : List.Forall₂ R as bs) {b : β} (hb : b ∈ bs) : ∃ a ∈ as, R a b := by
  induction h with
  | nil => cases hb
  | cons hr _ ih =>
    rcases List.mem_cons.mp hb with rfl | hb
    · exact ⟨_, List.mem_cons_self, hr⟩
    · obtain ⟨a, ha, hr⟩ := ih hb
      exact ⟨a, List.mem_cons_of_mem _ ha, hr⟩

/-! ## Ledgers -/

/-- Where a machine keeps what it has put off. -/
inductive Place
  | queue (q : QueueId)
  | promise (p : Promise)
  deriving DecidableEq

/-- The duties of the tasks in each queue and of the reactions to each promise. -/
abbrev Ledger := Place → List (Option Duty)

namespace Ledger

variable {T : Ledger} {d : Duty} {t : Option Duty}

/-- A duty is kept at one place at most, and once. -/
def Sole (T : Ledger) (d : Duty) : Prop :=
  ∃ y : Option Place, ∀ x, (T x).count (some d) = if y = some x then 1 else 0

/-- The ledger with one more entry at a place. -/
def push (T : Ledger) (x : Place) (t : Option Duty) : Ledger := Function.update T x (T x ++ [t])

/-- The ledger with the entries of one place moved to the end of another one. -/
def move (T : Ledger) (x y : Place) : Ledger :=
  Function.update (Function.update T y (T y ++ T x)) x []

theorem mem_push {x y : Place} {s : Option Duty} :
    s ∈ T.push x t y ↔ s ∈ T y ∨ (y = x ∧ s = t) := by
  by_cases hy : y = x
  · subst hy
    simp [push]
  · simp [push, hy]

theorem mem_move {x y z : Place} (hxy : x ≠ y) {s : Option Duty} :
    s ∈ T.move x y z ↔ (z ≠ x ∧ s ∈ T z) ∨ (z = y ∧ s ∈ T x) := by
  by_cases hz : z = x
  · subst hz
    simp [move, hxy]
  · by_cases hzy : z = y
    · subst hzy
      simp [move, hz]
    · simp [move, hz, hzy]

theorem Sole.push (h : T.Sole d) (x : Place) (ht : t = some d → ∀ y, some d ∉ T y) :
    (T.push x t).Sole d := by
  obtain ⟨y, hy⟩ := h
  by_cases htd : t = some d
  · refine ⟨some x, fun z => ?_⟩
    by_cases hz : z = x
    · subst hz
      simp [Ledger.push, htd, List.count_eq_zero.mpr (ht htd z)]
    · simp [Ledger.push, hz, Ne.symm hz, List.count_eq_zero.mpr (ht htd z)]
  · refine ⟨y, fun z => ?_⟩
    by_cases hz : z = x
    · subst hz
      simp [Ledger.push, htd, hy]
    · simp [Ledger.push, hz, hy]

theorem Sole.move (h : T.Sole d) {x y : Place} (hxy : x ≠ y) : (T.move x y).Sole d := by
  obtain ⟨z, hz⟩ := h
  refine ⟨if z = some x then some y else z, fun w => ?_⟩
  by_cases hw : w = x
  · subst hw
    by_cases hzw : z = some w
    · simp [Ledger.move, hzw, Ne.symm hxy]
    · simp [Ledger.move, hzw]
  · by_cases hwy : w = y
    · subst hwy
      by_cases hzx : z = some x
      · simp [Ledger.move, hw, hz, hzx, hxy]
      · simp [Ledger.move, hw, hz, hzx]
    · by_cases hzx : z = some x
      · simp [Ledger.move, hw, hwy, hz, hzx, Ne.symm hw, Ne.symm hwy]
      · simp [Ledger.move, hw, hwy, hz, hzx]

/-- An entry that is taken away is gone, where it was the only one. -/
theorem Sole.pop (h : T.Sole d) {x : Place} {ts : List (Option Duty)} (hx : T x = t :: ts) :
    Sole (Function.update T x ts) d ∧
      (t = some d → ∀ y, some d ∉ Function.update T x ts y) := by
  obtain ⟨y, hy⟩ := h
  have hcount := hy x
  rw [hx, List.count_cons] at hcount
  by_cases htd : t = some d
  · have hyx : y = some x := by
      by_contra hne
      simp [htd, hne] at hcount
    have hts : ts.count (some d) = 0 := by simpa [htd, hyx] using hcount
    have hgone : ∀ z, (Function.update T x ts z).count (some d) = 0 := fun z => by
      by_cases hz : z = x
      · subst hz
        simpa using hts
      · simp [hz, hy, hyx, Ne.symm hz]
    exact ⟨⟨none, fun z => by simp [hgone]⟩, fun _ z => List.count_eq_zero.mp (hgone z)⟩
  · refine ⟨⟨y, fun z => ?_⟩, fun he => absurd he htd⟩
    by_cases hz : z = x
    · subst hz
      simpa [htd] using hcount
    · simp [hz, hy]

end Ledger

/-! ## Strays -/

namespace Plans

variable (bundle : List V → V) (G G' : Plans V n main)

/-- The promises and lists are there, and none of them has a plan. -/
def Spares (m : Machine V W) (ps : Set Promise) (gs : Set GatherId) : Prop :=
  (∀ p ∈ ps, p.index < m.cells.size ∧ G.promise p = none) ∧
    ∀ g ∈ gs, g.index < m.gathers.size ∧ G.list g = none

/-- A task that keeps to promises and lists without plans. -/
def Stray (m : Machine V W) (j : Job V W) : Prop :=
  ∃ ps gs, G.Spares m ps gs ∧ j.steps.Tame ps gs

/-- A task is what the ledger says. -/
def Fits (m : Machine V W) (j : Job V W) : Option Duty → Prop
  | none => G.Stray m j
  | some d => G.Serves bundle m.outcome? d j

/-- A reaction is what the ledger says. -/
def Suits (m : Machine V W) (p : Promise) (r : Outcome V → Job V W) : Option Duty → Prop
  | none => ∀ o, G.Stray m (r o)
  | some d => G.Awaits bundle m.outcome? p d r

/-- What a machine comes to, with more plans: outcomes and homes of promises stay as they are, and
what had no plan gets none. -/
structure Later (m m' : Machine V W) : Prop extends G.Extends G' where
  spared : ∀ p, p.index < m.cells.size → G.promise p = none → G'.promise p = none
  sparedList : ∀ g, g.index < m.gathers.size → G.list g = none → G'.list g = none
  cells : m.cells.size ≤ m'.cells.size
  gathers : m.gathers.size ≤ m'.gathers.size
  queues : m.queues.size ≤ m'.queues.size
  outcome : ∀ p o, m.outcome? p = some o → m'.outcome? p = some o
  home : ∀ p, p.index < m.cells.size → m'.home p = m.home p

namespace Later

variable {bundle G G'} {m m' : Machine V W}

theorem refl (G : Plans V n main) (m : Machine V W) : G.Later G m m :=
  ⟨.refl G, fun _ _ h => h, fun _ _ h => h, le_rfl, le_rfl, le_rfl, fun _ _ h => h, fun _ _ => rfl⟩

theorem trans {G'' : Plans V n main} {m'' : Machine V W} (h : G.Later G' m m')
    (h' : G'.Later G'' m' m'') : G.Later G'' m m'' where
  toExtends := h.toExtends.trans h'.toExtends
  spared p hp hG := h'.spared p (hp.trans_le h.cells) (h.spared p hp hG)
  sparedList g hg hG := h'.sparedList g (hg.trans_le h.gathers) (h.sparedList g hg hG)
  cells := h.cells.trans h'.cells
  gathers := h.gathers.trans h'.gathers
  queues := h.queues.trans h'.queues
  outcome p o hp := h'.outcome p o (h.outcome p o hp)
  home p hp := (h'.home p (hp.trans_le h.cells)).trans (h.home p hp)

theorem spares (h : G.Later G' m m') {ps : Set Promise} {gs : Set GatherId}
    (hs : G.Spares m ps gs) : G'.Spares m' ps gs :=
  ⟨fun p hp => ⟨(hs.1 p hp).1.trans_le h.cells, h.spared p (hs.1 p hp).1 (hs.1 p hp).2⟩,
    fun g hg => ⟨(hs.2 g hg).1.trans_le h.gathers, h.sparedList g (hs.2 g hg).1 (hs.2 g hg).2⟩⟩

theorem stray (h : G.Later G' m m') {j : Job V W} (hj : G.Stray m j) : G'.Stray m' j :=
  let ⟨ps, gs, hs, ht⟩ := hj
  ⟨ps, gs, h.spares hs, ht⟩

theorem fits (h : G.Later G' m m') {j : Job V W} {t : Option Duty} (hj : G.Fits bundle m j t) :
    G'.Fits bundle m' j t := by
  cases t with
  | none => exact h.stray hj
  | some d => exact h.toExtends.serves h.outcome hj

theorem suits (h : G.Later G' m m') {p : Promise} {r : Outcome V → Job V W} {t : Option Duty}
    (hr : G.Suits bundle m p r t) : G'.Suits bundle m' p r t := by
  cases t with
  | none => exact fun o => h.stray (hr o)
  | some d => exact h.toExtends.awaits h.outcome hr

end Later

/-! ## What is still to be done -/

variable {G} (T : Ledger)

variable (G) in
/-- A slot of a list with a plan is empty. -/
def Vacant (m : Machine V W) (g : GatherId) (i : Nat) : Prop :=
  ∃ l c, G.list g = some l ∧ m.gathers[g.index]? = some c ∧ c.slots[i]? = some none

variable (G) in
/-- A duty that is still to be done: to settle a pending promise, or to fill a slot for one. -/
def Pending (m : Machine V W) : Duty → Prop
  | .promise p => (∃ plan, G.promise p = some plan) ∧ m.outcome? p = none
  | .slot g i => G.Vacant m g i ∧ ∃ l, G.list g = some l ∧ m.outcome? l.target = none

variable (G) in
/-- A duty is seen to: by a task in its queue, by a reaction to a pending promise, or by the empty
slots of a list. -/
inductive Held (m : Machine V W) : Duty → Prop
  | task {d : Duty} {plan : Plan V n main} (hd : G.duty d = some plan)
    (h : some d ∈ T (.queue plan.home)) : Held m d
  | reaction {d : Duty} {s : Promise} (hs : m.outcome? s = none) (h : some d ∈ T (.promise s)) :
    Held m d
  | list {g : GatherId} {l : ListPlan V} {i : Nat} (hg : G.list g = some l)
    (h : G.Vacant m g i) : Held m (.promise l.target)

variable (G) in
/-- A list is filled with right values, and its promise takes what it comes to. -/
structure Filling (m : Machine V W) (l : ListPlan V) (c : Gather V) (plan : Plan V n main) :
    Prop where
  length : c.slots.length = l.items.length
  remaining : c.remaining = c.slots.countP Option.isNone
  filled : ∀ (i : Nat) S v, l.items[i]? = some S → c.slots[i]? = some (some v) →
    Right bundle G m.outcome? plan.rank S (.ok v)
  values : ∀ a vs, List.Forall₂ (fun S v => S a (.ok v)) l.items vs →
    plan.Accepts bundle a (.ok (bundle vs))
  failure : ∀ a, ∀ S ∈ l.items, ∀ f, S a (.error f) → plan.Accepts bundle a (.error f)

variable (G) in
/-- **Plans are under way.** Settled promises have right outcomes, the machine has put off what the
ledger says, and each duty that is still to be done is seen to, except those that are `busy`. -/
structure Underway (busy : Set Duty) (m : Machine V W) : Prop where
  queues : n ≤ m.queues.size
  homes : ∀ p plan, G.promise p = some plan →
    p.index < m.cells.size ∧ m.home p = plan.home ∧ plan.home.index < n
  scopes : ∀ p plan, G.promise p = some plan →
    ∃ r < plan.rank, G.Scoped plan.scope plan.env r
  right : ∀ p plan o, G.promise p = some plan → m.outcome? p = some o →
    Right bundle G m.outcome? plan.rank (plan.Accepts bundle) o
  tasks : ∀ q, List.Forall₂ (G.Fits bundle m) (m.tasks q) (T (.queue q))
  reactions : ∀ p, List.Forall₂ (G.Suits bundle m p) (m.reactions p) (T (.promise p))
  lists : ∀ g l, G.list g = some l → ∃ c plan, m.gathers[g.index]? = some c ∧
    G.promise l.target = some plan ∧ G.Filling bundle m l c plan
  vacant : ∀ x g i, some (.slot g i) ∈ T x → G.Vacant m g i
  sole : ∀ g i, T.Sole (.slot g i)
  held : ∀ d, G.Pending m d → d ∉ busy → G.Held T m d

namespace Underway

variable {bundle T} {busy : Set Duty} {m : Machine V W}

/-- What sees to a duty where its queue is empty is a pending promise of lower rank. -/
theorem exists_source (h : G.Underway bundle T busy m) {d : Duty} {plan : Plan V n main}
    (hd : G.duty d = some plan) (hempty : m.tasks plan.home = []) (hheld : G.Held T m d) :
    (∃ s source, G.promise s = some source ∧ source.home = plan.home ∧ source.rank < plan.rank ∧
      m.outcome? s = none) ∨ ∃ g l i, d = .promise l.target ∧ G.list g = some l ∧ G.Vacant m g i := by
  cases hheld with
  | task hd' hmem =>
    obtain rfl : plan = _ := Option.some_inj.mp (hd.symm.trans hd')
    have hT := h.tasks plan.home
    rw [hempty] at hT
    rw [List.forall₂_nil_left_iff.mp hT] at hmem
    cases hmem
  | reaction hs hmem =>
    rename_i s
    obtain ⟨r, -, source, plan', hsource, hd', hhome, hrank, -⟩ :=
      exists_of_forall₂_mem (h.reactions s) hmem
    obtain rfl : plan = plan' := Option.some_inj.mp (hd.symm.trans hd')
    exact .inl ⟨s, source, hsource, hhome, hrank, hs⟩
  | list hg hv => exact .inr ⟨_, _, _, rfl, hg, hv⟩

/-- **While a promise is pending, there are tasks in its queue**, unless a duty of that queue is
busy. -/
theorem exists_task (h : G.Underway bundle T busy m) {q : QueueId}
    (hbusy : ∀ d ∈ busy, ∀ plan, G.duty d = some plan → plan.home ≠ q) {p : Promise}
    {plan : Plan V n main} (hp : G.promise p = some plan) (hq : plan.home = q)
    (ho : m.outcome? p = none) : m.tasks q ≠ [] := by
  intro hempty
  let rank (p : Promise) : ℚ := ((G.promise p).map Plan.rank).getD 0
  -- A pending promise of the queue of least rank: nothing is left that could see to it.
  let A : Set Promise := { p | ∃ plan, G.promise p = some plan ∧ plan.home = q ∧ m.outcome? p = none }
  have hfin : A.Finite := by
    refine ((Set.finite_lt_nat m.cells.size).image Promise.mk).subset ?_
    rintro p ⟨plan, hp, -, -⟩
    exact ⟨p.index, (h.homes p plan hp).1, rfl⟩
  obtain ⟨x, ⟨xplan, hx, hxq, hxo⟩, hmin⟩ :=
    Set.exists_min_image A rank hfin ⟨p, plan, hp, hq, ho⟩
  have hleast : ¬∃ s source, G.promise s = some source ∧ source.home = xplan.home ∧
      source.rank < xplan.rank ∧ m.outcome? s = none := by
    rintro ⟨s, source, hs, hhome, hrank, hso⟩
    have := hmin s ⟨source, hs, hhome.trans hxq, hso⟩
    simp only [rank, hx, hs, Option.map_some, Option.getD_some] at this
    exact absurd hrank (not_lt.mpr this)
  have hempty' : m.tasks xplan.home = [] := hxq ▸ hempty
  have hseen : ∀ d, G.duty d = some xplan → G.Pending m d → G.Held T m d := fun d hd hpend =>
    h.held d hpend fun hmem => hbusy d hmem xplan hd hxq
  rcases h.exists_source (d := .promise x) hx hempty' (hseen (.promise x) hx ⟨⟨xplan, hx⟩, hxo⟩) with
    hs | ⟨g, l, i, he, hg, hv⟩
  · exact hleast hs
  · obtain rfl : x = l.target := Duty.promise.inj he
    have hd : G.duty (.slot g i) = some xplan := by simp [duty, hg, hx]
    rcases h.exists_source hd hempty' (hseen _ hd ⟨hv, l, hg, hxo⟩) with hs | ⟨_, _, _, he, -, -⟩
    · exact hleast hs
    · cases he

/-- **Where a queue has been drained for a promise of its own, the promise is settled.** -/
theorem exists_outcome (h : G.Underway bundle T busy m) {q : QueueId}
    (hbusy : ∀ d ∈ busy, ∀ plan, G.duty d = some plan → plan.home ≠ q) {p : Promise}
    {plan : Plan V n main} (hp : G.promise p = some plan) (hq : plan.home = q)
    (hdrained : m.outcome? p ≠ none ∨ m.tasks q = []) : ∃ o, m.outcome? p = some o :=
  Option.ne_none_iff_exists'.mp fun hnone =>
    h.exists_task hbusy hp hq hnone (hdrained.resolve_left (not_not_intro hnone))

end Underway

end Plans

end EntityQuery
