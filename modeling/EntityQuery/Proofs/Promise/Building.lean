import EntityQuery.Proofs.Promise.Ending
import EntityQuery.Proofs.Promise.Upkeep
import Mathlib.Algebra.Order.Field.Basic
import Mathlib.Algebra.Order.Field.Rat

/-!
# Making promises

What each operation on promises does while plans are under way.

* `Plans.Yields`: steps that keep plans under way and answer with something that has a property.
* `Plans.Offers`: thenables whose outcomes have a property. `Plans.Replies`: what callbacks answer.
* `Plans.Underway.settle_busy`, `Plans.Underway.enqueue_busy`, `Plans.Underway.subscribe_busy`: the
  three ways to see to a promise.
* One lemma for each operation, such as **`Plans.Underway.yields_adopt`** and
  **`Plans.Underway.yields_gather`**.
-/

namespace EntityQuery

variable {V W : Type} {n : Nat} {main : QueueId} {bundle : List V → V} {G G' : Plans V n main}
  {T T' : Ledger} {busy busy' : Set Duty} {m m' : Machine V W}
  {drain : QueueId → Drain → Machine V W → Ended V W Bool} {α β : Type}

namespace Plans

variable (bundle drain G busy m) in
/-- If the steps give an answer, plans are under way after them, and the answer is as stated. -/
def Yields (s : Work V W α) (Q : Plans V n main → Ledger → Machine V W → α → Prop) : Prop :=
  ∀ a m', s.run drain m = .done a m' →
    ∃ G' T', G.Later G' m m' ∧ G'.Underway bundle T' busy m' ∧ Q G' T' m' a

namespace Yields

variable {s : Work V W α} {Q : Plans V n main → Ledger → Machine V W → α → Prop}

/-- Steps that give their answer at once. -/
theorem pure {a : α} (h : G.Underway bundle T busy m) (hQ : Q G T m a) :
    G.Yields bundle busy m drain (.pure a) Q := fun _ _ hrun => by
  cases hrun
  exact ⟨G, T, .refl G m, h, hQ⟩

/-- Steps that come to others. -/
theorem step {s' : Work V W α} (hl : G.Later G' m m') (hrun : s.run drain m = s'.run drain m')
    (h : G'.Yields bundle busy m' drain s' Q) : G.Yields bundle busy m drain s Q := by
  intro a m'' hs
  obtain ⟨G'', T'', hl', hu, hQ⟩ := h a m'' (hrun ▸ hs)
  exact ⟨G'', T'', hl.trans hl', hu, hQ⟩

/-- Steps that do not drain a queue. -/
theorem done {a : α} (hl : G.Later G' m m') (hrun : s.run drain m = .done a m')
    (h : G'.Underway bundle T busy m') (hQ : Q G' T m' a) : G.Yields bundle busy m drain s Q :=
  Yields.step hl (hrun.trans (Steps.run.eq_1 ..).symm) (.pure h hQ)

/-- Steps that drain a queue first. -/
theorem drained {q : QueueId} {d : Drain} {next : Bool → Work V W α}
    (h : ∀ ran m', drain q d m = .done ran m' →
      ∃ G', G.Later G' m m' ∧ G'.Yields bundle busy m' drain (next ran) Q) :
    G.Yields bundle busy m drain (.drain q d next) Q := by
  intro a m'' hs
  rw [Steps.run] at hs
  split at hs
  · rename_i ran m' hd
    obtain ⟨G', hl, hnext⟩ := h ran m' hd
    obtain ⟨G'', T'', hl', hu, hQ⟩ := hnext a m'' hs
    exact ⟨G'', T'', hl.trans hl', hu, hQ⟩
  · cases hs

theorem mono {Q' : Plans V n main → Ledger → Machine V W → α → Prop}
    (h : G.Yields bundle busy m drain s Q)
    (hQ : ∀ G' T' m' a, G.Later G' m m' → Q G' T' m' a → Q' G' T' m' a) :
    G.Yields bundle busy m drain s Q' := by
  intro a m' hs
  obtain ⟨G', T', hl, hu, ha⟩ := h a m' hs
  exact ⟨G', T', hl, hu, hQ G' T' m' a hl ha⟩

/-- **One after another.** -/
theorem bind {k : α → Work V W β} {R : Plans V n main → Ledger → Machine V W → β → Prop}
    (h : G.Yields bundle busy m drain s Q)
    (hk : ∀ G' T' m' a, G.Later G' m m' → G'.Underway bundle T' busy m' → Q G' T' m' a →
      G'.Yields bundle busy' m' drain (k a) R) :
    G.Yields bundle busy' m drain (s.bind k) R := by
  intro b m'' hs
  rw [Steps.run_bind] at hs
  cases hd : s.run drain m with
  | halted c m₁ =>
    rw [hd] at hs
    cases hs
  | done a m₁ =>
    rw [hd] at hs
    obtain ⟨G', T', hl, hu, ha⟩ := h a m₁ hd
    obtain ⟨G'', T'', hl', hu', hb⟩ := hk G' T' m₁ a hl hu ha b m'' hs
    exact ⟨G'', T'', hl.trans hl', hu', hb⟩

end Yields

/-! ## Settling a promise -/

/-- A promise with a plan delivers an outcome that the plan accepts. -/
theorem delivers_plan {p : Promise} {plan : Plan V n main} {r : ℚ} (hp : G.promise p = some plan)
    (hr : plan.rank < r) : G.Delivers bundle p plan.home r (plan.Accepts bundle) :=
  ⟨plan, hp, rfl, hr, fun _ ha => ha p plan hp hr⟩

variable (bundle G) in
/-- A thenable whose outcomes have a property, where a promise is one of some queues. -/
def Offers (ok : QueueId → Prop) (r : ℚ) (S : Fate V → Outcome V → Prop) : Thenable V W → Prop
  | .value v => ∀ a, G.Upholds bundle r a → S a (.ok v)
  | .deferred compute => ∃ o, compute = .pure o ∧ ∀ a, G.Upholds bundle r a → S a o
  | .promise s => ∃ q, ok q ∧ G.Delivers bundle s q r S

variable (bundle G) in
/-- What a callback answers, where its outcomes have a property. -/
def Replies (q : QueueId) (r : ℚ) (S : Fate V → Outcome V → Prop) :
    Except Failure (Thenable V W) → Prop
  | .ok t => G.Offers bundle (· = q) r S t
  | .error f => ∀ a, G.Upholds bundle r a → S a (.error f)

theorem Extends.offers (h : G.Extends G') {ok : QueueId → Prop} {r r' : ℚ} (hr : r ≤ r')
    {S : Fate V → Outcome V → Prop} {t : Thenable V W} (ht : G.Offers bundle ok r S t) :
    G'.Offers bundle ok r' S t := by
  have hup : ∀ a, G'.Upholds bundle r' a → G.Upholds bundle r a := fun a ha p plan hp hlt =>
    ha p plan (h.promise p plan hp) (hlt.trans_le hr)
  cases t with
  | value v => exact fun a ha => ht a (hup a ha)
  | deferred compute =>
    obtain ⟨o, rfl, ho⟩ := ht
    exact ⟨o, rfl, fun a ha => ho a (hup a ha)⟩
  | promise s =>
    obtain ⟨q, hq, hd⟩ := ht
    exact ⟨q, hq, h.delivers hr hd⟩

namespace Underway

variable {p : Promise} {plan : Plan V n main}

/-- **Settling the promise that is busy does what there is to do about it.** -/
theorem settle_busy (h : G.Underway bundle T (insert (.promise p) busy) m)
    (hp : G.promise p = some plan) {o : Outcome V}
    (ho : Right bundle G m.outcome? plan.rank (plan.Accepts bundle) o) :
    ∃ T', G.Underway bundle T' busy (m.settle p o).2 ∧
      ∀ t x, t ∈ T' x → ∃ y, t ∈ T y := by
  obtain ⟨T', h', hslots⟩ := h.settle (p := p) (o := o) fun plan' hp' _ => by
    obtain rfl : plan = plan' := Option.some_inj.mp (hp.symm.trans hp')
    exact ho
  refine ⟨T', h'.discharge_insert fun hpend => ?_, hslots⟩
  exact absurd hpend.2 (Machine.outcome?_settle_ne_none (h.homes p plan hp).1 o)

/-- A task for the promise that is busy sees to it. -/
theorem enqueue_busy (h : G.Underway bundle T (insert (.promise p) busy) m)
    (hp : G.promise p = some plan) {j : Job V W}
    (hj : G.Serves bundle m.outcome? (.promise p) j) :
    G.Underway bundle (T.push (.queue plan.home) (some (.promise p))) busy
      (m.enqueue plan.home j) :=
  (h.enqueue (t := some (.promise p)) ((h.homes p plan hp).2.2.trans_le h.queues) hj
    fun _ _ he => by cases he).discharge_insert
    fun _ => .task hp (Ledger.mem_push.mpr (.inr ⟨rfl, rfl⟩))

/-- A reaction for the promise that is busy sees to it. -/
theorem subscribe_busy (h : G.Underway bundle T (insert (.promise p) busy) m)
    {s : Promise} {r : Outcome V → Job V W} (hr : G.Awaits bundle m.outcome? s (.promise p) r) :
    ∃ T', G.Underway bundle T' busy (m.subscribe s r) := by
  obtain ⟨T', h', -, hheld⟩ := h.subscribe (t := some (.promise p)) hr fun _ _ he => by cases he
  exact ⟨T', h'.discharge_insert fun _ => hheld _ rfl⟩

theorem yields_settle (h : G.Underway bundle T (insert (.promise p) busy) m)
    (hp : G.promise p = some plan) {o : Outcome V}
    (ho : Right bundle G m.outcome? plan.rank (plan.Accepts bundle) o) :
    G.Yields bundle busy m drain (Promise.ignore (p.settle o)) fun _ _ _ _ => True := by
  obtain ⟨T', h', -⟩ := h.settle_busy hp ho
  exact .done (later_settle p o) rfl h' trivial

/-- **Following a thenable sees to a promise**, if the outcomes of the thenable are right for it. -/
theorem yields_settleFrom (h : G.Underway bundle T (insert (.promise p) busy) m)
    (hp : G.promise p = some plan) {S : Fate V → Outcome V → Prop} {t : Thenable V W}
    (ht : G.Offers bundle (· = plan.home) plan.rank S t)
    (hS : ∀ a, Agrees m.outcome? a → G.Upholds bundle plan.rank a → ∀ o, S a o →
      plan.Accepts bundle a o) :
    G.Yields bundle busy m drain (p.settleFrom t) fun _ _ _ _ => True := by
  cases t with
  | value v => exact h.yields_settle hp fun a ha hup => hS a ha hup _ (ht a hup)
  | deferred compute =>
    obtain ⟨o, rfl, ho⟩ := ht
    have hj : G.Serves bundle m.outcome? (.promise p) (p.settleJob (W := W) o) :=
      .settle hp fun a ha hup => hS a ha hup _ (ho a hup)
    have hrun := congrArg (fun q => Ended.done () (m.enqueue q (p.settleJob o)))
      (h.homes p plan hp).2.1
    exact .done (later_append _ _) hrun (h.enqueue_busy hp hj) trivial
  | promise s =>
    obtain ⟨q, rfl, source, hs, hhome, hrank, hdeliver⟩ := ht
    obtain ⟨T', h'⟩ := h.subscribe_busy (s := s) (r := p.settleJob)
      ⟨source, plan, hs, hp, hhome, hrank, fun κ' hκ o ho => .settle hp fun a ha hup =>
        hS a (fun p' o' hp' => ha p' o' (hκ p' o' hp')) hup o (ha s o ho ▸ hdeliver a hup)⟩
    exact .done (later_subscribe s _) rfl h' trivial

/-! ## Answers of callbacks -/

theorem yields_resolveWith (h : G.Underway bundle T (insert (.promise p) busy) m)
    (hp : G.promise p = some plan) {S : Fate V → Outcome V → Prop}
    {answer : Except Failure (Thenable V W)}
    (ha : G.Replies bundle plan.home plan.rank S answer)
    (hS : ∀ a, Agrees m.outcome? a → G.Upholds bundle plan.rank a → ∀ o, S a o →
      plan.Accepts bundle a o) :
    G.Yields bundle busy m drain (p.resolveWith answer) fun _ _ _ _ => True := by
  cases answer with
  | ok t => exact h.yields_settleFrom hp ha hS
  | error f => exact h.yields_settle hp fun a hκ hup => hS a hκ hup _ (ha a hup)

/-- **Resolving a promise sees to it**, if what its answer is made of yields right outcomes. -/
theorem yields_resolveAfter (h : G.Underway bundle T (insert (.promise p) busy) m)
    (hp : G.promise p = some plan) {Γ : List QueueId} {env : List Promise} {r : ℚ}
    {answer : Program.Answer V n main Γ plan.home} (hr : r < plan.rank)
    (henv : G.Scoped Γ env r)
    (hbuild : G.Yields bundle (insert (.promise p) busy) m drain (answer.build bundle env)
      fun G' _ _ a => G'.Replies bundle plan.home plan.rank
        (fun a => answer.Means bundle (env.map a)) a)
    (hS : ∀ a, Agrees m.outcome? a → G.Upholds bundle plan.rank a →
      ∀ o, answer.Means bundle (env.map a) o → plan.Accepts bundle a o) (hops : Nat) :
    G.Yields bundle busy m drain (p.resolveAfter (answer.build bundle env) hops)
      fun _ _ _ _ => True := by
  cases hops with
  | zero =>
    refine hbuild.bind fun G' T' m' a hl h' ha => ?_
    exact h'.yields_resolveWith (hl.promise p plan hp) ha fun b hκ hup =>
      hS b (fun p o hp => hκ p o (hl.outcome p o hp)) (hl.toExtends.upholds hup)
  | succ hops =>
    have hj : G.Serves bundle m.outcome? (.promise p)
        (.mk (W := W) (p.resolveAfter (answer.build bundle env) hops)) :=
      .resolve hops hp hr henv hS
    have hrun := congrArg (fun q => Ended.done () (m.enqueue q
      (.mk (p.resolveAfter (answer.build bundle env) hops)))) (h.homes p plan hp).2.1
    exact .done (later_append _ _) hrun (h.enqueue_busy hp hj) trivial

/-! ## Operations on promises -/

variable {q : QueueId} {Γ : List QueueId} {env : List Promise} {r r' : ℚ}

/-- A new promise for a program: to settle it is busy at first. -/
theorem newPromise (h : G.Underway bundle T busy m) (e : Program V n main Γ q) (hq : q.index < n)
    (hr : r < r') (henv : G.Scoped Γ env r) :
    ∃ G', G.Later G' m (m.newPromise q).2 ∧
      G'.promise (m.newPromise q).1 = some ⟨Γ, q, e, env, r'⟩ ∧
      G'.Underway bundle T (insert (.promise (m.newPromise q).1) busy) (m.newPromise q).2 :=
  h.plan ⟨Γ, q, e, env, r'⟩ hq ⟨r, hr, henv⟩

theorem yields_settled (h : G.Underway bundle T busy m) (o : Outcome V) (hq : q.index < n)
    (hr : r < r') (henv : G.Scoped Γ env r) :
    G.Yields bundle busy m drain (Promise.settled q o)
      fun G' _ _ p => G'.Delivers bundle p q r' fun _ o' => o' = o := by
  obtain ⟨mid, hlo, hhi⟩ := exists_between hr
  obtain ⟨G', hl, hp, h'⟩ := h.newPromise (.settled o) hq hlo henv
  obtain ⟨T', h'', -⟩ := h'.settle_busy hp (o := o) fun _ _ _ => rfl
  exact .done (hl.trans (later_settle _ o)) rfl h'' (delivers_plan hp hhi)

/-- **Adopting a thenable**: empty slots of lists stay so, and their ledger stays. -/
theorem yields_adopt (h : G.Underway bundle T busy m) {t : Thenable V W}
    {item : Program.Item V n main Γ q} (hq : q.index < n) (hr : r < r') (henv : G.Scoped Γ env r)
    (ht : G.Offers bundle (fun q' => q' = q ∨ q = main) r'
      (fun a => item.Means bundle (env.map a)) t) {r'' : ℚ} (hr' : r' < r'') :
    G.Yields bundle busy m drain (Promise.adopt q t) fun G' T' m' p =>
      G'.Delivers bundle p q r'' (fun a => item.Means bundle (env.map a)) ∧
        (∀ g i, G.Vacant m g i → G'.Vacant m' g i) ∧
        ∀ g i x, some (.slot g i) ∈ T' x → ∃ y, some (.slot g i) ∈ T y := by
  obtain ⟨G', hl, hp, h'⟩ := h.newPromise (.adopt item) hq hr henv
  have ht' := hl.toExtends.offers le_rfl ht
  cases t with
  | value v =>
    obtain ⟨T', h'', hslots⟩ := h'.settle_busy hp (o := .ok v) fun a _ hup => ht' a hup
    have hl' := hl.trans (later_settle (m.newPromise q).1 (.ok v))
    exact .done hl' rfl h'' ⟨delivers_plan hp hr',
      fun g i hv => hv.later hl' fun _ _ => by rw [Machine.gathers_settle]; rfl,
      fun _ _ => hslots _⟩
  | deferred compute =>
    obtain ⟨o, rfl, ho⟩ := ht'
    have hj : G'.Serves bundle (m.newPromise q).2.outcome? (.promise (m.newPromise q).1)
        ((m.newPromise q).1.settleJob (W := W) o) := .settle hp fun a _ hup => ho a hup
    have hrun := congrArg (fun q' => Ended.done (m.newPromise q).1
      ((m.newPromise q).2.enqueue q' ((m.newPromise q).1.settleJob o)))
      (Machine.home_newPromise_self (m := m) q)
    have hl' := hl.trans (later_append q [(m.newPromise q).1.settleJob o])
    refine .done hl' hrun (h'.enqueue_busy hp hj) ⟨delivers_plan hp hr',
      fun g i hv => hv.later hl' fun _ _ => rfl, fun g i x hmem => ?_⟩
    exact (Ledger.mem_push.mp hmem).elim (fun h => ⟨x, h⟩) fun h => by cases h.2
  | promise s =>
    obtain ⟨q', hq', hs⟩ := ht
    have hhome : m.home s = q' := by
      obtain ⟨source, hsource, rfl, -⟩ := hs
      exact (h.homes s source hsource).2.1
    have hrun : (Promise.adopt q (.promise s)).run drain m = (if m.home s = q then .pure s
      else .newPromise q fun p => .enqueue q (p.followForeign s) (.pure p) :
        Work V W Promise).run drain m := rfl
    by_cases he : m.home s = q
    · rw [if_pos he] at hrun
      refine .done (.refl G m) hrun h ⟨?_, fun _ _ hv => hv, fun _ _ x hmem => ⟨x, hmem⟩⟩
      obtain rfl : q' = q := hhome.symm.trans he
      exact (Extends.refl G).delivers hr'.le hs
    · rw [if_neg he] at hrun
      have hmain : q = main := hq'.resolve_left fun hq => he (hhome.trans hq)
      have hj : G'.Serves bundle (m.newPromise q).2.outcome? (.promise (m.newPromise q).1)
          (Promise.followForeign (W := W) (m.newPromise q).1 s) :=
        .follow hp hmain (hl.toExtends.delivers le_rfl hs) fun hc =>
          he (hhome.trans (hc.trans hmain.symm))
      have hl' := hl.trans (later_append q [Promise.followForeign (m.newPromise q).1 s])
      refine .done hl' hrun (h'.enqueue_busy hp hj) ⟨delivers_plan hp hr',
        fun g i hv => hv.later hl' fun _ _ => rfl, fun g i x hmem => ?_⟩
      exact (Ledger.mem_push.mp hmem).elim (fun h => ⟨x, h⟩) fun h => by cases h.2

variable (drain m) in
/-- What reacting to a promise does. -/
theorem run_thenOrElse (p : Promise) (onValue : V → Outcome V) (onFailure : Failure → Outcome V) :
    (p.thenOrElse (fun v => .pure (onValue v)) fun f => .pure (onFailure f)).run drain m =
      .done (m.newPromise (m.home p)).1 ((m.newPromise (m.home p)).2.subscribe p fun o =>
        (m.newPromise (m.home p)).1.settleJob (Program.react onValue onFailure o)) := by
  refine congrArg (fun k => Ended.done _ (Machine.subscribe _ p k)) (funext fun o => ?_)
  cases o <;> rfl

variable (drain m) in
/-- What going on with the value of a promise does. -/
theorem run_andThen (p : Promise) (onValue : V → Work V W (Except Failure (Thenable V W))) :
    (p.andThen onValue).run drain m =
      .done (m.newPromise (m.home p)).1
        ((m.newPromise (m.home p)).2.subscribe p ((m.newPromise (m.home p)).1.goOn onValue)) := by
  refine congrArg (fun k => Ended.done _ (Machine.subscribe _ p k)) (funext fun o => ?_)
  cases o with
  | error f => rfl
  | ok v =>
    refine congrArg (fun k => Job.mk (Steps.bind _ k)) (funext fun answer => ?_)
    cases answer <;> rfl

/-- **Reacting to a promise.** -/
theorem yields_thenOrElse (h : G.Underway bundle T busy m) {e : Program V n main Γ q}
    (hq : q.index < n) (hr : r < r') (henv : G.Scoped Γ env r)
    (hp : G.Delivers bundle p q r' fun a => e.Means bundle (env.map a))
    (onValue : V → Outcome V) (onFailure : Failure → Outcome V) {r'' : ℚ} (hr' : r' < r'') :
    G.Yields bundle busy m drain
      (p.thenOrElse (fun v => .pure (onValue v)) fun f => .pure (onFailure f))
      fun G' _ _ target => G'.Delivers bundle target q r'' fun a =>
        (e.thenOrElse onValue onFailure).Means bundle (env.map a) := by
  obtain ⟨source, hsource, hhome, hrank, hmeans⟩ := hp
  obtain ⟨G', hl, htarget, h'⟩ :=
    h.newPromise (e.thenOrElse onValue onFailure) hq hr henv
  have hrun := run_thenOrElse m drain p onValue onFailure
  rw [(h.homes p source hsource).2.1, hhome] at hrun
  obtain ⟨T', h''⟩ := h'.subscribe_busy (s := p)
    ⟨source, _, hl.promise p source hsource, htarget, hhome, hrank, fun κ' _ o ho =>
      .settle htarget fun a ha hup =>
        ⟨o, ha p o ho ▸ hmeans a (hl.toExtends.upholds hup), rfl⟩⟩
  exact .done (hl.trans (later_subscribe p _)) hrun h'' (delivers_plan htarget hr')

/-- **Going on with the value of a promise.** -/
theorem yields_andThen (h : G.Underway bundle T busy m) {e : Program V n main Γ q}
    (hq : q.index < n) (hr : r < r') (henv : G.Scoped Γ env r)
    (hp : G.Delivers bundle p q r' fun a => e.Means bundle (env.map a))
    (onValue : V → Program.Answer V n main Γ q) {r'' : ℚ} (hr' : r' < r'') :
    G.Yields bundle busy m drain (p.andThen fun v => (onValue v).build bundle env)
      fun G' _ _ target => G'.Delivers bundle target q r'' fun a =>
        (e.andThen onValue).Means bundle (env.map a) := by
  obtain ⟨source, hsource, hhome, hrank, hmeans⟩ := hp
  obtain ⟨G', hl, htarget, h'⟩ := h.newPromise (e.andThen onValue) hq hr henv
  have hrun := run_andThen m drain p fun v => (onValue v).build bundle env
  rw [(h.homes p source hsource).2.1, hhome] at hrun
  obtain ⟨T', h''⟩ := h'.subscribe_busy (s := p)
    (r := (m.newPromise q).1.goOn fun v => (onValue v).build bundle env)
    ⟨source, _, hl.promise p source hsource, htarget, hhome, hrank, fun κ' _ o ho => by
      have hout : ∀ a, Agrees κ' a → G'.Upholds bundle r' a → e.Means bundle (env.map a) o :=
        fun a ha hup => ha p o ho ▸ hmeans a (hl.toExtends.upholds hup)
      cases o with
      | error f => exact .settle htarget fun a ha hup => ⟨_, hout a ha hup, rfl⟩
      | ok v =>
        exact .resolve 0 htarget hr (hl.toExtends.inScope le_rfl henv) fun a ha hup o' ho' =>
          ⟨_, hout a ha hup, ho'⟩⟩
  exact .done (hl.trans (later_subscribe p _)) hrun h'' (delivers_plan htarget hr')

/-! ## Gathering a list -/

/-- The slots of a list from one on. -/
def slotsFrom (g : GatherId) (k : Nat) : Set Duty := { d | ∃ i, k ≤ i ∧ d = .slot g i }

theorem slotsFrom_succ (g : GatherId) (k : Nat) :
    slotsFrom g k = insert (.slot g k) (slotsFrom g (k + 1)) := by
  ext d
  constructor
  · rintro ⟨i, hi, rfl⟩
    rcases hi.eq_or_lt with rfl | hlt
    · exact .inl rfl
    · exact .inr ⟨i, hlt, rfl⟩
  · rintro (rfl | ⟨i, hi, rfl⟩)
    · exact ⟨k, le_rfl, rfl⟩
    · exact ⟨i, Nat.le_of_succ_le hi, rfl⟩

/-- There is no slot past the end of a list. -/
theorem lt_of_vacant (h : G.Underway bundle T busy m) {g : GatherId} {l : ListPlan V} {i : Nat}
    (hg : G.list g = some l) (hv : G.Vacant m g i) : i < l.items.length := by
  obtain ⟨l', c, hl', hc, hi⟩ := hv
  obtain ⟨c', plan, hc', -, hf⟩ := h.lists g l hg
  obtain rfl := Option.some_inj.mp (hc.symm.trans hc')
  rw [← hf.length]
  exact (List.getElem?_eq_some_iff.mp hi).1

/-- **Subscribing a list to an item**: its slot is seen to, and the other slots stay as they are. -/
theorem yields_seat {g : GatherId} {l : ListPlan V} (hg : G.list g = some l)
    (hp : G.promise l.target = some plan) (hhome : plan.home = q) (hrank : r' < plan.rank)
    (hq : q.index < n) (hr : r < r') (henv : G.Scoped Γ env r) {item : Program.Item V n main Γ q}
    {t : Thenable V W} (ht : G.Offers bundle (fun q' => q' = q ∨ q = main) r'
      (fun a => item.Means bundle (env.map a)) t) {k : Nat}
    (hk : l.items[k]? = some fun a => item.Means bundle (env.map a))
    (h : G.Underway bundle T (insert (.slot g k) busy) m) (hfresh : G.Fresh T m (some (.slot g k))) :
    G.Yields bundle busy m drain
      ((Promise.adopt q t).bind fun p => .subscribe p (fillJob bundle l.target g k) (.pure ()))
      fun G' T' m' _ => G'.Vacant m' g k ∧
        ∀ i, i ≠ k → G.Fresh T m (some (.slot g i)) → G'.Fresh T' m' (some (.slot g i)) := by
  refine (h.yields_adopt hq hr henv ht hrank).bind fun G' T' m' p hl h' hd => ?_
  obtain ⟨⟨source, hsource, hhome', hrank', hmeans⟩, hvacs, hslots⟩ := hd
  have hduty : G'.duty (.slot g k) = some plan := by
    simp [duty, hl.list g l hg, hl.promise _ _ hp]
  have hawaits : G'.Awaits bundle m'.outcome? p (.slot g k)
      (fillJob (W := W) bundle l.target g k) :=
    ⟨source, plan, hsource, hduty, hhome'.trans hhome.symm, hrank', fun κ' _ o ho =>
      .fill (hl.list g l hg) hk (hl.promise _ _ hp) fun a ha hup => ha p o ho ▸ hmeans a hup⟩
  have hfresh' : ∀ i, G.Fresh T m (some (.slot g i)) → G'.Fresh T' m' (some (.slot g i)) := by
    rintro i hi _ _ he
    cases he
    obtain ⟨hvac, hgone⟩ := hi g i rfl
    exact ⟨hvacs g i hvac, fun x hx => (hslots g i x hx).elim hgone⟩
  obtain ⟨T'', h'', hentries, hheld⟩ := h'.subscribe (t := some (.slot g k)) hawaits
    (hfresh' k hfresh)
  have hl' : G'.Later G' m' (m'.subscribe p (fillJob bundle l.target g k)) := later_subscribe p _
  refine .done hl' rfl (h''.discharge_insert fun _ => hheld _ rfl) ⟨?_, fun i hne hi => ?_⟩
  · exact (hvacs g k (hfresh g k rfl).1).later hl' fun _ _ => by simp
  · rintro _ _ he
    cases he
    obtain ⟨hvac, hgone⟩ := hfresh' i hi g i rfl
    refine ⟨hvac.later hl' fun _ _ => by simp, fun x hx => ?_⟩
    rcases hentries x _ hx with hx | he
    · exact hgone x hx
    · cases he
      exact hne rfl

/-- **Subscribing a list to its items**, from one on. -/
theorem yields_gatherFrom {g : GatherId} {l : ListPlan V} (hg : G.list g = some l)
    (hp : G.promise l.target = some plan) (hhome : plan.home = q) (hrank : r' < plan.rank)
    (hq : q.index < n) (hr : r < r') (henv : G.Scoped Γ env r)
    {items : List (Program.Item V n main Γ q)} {ts : List (Thenable V W)}
    (hts : List.Forall₂ (fun item t => G.Offers bundle (fun q' => q' = q ∨ q = main) r'
      (fun a => item.Means bundle (env.map a)) t) items ts) {k : Nat}
    (hitems : l.items.drop k = items.map fun item a => item.Means bundle (env.map a))
    (h : G.Underway bundle T (insert (.promise l.target) busy ∪ slotsFrom g k) m)
    (hfresh : ∀ i, k ≤ i → i < l.items.length → G.Fresh T m (some (.slot g i)))
    {full : Option (List V)} (hfull : ts = [] ∨ full ≠ none → G.Gathered bundle m g plan full) :
    G.Yields bundle (insert (.promise l.target) busy) m drain
      (Promise.gatherFrom q bundle l.target g k ts full)
      fun G' _ m' full => G'.Gathered bundle m' g plan full := by
  induction ts generalizing G T m items k full with
  | nil =>
    obtain rfl := List.forall₂_nil_right_iff.mp hts
    refine .pure (h.discharge fun d hd hn hpend => ?_) (hfull (.inl rfl))
    obtain ⟨i, hi, rfl⟩ := hd.resolve_left hn
    have := h.lt_of_vacant hg hpend.1
    rw [List.map_nil, List.drop_eq_nil_iff] at hitems
    omega
  | cons t ts ih =>
    obtain ⟨item, items, ht, hts', rfl⟩ := List.forall₂_cons_right_iff.mp hts
    have hk : l.items[k]? = some fun a => item.Means bundle (env.map a) := by
      have := congrArg (·[0]?) hitems
      simpa using this
    have hrest : l.items.drop (k + 1) = items.map fun item a => item.Means bundle (env.map a) := by
      rw [← List.tail_drop, hitems]
      rfl
    have hnow := hfresh k le_rfl (List.getElem?_eq_some_iff.mp hk).1
    have hlater : ∀ i, k + 1 ≤ i → i < l.items.length → i ≠ k ∧ G.Fresh T m (some (.slot g i)) :=
      fun i hi hlt => ⟨by omega, hfresh i (by omega) hlt⟩
    rw [slotsFrom_succ, Set.union_insert] at h
    have hitem : G.Yields bundle (insert (.promise l.target) busy) m drain
        ((Promise.adopt q t).bind fun p => .subscribe p (fillJob bundle l.target g k)
          (Promise.gatherFrom q bundle l.target g (k + 1) ts full))
        fun G' _ m' full => G'.Gathered bundle m' g plan full := by
      have hseat : G.Yields bundle (insert (.promise l.target) busy ∪ slotsFrom g (k + 1)) m drain
          ((Promise.adopt q t).bind fun p =>
            .subscribe p (fillJob bundle l.target g k) (.pure ())) _ :=
        h.yields_seat hg hp hhome hrank hq hr henv ht hk hnow
      have hall := hseat.bind (k := fun _ => Promise.gatherFrom q bundle l.target g (k + 1) ts full)
        fun G' T' m' _ hl h' ⟨hvac, hfresh'⟩ => ih (hl.list g l hg) (hl.promise _ _ hp)
          (hl.toExtends.inScope le_rfl henv) (hts'.imp fun _ _ => hl.toExtends.offers le_rfl) hrest h'
          (fun i hi hlt => hfresh' i (hlater i hi hlt).1 (hlater i hi hlt).2) fun _ => by
            cases full with
            | none => exact ⟨k, hvac⟩
            | some vs => exact hl.toExtends.right hl.outcome (hfull (.inr (by simp)))
      rwa [Steps.bind_assoc'] at hall
    cases t with
    | value v =>
      obtain ⟨h', hgathered⟩ := h.fill hg hp hk (v := v) (fun a _ hup =>
        ht a fun p plan hp hlt => hup p plan hp (hlt.trans hrank)) hnow
      rw [Set.insert_eq_of_mem (.inl (Set.mem_insert _ _))] at h'
      refine .step (later_fill g k v) rfl (ih hg hp henv hts' hrest h' (fun i hi hlt => ?_)
        fun _ => hgathered)
      rintro _ _ he
      cases he
      obtain ⟨hne, hi⟩ := hlater i hi hlt
      exact ⟨(hi g i rfl).1.fill v (by simpa using hne), (hi g i rfl).2⟩
    | deferred compute => exact hitem
    | promise s => exact hitem

/-- **Gathering a list of thenables.** -/
theorem yields_gather (h : G.Underway bundle T busy m) {items : Program.Items V n main Γ q}
    (hq : q.index < n) (hr : r < r') (henv : G.Scoped Γ env r) {ts : List (Thenable V W)}
    (hts : List.Forall₂ (fun item t => G.Offers bundle (fun q' => q' = q ∨ q = main) r'
      (fun a => item.Means bundle (env.map a)) t) items.toList ts) {r'' : ℚ} (hr' : r' < r'') :
    G.Yields bundle busy m drain (Promise.gather q bundle ts) fun G' _ _ target =>
      G'.Delivers bundle target q r'' fun a => (Program.all items).Means bundle (env.map a) := by
  obtain ⟨mid, hlo, hhi⟩ := exists_between hr'
  obtain ⟨G₁, hl₁, htarget, h₁⟩ := h.newPromise (.all items) hq (hr.trans hlo) henv
  let l : ListPlan V :=
    ⟨(m.newPromise q).1, items.toList.map fun item a => item.Means bundle (env.map a)⟩
  have hlen : ts.length = l.items.length := by
    rw [List.length_map, hts.length_eq]
  have hvalues : ∀ a vs, List.Forall₂ (fun S v => S a (.ok v)) l.items vs →
      (Program.all items).Means bundle (env.map a) (.ok (bundle vs)) := by
    intro a vs hvs
    refine ⟨vs.map .ok, (Program.Items.means_iff bundle _ items _).mpr ?_, .inl ⟨vs, rfl, rfl⟩⟩
    rw [List.forall₂_map_left_iff] at hvs
    rwa [List.forall₂_map_right_iff]
  have hfailure : ∀ a, ∀ S ∈ l.items, ∀ f, S a (.error f) →
      (Program.all items).Means bundle (env.map a) (.error f) := by
    intro a S hS f hf
    obtain ⟨item, hitem, rfl⟩ := List.mem_map.mp hS
    obtain ⟨os, hos, hmem⟩ := items.exists_means_of_mem bundle (env.map a) hitem hf
    exact ⟨os, hos, .inr ⟨f, hmem, rfl⟩⟩
  obtain ⟨G₂, hl₂, hlist, hfresh, h₂⟩ := h₁.planList l htarget hvalues hfailure
  rw [← hlen] at hl₂ hlist hfresh h₂
  have hp₂ := hl₂.promise _ _ htarget
  have hstart : ts = [] ∨ (if ts.isEmpty then some [] else none : Option (List V)) ≠ none →
      G₂.Gathered bundle ((m.newPromise q).2.newGather ts.length).2
        ((m.newPromise q).2.newGather ts.length).1 ⟨Γ, q, .all items, env, mid⟩
        (if ts.isEmpty then some [] else none) := by
    cases ts with
    | nil =>
      have hnil : l.items = [] := List.length_eq_zero_iff.mp hlen.symm
      exact fun _ a _ _ => hvalues a [] (by rw [hnil]; exact .nil)
    | cons t ts => simp
  refine .step (hl₁.trans hl₂) (congrArg (Steps.run drain · m) (Promise.gather_eq q bundle ts))
    ((yields_gatherFrom hlist hp₂ rfl hlo hq hr ((hl₁.trans hl₂).toExtends.inScope le_rfl henv)
      (hts.imp fun _ _ => (hl₁.trans hl₂).toExtends.offers le_rfl) rfl
      (h₂.mono (Set.union_subset_union_right _ fun d ⟨i, hi⟩ => ⟨i, Nat.zero_le i, hi⟩))
      (fun i _ hi => hfresh i (hlen ▸ hi)) hstart).bind
        fun G₃ T₃ m₃ full hl₃ h₃ hfull => ?_)
  have hp₃ := hl₃.promise _ _ hp₂
  cases full with
  | some vs =>
    obtain ⟨T₄, h₄, -⟩ := h₃.settle_busy hp₃ hfull
    exact .done (later_settle _ _) rfl h₄ (delivers_plan hp₃ hhi)
  | none =>
    obtain ⟨i, hv⟩ := hfull
    exact .pure (h₃.discharge_insert fun _ => .list (hl₃.list _ _ hlist) hv)
      (delivers_plan hp₃ hhi)

end Underway

end Plans

end EntityQuery
