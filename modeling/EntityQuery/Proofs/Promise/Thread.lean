import EntityQuery.Proofs.Promise.Does

/-!
# Threads

A thread is what is under way to settle a promise: tasks that wait in the queue, and the parts that
these tasks use. Whichever of its tasks is started, in whatever machine, the thread comes one step
nearer to settling the promise; other threads stay as they are.

* `Prospect`: what a thread may come to, and when it may wait forever.
* `Thread.Live`: the threads that come to an end. It is an inductive predicate, so that a proof about
  threads follows their runs.
* **`Thread.Live.chain`**: a thread with a reaction to its promise is a thread of the promise that
  the reaction settles.
* `Future`: a promise that is settled or under way; `Thenable.Leads`: the same of a thenable.
* **`does_react`**, `does_settleFrom`, `does_adopt`.
-/

namespace EntityQuery

universe u

variable {V W E : Type} [AddCommMonoid E] {α : Type u}

/-- A pending promise of the queue. -/
def Terms.pending (C : Terms W E) (rs : List (Outcome V → Job V W)) : Content V W :=
  .cell ⟨C.queue, none, rs⟩

/-- A settled promise of the queue. -/
def Terms.settled (C : Terms W E) (o : Outcome V) : Content V W := .cell ⟨C.queue, some o, []⟩

/-- What something under way may come to, and when it may wait forever. -/
structure Prospect (A E : Type) where
  /-- What it may come to, each with the effect that it has by then. -/
  settles : A → E → Prop
  /-- The effects after which it may wait forever. -/
  waits : E → Prop

namespace Prospect

variable {A : Type}

/-- A condition on what something comes to says nothing about waiting. -/
instance : CoeTail (A → E → Prop) (Prospect A E) := ⟨fun post => ⟨post, fun _ => True⟩⟩

/-- A prospect later on, after an effect. -/
def later (φ : Prospect A E) (d : E) : Prospect A E :=
  ⟨fun a e => φ.settles a (d + e), fun e => φ.waits (d + e)⟩

variable {φ : Prospect A E} {a : A} {d e : E}

@[simp] theorem settles_later : (φ.later d).settles a e = φ.settles a (d + e) := rfl

@[simp] theorem waits_later : (φ.later d).waits e = φ.waits (d + e) := rfl

@[simp] theorem later_zero (φ : Prospect A E) : φ.later 0 = φ := by
  simp [later]

theorem later_later (φ : Prospect A E) (d e : E) : (φ.later d).later e = φ.later (d + e) := by
  simp [later, add_assoc]

end Prospect

/-- What is under way to settle a promise. -/
structure Thread (V W E : Type) where
  promise : Promise
  /-- What becomes of the promise. -/
  prospect : Prospect (Outcome V) E
  /-- The tasks in the queue. -/
  tasks : Multiset (Job V W)
  /-- The parts that the tasks use. -/
  heap : Heap V W

namespace Thread

/-- A thread later on, after an effect. -/
def later (t : Thread V W E) (d : E) (T : Multiset (Job V W)) (h : Heap V W) : Thread V W E :=
  { t with prospect := t.prospect.later d, tasks := T, heap := h }

/-- Each task of a thread settles the promise, or leads to a thread that meets `R`. Only on lax terms,
and where its prospect says so, may a thread wait for nothing. -/
structure Advances (C : Terms W E) (R : Thread V W E → Prop) (t : Thread V W E) : Prop where
  stuck : t.tasks = 0 → C.lax ∧ t.prospect.waits 0
  off : t.heap (.promise t.promise) = none
  step : ∀ task T, t.tasks = task ::ₘ T → ∀ rs,
    Does C (t.heap.set (.promise t.promise) (C.pending rs)) task.steps fun _ T' h d =>
      (∃ o, T = 0 ∧ T' = ↑(rs.map fun r => r o) ∧ t.prospect.settles o d ∧
        h (.promise t.promise) = some (C.settled o)) ∨
      ∃ h', h = h'.set (.promise t.promise) (C.pending rs) ∧ R (t.later d (T + T') h')

/-- A thread that settles its promise after finitely many of its tasks. -/
inductive Live (C : Terms W E) : Thread V W E → Prop
  | intro {t : Thread V W E} (R : Thread V W E → Prop) (hR : ∀ t', R t' → Live C t')
      (h : t.Advances C R) : Live C t

variable {C : Terms W E} {t : Thread V W E} {φ : Prospect (Outcome V) E}

theorem Live.of_advances (h : t.Advances C (Live C)) : t.Live C := ⟨_, fun _ h => h, h⟩

theorem Live.mono (h : t.Live C) (hs : ∀ o e, t.prospect.settles o e → φ.settles o e)
    (hw : ∀ e, t.prospect.waits e → φ.waits e) : Live C ⟨t.promise, φ, t.tasks, t.heap⟩ := by
  induction h generalizing φ with
  | @intro t R hR ha ih =>
    refine .of_advances ⟨fun hT => (ha.stuck hT).imp_right (hw 0), ha.off, fun task T hT rs => ?_⟩
    refine (ha.step task T hT rs).mono ?_
    rintro _ T' h d (⟨o, hT', hr, hp, ho⟩ | ⟨h', rfl, hr⟩)
    · exact .inl ⟨o, hT', hr, hs o d hp, ho⟩
    · exact .inr ⟨h', rfl, ih _ hr (fun o e => hs o (d + e)) fun e => hw (d + e)⟩

/-- A thread that waits for nothing. -/
theorem live_of_stuck (hl : C.lax) (hw : φ.waits 0) {p : Promise} {h : Heap V W}
    (hp : h (.promise p) = none) : Live C ⟨p, φ, 0, h⟩ :=
  .of_advances ⟨fun _ => ⟨hl, hw⟩, hp, fun _ _ hT => absurd hT.symm Multiset.cons_ne_zero⟩

/-- A thread of one task. -/
theorem live_of_task {p : Promise} {task : Job V W} {h : Heap V W} (hp : h (.promise p) = none)
    (ht : ∀ rs, Does C (h.set (.promise p) (C.pending rs)) task.steps fun _ T h d =>
      (∃ o, T = ↑(rs.map fun r => r o) ∧ φ.settles o d ∧ h (.promise p) = some (C.settled o)) ∨
      ∃ h', h = h'.set (.promise p) (C.pending rs) ∧ Live C ⟨p, φ.later d, T, h'⟩) :
    Live C ⟨p, φ, {task}, h⟩ := by
  refine .of_advances ⟨fun hT => absurd hT (Multiset.singleton_ne_zero _), hp,
    fun task' T hT rs => ?_⟩
  obtain ⟨rfl, rfl⟩ := (Multiset.singleton_eq_cons_iff T).mp hT
  refine (ht rs).mono ?_
  rintro _ T' h' d (⟨o, hr, hp, hs⟩ | ⟨h'', rfl, hr⟩)
  · exact .inl ⟨o, rfl, hr, hp, hs⟩
  · refine .inr ⟨h'', rfl, ?_⟩
    rw [zero_add]
    exact hr

/-- **A reaction to the promise of a thread goes on from its outcome.** -/
theorem Live.chain (ht : t.Live C) {target : Promise} {r : Outcome V → Job V W}
    (hr : ∀ o e, t.prospect.settles o e → Live C ⟨target, φ.later e, {r o}, .empty⟩)
    (hw : ∀ e, t.prospect.waits e → φ.waits e) (hne : target ≠ t.promise)
    (htarget : t.heap (.promise target) = none) :
    Live C ⟨target, φ, t.tasks, t.heap.set (.promise t.promise) (C.pending [r])⟩ := by
  induction ht generalizing φ with
  | @intro t R hR ha ih =>
    have hne' : Part.promise target ≠ .promise t.promise := by simpa using hne
    have htarget' : (t.heap.set (.promise t.promise) (C.pending [r])) (.promise target) = none := by
      rw [Heap.set_of_ne hne']
      exact htarget
    refine .of_advances ⟨fun hT => (ha.stuck hT).imp_right (hw 0), htarget',
      fun task T hT rs => ?_⟩
    refine ((ha.step task T hT [r]).beside htarget' (C.pending rs)).drop ?_
    rintro _ T' h d ⟨h₁, rfl, hn, ⟨o, rfl, rfl, hp, hs⟩ | ⟨h', rfl, hR'⟩⟩
    · refine ⟨Heap.empty.set (.promise target) (C.pending rs),
        (Heap.empty_within h₁).set _ _, .inr ⟨.empty, rfl, ?_⟩⟩
      rw [zero_add]
      exact hr o d hp
    · refine ⟨_, Heap.Within.refl _, .inr ⟨_, rfl, ?_⟩⟩
      rw [Heap.set_of_ne hne'] at hn
      refine ih _ hR' (fun o e hp => ?_) (fun e => hw (d + e)) hne hn
      rw [Prospect.later_later]
      exact hr o (d + e) hp

end Thread

/-! ## Futures -/

/-- A promise without reactions, settled or under way: the tasks `T` wait for it, and `h` are its
parts. -/
def Future (C : Terms W E) (p : Promise) (φ : Prospect (Outcome V) E) (T : Multiset (Job V W))
    (h : Heap V W) : Prop :=
  (∃ o, h (.promise p) = some (C.settled o) ∧ T = 0 ∧ φ.settles o 0) ∨
    ∃ h', h = h'.set (.promise p) (C.pending []) ∧ Thread.Live C ⟨p, φ, T, h'⟩

section

variable {C : Terms W E} {p : Promise} {φ φ' : Prospect (Outcome V) E}
  {T : Multiset (Job V W)} {h : Heap V W}

theorem Future.mono (hf : Future C p φ T h) (hs : ∀ o e, φ.settles o e → φ'.settles o e)
    (hw : ∀ e, φ.waits e → φ'.waits e := by exact fun _ h => h) : Future C p φ' T h := by
  rcases hf with ⟨o, hset, hT, ho⟩ | ⟨h', rfl, hl⟩
  · exact .inl ⟨o, hset, hT, hs o 0 ho⟩
  · exact .inr ⟨h', rfl, hl.mono hs hw⟩

theorem Future.exists_cell (hf : Future C p φ T h) :
    ∃ o?, h (.promise p) = some (.cell ⟨C.queue, o?, []⟩) := by
  rcases hf with ⟨o, hs, -, -⟩ | ⟨h', rfl, -⟩
  · exact ⟨_, hs⟩
  · exact ⟨none, Heap.set_self _ _ _⟩

/-- A reaction waits for a promise: it is in the queue, or a thread leads to it. -/
def Awaited (C : Terms W E) (φ : Prospect (Outcome V) E) (r : Outcome V → Job V W)
    (T : Multiset (Job V W)) (h : Heap V W) : Prop :=
  (∃ o, φ.settles o 0 ∧ T = {r o} ∧ h = .empty) ∨
    ∃ t : Thread V W E, t.Live C ∧ t.prospect = φ ∧ T = t.tasks ∧
      h = t.heap.set (.promise t.promise) (C.pending [r])

/-- Adding a reaction to a future, that may settle a new promise. -/
theorem Future.does_subscribe (hf : Future C p φ T h) {r : Promise → Outcome V → Job V W} :
    Does C h (.newPromise C.queue fun target => .subscribe p (r target) (.pure target))
      fun target T' h' d => d = 0 ∧ ∃ h₁, h' = h₁.set (.promise target) (C.pending []) ∧
        h₁ (.promise target) = none ∧ Awaited C φ (r target) (T + T') h₁ := by
  refine does_newPromise fun target htarget => ?_
  rcases hf with ⟨o, hs, rfl, ho⟩ | ⟨h', rfl, hl⟩
  · have hne : Part.promise p ≠ .promise target := by
      intro he
      rw [he, htarget] at hs
      cases hs
    have hs' : (h.set (.promise target) (C.pending [])) (.promise p) =
        some (.cell ⟨C.queue, some o, []⟩) := by
      rw [Heap.set_of_ne hne]
      exact hs
    refine does_subscribe_of_settled hs' ?_
    refine (does_pure (Q := fun a T h' d => a = target ∧ T = 0 ∧ d = 0 ∧
      h' = h.set (.promise target) (C.pending [])) ⟨rfl, rfl, rfl, rfl⟩).drop ?_
    rintro _ _ _ _ ⟨rfl, rfl, rfl, rfl⟩
    exact ⟨_, (Heap.empty_within h).set _ _, rfl, .empty, rfl, rfl, .inl ⟨o, ho, by simp, rfl⟩⟩
  · have hne : target ≠ p := by
      rintro rfl
      rw [Heap.set_self] at htarget
      cases htarget
    have hne' : Part.promise target ≠ .promise p := by simpa using hne
    have hs' : ((h'.set (.promise p) (C.pending [])).set (.promise target) (C.pending []))
        (.promise p) = some (.cell ⟨C.queue, none, []⟩) := by
      rw [Heap.set_of_ne hne'.symm, Heap.set_self]
      rfl
    rw [Heap.set_of_ne hne'] at htarget
    refine does_subscribe_of_pending hs' ?_
    refine does_pure ⟨rfl, h'.set (.promise p) (C.pending [r target]), ?_, ?_, ?_⟩
    · rw [Heap.set_comm hne'.symm, Heap.set_set]
      exact Heap.set_comm hne' _ _ _
    · rw [Heap.set_of_ne hne', htarget]
    · exact .inr ⟨_, hl, rfl, add_zero _, rfl⟩

/-- **A reaction to a future, that settles a new promise.** -/
theorem Future.does_react (hf : Future C p φ T h) {r : Promise → Outcome V → Job V W}
    (hr : ∀ target o e, φ.settles o e → Thread.Live C ⟨target, φ'.later e, {r target o}, .empty⟩)
    (hw : ∀ e, φ.waits e → φ'.waits e) :
    Does C h (.newPromise C.queue fun target => .subscribe p (r target) (.pure target))
      fun target T' h' d => d = 0 ∧ Future C target φ' (T + T') h' := by
  refine hf.does_subscribe.mono ?_
  rintro target T' _ _ ⟨rfl, h₁, rfl, htarget, ⟨o, ho, hT, rfl⟩ | ⟨t, hl, rfl, hT, rfl⟩⟩
  · refine ⟨rfl, .inr ⟨.empty, rfl, ?_⟩⟩
    rw [hT]
    simpa using hr target o 0 ho
  · refine ⟨rfl, .inr ⟨_, rfl, ?_⟩⟩
    have hne : target ≠ t.promise := by
      rintro rfl
      rw [Heap.set_self] at htarget
      cases htarget
    have hne' : Part.promise target ≠ .promise t.promise := by simpa using hne
    rw [Heap.set_of_ne hne'] at htarget
    rw [hT]
    exact hl.chain (fun o e ho => hr target o e ho) hw hne htarget

/-! ## Following a thenable -/

/-- What a thenable comes to, where it has the tasks `T` and the parts `h`. -/
def Thenable.Leads (C : Terms W E) (φ : Prospect (Outcome V) E) (T : Multiset (Job V W))
    (h : Heap V W) : Thenable V W → Prop
  | .value v => T = 0 ∧ φ.settles (.ok v) 0
  | .deferred compute =>
    T = 0 ∧ Does C .empty compute fun o T' _ d => T' = 0 ∧ φ.settles o d
  | .promise p => Future C p φ T h

theorem Thenable.Leads.mono {th : Thenable V W} (hl : th.Leads C φ T h)
    (hs : ∀ o e, φ.settles o e → φ'.settles o e)
    (hw : ∀ e, φ.waits e → φ'.waits e := by exact fun _ h => h) : th.Leads C φ' T h := by
  cases th with
  | value v => exact ⟨hl.1, hs _ _ hl.2⟩
  | deferred compute => exact ⟨hl.1, hl.2.mono fun o _ _ d ho => ⟨ho.1, hs o d ho.2⟩⟩
  | promise p => exact Future.mono hl hs hw

/-- A task that settles a promise with what some work answers. -/
theorem live_of_settling {target : Promise} {compute : Work V W (Outcome V)}
    (hc : Does C .empty compute fun o T _ d => T = 0 ∧ φ.settles o d) :
    Thread.Live C ⟨target, φ,
      {.mk (compute.bind fun o => Promise.ignore (target.settle o))}, .empty⟩ := by
  refine Thread.live_of_task rfl fun rs => ?_
  refine Does.bind ((hc.beside (x := .promise target) rfl (C.pending rs)).mono ?_)
  rintro o _ _ d ⟨h₁, rfl, hn, rfl, ho⟩
  refine does_settle (Heap.set_self _ _ _) fun _ => ?_
  refine does_pure (.inl ⟨o, ?_, ?_, ?_⟩)
  · simp
  · simpa using ho
  · exact Heap.set_self _ _ _

/-- **What becomes of a pending promise that follows a thenable.** -/
theorem Thenable.Leads.does_settleFrom {th : Thenable V W} (hl : th.Leads C φ T h)
    {target : Promise} (hn : h (.promise target) = none) (rs : List (Outcome V → Job V W)) :
    Does C (h.set (.promise target) (C.pending rs)) (target.settleFrom th) fun _ T' h' d => d = 0 ∧
      ((∃ o, T = 0 ∧ T' = ↑(rs.map fun r => r o) ∧ φ.settles o 0 ∧
          h' (.promise target) = some (C.settled o)) ∨
        ∃ h'', h' = h''.set (.promise target) (C.pending rs) ∧
          Thread.Live C ⟨target, φ, T + T', h''⟩) := by
  cases th with
  | value v =>
    obtain ⟨rfl, ho⟩ := hl
    refine does_settle (Heap.set_self _ _ _) fun _ => ?_
    refine does_pure ⟨rfl, .inl ⟨.ok v, rfl, ?_, ho, Heap.set_self _ _ _⟩⟩
    rw [add_zero]
  | deferred compute =>
    obtain ⟨rfl, hc⟩ := hl
    refine does_home (Heap.set_self _ _ _) (does_enqueue ?_)
    refine (does_pure (Q := fun _ T' h' d => T' = 0 ∧ d = 0 ∧
      h' = h.set (.promise target) (C.pending rs)) ⟨rfl, rfl, rfl⟩).drop ?_
    rintro _ _ _ _ ⟨rfl, rfl, rfl⟩
    refine ⟨Heap.empty.set _ (C.pending rs), (Heap.empty_within h).set _ _, rfl,
      .inr ⟨.empty, rfl, ?_⟩⟩
    rw [add_zero, zero_add]
    exact live_of_settling hc
  | promise p =>
    rcases hl with ⟨o, hs, rfl, ho⟩ | ⟨h', rfl, hl⟩
    · have hne : Part.promise p ≠ .promise target := by
        intro he
        rw [he, hn] at hs
        cases hs
      have hs' : (h.set (.promise target) (C.pending rs)) (.promise p) =
          some (.cell ⟨C.queue, some o, []⟩) := by
        rw [Heap.set_of_ne hne]
        exact hs
      refine does_subscribe_of_settled hs' ?_
      refine (does_pure (Q := fun _ T' h' d => T' = 0 ∧ d = 0 ∧
        h' = h.set (.promise target) (C.pending rs)) ⟨rfl, rfl, rfl⟩).drop ?_
      rintro _ _ _ _ ⟨rfl, rfl, rfl⟩
      refine ⟨Heap.empty.set _ (C.pending rs), (Heap.empty_within h).set _ _, rfl,
        .inr ⟨.empty, rfl, ?_⟩⟩
      rw [add_zero, zero_add]
      exact live_of_settling (does_pure ⟨rfl, ho⟩)
    · have hne : target ≠ p := by
        rintro rfl
        rw [Heap.set_self] at hn
        cases hn
      have hne' : Part.promise target ≠ .promise p := by simpa using hne
      rw [Heap.set_of_ne hne'] at hn
      have hs' : ((h'.set (.promise p) (C.pending [])).set (.promise target) (C.pending rs))
          (.promise p) = some (.cell ⟨C.queue, none, []⟩) := by
        rw [Heap.set_of_ne hne'.symm, Heap.set_self]
        rfl
      refine does_subscribe_of_pending hs' ?_
      refine does_pure ⟨rfl, .inr ⟨h'.set (.promise p) (C.pending [target.settleJob]), ?_, ?_⟩⟩
      · rw [Heap.set_comm hne'.symm, Heap.set_set]
        exact Heap.set_comm hne' _ _ _
      · rw [add_zero]
        refine hl.chain (fun o e ho => ?_) (fun _ h => h) hne hn
        exact live_of_settling (does_pure ⟨rfl, by simpa using ho⟩)

/-- A task that follows what some work answers. -/
theorem live_of_following {target : Promise} {compute : Work V W (Except Failure (Thenable V W))}
    (hc : Does C .empty compute fun result T h d =>
      match result with
      | .ok th => th.Leads C (φ.later d) T h
      | .error f => T = 0 ∧ φ.settles (.error f) d) :
    Thread.Live C ⟨target, φ,
      {.mk (compute.bind fun result =>
        match result with
        | .ok thenable => target.settleFrom thenable
        | .error f => Promise.ignore (target.settle (.error f)))}, .empty⟩ := by
  refine Thread.live_of_task rfl fun rs => ?_
  refine Does.bind ((hc.beside (x := .promise target) rfl (C.pending rs)).mono ?_)
  rintro result T _ d ⟨h₁, rfl, hn, hr⟩
  cases result with
  | ok th =>
    refine (Thenable.Leads.does_settleFrom hr hn rs).mono ?_
    rintro _ T' h' _ ⟨rfl, ⟨o, rfl, rfl, ho, hs⟩ | ⟨h'', rfl, hl⟩⟩
    · exact .inl ⟨o, zero_add _, ho, hs⟩
    · refine .inr ⟨h'', rfl, ?_⟩
      simpa only [add_zero] using hl
  | error f =>
    obtain ⟨rfl, ho⟩ := hr
    refine does_settle (Heap.set_self _ _ _) fun _ => ?_
    refine does_pure (.inl ⟨.error f, ?_, ?_, ?_⟩)
    · simp
    · simpa using ho
    · exact Heap.set_self _ _ _

/-! ## Promises of what callbacks make of an outcome -/

theorem does_settled {o : Outcome V} (φ : Prospect (Outcome V) E) (ho : φ.settles o 0) :
    Does C h (Promise.settled C.queue o) fun p T h' d => d = 0 ∧ Future C p φ T h' := by
  refine does_newPromise fun p _ => does_settle (Heap.set_self _ _ _) fun _ => does_pure ⟨rfl, ?_⟩
  exact .inl ⟨o, Heap.set_self _ _ _, rfl, ho⟩

/-- The task that settles a promise with what one of two callbacks makes of an outcome. -/
def Promise.reactJob (onValue : V → Work V W (Outcome V))
    (onFailure : Failure → Work V W (Outcome V)) (target : Promise) : Outcome V → Job V W
  | .ok v => .mk ((onValue v).bind fun o => ignore (target.settle o))
  | .error f => .mk ((onFailure f).bind fun o => ignore (target.settle o))

theorem Promise.thenOrElse_eq (p : Promise) (onValue : V → Work V W (Outcome V))
    (onFailure : Failure → Work V W (Outcome V)) :
    p.thenOrElse onValue onFailure = .home p fun q => .newPromise q fun target =>
      .subscribe p (reactJob onValue onFailure target) (.pure target) := by
  refine congrArg (Steps.home p) (funext fun q => congrArg (Steps.newPromise q)
    (funext fun target => congrArg (Steps.subscribe p · (.pure target)) (funext fun o => ?_)))
  cases o <;> rfl

theorem Future.does_thenOrElse (hf : Future C p φ T h)
    {onValue : V → Work V W (Outcome V)} {onFailure : Failure → Work V W (Outcome V)}
    (hv : ∀ v e, φ.settles (.ok v) e →
      Does C .empty (onValue v) fun o T' _ d => T' = 0 ∧ φ'.settles o (e + d))
    (he : ∀ f e, φ.settles (.error f) e →
      Does C .empty (onFailure f) fun o T' _ d => T' = 0 ∧ φ'.settles o (e + d))
    (hw : ∀ e, φ.waits e → φ'.waits e := by exact fun _ h => h) :
    Does C h (p.thenOrElse onValue onFailure) fun target T' h' d =>
      d = 0 ∧ Future C target φ' (T + T') h' := by
  obtain ⟨o?, hc⟩ := hf.exists_cell
  rw [Promise.thenOrElse_eq]
  refine does_home hc (hf.does_react (fun target o e ho => ?_) hw)
  cases o with
  | ok v => exact live_of_settling (hv v e ho)
  | error f => exact live_of_settling (he f e ho)

theorem Future.does_andThen (hf : Future C p φ T h)
    {onValue : V → Work V W (Except Failure (Thenable V W))}
    (hv : ∀ v e, φ.settles (.ok v) e → Does C .empty (onValue v) fun result T h d =>
      match result with
      | .ok th => th.Leads C ((φ'.later e).later d) T h
      | .error f => T = 0 ∧ φ'.settles (.error f) (e + d))
    (he : ∀ f e, φ.settles (.error f) e → φ'.settles (.error f) e)
    (hw : ∀ e, φ.waits e → φ'.waits e := by exact fun _ h => h) :
    Does C h (p.andThen onValue) fun target T' h' d =>
      d = 0 ∧ Future C target φ' (T + T') h' := by
  obtain ⟨o?, hc⟩ := hf.exists_cell
  refine does_home hc (hf.does_react (fun target o e ho => ?_) hw)
  cases o with
  | ok v => exact live_of_following (hv v e ho)
  | error f => exact live_of_following (does_pure ⟨rfl, by simpa using he f e ho⟩)

/-! ## Adopting a thenable -/

/-- What a thenable comes to that an execution on the queue may adopt: it leads there, or it is a
promise of another queue, whose tasks lead there. -/
def Thenable.Adopts (C : Terms W E) (φ : Prospect (Outcome V) E) (T : Multiset (Job V W))
    (h : Heap V W) (th : Thenable V W) : Prop :=
  th.Leads C φ T h ∨
    ∃ source c, th = .promise source ∧ T = 0 ∧ h (.promise source) = some (.cell c) ∧
      c.home ≠ C.queue ∧ Drains C h c.home source fun _ T' h' d =>
        T' = 0 ∧ ∃ c', h' (.promise source) = some (.cell c') ∧
          φ.settles (c'.outcome?.getD (.error WaitFault.stalled.failure)) d

/-- A thenable of the queue itself. -/
theorem Thenable.Leads.does_adopt {th : Thenable V W} (hl : th.Leads C φ T h) :
    Does C h (Promise.adopt C.queue th) fun p T' h' d => d = 0 ∧ Future C p φ (T + T') h' := by
  have started : ∀ {th : Thenable V W}, th.Leads C φ T h →
      Does C h (.newPromise C.queue fun p => (p.settleFrom th).bind fun _ => .pure p)
        fun p T' h' d => d = 0 ∧ Future C p φ (T + T') h' := by
    intro th hl
    refine does_newPromise fun p hp => Does.bind ((hl.does_settleFrom hp []).mono ?_)
    rintro _ T' h' _ ⟨rfl, ⟨o, rfl, rfl, ho, hs⟩ | ⟨h'', rfl, hl'⟩⟩
    · exact does_pure ⟨add_zero _, .inl ⟨o, hs, rfl, ho⟩⟩
    · rw [← add_zero T'] at hl'
      exact does_pure ⟨add_zero _, .inr ⟨h'', rfl, hl'⟩⟩
  cases th with
  | value v => exact started hl
  | deferred compute => exact started hl
  | promise source =>
    obtain ⟨o?, hc⟩ := Future.exists_cell hl
    refine does_home hc ?_
    simp only [Steps.bind]
    rw [if_pos trivial]
    exact does_pure ⟨rfl, by rwa [add_zero]⟩

/-- **A thenable becomes a promise of the queue.** -/
theorem Thenable.Adopts.does_adopt {th : Thenable V W} (ha : th.Adopts C φ T h) :
    Does C h (Promise.adopt C.queue th) fun p T' h' d => d = 0 ∧ Future C p φ (T + T') h' := by
  rcases ha with hl | ⟨source, c, rfl, rfl, hc, hne, hd⟩
  · exact hl.does_adopt
  · refine does_home hc ?_
    simp only [Steps.bind]
    rw [if_neg hne]
    refine does_newPromise fun p hp => does_enqueue (does_pure ⟨rfl, .inr ⟨h, rfl, ?_⟩⟩)
    rw [zero_add, add_zero]
    refine Thread.live_of_task hp fun rs => ?_
    have hps : Part.promise source ≠ .promise p := by
      intro he
      rw [he, hp] at hc
      cases hc
    refine does_home (by rw [Heap.set_of_ne hps]; exact hc) (does_drain ?_)
    have hd' := hd.frame (Heap.apart_single (c := C.pending rs).mpr hp)
    rw [Heap.union_single hp] at hd'
    refine hd'.mono ?_
    rintro _ _ _ d ⟨h₁, rfl, ha, rfl, c', hc', ho⟩
    have hn := Heap.apart_single.mp ha
    rw [Heap.union_single hn]
    refine does_outcome (by rw [Heap.set_of_ne hps]; exact hc') ?_
    refine does_settle (Heap.set_self _ _ _) fun _ =>
      does_pure (.inl ⟨c'.outcome?.getD (.error WaitFault.stalled.failure), ?_, ?_, ?_⟩)
    · simp
    · simpa using ho
    · exact Heap.set_self _ _ _

end

end EntityQuery
