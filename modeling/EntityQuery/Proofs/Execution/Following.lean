import EntityQuery.Execution.Completion
import EntityQuery.Proofs.Execution.Attempts

/-!
# Following answers

Whatever promise a resolver answers with, the execution makes of it a promise of its own queue. A promise
of another queue is followed by draining that queue. What the promise comes to is said on any terms, from
what the callbacks of the answer come to.

* `Answer.Heads`: what an answer comes to.
* `does_settling`: a promise that is settled by later tasks, or at once.
* **`does_answered`**: a promise of what a resolver answers.
-/

namespace EntityQuery

variable {σ E : Type} [AddCommMonoid E] {C : Terms (World σ) E} [C.Panics]
  {φ : Prospect (Outcome Payload) E} {B : E → Prop}

/-- What is settled with the result of a callback. -/
def Prospect.settlesWith (φ : Prospect (Outcome Payload) E) (r : Except Fault Json) (d : E) : Prop :=
  φ.settles (outcomeOf (r.mapError Fault.toFailure)) d

/-- What an answer comes to: `φ` says it of a promise of the answer, and the effect of what is done at
once meets `B`. On terms that are not lax it is no promise of the queue itself that nothing settles, and
where a promise is settled by later tasks, these do not panic. -/
inductive Answer.Heads (C : Terms (World σ) E) (B : E → Prop) (φ : Prospect (Outcome Payload) E) :
    Answer σ → Prop
  | ready {v : Json} (h : φ.settles (.ok (.value v)) 0) : Heads C B φ (.ready v)
  | deferred {compute : Callback σ Json} (h : compute.Acts C φ.settlesWith) :
      Heads C B φ (.deferred compute)
  | settling {home : Home} {hops : Nat} {finish : Callback σ Json}
      (h : finish.Acts C fun r d => φ.settlesWith r d ∧ B d ∧
        (hops ≠ 0 → ∀ p, r = .error (.panic p) → C.lax)) : Heads C B φ (.settling home hops finish)
  | stuck (hl : C.lax) (hw : φ.waits 0) : Heads C B φ (.stuck .own)
  | dry (h : φ.settles (.error WaitFault.stalled.failure) 0) : Heads C B φ (.stuck .foreign)

omit [C.Panics] in
theorem Answer.Heads.mono {φ' : Prospect (Outcome Payload) E} {a : Answer σ} (h : a.Heads C B φ)
    (hs : ∀ o e, φ.settles o e → φ'.settles o e)
    (hw : ∀ e, φ.waits e → φ'.waits e := by exact fun _ h => h) : a.Heads C B φ' := by
  cases h with
  | ready h => exact .ready (hs _ _ h)
  | deferred h => exact .deferred (h.mono fun r d => hs _ d)
  | settling h => exact .settling (h.mono fun r d => .imp_left (hs _ d))
  | stuck hl h => exact .stuck hl (hw 0 h)
  | dry h => exact .dry (hs _ _ h)

/-- Deferred work comes to what its callback comes to; a panic is a failure. -/
theorem does_deferred {compute : Callback σ Json} (hc : compute.Acts C φ.settlesWith) (h : Parts σ) :
    Does C h
      (do return outcomeOf (← (Attempt.call (Callback.guard compute)).exposed) :
        Run σ (Outcome Payload))
      fun o T _ d => T = 0 ∧ φ.settles o d := by
  refine Does.bind (Does.exposed (hc.guard h _ fun r d hr => ?_))
  obtain ⟨r', hr', rfl⟩ := hr
  cases r' with
  | ok v => exact does_pure ⟨add_zero _, by rw [add_zero]; exact hr'⟩
  | error f => exact does_pure ⟨add_zero _, by rw [add_zero]; exact hr'⟩

omit [C.Panics] in
/-- Settling a promise with what a callback comes to, given what settling does. -/
theorem does_settleBy {p : Promise} {finish : Callback σ Json} {R : Except Fault Json → E → Prop}
    (hc : finish.Acts C R) {h : Parts σ} {Q : Except Fault Unit → Tasks σ → Parts σ → E → Prop}
    (hsettle : ∀ r d, R r d → Does C h (p.settle (outcomeOf (r.mapError Fault.toFailure)))
      fun _ T h d' => Q (.ok ()) T h (d + d'))
    (hpanic : ∀ q d, R (.error (.panic q)) d → Q (.error (.panic q)) 0 h d) :
    Does C h (settleBy p finish).run Q := by
  refine Does.attempt_bind (Does.orFailure (hc h _ fun r d hr => ?_))
  have settles : ∀ o, o = r.mapError Fault.toFailure → Does C h
      (do let _ ← Attempt.ofRun (p.settle (outcomeOf o)) : Attempt σ Unit).run
      fun r' T' h' d' => Q r' (0 + T') h' (d + d') := by
    rintro _ rfl
    refine Does.attempt_bind (Does.ofRun ((hsettle r d hr).mono fun _ T h d hq => ?_))
    exact does_return (by simpa using hq)
  cases r with
  | ok v => exact settles (.ok v) rfl
  | error f =>
    cases f with
    | failure f => exact settles (.error f) rfl
    | panic q => exact hpanic q d hr

/-- The last task of a chain settles the promise, unless it panics. -/
theorem does_finish {p : Promise} {finish : Callback σ Json} {R : Except Fault Json → E → Prop}
    (hc : finish.Acts C R) {h : Parts σ} (hpanic : ∀ q d, R (.error (.panic q)) d → C.lax)
    {Q : Unit → Tasks σ → Parts σ → E → Prop}
    (hsettle : ∀ r d, R r d → Does C h (p.settle (outcomeOf (r.mapError Fault.toFailure)))
      fun _ T h d' => Q () T h (d + d')) :
    Does C h (Promise.ignore (settleBy p finish).exposed) Q := by
  refine Does.bind (Does.exposed (does_settleBy hc (fun r d hr => ?_) fun q d hq => hpanic q d hq))
  refine (hsettle r d hr).mono fun _ T h d hq => does_pure ?_
  simpa using hq

/-! ## Chains of tasks -/

omit [C.Panics] in
/-- A chain of tasks on the queue whose last one settles a promise. -/
theorem live_of_hops {p : Promise} {last : Run σ Unit}
    (hlast : ∀ rs, Does C (Heap.empty.set (.promise p) (C.pending rs)) last fun _ T h d =>
      ∃ o, T = ↑(rs.map fun r => r o) ∧ φ.settles o d ∧ h (.promise p) = some (C.settled o))
    (hops : Nat) :
    Thread.Live C ⟨p, φ, {.mk (afterHops C.queue last hops)}, .empty⟩ := by
  induction hops with
  | zero =>
    refine Thread.live_of_task rfl fun rs => (hlast rs).mono ?_
    rintro _ T h d ⟨o, hT, hpost, hs⟩
    exact .inl ⟨o, hT, hpost, hs⟩
  | succ n ih =>
    refine Thread.live_of_task rfl fun rs => does_enqueue (does_pure (.inr ⟨.empty, rfl, ?_⟩))
    simpa using ih

omit [C.Panics] in
/-- A chain of tasks on another queue whose last one settles a promise. -/
theorem drains_of_hops {q : QueueId} {p : Promise} {last : Run σ Unit}
    (hlast : ∀ ticks, Does C
      ((Heap.empty.set (.queue q) (.queue ⟨[], ticks⟩)).set (.promise p) (.cell ⟨q, none, []⟩))
      last fun _ T h d =>
        T = 0 ∧ ∃ o, φ.settles o d ∧ h (.promise p) = some (.cell ⟨q, some o, []⟩))
    (hops ticks : Nat) :
    Drains C
      ((Heap.empty.set (.queue q) (.queue ⟨[.mk (afterHops q last hops)], ticks⟩)).set
        (.promise p) (.cell ⟨q, none, []⟩)) q p fun _ T h d =>
      T = 0 ∧ ∃ c, h (.promise p) = some (.cell c) ∧
        φ.settles (c.outcome?.getD (.error WaitFault.stalled.failure)) d := by
  have hne : Part.queue q ≠ .promise p := by simp
  have popped : ∀ (c : Queue Payload (World σ)) ticks,
      ((Heap.empty.set (.queue q) (.queue c)).set (.promise p) (.cell ⟨q, none, []⟩)).set
        (.queue q) (.queue ⟨[], ticks⟩) =
      (Heap.empty.set (.queue q) (.queue ⟨[], ticks⟩)).set (.promise p)
        (.cell ⟨q, none, []⟩) := by
    intro c ticks
    rw [Heap.set_comm hne.symm, Heap.set_set]
  have hqueue : ∀ c : Queue Payload (World σ),
      ((Heap.empty.set (.queue q) (.queue c)).set (.promise p) (.cell ⟨q, none, []⟩))
        (.queue q) = some (.queue c) := by
    intro c
    rw [Heap.set_of_ne hne, Heap.set_self]
  induction hops generalizing ticks with
  | zero =>
    refine drains_of_pop (Heap.set_self _ _ _) rfl (hqueue _) ?_
    rw [popped]
    refine (hlast _).mono ?_
    rintro _ T h d ⟨rfl, o, hpost, hs⟩
    exact drains_of_settled hs rfl ⟨add_zero _, _, hs, by simpa using hpost⟩
  | succ n ih =>
    refine drains_of_pop (Heap.set_self _ _ _) rfl (hqueue _) ?_
    rw [popped]
    refine does_enqueue_of_other (hqueue _) ?_
    rw [Heap.set_comm hne.symm, Heap.set_set]
    refine does_pure ?_
    refine (ih _).mono ?_
    rintro _ T h d ⟨rfl, c, hc, hpost⟩
    exact ⟨add_zero _, c, hc, by simpa using hpost⟩

/-! ## From an answer to a promise -/

/-- What steps that begin with an answer give: a thenable that the execution may adopt, or a fault. -/
def Begins (C : Terms (World σ) E) (B : E → Prop) (φ : Prospect (Outcome Payload) E)
    (r : Except Fault (Thenable Payload (World σ))) (T : Tasks σ) (h : Parts σ) (d : E) : Prop :=
  B d ∧
    match r with
    | .ok th => th.Adopts C (φ.later d) T h
    | .error f => T = 0 ∧ φ.settles (.error f.toFailure) d

/-- A promise that is settled by a number of later tasks, or at once without any. -/
theorem does_settling (home : Home) (hops : Nat) (finish : Callback σ Json) (hB : B 0)
    (hc : finish.Acts C fun r d => φ.settlesWith r d ∧ B d ∧
      (hops ≠ 0 → ∀ p, r = .error (.panic p) → C.lax)) :
    Does C .empty ((Answer.settling home hops finish).begin C.queue).run (Begins C B φ) := by
  cases home with
  | own =>
    refine Does.attempt_bind (Does.ofRun (does_pure ?_))
    refine Does.attempt_bind (Does.ofRun (does_newPromise fun p _ => does_pure ?_))
    cases hops with
    | zero =>
      simp only [↓reduceIte]
      refine Does.attempt_bind (does_settleBy hc (fun r d hr => ?_) fun q d hq => ?_)
      · refine does_settle (Heap.set_self _ _ _) fun _ => does_pure ?_
        refine does_return ⟨by simpa using hr.2.1, .inl (.inl ⟨_, Heap.set_self _ _ _, by simp, ?_⟩)⟩
        simpa [Prospect.settlesWith] using hr.1
      · exact ⟨by simpa using hq.2.1, by simp, by rw [zero_add, zero_add]; exact hq.1⟩
    | succ n =>
      simp only [Nat.add_one_ne_zero, ↓reduceIte]
      refine Does.attempt_bind (Does.ofRun (does_enqueue (does_pure ?_)))
      refine does_return ⟨by simpa using hB, .inl (.inr ⟨.empty, rfl, ?_⟩)⟩
      simp only [add_zero, Prospect.later_zero]
      refine live_of_hops (fun rs => does_finish hc
        (fun q d hr => hr.2.2 (Nat.succ_ne_zero n) q rfl) fun r d hr => ?_) n
      refine does_settle (Heap.set_self _ _ _) fun _ => does_pure ?_
      exact ⟨_, by simp, by simpa [Prospect.settlesWith] using hr.1, Heap.set_self _ _ _⟩
  | foreign =>
    refine Does.attempt_bind (Does.ofRun (does_newQueue fun q hq _ => does_pure ?_))
    refine Does.attempt_bind (Does.ofRun (does_newPromise fun p _ => does_pure ?_))
    have hqueue : ((Heap.empty.set (.queue q) (.queue {})).set (.promise p)
        (.cell ⟨q, none, []⟩) : Parts σ) (.queue q) = some (.queue {}) := by
      rw [Heap.set_of_ne (by simp), Heap.set_self]
    cases hops with
    | zero =>
      simp only [↓reduceIte]
      refine Does.attempt_bind (does_settleBy hc (fun r d hr => ?_) fun q d hq => ?_)
      · refine does_settle_of_other (Heap.set_self _ _ _) hqueue fun _ => does_pure ?_
        refine does_return ⟨by simpa using hr.2.1,
          .inr ⟨p, _, rfl, by simp, Heap.set_self _ _ _, hq, ?_⟩⟩
        refine drains_of_settled (Heap.set_self _ _ _) rfl ⟨rfl, _, Heap.set_self _ _ _, ?_⟩
        simpa [Prospect.settlesWith] using hr.1
      · exact ⟨by simpa using hq.2.1, by simp, by rw [zero_add, zero_add]; exact hq.1⟩
    | succ n =>
      simp only [Nat.add_one_ne_zero, ↓reduceIte]
      refine Does.attempt_bind (Does.ofRun (does_enqueue_of_other hqueue (does_pure ?_)))
      refine does_return ⟨by simpa using hB, .inr ⟨p, ⟨q, none, []⟩, rfl, by simp, ?_, hq, ?_⟩⟩
      · rw [Heap.set_of_ne (by simp), Heap.set_self]
      · rw [Heap.set_comm (by simp), Heap.set_set]
        simp only [add_zero, Prospect.later_zero]
        refine drains_of_hops (fun ticks => does_finish hc
          (fun q d hr => hr.2.2 (Nat.succ_ne_zero n) q rfl) fun r d hr => ?_) n 0
        refine does_settle_of_other (c := ⟨[], ticks⟩) (Heap.set_self _ _ _) ?_ fun _ =>
          does_pure ⟨rfl, _, by simpa [Prospect.settlesWith] using hr.1, Heap.set_self _ _ _⟩
        rw [Heap.set_of_ne (by simp), Heap.set_self]

/-- What becomes of an answer: a thenable that comes to what the answer comes to. -/
theorem does_begin {a : Answer σ} (hB : B 0) (ha : a.Heads C B φ) :
    Does C .empty (a.guard.begin C.queue).run (Begins C B φ) := by
  cases ha with
  | ready h => exact does_return ⟨hB, .inl ⟨rfl, by simpa using h⟩⟩
  | deferred h =>
    refine does_return ⟨hB, .inl ⟨rfl, ?_⟩⟩
    simpa using does_deferred h .empty
  | settling h => exact does_settling _ _ _ hB h
  | stuck hl hw =>
    refine Does.attempt_bind (Does.ofRun (does_pure ?_))
    refine Does.attempt_bind (Does.ofRun (does_newPromise fun p _ => does_pure ?_))
    refine does_return ⟨by simpa using hB, .inl (.inr ⟨.empty, rfl, ?_⟩)⟩
    simp only [add_zero, Prospect.later_zero]
    exact Thread.live_of_stuck hl hw rfl
  | dry h =>
    refine Does.attempt_bind (Does.ofRun (does_newQueue fun q hq _ => does_pure ?_))
    refine Does.attempt_bind (Does.ofRun (does_newPromise fun p _ => does_pure ?_))
    refine does_return ⟨by simpa using hB, .inr ⟨p, _, rfl, by simp, Heap.set_self _ _ _, hq, ?_⟩⟩
    have hempty : ((Heap.empty.set (.queue q) (.queue {})).set (.promise p)
        (.cell ⟨q, none, []⟩) : Parts σ) (.queue q) = some (.queue ⟨[], 0⟩) := by
      rw [Heap.set_of_ne (by simp), Heap.set_self]
    exact drains_of_empty hempty ⟨rfl, _, Heap.set_self _ _ _, by simpa using h⟩

/-- What calling a resolver comes to, which may depend on the call through an index `i`. -/
def Responds (C : Terms (World σ) E) {ι : Type} (B : ι → E → Prop)
    (φ : ι → Prospect (Outcome Payload) E) (r : Except Fault (Answer σ)) (d : E) : Prop :=
  ∃ i, B i d ∧
    match r with
    | .ok a => a.Heads C (fun d' => B i (d + d')) ((φ i).later d)
    | .error f => (φ i).settles (.error f.toFailure) d

/-- **A promise of what a resolver answers.** -/
theorem does_answered {x : Execution σ} (hx : x.queue = C.queue) {ι : Type} {B : ι → E → Prop}
    {φ : ι → Prospect (Outcome Payload) E} {c : Callback σ (Answer σ)}
    (hc : c.Acts C (Responds C B φ)) :
    Does C .empty (x.answered c) fun p T h d => ∃ i, B i d ∧ Future C p ((φ i).later d) T h := by
  unfold Execution.answered
  rw [hx]
  refine Does.bind (Does.caught (Does.attempt_bind (hc .empty _ fun r d hr => ?_)))
  obtain ⟨i, hB, hr⟩ := hr
  cases r with
  | error f =>
    refine (does_settled ((φ i).later d) (by simpa using hr)).mono ?_
    rintro p T h _ ⟨rfl, hf⟩
    exact ⟨i, by simpa using hB, by simpa using hf⟩
  | ok a =>
    refine (does_begin (by simpa using hB) hr).mono ?_
    rintro r T h d' ⟨hB', hcase⟩
    cases r with
    | ok th =>
      refine (Thenable.Adopts.does_adopt hcase).mono ?_
      rintro p T' h' _ ⟨rfl, hf⟩
      exact ⟨i, by simpa using hB', by simpa [Prospect.later_later] using hf⟩
    | error f =>
      obtain ⟨rfl, hp⟩ := hcase
      refine (does_settled ((φ i).later (d + d')) (by simpa using hp)).mono ?_
      rintro p T' h' _ ⟨rfl, hf⟩
      exact ⟨i, by simpa using hB', by simpa using hf⟩

end EntityQuery
