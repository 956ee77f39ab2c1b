import EntityQuery.Proofs.Promise.Watching

/-!
# Promises settle once, and their reactions start once and in order

For every program, whatever else is under way and wherever in it a promise is used: the first attempt
to settle the promise gives it its outcome, and every registered reaction starts once, after the call
that settled the promise or registered the reaction, in the order of registration.

* `Journal.Bears`: what a journal says of a promise that a run leaves behind.
* **`Machine.settled_once_reacted_in_order`**: every run of every program, seen through its journal.
-/

namespace EntityQuery

variable {V W : Type}

namespace Ended

variable {α : Type}

/-- The answer of a run, or why there is none. -/
def answer : Ended V W α → Except Halt α
  | done a _ => .ok a
  | halted c _ => .error c

end Ended

/-- What a journal says of a promise that a run leaves behind. -/
structure Journal.Bears (j : Journal V) (p : Promise) (m : Machine V W) : Prop where
  /-- At each moment: what was noted follows from what had been noted before. -/
  lawful : j.Lawful
  /-- The first attempt to settle the promise gives it its outcome, and later ones are told so. -/
  settled : (j.attempts = [] ∧ m.outcome? p = none) ∨
    ∃ o later, j.attempts = (o, true) :: later ∧ (∀ a ∈ later, a.2 = false) ∧ m.outcome? p = some o
  /-- Further attempts change nothing. -/
  final : ∀ o o', m.outcome? p = some o → m.settle p o' = (false, m)
  /-- No reaction starts during a call that settles the promise or registers a reaction. -/
  quiet : ∀ notice ∈ j, notice.meanwhile = 0
  /-- Reactions are numbered as they are registered. -/
  numbered : j.registered = List.range j.registered.length
  /-- They start in that order, each once at most. -/
  ordered : j.reactions.map Prod.fst = List.range j.reactions.length
  /-- None starts that has not been registered. -/
  known : j.reactions.length ≤ j.registered.length
  /-- Each is given the outcome. -/
  given : ∀ r ∈ j.reactions, m.outcome? p = some r.2
  /-- All of them have started where the promise is settled and its queue is empty. -/
  complete : m.outcome? p ≠ none → m.tasks (m.home p) = [] →
    j.reactions.length = j.registered.length

namespace Watches

variable {p : Promise} {q : QueueId} {m : Machine V W} {m' : Machine V (Watched V W)}

/-- The journal of a watched machine bears on the promise. -/
theorem bears (h : Watches p q m m') : m'.world.journal.Bears p m where
  lawful := h.lawful
  settled := by
    rw [← h.state, Journal.outcome?]
    rcases h.lawful.attempts_eq with hnil | ⟨o, later, hcons, hlater⟩
    · exact .inl ⟨hnil, by simp [hnil]⟩
    · exact .inr ⟨o, later, hcons, hlater, by simp [hcons]⟩
  final := fun _ o' ho => Machine.settle_of_settled ho o'
  quiet := h.lawful.meanwhile_eq
  numbered := h.lawful.registered_eq
  ordered := h.lawful.reactions_fst
  known := h.lawful.length_reactions_le
  given := h.state ▸ h.lawful.reactions_snd
  complete := fun hsome hempty => by
    obtain ⟨o, ho⟩ := Option.ne_none_iff_exists'.mp hsome
    have hmarked := (h.settled o ho).tasks
    rw [← h.house, hempty] at hmarked
    exact hmarked.eq_nil.2

end Watches

/-- **A promise settles once, and its reactions start once, in order and with its outcome.** The promise
has just been made: it is pending and nothing waits for it. From there on a program may do anything,
and so may the tasks and reactions that the machine has already. Keeping the journal changes nothing
of what it is kept of. -/
theorem Machine.settled_once_reacted_in_order {m : Machine V W} {p : Promise} (hopen : m.Open p)
    (hreactions : m.reactions p = []) (hhome : (m.home p).index < m.queues.size)
    (work : Work V W Unit) (limit : Nat) :
    let plain := m.run limit work
    let watched := (m.watched p).run limit (work.watched p)
    (watched.answer = plain.answer ∧ watched.machine.world.world = plain.machine.world ∧
        ∀ x, watched.machine.outcome? x = plain.machine.outcome? x) ∧
      watched.machine.world.journal.Bears p plain.machine := by
  intro plain watched
  have hended : Ended.Watched p (m.home p) plain watched :=
    (Watches.start hopen hreactions hhome).run limit work
  clear_value plain watched
  cases hended with
  | done a h => exact ⟨⟨rfl, h.world, h.outcome⟩, h.bears⟩
  | halted c h => exact ⟨⟨rfl, h.world, h.outcome⟩, h.bears⟩

namespace Sample

/-- A machine with one queue and one pending promise. -/
def pending : Machine Nat Unit := ((Machine.start ()).newQueue.2.newPromise ⟨0⟩).2

/-- Reacts to the promise, settles it twice, and reacts to it again: beforehand, afterwards and from
a reaction. -/
def reacting : Work Nat Unit Unit :=
  .subscribe ⟨0⟩ (fun _ => .mk (.subscribe ⟨0⟩ (fun _ => .mk (.pure ())) (.pure ()))) <|
    .settle ⟨0⟩ (.ok 7) fun _ => .settle ⟨0⟩ (.ok 8) fun _ =>
      .subscribe ⟨0⟩ (fun _ => .mk (.pure ())) (.drain ⟨0⟩ .all fun _ => .pure ())

end Sample

/-- The reaction of a reaction is registered last and starts last; all of them are given `7`. -/
theorem Machine.settled_once_reacted_in_order_sample :
    (Sample.pending.Open ⟨0⟩ ∧ Sample.pending.reactions ⟨0⟩ = [] ∧
        (Sample.pending.home ⟨0⟩).index < Sample.pending.queues.size) ∧
      let plain := Sample.pending.run 9 Sample.reacting
      let watched := (Sample.pending.watched ⟨0⟩).run 9 (Sample.reacting.watched ⟨0⟩)
      ((watched.answer = plain.answer ∧ watched.machine.world.world = plain.machine.world ∧
          ∀ x, watched.machine.outcome? x = plain.machine.outcome? x) ∧
        watched.machine.world.journal.Bears ⟨0⟩ plain.machine) ∧
      watched.machine.world.journal =
        [.registration 0 0, .attempt (.ok 7) true 0, .attempt (.ok 8) false 0, .registration 1 0,
          .reaction 0 (.ok 7), .registration 2 0, .reaction 1 (.ok 7), .reaction 2 (.ok 7)] :=
  have hopen : Sample.pending.Open ⟨0⟩ := ⟨by decide, rfl⟩
  ⟨⟨hopen, rfl, by decide⟩,
    Machine.settled_once_reacted_in_order hopen rfl (by decide) Sample.reacting 9, by with_unfolding_all rfl⟩

end EntityQuery
