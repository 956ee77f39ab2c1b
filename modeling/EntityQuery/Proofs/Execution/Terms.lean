import EntityQuery.Proofs.Execution.Attempts
import EntityQuery.Proofs.Execution.Meaning

/-!
# The terms of an execution

An execution runs on its own queue, in sessions alike, and what it does to the world is to keep
failures: that is its effect.

* **`Execution.terms`**: these terms.
* `Callback.acts`, `does_consult`: calling back and using the schema.
-/

namespace EntityQuery

open Lookup Session

variable {σ α β : Type}

namespace Execution

/-- The terms of an execution: the session stays alike, and failures are kept; a defect is not. -/
def terms (x : Execution σ) (s : Session σ) (lax : Prop) :
    Terms (World σ) (Multiset Failure) where
  queue := x.queue
  lax := lax
  Halting := Panic
  halt := .panic
  Good w := s.Alike w.session ∧ ∃ p, w.executions[x.index]? = some p ∧ p.fatal? = none
  Step d w w' := s.Alike w'.session ∧ ∃ p p', w.executions[x.index]? = some p ∧
    w'.executions[x.index]? = some p' ∧ (p'.failures : Multiset Failure) = p.failures + d ∧
    p'.fatal? = p.fatal?
  step_zero := by
    rintro w ⟨hs, p, hp, hf⟩
    exact ⟨hs, p, p, hp, hp, (add_zero _).symm, rfl⟩
  step_add := by
    rintro d d' w w' w'' ⟨-, p, p₁, hp, hp₁, hd, hf⟩ ⟨hs', p₁', p₂, hp₁', hp₂, hd', hf'⟩
    rw [hp₁] at hp₁'
    cases hp₁'
    exact ⟨hs', p, p₂, hp, hp₂, by rw [hd', hd, add_assoc], hf'.trans hf⟩
  good_of_step := by
    rintro d w w' ⟨-, p₀, hp₀, hn⟩ ⟨hs, p, p', hp, hp', -, hf⟩
    rw [hp₀] at hp
    cases hp
    exact ⟨hs, p', hp', hf.trans hn⟩

variable {x : Execution σ} {s : Session σ} {lax : Prop} {w : World σ}

@[simp] theorem terms_queue : (x.terms s lax).queue = x.queue := rfl

instance : (x.terms s lax).Panics := ⟨fun p => ⟨p, rfl⟩⟩

/-- Replacing the session by one alike. -/
theorem step_setSession (hw : (x.terms s lax).Good w) {s' : Session σ} (hs : s.Alike s') :
    (x.terms s lax).Step 0 w { w with session := s' } := by
  obtain ⟨-, p, hp, hf⟩ := hw
  exact ⟨hs, p, p, hp, hp, (add_zero _).symm, rfl⟩

/-- Changing what the execution has met. -/
theorem step_update (hw : (x.terms s lax).Good w) {change : Progress → Progress}
    {d : Multiset Failure}
    (hd : ∀ p, ((change p).failures : Multiset Failure) = p.failures + d)
    (hf : ∀ p, (change p).fatal? = p.fatal?) :
    (x.terms s lax).Step d w
      { w with executions := w.executions.modify x.index change } := by
  obtain ⟨hs, p, hp, -⟩ := hw
  refine ⟨hs, p, change p, hp, ?_, hd p, hf p⟩
  simp [Array.getElem?_modify, hp]

end Execution

open Execution

/-! ## Steps of an execution -/

section

variable {x : Execution σ} {s : Session σ} {lax : Prop} {h : Heap Payload (World σ)}

section

variable {Q : α → Multiset (Job Payload (World σ)) → Heap Payload (World σ) → Multiset Failure → Prop}

theorem does_update {change : Progress → Progress} {d : Multiset Failure}
    (hd : ∀ p, ((change p).failures : Multiset Failure) = p.failures + d)
    (hf : ∀ p, (change p).fatal? = p.fatal?) {next : Unit → Run σ α}
    (hnext : Does (x.terms s lax) h (next ()) fun a T h d' => Q a T h (d + d')) :
    Does (x.terms s lax) h ((Run.update x.index change).bind next) Q := by
  refine does_getWorld fun w hw => ?_
  exact ⟨d, _, next (), rfl, step_update hw hd hf, hnext⟩

/-- Counting work has no effect. -/
theorem does_count {change : Tally → Tally} {next : Unit → Run σ α}
    (hnext : Does (x.terms s lax) h (next ()) Q) :
    Does (x.terms s lax) h ((x.count change).bind next) Q := by
  have hd : ∀ p : Progress, (({ p with tally := change p.tally } : Progress).failures :
      Multiset Failure) = p.failures + 0 := fun p => (add_zero _).symm
  refine does_update hd (fun _ => rfl) ?_
  simpa only [zero_add] using hnext

/-- Keeping a failure has that effect. -/
theorem does_fail {f : Failure} {place : Location} {next : Unit → Run σ α}
    (hnext : Does (x.terms s lax) h (next ()) fun a T h d =>
      Q a T h ({f.located [place]} + d)) :
    Does (x.terms s lax) h ((x.fail f place).bind next) Q := by
  have hd : ∀ p : Progress, (({ p with failures := p.failures ++ [f.located [place]] } :
      Progress).failures : Multiset Failure) = p.failures + {f.located [place]} := fun p => by
    rw [← Multiset.coe_singleton, Multiset.coe_add]
  exact does_update hd (fun _ => rfl) hnext

end

section

variable {Q : Except Fault α → Multiset (Job Payload (World σ)) → Heap Payload (World σ) →
  Multiset Failure → Prop}

/-- Calling back into the application. -/
theorem does_call {c : Callback σ α} (hQ : ∀ r, c.Gives r → Q r 0 h 0) :
    Does (x.terms s lax) h (Attempt.call c).run Q := by
  refine does_getWorld fun w hw => ?_
  cases hc : c w.session.app with
  | ok a app =>
    refine ⟨0, { w with session := { w.session with app } }, .pure (.ok a), ?_,
      step_setSession hw (hw.1.trans (alike_setApp _ app)),
      does_pure (by simpa using hQ (.ok a) ⟨_, _, hc⟩)⟩
    simp only [hc]
  | error f app =>
    refine ⟨0, { w with session := { w.session with app } }, .pure (.error f), ?_,
      step_setSession hw (hw.1.trans (alike_setApp _ app)),
      does_pure (by simpa using hQ (.error f) ⟨_, _, hc⟩)⟩
    simp only [hc]

theorem Callback.acts (c : Callback σ α) :
    c.Acts (x.terms s lax) fun r d => c.Gives r ∧ d = 0 := fun _ _ hQ =>
  does_call fun r hr => hQ r 0 ⟨hr, rfl⟩

/-- Using the schema, where that meets no defect. -/
theorem does_attemptConsult {R : Except Fault α → Prop} {lookup : Lookup σ α}
    (hl : Comes s R lookup) {Q : Except Fault (Except Defect α) →
      Multiset (Job Payload (World σ)) → Heap Payload (World σ) → Multiset Failure → Prop}
    (hQ : ∀ r, R r → Q (r.map .ok) 0 h 0) :
    Does (x.terms s lax) h (Attempt.consult lookup).run Q := by
  refine does_getWorld fun w hw => ?_
  obtain ⟨r, s', hx, hs, hr⟩ := hl w.session hw.1
  refine ⟨0, { w with session := s' }, .pure (r.map .ok), ?_, step_setSession hw hs,
    does_pure (by simpa using hQ r hr)⟩
  rw [hx]
  cases r <;> rfl

/-- Using the schema, where that meets no defect. -/
theorem does_consult {R : Except Fault α → Prop} {lookup : Lookup σ α} (hl : Comes s R lookup)
    (hQ : ∀ r, R r → Q r 0 h 0) : Does (x.terms s lax) h (x.consult lookup).run Q := by
  refine Does.attempt_bind (does_attemptConsult hl fun r hr => ?_)
  cases r with
  | ok a => exact does_return (by simpa using hQ _ hr)
  | error f => exact hQ _ hr

end

end

end EntityQuery
