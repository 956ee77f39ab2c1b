import EntityQuery.Execution.Completion
import EntityQuery.Proofs.Promise.Gathering

/-!
# What attempts do

Steps that may end at a fault, on any terms: what they do is said of the answer or of the fault.

* `Does.attempt_bind`, `Does.attempt_bind_of_steps`: one after another.
* `Does.caught`, `Does.exposed`, `Does.orFailure`: how a fault ends.
* **`Callback.Acts`**: what calling back into the application comes to, with its effect.
-/

namespace EntityQuery

variable {σ α β E : Type} [AddCommMonoid E] {C : Terms (World σ) E}
  {h : Heap Payload (World σ)}

/-- The parts of a machine that an execution uses. -/
abbrev Parts (σ : Type) := Heap Payload (World σ)

/-- Tasks of an execution. -/
abbrev Tasks (σ : Type) := Multiset (Job Payload (World σ))

/-- Terms on which a panic may be what halts tasks. -/
class Terms.Panics (C : Terms (World σ) E) : Prop where
  panic : ∀ p, ∃ halting, C.halt halting = .panic p

section

variable {Q : Except Fault α → Tasks σ → Parts σ → E → Prop}

/-- One after another, where the first may end at a fault. -/
theorem Does.attempt_bind {a : Attempt σ β} {k : β → Attempt σ α}
    (ha : Does C h a.run fun r T h d =>
      match r with
      | .ok b => Does C h (k b).run fun r' T' h' d' => Q r' (T + T') h' (d + d')
      | .error f => Q (.error f) T h d) :
    Does C h (a >>= k).run Q := by
  refine Does.bind (ha.mono fun r T h d hr => ?_)
  cases r with
  | ok b => exact hr
  | error f => exact does_pure (by simpa using hr)

/-- One after another, where the effect of the first precedes that of the second. -/
theorem Does.attempt_bind_of_steps {a : Attempt σ β} {k : β → Attempt σ α} {B : E → E → Prop}
    (hB : ∀ {d d' w w' w''}, C.Step d w w' → C.Step d' w' w'' → B d d')
    (ha : Does C h a.run fun r T h d =>
      match r with
      | .ok b => Does C h (k b).run fun r' T' h' d' => B d d' → Q r' (T + T') h' (d + d')
      | .error f => Q (.error f) T h d) :
    Does C h (a >>= k).run Q := by
  refine Does.bind_of_steps hB (ha.mono fun r T h d hr => ?_)
  cases r with
  | ok b => exact hr
  | error f => exact does_pure fun _ => by simpa using hr

theorem Does.ofRun {w : Run σ α} (hw : Does C h w fun a T h d => Q (.ok a) T h d) :
    Does C h (Attempt.ofRun w).run Q := by
  refine Does.bind (hw.mono fun a T h d ha => ?_)
  exact does_pure (by simpa using ha)

theorem does_return {a : α} (ha : Q (.ok a) 0 h 0) : Does C h (pure a : Attempt σ α).run Q :=
  does_pure ha

end

section

variable {Q : Except Failure α → Tasks σ → Parts σ → E → Prop}

/-- Every fault ends as a failure. -/
theorem Does.caught {a : Attempt σ α}
    (ha : Does C h a.run fun r T h d => Q (r.mapError Fault.toFailure) T h d) :
    Does C h a.caught Q := by
  refine Does.bind (ha.mono fun r T h d hr => ?_)
  exact does_pure (by simpa using hr)

/-- A failure is an answer; only on lax terms may there be a panic. -/
theorem Does.exposed [C.Panics] {a : Attempt σ α}
    (ha : Does C h a.run fun r T h d =>
      match r with
      | .ok a => Q (.ok a) T h d
      | .error (.failure f) => Q (.error f) T h d
      | .error (.panic _) => C.lax) :
    Does C h a.exposed Q := by
  refine Does.bind (ha.mono fun r T h d hr => ?_)
  cases r with
  | ok a => exact does_pure (by simpa using hr)
  | error f =>
    cases f with
    | failure f => exact does_pure (by simpa using hr)
    | panic p =>
      obtain ⟨halting, hp⟩ := Terms.Panics.panic (C := C) p
      simp only [← hp]
      exact does_halt hr

end

/-- A failure is an answer; a panic stays one. -/
theorem Does.orFailure {a : Attempt σ α}
    {Q : Except Fault (Except Failure α) → Tasks σ → Parts σ → E → Prop}
    (ha : Does C h a.run fun r T h d =>
      match r with
      | .ok a => Q (.ok (.ok a)) T h d
      | .error (.failure f) => Q (.ok (.error f)) T h d
      | .error (.panic p) => Q (.error (.panic p)) T h d) :
    Does C h a.orFailure.run Q := by
  refine Does.bind (ha.mono fun r T h d hr => ?_)
  cases r with
  | ok a => exact does_pure (by simpa using hr)
  | error f =>
    cases f with
    | failure f => exact does_pure (by simpa using hr)
    | panic p => exact does_pure (by simpa using hr)

/-! ## Calling back -/

/-- Calling back into the application comes to a result with an effect, of the given kind. -/
def Callback.Acts (C : Terms (World σ) E) (c : Callback σ α) (R : Except Fault α → E → Prop) : Prop :=
  ∀ (h : Parts σ) (Q : Except Fault α → Tasks σ → Parts σ → E → Prop),
    (∀ r d, R r d → Q r 0 h d) → Does C h (Attempt.call c).run Q

theorem Callback.Acts.mono {c : Callback σ α} {R R' : Except Fault α → E → Prop} (hc : c.Acts C R)
    (hR : ∀ r d, R r d → R' r d) : c.Acts C R' := fun h Q hQ =>
  hc h Q fun r d hr => hQ r d (hR r d hr)

/-- A panic becomes a failure. -/
def Fault.guarded (f : Fault) : Fault := .failure f.toFailure

theorem Attempt.call_guard (c : Callback σ α) :
    (Attempt.call c.guard).run =
      (Attempt.call c).run.bind fun r => .pure (r.mapError Fault.guarded) := by
  simp only [Attempt.call, ExceptT.run_mk]
  refine congrArg Steps.getWorld (funext fun w => ?_)
  simp only [Steps.bind]
  unfold Callback.guard
  obtain ⟨a, app⟩ | ⟨f | p, app⟩ := c w.session.app <;> simp only <;> rfl

theorem Callback.Acts.guard {c : Callback σ α} {R : Except Fault α → E → Prop} (hc : c.Acts C R) :
    Callback.Acts C c.guard fun r d => ∃ r', R r' d ∧ r = r'.mapError Fault.guarded := by
  intro h Q hQ
  rw [Attempt.call_guard]
  refine Does.bind (hc h _ fun r d hr => does_pure ?_)
  simpa using hQ _ d ⟨r, hr, rfl⟩

end EntityQuery
