import EntityQuery.Failure.Masking
import EntityQuery.Typing.Callback
import Mathlib.Data.List.Forall2
import Mathlib.Data.Option.Basic

/-!
# Failures that look the same to a client

Two failures are alike if they differ in their causes only, or, where they are unsafe, also in their
message. Masked, such failures look the same.

* `Failure.Alike`, `Fault.Alike`: likeness of failures, and of the faults of callbacks.
* `ExceptRel`: results of which both are values or both are errors.
* `DebugFlags.Discreet`: flags that neither show an unsafe message nor hand a failure back.
* **`Masking.formatAll_of_alike`**: under such flags, a list of failures and one like it are shown
  alike, and none is handed back.
-/

namespace EntityQuery

universe u v

variable {ε ε' : Type u} {α β : Type v}

/-- Results of which both are values, related by `A`, or both are errors, related by `E`. -/
inductive ExceptRel (E : ε → ε' → Prop) (A : α → β → Prop) : Except ε α → Except ε' β → Prop
  | ok {a : α} {b : β} (h : A a b) : ExceptRel E A (.ok a) (.ok b)
  | error {e : ε} {e' : ε'} (h : E e e') : ExceptRel E A (.error e) (.error e')

/-- Optional values that are related are both missing, or neither is. -/
theorem rel_cases {R : α → β → Prop} {x : Option α} {y : Option β} (h : Option.Rel R x y) :
    (x = none ∧ y = none) ∨ ∃ a b, x = some a ∧ y = some b ∧ R a b := by
  cases h with
  | none => exact .inl ⟨rfl, rfl⟩
  | some h => exact .inr ⟨_, _, rfl, rfl, h⟩

namespace Failure

/-- What a client may see of two failures is the same: they differ in their causes, and in their
message if it is unsafe. -/
structure Alike (f g : Failure) : Prop where
  category : f.category = g.category
  safe : f.safe = g.safe
  locations : f.locations = g.locations
  info : f.info = g.info
  message : f.safe = true → f.message = g.message

namespace Alike

@[refl] theorem refl (f : Failure) : f.Alike f := ⟨rfl, rfl, rfl, rfl, fun _ => rfl⟩

/-- Adding locations keeps failures alike. -/
theorem located {f g : Failure} (h : f.Alike g) (places : List Location) :
    (f.located places).Alike (g.located places) := by
  unfold Failure.located
  rw [← h.locations]
  split
  · exact ⟨h.category, h.safe, rfl, h.info, h.message⟩
  · exact h

end Alike

/-- Failures that stand for panics are alike, whatever the panics said. -/
theorem alike_ofPanic (p p' : Panic) : (ofPanic p).Alike (ofPanic p') :=
  ⟨rfl, rfl, rfl, rfl, nofun⟩

/-- Unexpected failures are alike, whatever caused them. -/
theorem alike_internal (c c' : Cause) : (internal c).Alike (internal c') :=
  ⟨rfl, rfl, rfl, rfl, nofun⟩

/-- Failures caused by failures that are alike are alike, and if those are unsafe, whatever the new
messages say. -/
theorem Alike.causedBy {f g : Failure} (h : f.Alike g) {message message' : String}
    (hm : f.safe = true → message = message') :
    (Failure.causedBy message f).Alike (Failure.causedBy message' g) :=
  ⟨h.category, h.safe, rfl, rfl, hm⟩

end Failure

/-- Likeness of faults: two panics, or two failures that are alike. -/
inductive Fault.Alike : Fault → Fault → Prop
  | failure {f g : Failure} (h : f.Alike g) : Alike (.failure f) (.failure g)
  | panic (p p' : Panic) : Alike (.panic p) (.panic p')

theorem Fault.Alike.toFailure {f g : Fault} (h : f.Alike g) : f.toFailure.Alike g.toFailure := by
  cases h with
  | failure h => exact h
  | panic p p' => exact Failure.alike_ofPanic p p'

/-! ## Masking -/

/-- No unsafe message is shown beside its mask, and no failure is handed back. -/
structure DebugFlags.Discreet (flags : DebugFlags) : Prop where
  message : flags.contains .debugMessage = false
  internal : flags.contains .rethrowInternal = false
  failures : flags.contains .rethrowUnsafe = false

theorem DebugFlags.Discreet.none : DebugFlags.none.Discreet := ⟨rfl, rfl, rfl⟩

namespace Masking

variable {m : Masking} (hm : m.flags.Discreet) (mask : String)

include hm

theorem rethrows_eq_false (f : Failure) : m.rethrows f = false := by
  simp [rethrows, hm.internal, hm.failures]

/-- Failures that are alike are shown alike. -/
theorem shown_of_alike {f g : Failure} (h : f.Alike g) : m.shown mask f = m.shown mask g := by
  have hmessage : m.message mask f = m.message mask g := by
    unfold message
    rw [← h.safe]
    split
    · exact h.message ‹_›
    · rfl
  unfold shown
  rw [hmessage, hm.message, h.locations, h.info, h.category]
  rfl

/-- **Lists of failures that are alike are shown alike.** -/
theorem formatAll_of_alike {fs gs : List Failure} (h : List.Forall₂ Failure.Alike fs gs) :
    ∃ shown, m.formatAll mask fs = .ok shown ∧ m.formatAll mask gs = .ok shown := by
  induction h with
  | nil => exact ⟨[], rfl, rfl⟩
  | @cons f g fs gs h _ ih =>
    obtain ⟨shown, hfs, hgs⟩ := ih
    have format : ∀ f, m.format mask f = .ok (m.shown mask f) := fun f => by
      unfold format
      rw [rethrows_eq_false hm]
      rfl
    refine ⟨m.shown mask f :: shown, ?_, ?_⟩
    · rw [formatAll, format, hfs]
      rfl
    · rw [formatAll, format, hgs, ← shown_of_alike hm mask h]
      rfl

end Masking

end EntityQuery
