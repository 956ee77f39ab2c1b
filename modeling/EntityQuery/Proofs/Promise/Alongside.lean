import EntityQuery.Proofs.Promise.Lockstep

/-!
# Promises of two runs

What is done with promises keeps two runs in lockstep, as long as the callbacks do.

* `Likeness.Thenables`: likeness of thenables.
* **`Promise.lockstep_thenOrElse`**, **`Promise.lockstep_andThen`**: promises of what callbacks make.
* **`Promise.lockstep_adopt`**, **`Promise.lockstep_gather`**, **`Promise.lockstep_wait`**: following
  thenables, gathering them and waiting for them.
-/

namespace EntityQuery

variable {V W : Type} {α β : Type} {L : Likeness V W}

/-- Likeness of thenables. -/
inductive Likeness.Thenables (L : Likeness V W) : Thenable V W → Thenable V W → Prop
  | value {v v' : V} (h : L.value v v') : Thenables L (.value v) (.value v')
  | deferred {c c' : Work V W (Outcome V)} (h : Lockstep L L.Outcomes c c') :
    Thenables L (.deferred c) (.deferred c')
  | promise (p : Promise) : Thenables L (.promise p) (.promise p)

/-- Likeness of the ways in which waiting gives no value. -/
inductive WaitFault.Alike : WaitFault → WaitFault → Prop
  | rejected {f g : Failure} (h : f.Alike g) : Alike (.rejected f) (.rejected g)
  | stalled : Alike .stalled .stalled

namespace Lockstep

theorem eq {a : α} : Lockstep L Eq (.pure a) (.pure a) := .pure rfl

end Lockstep

namespace Promise

open Lockstep

theorem lockstep_ignore {R : α → β → Prop} {s : Work V W α} {s' : Work V W β}
    (h : Lockstep L R s s') : Lockstep L (fun _ _ => True) (ignore s) (ignore s') :=
  h.bind fun _ _ _ => .pure trivial

theorem lockstep_settle (p : Promise) {o o' : Outcome V} (ho : L.Outcomes o o') :
    Lockstep L Eq (p.settle o : Work V W Bool) (p.settle o') :=
  .settle ho fun _ => .eq

theorem reactions_settleJob (p : Promise) : L.Reactions (p.settleJob (W := W)) p.settleJob :=
  fun _ _ ho => lockstep_ignore (lockstep_settle p ho)

theorem lockstep_settled (q : QueueId) {o o' : Outcome V} (ho : L.Outcomes o o') :
    Lockstep L Eq (settled q o : Work V W Promise) (settled q o') :=
  .newPromise fun p => (lockstep_settle p ho).bind fun _ _ _ => .eq

theorem lockstep_settleFrom (p : Promise) {t t' : Thenable V W} (h : L.Thenables t t') :
    Lockstep L (fun _ _ => True) (p.settleFrom t) (p.settleFrom t') := by
  cases h with
  | value h => exact lockstep_ignore (lockstep_settle p (.ok h))
  | deferred h =>
    refine .home fun q => .enqueue ?_ (.pure trivial)
    exact h.bind fun o o' ho => lockstep_ignore (lockstep_settle p ho)
  | promise source => exact .subscribe (reactions_settleJob p) (.pure trivial)

theorem lockstep_thenOrElse (p : Promise) {f f' : V → Work V W (Outcome V)}
    {g g' : Failure → Work V W (Outcome V)}
    (hf : ∀ v v', L.value v v' → Lockstep L L.Outcomes (f v) (f' v'))
    (hg : ∀ e e', e.Alike e' → Lockstep L L.Outcomes (g e) (g' e')) :
    Lockstep L Eq (p.thenOrElse f g) (p.thenOrElse f' g') := by
  refine .home fun q => .newPromise fun target => .subscribe (fun o o' ho => ?_) .eq
  cases ho with
  | ok h => exact (hf _ _ h).bind fun r r' hr => lockstep_ignore (lockstep_settle target hr)
  | error h => exact (hg _ _ h).bind fun r r' hr => lockstep_ignore (lockstep_settle target hr)

theorem lockstep_map (p : Promise) {f f' : V → Work V W (Outcome V)}
    (hf : ∀ v v', L.value v v' → Lockstep L L.Outcomes (f v) (f' v')) :
    Lockstep L Eq (p.map f) (p.map f') :=
  lockstep_thenOrElse p hf fun _ _ h => .pure (.error h)

theorem lockstep_recover (p : Promise) {g g' : Failure → Work V W (Outcome V)}
    (hg : ∀ e e', e.Alike e' → Lockstep L L.Outcomes (g e) (g' e')) :
    Lockstep L Eq (p.recover g) (p.recover g') :=
  lockstep_thenOrElse p (fun _ _ h => .pure (.ok h)) hg

theorem lockstep_andThen (p : Promise) {f f' : V → Work V W (Except Failure (Thenable V W))}
    (hf : ∀ v v', L.value v v' → Lockstep L (ExceptRel Failure.Alike L.Thenables) (f v) (f' v')) :
    Lockstep L Eq (p.andThen f) (p.andThen f') := by
  refine .home fun q => .newPromise fun target => .subscribe (fun o o' ho => ?_) .eq
  cases ho with
  | error h => exact lockstep_ignore (lockstep_settle target (.error h))
  | ok h =>
    refine (hf _ _ h).bind fun r r' hr => ?_
    cases hr with
    | ok h => exact lockstep_settleFrom target h
    | error h => exact lockstep_ignore (lockstep_settle target (.error h))

theorem lockstep_followForeign (target source : Promise) :
    L.Jobs (followForeign target source) (followForeign target source) := by
  refine .home fun q => .drain fun _ => .outcome fun o o' ho => ?_
  refine lockstep_ignore (lockstep_settle target ?_)
  cases ho with
  | none => exact .error (.refl _)
  | some h => exact h

theorem lockstep_adopt (q : QueueId) {t t' : Thenable V W} (h : L.Thenables t t') :
    Lockstep L Eq (adopt q t) (adopt q t') := by
  have fresh : Lockstep L Eq
      (.newPromise q fun p => (p.settleFrom t).bind fun _ => .pure p)
      (.newPromise q fun p => (p.settleFrom t').bind fun _ => .pure p) :=
    .newPromise fun p => (lockstep_settleFrom p h).bind fun _ _ _ => .eq
  cases h with
  | value _ => exact fresh
  | deferred _ => exact fresh
  | promise source =>
    refine .home fun home => ?_
    simp only [Steps.bind]
    split
    · exact .eq
    · exact .newPromise fun p => .enqueue (lockstep_followForeign p source) .eq

variable {bundle : List V → V}

theorem lockstep_fillSlot
    (hbundle : ∀ vs vs', List.Forall₂ L.value vs vs' → L.value (bundle vs) (bundle vs'))
    (target : Promise) (g : GatherId) (slot : Nat) {v v' : V} (hv : L.value v v') :
    Lockstep L (fun _ _ => True) (fillSlot (W := W) bundle target g slot v)
      (fillSlot bundle target g slot v') := by
  refine .fill hv fun vs vs' hvs => ?_
  cases hvs with
  | none => exact .pure trivial
  | some h => exact lockstep_ignore (lockstep_settle target (.ok (hbundle _ _ h)))

theorem lockstep_gatherFrom
    (hbundle : ∀ vs vs', List.Forall₂ L.value vs vs' → L.value (bundle vs) (bundle vs'))
    (q : QueueId) (target : Promise) (g : GatherId) {ts ts' : List (Thenable V W)}
    (h : List.Forall₂ L.Thenables ts ts') (slot : Nat) {full full' : Option (List V)}
    (hfull : Option.Rel (List.Forall₂ L.value) full full') :
    Lockstep L (Option.Rel (List.Forall₂ L.value))
      (gatherFrom q bundle target g slot ts full) (gatherFrom q bundle target g slot ts' full') := by
  induction h generalizing slot full full' with
  | nil => exact .pure hfull
  | @cons t t' ts ts' ht _ ih =>
    have hadopt := lockstep_adopt q ht
    cases ht with
    | value hv => exact .fill hv fun vs vs' hvs => ih _ hvs
    | deferred _ | promise _ =>
      refine hadopt.bind ?_
      rintro p _ rfl
      refine .subscribe (fun o o' ho => ?_) (ih _ hfull)
      cases ho with
      | ok h => exact lockstep_fillSlot hbundle target g slot h
      | error h => exact lockstep_ignore (lockstep_settle target (.error h))

theorem lockstep_gather
    (hbundle : ∀ vs vs', List.Forall₂ L.value vs vs' → L.value (bundle vs) (bundle vs'))
    (q : QueueId) {ts ts' : List (Thenable V W)} (h : List.Forall₂ L.Thenables ts ts') :
    Lockstep L Eq (gather q bundle ts) (gather q bundle ts') := by
  unfold gather
  rw [← h.length_eq]
  refine .newPromise fun target => .newGather fun g => ?_
  refine (lockstep_gatherFrom hbundle q target g h 0 ?_).bind fun vs vs' hvs => ?_
  · cases h with
    | nil => exact .some .nil
    | cons _ _ => exact .none
  · cases hvs with
    | none => exact .eq
    | some h => exact (lockstep_settle target (.ok (hbundle _ _ h))).bind fun _ _ _ => .eq

theorem lockstep_wait (q : QueueId) (p : Promise) :
    Lockstep L (ExceptRel WaitFault.Alike L.value) (wait q p : Work V W _) (wait q p) := by
  refine .drain fun _ => .outcome fun o o' ho => ?_
  cases ho with
  | none => exact .pure (.error .stalled)
  | some ho =>
    cases ho with
    | ok h => exact .pure (.ok h)
    | error h => exact .pure (.error (.rejected h))

end Promise

end EntityQuery
