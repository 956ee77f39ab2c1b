import EntityQuery.Proofs.Execution.Calling
import EntityQuery.Proofs.Execution.Trails
import EntityQuery.Proofs.Promise.Honouring
import Mathlib.Data.List.Infix

/-!
# What the log says of promises

In an execution on a schema that keeps a log, the promise of an answer is made for a call: when it settles with a
value, the log says that the call has come to that. Worlds are ordered by how their logs grow, so what a log
says is never lost.

* `World.since`: what a log has got, with places. `Justified`: each call in it is one that a condition allows by
  what the log had got before. `World.Orderly`: the invariant of the world.
* `Attempt.Honours`: steps that may end at a fault and keep what promises are made for.
* `honours_call`: calling back into the application. `Call.pledge`: what the promise of an answer is made for.
* **`honours_answered`**: the promise of an answer says what the call has come to.
-/

namespace EntityQuery

open Lookup Session Execution Schema

variable {σ α β : Type}

/-! ## Worlds by their logs -/

/-- A world is later than another one if its log is longer. -/
instance World.instPreorder : Preorder (World (Recorded σ)) where
  le w w' := w.session.log <+: w'.session.log
  le_refl _ := List.prefix_rfl
  le_trans _ _ _ := List.IsPrefix.trans

/-- A world beside what promises are made for. -/
abbrev Moment (σ : Type) := Stage Payload (World (Recorded σ))

/-- What the log has got since it had `n` entries, with places. -/
def World.since (w : World (Recorded σ)) (n : Nat) : Multiset Entry :=
  (History.placed n ((w.session.log.drop n).map .event) : List Entry)

theorem World.since_mono {w w' : World (Recorded σ)} (h : w ≤ w') (n : Nat) : w.since n ≤ w'.since n := by
  obtain ⟨rest, hrest⟩ := List.IsPrefix.drop (show w.session.log <+: w'.session.log from h) n
  rw [since, since, ← hrest, List.map_append, History.placed_append, ← Multiset.coe_add]
  exact Multiset.le_add_right _ _

theorem World.since_eq {w : World (Recorded σ)} {log added : List Event} (h : w.session.log = log ++ added) :
    w.since log.length = (History.placed log.length (added.map .event) : List Entry) := by
  rw [since, h, List.drop_left]

theorem World.since_concat {w w' : World (Recorded σ)} {n : Nat} {e : Event}
    (hn : n ≤ w.session.log.length) (h : w'.session.log = w.session.log ++ [e]) :
    w'.since n = w.since n + {(.event e, w.session.log.length)} := by
  rw [since, since, h, List.drop_append_of_le_length hn, List.map_append, History.placed_append,
    ← Multiset.coe_add, History.events_map, List.length_drop, Nat.add_sub_cancel' hn]
  rfl

/-- Each call that a log has got, after `n` entries, is one that `P` allows by what the log had got before. -/
def Justified (P : Multiset Entry → Call → Prop) (n : Nat) (added : List Event) : Prop :=
  ∀ before call reply after, added = before ++ .called call reply :: after →
    P (History.placed n (before.map .event) : List Entry) call

theorem justified_nil (P : Multiset Entry → Call → Prop) (n : Nat) : Justified P n [] := by
  intro before call reply after h
  cases before <;> cases h

theorem Justified.concat {P : Multiset Entry → Call → Prop} {n : Nat} {added : List Event} {e : Event}
    (h : Justified P n added)
    (he : ∀ call reply, e = .called call reply → P (History.placed n (added.map .event) : List Entry) call) :
    Justified P n (added ++ [e]) := by
  intro before call reply after heq
  rcases List.eq_nil_or_concat after with rfl | ⟨after, e', rfl⟩
  · obtain ⟨rfl, he'⟩ := List.append_inj' heq rfl
    cases he'
    exact he call reply rfl
  · rw [List.concat_eq_append, ← List.cons_append, ← List.append_assoc] at heq
    exact h before call reply after (List.append_inj' heq rfl).1

/-- The session is alike, and the log has got calls that `P` allows only. -/
structure World.Orderly (s : Session (Recorded σ)) (log : List Event) (P : Multiset Entry → Call → Prop)
    (w : World (Recorded σ)) : Prop where
  alike : s.Alike w.session
  calls : ∃ added, w.session.log = log ++ added ∧ Justified P log.length added

namespace World.Orderly

variable {s s' : Session (Recorded σ)} {log : List Event} {P : Multiset Entry → Call → Prop}
  {w : World (Recorded σ)}

theorem length_le (h : w.Orderly s log P) : log.length ≤ w.session.log.length := by
  obtain ⟨added, hadded, -⟩ := h.calls
  rw [hadded, List.length_append]
  exact Nat.le_add_right _ _

/-- Nothing is noted. -/
theorem quiet (h : w.Orderly s log P) {s' : Session (Recorded σ)} (hs : s.Alike s')
    (hlog : s'.log = w.session.log) : World.Orderly s log P { w with session := s' } :=
  ⟨hs, hlog ▸ h.calls⟩

/-- An entry is noted; if it is a call, that is allowed. -/
theorem note (h : w.Orderly s log P) (hs : s.Alike s') {e : Event} (hlog : s'.log = w.session.log ++ [e])
    (he : ∀ call reply, e = .called call reply → P (w.since log.length) call) :
    World.Orderly s log P { w with session := s' } := by
  obtain ⟨added, hadded, hjustified⟩ := h.calls
  refine ⟨hs, added ++ [e], ?_, hjustified.concat fun call reply hcall => ?_⟩
  · rw [hlog, hadded, List.append_assoc]
  · rw [← World.since_eq hadded]
    exact he call reply hcall

end World.Orderly

/-! ## Steps that may end at a fault -/

section

variable {I : World (Recorded σ) → Prop} {g : Moment σ} {Q : Moment σ → α → Prop} {R : Moment σ → β → Prop}

/-- Steps that keep what promises are made for, and whose answer meets `Q` unless they end at a fault. -/
def Attempt.Honours (I : World (Recorded σ) → Prop) (g : Moment σ) (Q : Moment σ → α → Prop)
    (a : Attempt (Recorded σ) α) : Prop :=
  Steps.Honours I g (fun g' r => ∀ v, r = .ok v → Q g' v) a.run

namespace Attempt.Honours

variable {a : Attempt (Recorded σ) α}

theorem bind {k : α → Attempt (Recorded σ) β} (h : a.Honours I g Q)
    (hk : ∀ g' v, g ≤ g' → Q g' v → (k v).Honours I g' R) : Attempt.Honours I g R (a >>= k) := by
  refine Steps.Honours.bind h fun g' r hle hr => ?_
  cases r with
  | ok v => exact hk g' v hle (hr v rfl)
  | error f => exact .pure fun _ he => by cases he

theorem caught (h : a.Honours I g Q) : a.caught.Honours I g fun g' r => ∀ v, r = .ok v → Q g' v := by
  refine Steps.Honours.bind h fun g' r _ hr => .pure ?_
  cases r with
  | ok v => exact fun w he => by cases he; exact hr v rfl
  | error f => exact fun w he => by cases he

theorem exposed (h : a.Honours I g Q) : a.exposed.Honours I g fun g' r => ∀ v, r = .ok v → Q g' v := by
  refine Steps.Honours.bind h fun g' r _ hr => ?_
  obtain (f | p) | v := r
  · exact .pure fun w he => by cases he
  · exact .halt _
  · exact .pure fun w he => by cases he; exact hr v rfl

theorem orFailure (h : a.Honours I g Q) :
    a.orFailure.Honours I g fun g' r => ∀ v, r = .ok v → Q g' v := by
  refine Steps.Honours.bind h fun g' r _ hr => ?_
  obtain (f | p) | v := r
  · exact .pure fun r he => by cases he; exact fun w he => by cases he
  · exact .pure fun r he => by cases he
  · exact .pure fun r he => by cases he; exact fun w he => by cases he; exact hr v rfl

end Attempt.Honours

theorem honours_return {a : α} (h : Q g a) : Attempt.Honours I g Q (pure a : Attempt (Recorded σ) α) :=
  .pure fun _ he => by cases he; exact h

theorem honours_ofRun {w : Run (Recorded σ) α} (h : w.Honours I g Q) : (Attempt.ofRun w).Honours I g Q :=
  h.bind fun _ a _ ha => .pure fun _ he => by cases he; exact ha

theorem honours_mapM {f : α → Attempt (Recorded σ) β} {items : List α}
    (h : ∀ g', g ≤ g' → ∀ a ∈ items, (f a).Honours I g' R) :
    Attempt.Honours I g (fun _ _ => True) (items.mapM f) := by
  induction items generalizing g with
  | nil => exact honours_return trivial
  | cons a rest ih =>
    rw [List.mapM_cons]
    refine (h g le_rfl a List.mem_cons_self).bind fun g' _ hle _ => ?_
    exact (ih fun g'' hle' b hb => h g'' (hle.trans hle') b (List.mem_cons_of_mem _ hb)).bind
      fun _ _ _ _ => honours_return trivial

theorem honours_runMapM {f : α → Run (Recorded σ) β} {items : List α}
    (h : ∀ g', g ≤ g' → ∀ a ∈ items, (f a).Honours I g' R) :
    (items.mapM f).Honours I g fun _ _ => True := by
  induction items generalizing g with
  | nil => exact .pure trivial
  | cons a rest ih =>
    rw [List.mapM_cons]
    refine (h g le_rfl a List.mem_cons_self).bind fun g' _ hle _ => ?_
    exact (ih fun g'' hle' b hb => h g'' (hle.trans hle') b (List.mem_cons_of_mem _ hb)).bind
      fun _ _ _ _ => .pure trivial

end

/-! ## Calling back -/

section

variable {x : Execution (Recorded σ)} {s : Session (Recorded σ)} {log : List Event}
  {P : Multiset Entry → Call → Prop} {g : Moment σ} {Q : Moment σ → α → Prop}

theorem honours_update (execution : Nat) (change : Progress → Progress) :
    (Run.update execution change).Honours (World.Orderly s log P) g fun _ _ => True :=
  .getWorld fun hw => .setWorld (le_refl g.world) ⟨hw.alike, hw.calls⟩ (.pure trivial)

/-- Calling back into the application, where that notes one entry. -/
theorem honours_call {note : Except Fault α → Event} {R : Nat → α → Prop} {c : Callback (Recorded σ) α}
    (hc : ∀ app, match c app with
      | .ok a app' => app'.log = app.log ++ [note (.ok a)] ∧ R app.log.length a
      | .error _ app' => ∃ f, app'.log = app.log ++ [note (.error f)])
    (hP : ∀ r call reply, note r = .called call reply → P (g.world.since log.length) call) :
    (Attempt.call c).Honours (World.Orderly s log P) g fun g' v => ∃ k, R k v ∧
      g'.world.since log.length = g.world.since log.length + {(.event (note (.ok v)), k)} := by
  refine Steps.Honours.stepWorld fun hw => ?_
  have noted : ∀ (app : Recorded σ) (r : Except Fault α), app.log = g.world.session.app.log ++ [note r] →
      g.world ≤ { g.world with session := { g.world.session with app } } ∧
        World.Orderly s log P { g.world with session := { g.world.session with app } } :=
    fun app r hlog => ⟨⟨[note r], hlog.symm⟩,
      hw.note (hw.alike.trans (alike_setApp _ app)) hlog (hP r)⟩
  have h := hc g.world.session.app
  split at h
  · next a app hr =>
    simp only [hr]
    obtain ⟨hle, horderly⟩ := noted app _ h.1
    refine ⟨hle, horderly, fun v he => ?_⟩
    cases he
    exact ⟨_, h.2, World.since_concat hw.length_le h.1⟩
  · next f app hr =>
    simp only [hr]
    obtain ⟨f', hlog⟩ := h
    obtain ⟨hle, horderly⟩ := noted app _ hlog
    exact ⟨hle, horderly, fun v he => by cases he⟩

theorem honours_quiet {c : Callback (Recorded σ) α} (hc : c.Quiet) :
    (Attempt.call c).Honours (World.Orderly s log P) g fun _ _ => True := by
  refine Steps.Honours.stepWorld fun hw => ?_
  have kept : ∀ app : Recorded σ, app.log = g.world.session.app.log →
      g.world ≤ { g.world with session := { g.world.session with app } } ∧
        World.Orderly s log P { g.world with session := { g.world.session with app } } :=
    fun app hlog => ⟨⟨[], (List.append_nil _).trans hlog.symm⟩,
      hw.quiet (hw.alike.trans (alike_setApp _ app)) hlog⟩
  have h := hc g.world.session.app
  split at h
  · next a app hr =>
    simp only [hr]
    exact ⟨(kept app h).1, (kept app h).2, fun _ _ => trivial⟩
  · next f app hr =>
    simp only [hr]
    exact ⟨(kept app h).1, (kept app h).2, fun _ _ => trivial⟩

/-- What is noted of a call that a resolver answers, or fails to. -/
def Call.noted (call : Call) : Except Fault (Answer (Recorded σ)) → Event
  | .ok a => .called call a.reply
  | .error f => .called call (.fault f)

/-- Calling a resolver that notes its call. -/
theorem honours_logs {call : Call} {c : Callback (Recorded σ) (Answer (Recorded σ))} (hc : c.Logs call)
    (hP : P (g.world.since log.length) call) :
    (Attempt.call c).Honours (World.Orderly s log P) g fun g' a => ∃ k, a.Notes k ∧
      g'.world.since log.length = g.world.since log.length + {(.event (.called call a.reply), k)} := by
  have noted : ∀ (r : Except Fault (Answer (Recorded σ))) call' reply, call.noted r = .called call' reply →
      P (g.world.since log.length) call' := by
    rintro (f | a) call' reply h <;> cases h <;> exact hP
  refine honours_call (R := fun k a => a.Notes k) (fun app => ?_) noted
  have h := hc app
  revert h
  cases c app with
  | ok a app' => exact id
  | error f app' => exact fun h => ⟨f, h⟩

section

variable {note : Except Fault Json → Event} {c : Callback (Recorded σ) Json} (hc : c.Notes note)
  (hn : ∀ r call reply, note r ≠ .called call reply)

include hc hn

/-- Work that was put off and notes that it is done, which is not a call. -/
theorem honours_notes : (Attempt.call c).Honours (World.Orderly s log P) g fun g' v => ∃ k, True ∧
    g'.world.since log.length = g.world.since log.length + {(.event (note (.ok v)), k)} := by
  refine honours_call (R := fun _ _ => True) (fun app => ?_) fun r call reply h => absurd h (hn r call reply)
  have h := hc app
  revert h
  cases c app with
  | ok a app' => exact fun h => ⟨h, trivial⟩
  | error f app' => exact fun h => ⟨f, h⟩

/-- The same, where a panic counts as a failure. -/
theorem honours_guard : (Attempt.call c.guard).Honours (World.Orderly s log P) g fun g' v => ∃ k, True ∧
    g'.world.since log.length = g.world.since log.length + {(.event (note (.ok v)), k)} := by
  refine honours_call (R := fun _ _ => True) (fun app => ?_) fun r call reply h => absurd h (hn r call reply)
  have h := hc app
  unfold Callback.guard
  revert h
  cases c app with
  | ok a app' => exact fun h => ⟨h, trivial⟩
  | error f app' => cases f <;> exact fun h => ⟨_, h⟩

end

/-- Using the schema, where that leaves the log alone. -/
theorem honours_attemptConsult {R : α → Prop} {lookup : Lookup (Recorded σ) α} (hq : lookup.Quiet)
    (hy : Yields s R lookup) :
    (Attempt.consult lookup).Honours (World.Orderly s log P) g fun _ r => ∃ a, r = .ok a ∧ R a := by
  refine .getWorld fun hw => ?_
  obtain ⟨r, s', hx, hs, hr⟩ := hy g.world.session hw.alike
  have hlog : s'.log = g.world.session.log := by
    have h := hq g.world.session
    unfold Lookup.after at h
    rw [hx] at h
    cases r <;> exact h
  have hle : g.world ≤ { g.world with session := s' } := ⟨[], (List.append_nil _).trans hlog.symm⟩
  rw [hx]
  cases r with
  | ok a =>
    exact .setWorld hle (hw.quiet hs hlog) (.pure fun _ he => by cases he; exact ⟨a, rfl, hr a rfl⟩)
  | error f => exact .setWorld hle (hw.quiet hs hlog) (.pure fun _ he => by cases he)

theorem honours_consult {R : α → Prop} {lookup : Lookup (Recorded σ) α} (hq : lookup.Quiet)
    (hy : Yields s R lookup) :
    (x.consult lookup).Honours (World.Orderly s log P) g fun _ a => R a := by
  refine (honours_attemptConsult hq hy).bind ?_
  rintro g' _ - ⟨a, rfl, ha⟩
  exact honours_return ha

/-! ## Answers of resolvers -/

/-- The values of a promise that a call was made for are what the call has come to. -/
def Call.pledge (n : Nat) (call : Call) (v : Payload) : UpperSet (World (Recorded σ)) where
  carrier := { w | ∃ k, call.CameTo (w.since n) k (.ok v.json) }
  upper' _ _ hle h := let ⟨k, hk⟩ := h; ⟨k, hk.mono (World.since_mono hle n)⟩

theorem honours_settleBy {p : Promise} {call : Call} {k : Nat} {home : Home} {hops : Nat}
    {finish : Callback (Recorded σ) Json} (hc : finish.Notes (.settled k))
    (hp : g.Pledged p (Pledge.ofValues (call.pledge log.length)))
    (hcall : (.event (.called call (.settling home hops)), k) ∈ g.world.since log.length) :
    (settleBy p finish).Honours (World.Orderly s log P) g fun _ _ => True := by
  refine (honours_notes hc fun _ _ _ h => nomatch h).orFailure.bind fun g' r hle hr => ?_
  refine (honours_ofRun (honours_settle ((hp.mono hle).meets ?_))).bind fun _ _ _ _ => honours_return trivial
  cases r with
  | error f => exact Pledge.mem_ofValues_error
  | ok v =>
    obtain ⟨j, -, hj⟩ := hr v rfl
    refine ⟨k, _, ?_, .settling home hops (.ok v) j⟩
    rw [hj]
    exact add_le_add_left (Multiset.singleton_le.mpr hcall) _

theorem honours_afterHops {q : QueueId} {last : Run (Recorded σ) Unit}
    (hl : ∀ g', g ≤ g' → last.Honours (World.Orderly s log P) g' fun _ _ => True) (hops : Nat) :
    (afterHops q last hops).Honours (World.Orderly s log P) g fun _ _ => True := by
  induction hops generalizing g with
  | zero => exact hl g le_rfl
  | succ hops ih =>
    exact .enqueue (fun g' hle => ih fun g'' hle' => hl g'' (hle.trans hle')) (.pure trivial)

theorem honours_home (home : Home) (q : QueueId) :
    (Attempt.ofRun (home.queue q) : Attempt (Recorded σ) QueueId).Honours (World.Orderly s log P) g
      fun _ _ => True := by
  refine honours_ofRun ?_
  cases home with
  | own => exact .pure trivial
  | foreign => exact .newQueue fun _ => .pure trivial

/-- A promise that is made for a call. -/
theorem honours_newPromise (call : Call) (q : QueueId) :
    (Attempt.ofRun (.newPromise q .pure) : Attempt (Recorded σ) Promise).Honours (World.Orderly s log P) g
      fun g' p => g'.Pledged p (Pledge.ofValues (call.pledge log.length)) :=
  honours_ofRun (.newPromise _ fun _ _ _ hp => .pure hp)

/-- What the answer to a call is followed to is what the call comes to. -/
theorem honours_begin {q : QueueId} {call : Call} {k : Nat} {a : Answer (Recorded σ)} (ha : a.Notes k)
    (hcall : (.event (.called call a.reply), k) ∈ g.world.since log.length) :
    (a.guard.begin q).Honours (World.Orderly s log P) g fun g' th =>
      th.Honours (World.Orderly s log P) g' (call.pledge log.length) := by
  have later : ∀ {g'}, g ≤ g' → (.event (.called call a.reply), k) ∈ g'.world.since log.length :=
    fun hle => Multiset.mem_of_le (World.since_mono hle.2 _) hcall
  cases a with
  | ready v => exact honours_return ⟨k, _, Multiset.singleton_le.mpr hcall, .value v⟩
  | deferred compute =>
    refine honours_return fun g' hle => ?_
    refine (honours_guard ha fun _ _ _ h => nomatch h).exposed.bind fun g'' r _ hr => .pure ?_
    cases r with
    | error f => exact Pledge.mem_ofValues_error
    | ok v =>
      obtain ⟨j, -, hj⟩ := hr v rfl
      refine ⟨k, _, ?_, .deferred (.ok v) j⟩
      rw [hj]
      exact add_le_add_left (Multiset.singleton_le.mpr (later hle)) _
  | settling home hops finish =>
    refine (honours_home home q).bind fun g₁ q' hle₁ _ => ?_
    refine (honours_newPromise call q').bind fun g₂ p hle₂ hp => ?_
    have finished : ∀ g', g₂ ≤ g' →
        (settleBy p finish).Honours (World.Orderly s log P) g' fun _ _ => True := fun g' hle =>
      honours_settleBy ha (hp.mono hle) (later ((hle₁.trans hle₂).trans hle))
    have followed : ∀ g', g₂ ≤ g' → Attempt.Honours (World.Orderly s log P) g'
        (fun g'' th => th.Honours (World.Orderly s log P) g'' (call.pledge log.length))
        (return .promise p : Attempt (Recorded σ) (Thenable Payload _)) := fun g' hle =>
      honours_return (hp.mono hle).promises
    split
    · exact (finished g₂ le_rfl).bind fun g' _ hle _ => followed g' hle
    · have hopped : (afterHops q' (Promise.ignore (settleBy p finish).exposed) hops).Honours
          (World.Orderly s log P) g₂ fun _ _ => True :=
        honours_afterHops (fun g' hle => honours_ignore (finished g' hle).exposed) hops
      exact (honours_ofRun hopped).bind fun g' _ hle _ => followed g' hle
  | stuck home =>
    refine (honours_home home q).bind fun g₁ q' _ _ => ?_
    exact (honours_newPromise call q').bind fun g₂ p _ hp => honours_return hp.promises

/-- **The promise of an answer says what the call has come to.** -/
theorem honours_answered {call : Call} {c : Callback (Recorded σ) (Answer (Recorded σ))}
    (hc : c.Logs call) (hP : P (g.world.since log.length) call) :
    (x.answered c).Honours (World.Orderly s log P) g fun g' p =>
      g'.Promises p (call.pledge log.length) := by
  have begun : Attempt.Honours (World.Orderly s log P) g
      (fun g' th => th.Honours (World.Orderly s log P) g' (call.pledge log.length)) (do
        let a ← Attempt.call c
        a.guard.begin x.queue) := by
    refine (honours_logs hc hP).bind fun g' a _ ⟨k, ha, hsince⟩ => honours_begin ha ?_
    rw [hsince]
    exact Multiset.mem_add.mpr (.inr (Multiset.mem_singleton_self _))
  refine begun.caught.bind fun g' r _ hr => ?_
  cases r with
  | ok th => exact honours_adopt (hr th rfl)
  | error f => exact honours_settled Pledge.mem_ofValues_error

end

end EntityQuery
