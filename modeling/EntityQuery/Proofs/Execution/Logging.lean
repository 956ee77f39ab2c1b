import EntityQuery.Proofs.Execution.Settling
import EntityQuery.Proofs.Execution.Trails
import EntityQuery.Proofs.Execution.Waiting
import EntityQuery.Proofs.Schema.Quiet

/-!
# What happens in executions

On a schema that keeps a log, the effect of a part of an execution is what it adds to the log and which
defects it meets, each with its place. These terms are lax: a part may be halted in any way, and may wait
forever.

* **`Execution.logging`**: these terms; `Precedes`: what is added first has the lower places.
* `Terms.Enters`: terms on which what is added to the log has an effect.
* `Callback.Logs.responds`: calling a resolver adds the entries of one call.
* `Lookup.Upholds`: lookups that keep a session as it has to be. `does_lookup`: using the schema.
-/

namespace EntityQuery

open Lookup Session Execution

variable {σ α β : Type}

/-! ## The terms -/

namespace Execution

/-- The terms of an execution in good sessions, whose effect is what happens; the first defect that is met
is kept. -/
def logging (x : Execution (Recorded σ)) (Good : Session (Recorded σ) → Prop) :
    Terms (World (Recorded σ)) (Multiset Entry) where
  queue := x.queue
  lax := True
  Halting := Halt
  halt := id
  Good w := Good w.session ∧ ∃ p, w.executions[x.index]? = some p
  Step d w w' := Good w'.session ∧ ∃ p p' h, w.executions[x.index]? = some p ∧
    w'.executions[x.index]? = some p' ∧ p'.fatal? = p.fatal?.or (History.defects h).head? ∧
    w'.session.log = w.session.log ++ h.events ∧
    d = (h.placed w.session.log.length : Multiset Entry)
  step_zero := by
    rintro w ⟨hs, p, hp⟩
    exact ⟨hs, p, p, [], hp, hp, Option.or_none.symm, (List.append_nil _).symm, rfl⟩
  step_add := by
    rintro _ _ w w' w'' ⟨-, p, p₁, h, hp, hp₁, hf, hlog, rfl⟩ ⟨hs, p₁', p₂, h', hp₁', hp₂, hf', hlog', rfl⟩
    rw [hp₁] at hp₁'
    cases hp₁'
    refine ⟨hs, p, p₂, h ++ h', hp, hp₂, ?_, ?_, ?_⟩
    · rw [hf', hf, Option.or_assoc, History.defects_append, List.head?_append]
    · rw [hlog', hlog, List.append_assoc, History.events_append]
    · rw [hlog, List.length_append, History.placed_append, Multiset.coe_add]
  good_of_step := fun _ ⟨hs, _, p', _, _, hp', _⟩ => ⟨hs, p', hp'⟩

variable {x : Execution (Recorded σ)} {Good : Session (Recorded σ) → Prop}

instance : (x.logging Good).Panics := ⟨fun p => ⟨.panic p, rfl⟩⟩

theorem hosts_logging : (x.logging Good).Hosts x := ⟨rfl, fun h => h.2⟩

/-- Changing what the execution has met adds nothing to the log. -/
theorem step_progress {w : World (Recorded σ)} (hw : (x.logging Good).Good w)
    {change : Progress → Progress} {h : History} (hevents : h.events = [])
    (hf : ∀ p, (change p).fatal? = p.fatal?.or h.defects.head?) :
    (x.logging Good).Step (h.placed w.session.log.length : Multiset Entry) w
      { w with executions := w.executions.modify x.index change } := by
  obtain ⟨hs, p, hp⟩ := hw
  refine ⟨hs, p, change p, h, hp, by simp [Array.getElem?_modify, hp], hf p, ?_, rfl⟩
  rw [hevents, List.append_nil]

/-- Replacing the session. -/
theorem step_session {w : World (Recorded σ)} (hw : (x.logging Good).Good w)
    {s : Session (Recorded σ)} (hs : Good s) {added : List Event}
    (hlog : s.log = w.session.log ++ added) :
    (x.logging Good).Step (History.placed w.session.log.length (added.map .event) : Multiset Entry) w
      { w with session := s } := by
  obtain ⟨-, p, hp⟩ := hw
  exact ⟨hs, p, p, added.map .event, hp, hp, by simp, by simpa using hlog, rfl⟩

end Execution

/-- The places of the first entries of the log are below those of what happens then. -/
def Precedes (d d' : Multiset Entry) : Prop := ∀ e n, (.event e, n) ∈ d → ∀ y ∈ d', n < y.2

section

variable {x : Execution (Recorded σ)} {Good : Session (Recorded σ) → Prop} {h : Parts (Recorded σ)}

theorem precedes_of_steps {d d' : Multiset Entry} {w w' w'' : World (Recorded σ)}
    (h : (x.logging Good).Step d w w') (h' : (x.logging Good).Step d' w' w'') : Precedes d d' := by
  obtain ⟨-, -, -, h, -, -, -, hlog, rfl⟩ := h
  obtain ⟨-, -, -, h', -, -, -, -, rfl⟩ := h'
  intro e n hmem y hmem'
  have hlt := (History.event_mem_placed (Multiset.mem_coe.mp hmem)).1
  have hle := History.le_of_mem_placed (Multiset.mem_coe.mp hmem')
  rw [hlog, List.length_append] at hle
  exact hlt.trans_le hle

/-! ## Counting, failing and giving up -/

section

variable {Q : α → Tasks (Recorded σ) → Parts (Recorded σ) → Multiset Entry → Prop}

theorem does_progress {change : Progress → Progress} (hf : ∀ p, (change p).fatal? = p.fatal?)
    {next : Unit → Run (Recorded σ) α} (hnext : Does (x.logging Good) h (next ()) Q) :
    Does (x.logging Good) h ((Run.update x.index change).bind next) Q := by
  refine does_getWorld fun w hw => ⟨0, _, next (), rfl,
    step_progress (h := []) hw rfl fun p => (hf p).trans Option.or_none.symm, ?_⟩
  simpa only [zero_add] using hnext

theorem Execution.serves_logging : (x.logging Good).Serves x fun _ => 0 where
  queue := rfl
  count hnext := does_progress (by exact fun _ => rfl) (by simpa only [zero_add] using hnext)
  fail hnext := does_progress (by exact fun _ => rfl) (by simpa only [zero_add] using hnext)

/-- Giving up at a defect is to meet it. -/
theorem does_abort {d : Defect}
    {Q : Except Fault Unit → Tasks (Recorded σ) → Parts (Recorded σ) → Multiset Entry → Prop}
    (hQ : ∀ k, Q (.ok ()) 0 h {(.met d, k)}) :
    Does (x.logging Good) h (Attempt.ofRun (x.abort d)).run Q := by
  refine does_getWorld fun w hw => ⟨_, _, .pure (.ok ()), rfl,
    step_progress (h := [.met d]) hw rfl fun p => rfl, does_pure ?_⟩
  rw [add_zero]
  exact hQ _

end

/-! ## Calling back -/

/-- On these terms sessions are good, replacing the session by a good one has the effect `enter` of what
is added to the log, and running out of room for lookups may halt tasks. -/
structure Terms.Enters {E : Type} [AddCommMonoid E] (C : Terms (World (Recorded σ)) E)
    (Good : Session (Recorded σ) → Prop) (enter : Multiset Entry →+ E) : Prop where
  good : ∀ {w}, C.Good w → Good w.session
  session : ∀ {w : World (Recorded σ)} {s : Session (Recorded σ)} {added : List Event}, C.Good w →
    Good s → s.log = w.session.log ++ added →
    C.Step (enter (History.placed w.session.log.length (added.map .event))) w { w with session := s }
  lax : C.lax
  exhausts : ∃ p, C.halt p = .exhausted

theorem Execution.enters_logging : (x.logging Good).Enters Good (AddMonoidHom.id (Multiset Entry)) where
  good := fun h => h.1
  session hw hs hlog := step_session hw hs hlog
  lax := trivial
  exhausts := ⟨.exhausted, rfl⟩

/-- What a part of an execution has begun with: its calls at the given places, and entries of a kind. -/
structure Begun (K : Event → Prop) (ns : List Nat) (d : Multiset Entry) : Prop where
  places : ∀ n ∈ ns, ∃ e, (.event e, n) ∈ d
  kind : ∀ e n, (.event e, n) ∈ d → K e

/-- What a call at place `n` comes to; it may wait forever where its answer keeps it waiting. -/
def Call.prospect (call : Call) (n : Nat) : Prospect (Outcome Payload) (Multiset Entry) :=
  ⟨fun o t => ∃ r, call.Comes n r t ∧ o = outcomeOf r, Stalled⟩

section

variable {E : Type} [AddCommMonoid E] {C : Terms (World (Recorded σ)) E}
  {enter : Multiset Entry →+ E}

/-- What a call at place `n` comes to, with the effect of its entries. -/
def Call.prospectBy (enter : Multiset Entry →+ E) (call : Call) (n : Nat) :
    Prospect (Outcome Payload) E :=
  ⟨fun o e => ∃ r t, call.Comes n r t ∧ e = enter t ∧ o = outcomeOf r,
    fun e => ∃ t, e = enter t ∧ Stalled t⟩

variable (hC : C.Enters Good enter) (hGood : ∀ s app, Good s → Good { s with app })

include hC hGood

/-- Calling back into the application, where that adds to the log. -/
theorem Callback.acts_of_enters {c : Callback (Recorded σ) α}
    {R : Except Fault α → Multiset Entry → Prop}
    (hc : ∀ s, match c s with
      | .ok a s' => ∃ added, s'.log = s.log ++ added ∧
        R (.ok a) (History.placed s.log.length (added.map .event))
      | .error f s' => ∃ added, s'.log = s.log ++ added ∧
        R (.error f) (History.placed s.log.length (added.map .event))) :
    c.Acts C fun r d => c.Gives r ∧ ∃ t, d = enter t ∧ R r t := by
  intro h Q hQ
  refine does_getWorld fun w hw => ?_
  have hadds := hc w.session.app
  cases hr : c w.session.app with
  | ok a app =>
    rw [hr] at hadds
    obtain ⟨added, hlog, hR⟩ := hadds
    refine ⟨_, { w with session := { w.session with app } }, .pure (.ok a), by simp only [hr],
      hC.session hw (hGood _ app (hC.good hw)) hlog, does_pure ?_⟩
    rw [add_zero]
    exact hQ _ _ ⟨⟨_, _, hr⟩, _, rfl, hR⟩
  | error f app =>
    rw [hr] at hadds
    obtain ⟨added, hlog, hR⟩ := hadds
    refine ⟨_, { w with session := { w.session with app } }, .pure (.error f), by simp only [hr],
      hC.session hw (hGood _ app (hC.good hw)) hlog, does_pure ?_⟩
    rw [add_zero]
    exact hQ _ _ ⟨⟨_, _, hr⟩, _, rfl, hR⟩

theorem Callback.Quiet.acts {c : Callback (Recorded σ) α} (hc : c.Quiet) :
    c.Acts C fun r d => c.Gives r ∧ d = 0 := by
  refine (Callback.acts_of_enters hC hGood (R := fun _ t => t = 0) fun s => ?_).mono ?_
  · have hlog := hc s
    cases hr : c s with
    | ok a s' =>
      rw [hr] at hlog
      exact ⟨[], hlog.trans (List.append_nil _).symm, rfl⟩
    | error f s' =>
      rw [hr] at hlog
      exact ⟨[], hlog.trans (List.append_nil _).symm, rfl⟩
  · rintro _ _ ⟨hr, _, rfl, rfl⟩
    exact ⟨hr, map_zero enter⟩

theorem Callback.Notes.acts {note : Except Fault α → Event} {c : Callback (Recorded σ) α}
    (hc : c.Notes note) : c.Acts C fun r d => ∃ n, d = enter {(.event (note r), n)} := by
  refine (Callback.acts_of_enters hC hGood (R := fun r t => ∃ n, t = {(.event (note r), n)})
    fun s => ?_).mono ?_
  · have hlog := hc s
    cases hr : c s with
    | ok a s' =>
      rw [hr] at hlog
      exact ⟨_, hlog, _, rfl⟩
    | error f s' =>
      rw [hr] at hlog
      exact ⟨_, hlog, _, rfl⟩
  · rintro _ _ ⟨-, _, rfl, n, rfl⟩
    exact ⟨n, rfl⟩

/-- Calling a resolver adds its call. -/
theorem Callback.Logs.acts {call : Call} {c : Callback (Recorded σ) (Answer (Recorded σ))}
    (hc : c.Logs call) : c.Acts C fun r d => ∃ n,
      match r with
      | .ok a => d = enter {(.event (.called call a.reply), n)} ∧ a.Notes n
      | .error f => d = enter {(.event (.called call (.fault f)), n)} := by
  refine (Callback.acts_of_enters hC hGood (R := fun r t => ∃ n,
    match r with
    | .ok a => t = {(.event (.called call a.reply), n)} ∧ a.Notes n
    | .error f => t = {(.event (.called call (.fault f)), n)}) fun s => ?_).mono ?_
  · have hlog := hc s
    cases hr : c s with
    | ok a s' =>
      rw [hr] at hlog
      exact ⟨_, hlog.1, _, rfl, hlog.2⟩
    | error f s' =>
      rw [hr] at hlog
      exact ⟨_, hlog, _, rfl⟩
  · rintro (f | a) _ ⟨-, t, rfl, n, ht⟩
    · exact ⟨n, congrArg enter ht⟩
    · exact ⟨n, congrArg enter ht.1, ht.2⟩

/-- **Calling a resolver comes to the entries of one call.** -/
theorem Callback.Logs.responds_by {call : Call} {c : Callback (Recorded σ) (Answer (Recorded σ))}
    (hc : c.Logs call) {K : Event → Prop} (hcalled : ∀ reply, K (.called call reply))
    (hsettled : ∀ n r, K (.settled n r)) :
    c.Acts C (Responds C (fun n d => ∃ t, d = enter t ∧ Begun K [n] t) (call.prospectBy enter)) := by
  refine (hc.acts hC hGood).mono ?_
  rintro r d ⟨n, hr⟩
  have begun : ∀ reply, Begun K [n] {(.event (.called call reply), n)} := by
    refine fun reply => ⟨fun k hk => ?_, fun e k hk => ?_⟩
    · obtain rfl := List.mem_singleton.mp hk
      exact ⟨_, Multiset.mem_singleton_self _⟩
    · cases Multiset.mem_singleton.mp hk
      exact hcalled reply
  cases r with
  | error f =>
    subst hr
    exact ⟨n, ⟨_, rfl, begun _⟩, _, _, .fault f, rfl, rfl⟩
  | ok a =>
    obtain ⟨rfl, hnotes⟩ := hr
    refine ⟨n, ⟨_, rfl, begun _⟩, ?_⟩
    cases a with
    | ready v => exact .ready ⟨.ok v, _, .value v, by rw [add_zero]; rfl, rfl⟩
    | deferred compute =>
      refine .deferred ((Callback.Notes.acts hC hGood hnotes).mono ?_)
      rintro r _ ⟨k, rfl⟩
      exact ⟨_, _, .deferred r k, (map_add enter _ _).symm, rfl⟩
    | settling home hops finish =>
      refine .settling ((Callback.Notes.acts hC hGood hnotes).mono ?_)
      rintro r _ ⟨k, rfl⟩
      refine ⟨⟨_, _, .settling home hops r k, (map_add enter _ _).symm, rfl⟩,
        ⟨_, (map_add enter _ _).symm, ?_, ?_⟩, fun _ _ _ => hC.lax⟩
      · intro m hm
        obtain rfl := List.mem_singleton.mp hm
        exact ⟨_, Multiset.mem_add.mpr (.inl (Multiset.mem_singleton_self _))⟩
      · intro e m hm
        rcases Multiset.mem_add.mp hm with hm | hm
        · cases Multiset.mem_singleton.mp hm
          exact hcalled _
        · cases Multiset.mem_singleton.mp hm
          exact hsettled n r
    | stuck home =>
      cases home with
      | own =>
        refine .stuck hC.lax ⟨_, add_zero _, call, n, ?_⟩
        exact Multiset.mem_singleton_self _
      | foreign => exact .dry ⟨_, _, .stuck, by rw [add_zero]; rfl, rfl⟩

omit hC in
/-- **Calling a resolver comes to the entries of one call**, as an effect. -/
theorem Callback.Logs.responds {call : Call} {c : Callback (Recorded σ) (Answer (Recorded σ))}
    (hc : c.Logs call) {K : Event → Prop} (hcalled : ∀ reply, K (.called call reply))
    (hsettled : ∀ n r, K (.settled n r)) :
    c.Acts (x.logging Good)
      (Responds (x.logging Good) (fun n d => Begun K [n] d) call.prospect) := by
  have hB : (fun n d => ∃ t, d = AddMonoidHom.id (Multiset Entry) t ∧ Begun K [n] t) =
      fun n d => Begun K [n] d := by simp
  have hφ : call.prospectBy (AddMonoidHom.id (Multiset Entry)) = call.prospect := by
    simp [funext_iff, Call.prospectBy, Call.prospect]
  rw [← hB, ← hφ]
  exact hc.responds_by enters_logging hGood hcalled hsettled

end

/-! ## Using the schema -/

/-- In a good session the lookup leaves a good one, and it ends as `R` says. -/
def Lookup.Upholds (Good : Session σ → Prop) (lookup : Lookup σ α) (R : Except Stop α → Prop) :
    Prop :=
  ∀ s, Good s →
    match lookup s with
    | .ok a s' => Good s' ∧ R (.ok a)
    | .error e s' => Good s' ∧ R (.error e)

namespace Lookup

variable {s : Session σ} {x : Lookup σ α}

theorem Comes.upholds {Q : Except Fault α → Prop} (h : Comes s Q x) {R : Except Stop α → Prop}
    (hR : ∀ r, Q r → R (r.mapError .fault)) : x.Upholds s.Alike R := by
  intro s' hs
  obtain ⟨r, s'', hx, hs'', hr⟩ := h s' hs
  rw [hx]
  cases r with
  | ok a => exact ⟨hs'', hR (.ok a) hr⟩
  | error f => exact ⟨hs'', hR (.error f) hr⟩

theorem Answers.upholds {a : α} (h : Answers x a s) {R : Except Stop α → Prop} (hR : R (.ok a)) :
    x.Upholds s.Alike R :=
  (h.comes (Q := fun r => r = .ok a) rfl).upholds (by rintro _ rfl; exact hR)

end Lookup

/-- Using the schema adds nothing to the log; steps go on with what it answers. -/
theorem does_lookup {E : Type} [AddCommMonoid E] {C : Terms (World (Recorded σ)) E}
    {enter : Multiset Entry →+ E} (hC : C.Enters Good enter)
    {lookup : Lookup (Recorded σ) α} {R : Except Stop α → Prop}
    (hquiet : lookup.Quiet) (hl : lookup.Upholds Good R) {k : Except Defect α → Attempt (Recorded σ) β}
    {Q : Except Fault β → Tasks (Recorded σ) → Parts (Recorded σ) → E → Prop}
    (hok : ∀ a, R (.ok a) → Does C h (k (.ok a)).run Q)
    (hdefect : ∀ d, R (.error (.defect d)) → Does C h (k (.error d)).run Q)
    (hfault : ∀ f, R (.error (.fault f)) → Q (.error f) 0 h 0) :
    Does C h (Attempt.consult lookup >>= k).run Q := by
  refine Does.attempt_bind (does_getWorld fun w hw => ?_)
  have hr := hl w.session (hC.good hw)
  have hlog := hquiet w.session
  unfold Lookup.after at hlog
  have step : ∀ s, Good s → s.log = w.session.log → C.Step 0 w { w with session := s } := by
    intro s hs hlog
    have hnone : s.log = w.session.log ++ [] := hlog.trans (List.append_nil w.session.log).symm
    simpa [History.placed] using hC.session hw hs hnone
  cases hs : lookup w.session with
  | ok a s =>
    rw [hs] at hr hlog
    exact ⟨0, { w with session := s }, .pure (.ok (.ok a)), rfl, step s hr.1 hlog,
      does_pure (by simpa using hok a hr.2)⟩
  | error e s =>
    rw [hs] at hr hlog
    cases e with
    | defect d =>
      exact ⟨0, { w with session := s }, .pure (.ok (.error d)), rfl, step s hr.1 hlog,
        does_pure (by simpa using hdefect d hr.2)⟩
    | fault f =>
      exact ⟨0, { w with session := s }, .pure (.error f), rfl, step s hr.1 hlog,
        does_pure (by simpa using hfault f hr.2)⟩
    | exhausted =>
      obtain ⟨p, hp⟩ := hC.exhausts
      refine ⟨0, { w with session := s }, .halt (C.halt p), ?_, step s hr.1 hlog,
        does_halt hC.lax⟩
      rw [hp]

end

end EntityQuery
