import EntityQuery.Execution.Engine
import EntityQuery.Proofs.Promise.Mirror
import EntityQuery.Proofs.Schema.Tandem

/-!
# Executions in tandem

A document is executed on a schema that was built without a loader, and on one that stands in for it; each of the
two executions has a queue of its own, and may share it with others. What the one asks for, the other one asks for
as well, and they meet the same.

* `Pace.Reports`: reports of which one stands for the other; `Tandem.mirror`: what is compared of two executions.
* `Attempts`: attempts that mirror each other.
* **`Tandem.Executions.mirrors_settleField`**: a field.
* **`Tandem.Executions.mirrors_completeEntity`**: the fields of an entity, by recursion on the query.
* **`Tandem.Executions.mirrors_document`**: a document.
-/

namespace EntityQuery

open Promise

variable {σ α β γ δ : Type}

/-- The counts, but for the tasks of the queue. -/
def Tally.work (t : Tally) : Tally := { t with ticks := 0 }

/-! ## What executions hold and keep -/

namespace Pace

variable (P : Pace σ)

/-- Reports of which one stands for the other: they may differ in the tasks that they count. -/
structure Reports (r r' : Report) : Prop where
  data : r.data = r'.data
  failures : List.Forall₂ P.failure r.failures r'.failures
  tally : r.tally.work = r'.tally.work
  masking : r.masking = r'.masking

/-- The same of what promises of executions hold. -/
inductive Payloads : Payload → Payload → Prop
  | value (v : Json) : Payloads (.value v) (.value v)
  | report {r r' : Report} (h : P.Reports r r') : Payloads (.report r) (.report r')

/-- What two executions have met so far; neither has met a defect. -/
structure Records (p p' : Progress) : Prop where
  failures : List.Forall₂ P.failure p.failures p'.failures
  fatal? : p.fatal? = none
  fatal?' : p'.fatal? = none
  tally : p.tally = p'.tally

variable {P}

theorem records_new : P.Records {} {} := ⟨.nil, rfl, rfl, rfl⟩

theorem Payloads.json_eq {p p' : Payload} (h : P.Payloads p p') : p.json = p'.json := by
  cases h with
  | value v => rfl
  | report _ => rfl

theorem payloads_bundle (ps ps' : List Payload) (h : List.Forall₂ P.Payloads ps ps') :
    P.Payloads (.bundle ps) (.bundle ps') := by
  have hjson : ps.map Payload.json = ps'.map Payload.json := by
    induction h with
    | nil => rfl
    | cons h _ ih => rw [List.map_cons, List.map_cons, h.json_eq, ih]
  unfold Payload.bundle
  rw [hjson]
  exact .value _

end Pace

namespace Tandem

variable (T : Tandem σ)

/-- Worlds in which two executions are under way, if any: the sessions go together, and so does what the executions
have met. -/
structure Worlds (places? : Option (Nat × Nat)) (w w' : World σ) : Prop where
  sessions : T.sessions w.session w'.session
  records : ∀ k ∈ places?, ∃ p p', w.executions[k.1]? = some p ∧ w'.executions[k.2]? = some p' ∧
    T.Records p p'

/-- What an execution may change of its world. -/
structure Frame (places? : Option (Nat × Nat)) (w v : World σ) : Prop where
  session : T.base.Alike w.session → T.base.Alike v.session
  others : ∀ i, (∀ k ∈ places?, k.1 ≠ i) → v.executions[i]? = w.executions[i]?

/-- What is compared of two executions on queues of their own. -/
def mirror (q q' : QueueId) (places? : Option (Nat × Nat)) : Mirror Payload (World σ) where
  failure := T.failure
  value := T.Payloads
  world := T.Worlds places?
  frame := T.Frame places?
  queue := q
  queue' := q'
  halts := T.halts
  failure_refl := T.failure_refl
  frame_refl _ := ⟨id, fun _ _ => rfl⟩
  frame_trans h h' := ⟨fun hs => h'.session (h.session hs),
    fun i hi => (h'.others i hi).trans (h.others i hi)⟩

variable {T}

theorem Worlds.setSession {places? : Option (Nat × Nat)} {w w' : World σ} (h : T.Worlds places? w w')
    {s s' : Session σ} (hs : T.sessions s s') :
    T.Worlds places? { w with session := s } { w' with session := s' } ∧
      T.Frame places? w { w with session := s } :=
  ⟨⟨hs, h.records⟩, ⟨fun _ => T.alike hs, fun _ _ => rfl⟩⟩

/-- Changing what the executions have met. -/
theorem Worlds.modify {k k' : Nat} {w w' : World σ} (h : T.Worlds (some (k, k')) w w')
    {change change' : Progress → Progress}
    (hc : ∀ p p', T.Records p p' → T.Records (change p) (change' p')) :
    T.Worlds (some (k, k')) { w with executions := w.executions.modify k change }
      { w' with executions := w'.executions.modify k' change' } ∧
      T.Frame (some (k, k')) w { w with executions := w.executions.modify k change } := by
  refine ⟨⟨h.sessions, ?_⟩, ⟨id, fun i hi => ?_⟩⟩
  · intro _ hk
    obtain rfl := Option.mem_some_iff.mp hk
    obtain ⟨p, p', hp, hp', hr⟩ := h.records _ hk
    exact ⟨change p, change' p', by simp [Array.getElem?_modify, hp], by simp [Array.getElem?_modify, hp'],
      hc p p' hr⟩
  · have hne : k ≠ i := hi _ rfl
    simp [Array.getElem?_modify, hne]

end Tandem

/-! ## Attempts -/

/-- Attempts that mirror each other: both end at faults related by `F`, or with answers related by `R`. -/
abbrev Attempts (L : Mirror Payload (World σ)) (F : Fault → Fault → Prop) (R : Pairing → α → β → Prop)
    (Γ : Pairing) (x : Attempt σ α) (x' : Attempt σ β) : Prop :=
  Mirrors L (fun Γ => ExceptRel F (R Γ)) Γ x.run x'.run

namespace Attempts

variable {T : Tandem σ} {q q' : QueueId} {places? : Option (Nat × Nat)} {Γ : Pairing}
  {L : Mirror Payload (World σ)} {F : Fault → Fault → Prop} {R : Pairing → α → β → Prop}
  {S : Pairing → γ → δ → Prop} {A : α → β → Prop}

theorem pure {a : α} {b : β} (h : R Γ a b) :
    Attempts L F R Γ (Pure.pure a : Attempt σ α) (Pure.pure b) := Mirrors.pure (.ok h)

theorem bind {x : Attempt σ α} {x' : Attempt σ β} {k : α → Attempt σ γ} {k' : β → Attempt σ δ}
    (h : Attempts L F R Γ x x')
    (hk : ∀ Γ', Γ ≤ Γ' → ∀ a b, R Γ' a b → Attempts L F S Γ' (k a) (k' b)) :
    Attempts L F S Γ (x >>= k) (x' >>= k') := by
  refine Mirrors.bind h ?_
  rintro Γ' hΓ _ _ (hab | he)
  · exact hk Γ' hΓ _ _ hab
  · exact .pure (.error he)

theorem ofRun {s : Run σ α} {s' : Run σ β} (h : Mirrors L R Γ s s') :
    Attempts L F R Γ (Attempt.ofRun s) (Attempt.ofRun s') :=
  h.bind fun _ _ _ _ hab => .pure (.ok hab)

theorem mapM {cs : List γ} {f : γ → Attempt σ α} {f' : γ → Attempt σ β} (hR : Pairing.Grows R)
    (hf : ∀ Γ', Γ ≤ Γ' → ∀ c, Attempts L F R Γ' (f c) (f' c)) :
    Attempts L F (fun Γ => List.Forall₂ (R Γ)) Γ (cs.mapM f) (cs.mapM f') := by
  induction cs generalizing Γ with
  | nil => exact pure .nil
  | cons c cs ih =>
    rw [List.mapM_cons, List.mapM_cons]
    refine (hf Γ le_rfl c).bind fun Γ₁ h₁ a b hab => ?_
    refine (ih fun Γ' h' => hf Γ' (h₁.trans h')).bind fun Γ₂ h₂ as bs habs => ?_
    exact pure (.cons (hR h₂ hab) habs)

/-- A call back into the application changes the world once. -/
theorem drifts_call {c : Callback σ α} {w : World σ} {r : Except Fault α} {app : σ}
    (h : c w.session.app = Callback.result r app) :
    Steps.Drifts w (Attempt.call c).run { w with session := { w.session with app } } (.pure r) := by
  refine .getWorld ?_
  simp only [h]
  cases r <;> exact .setWorld .here

theorem call {c : Callback σ α} {c' : Callback σ β} (h : T.Calls F A c c') :
    Attempts (T.mirror q q' places?) F (Fixed A) Γ (Attempt.call c) (Attempt.call c') := by
  refine .of_drifts fun w w' hw => ?_
  obtain ⟨r, r', app, app', hc, hc', hs, hr⟩ := h _ _ hw.sessions
  have hnext := hw.setSession hs
  exact ⟨_, _, _, _, drifts_call hc, drifts_call hc', hnext.1, hnext.2, .pure hr⟩

/-- Using the schema changes the world once. -/
theorem drifts_consult {x : Lookup σ α} {w : World σ} {r : Except Fault α} {t : Session σ}
    (h : x w.session = Lookup.ended r t) :
    Steps.Drifts w (Attempt.consult x).run { w with session := t } (.pure (r.map .ok)) := by
  refine .getWorld ?_
  simp only [h]
  cases r <;> exact .setWorld .here

/-- Using the schema meets no defect. -/
theorem consult {x : Lookup σ α} {x' : Lookup σ β} (h : T.Agrees F A x x') :
    Attempts (T.mirror q q' places?) F (Fixed (ExceptRel (fun _ _ => False) A)) Γ (Attempt.consult x)
      (Attempt.consult x') := by
  refine .of_drifts fun w w' hw => ?_
  obtain ⟨r, r', t, t', hx, hx', hs, hr⟩ := h _ _ hw.sessions
  have hnext := hw.setSession hs
  refine ⟨_, _, _, _, drifts_consult hx, drifts_consult hx', hnext.1, hnext.2, .pure ?_⟩
  cases hr with
  | ok hab => exact .ok (.ok hab)
  | error he => exact .error he

theorem orFailure {x : Attempt σ α} {x' : Attempt σ β} (hF : ∀ {f f'}, F f f' → T.Matched f f')
    (h : Attempts L F R Γ x x') :
    Attempts L F (fun Γ => ExceptRel T.failure (R Γ)) Γ x.orFailure x'.orFailure := by
  refine Mirrors.bind h ?_
  rintro Γ' - _ _ (hab | he)
  · exact .pure (.ok (.ok hab))
  · cases hF he with
    | failure h => exact .pure (.ok (.error h))
    | panic p p' => exact .pure (.error he)

theorem caught {x : Attempt σ α} {x' : Attempt σ β} (hF : ∀ {f f'}, F f f' → T.Faults f f')
    (h : Attempts L F R Γ x x') :
    Mirrors L (fun Γ => ExceptRel T.failure (R Γ)) Γ x.caught x'.caught := by
  refine Mirrors.bind h ?_
  rintro Γ' - _ _ (hab | he)
  · exact .pure (.ok hab)
  · exact .pure (.error (hF he))

theorem exposed {x : Attempt σ α} {x' : Attempt σ β}
    (h : Attempts (T.mirror q q' places?) T.Final R Γ x x') :
    Mirrors (T.mirror q q' places?) (fun Γ => ExceptRel T.failure (R Γ)) Γ x.exposed x'.exposed := by
  refine Mirrors.bind h ?_
  rintro Γ' - _ _ (hab | he)
  · exact .pure (.ok hab)
  · cases he with
    | failure h => exact .pure (.error h)
    | panic h => exact .halt h

end Attempts

/-! ## Answers -/

namespace Pace

variable {P : Pace σ}

theorem Paired.matched {f f' : Fault} (h : P.Paired f f') : P.Matched f f' := by
  cases h with
  | failure h => exact .failure h
  | panic _ => exact .panic _ _

theorem Final.matched {f f' : Fault} (h : P.Final f f') : P.Matched f f' := by
  cases h with
  | failure h => exact .failure h
  | panic _ => exact .panic _ _

theorem Paired.faults {f f' : Fault} (h : P.Paired f f') : P.Faults f f' := by
  cases h with
  | failure h => exact h
  | panic h => exact h

/-- A call that is guarded does not panic. -/
theorem Calls.guard {c c' : Callback σ Json} (h : P.Calls P.Faults Eq c c') :
    P.Calls P.Final Eq c.guard c'.guard := by
  have guarded : ∀ {c : Callback σ Json} {s app : σ} {r : Except Fault Json},
      c s = Callback.result r app →
      c.guard s = Callback.result (r.mapError fun f => .failure f.toFailure) app := by
    intro c s app r hc
    unfold Callback.guard
    rw [hc]
    rcases r with (f | p) | v <;> rfl
  intro s s' hs
  obtain ⟨r, r', app, app', hc, hc', hs, hr⟩ := h s s' hs
  refine ⟨_, _, app, app', guarded hc, guarded hc', hs, ?_⟩
  cases hr with
  | ok h => exact .ok h
  | error he => exact .error (.failure he)

end Pace

namespace Tandem

variable {T : Tandem σ} {q q' : QueueId} {places? : Option (Nat × Nat)} {Γ : Pairing}
  {F : Fault → Fault → Prop}

theorem outcomes_outcomeOf {r r' : Except Failure Json} (h : ExceptRel T.failure Eq r r') :
    (T.mirror q q' places?).Outcomes (outcomeOf r) (outcomeOf r') := by
  cases h with
  | ok h =>
    cases h
    exact .ok (.value _)
  | error h => exact .error h

theorem mirrors_settleBy {p p' : Promise} (hp : Γ.promise p p') {c c' : Callback σ Json}
    (hF : ∀ {f f'}, F f f' → T.Matched f f') (h : T.Calls F Eq c c') :
    Attempts (T.mirror q q' places?) F (Fixed fun _ _ => True) Γ (settleBy p c) (settleBy p' c') :=
  (Attempts.orFailure hF (Attempts.call h)).bind fun _ h₁ _ _ hr =>
    (Attempts.ofRun (mirrors_settle (h₁.promise hp) (outcomes_outcomeOf hr))).bind fun _ _ _ _ _ =>
      Attempts.pure trivial

/-- The queue of a promise, of the execution or of its own. -/
theorem mirrors_queue (home : Home) (hm : Γ.queue q q') :
    Mirrors (T.mirror q q' places?) Pairing.queue Γ (home.queue q : Run σ QueueId) (home.queue q') := by
  cases home with
  | own => exact .pure hm
  | foreign => exact .newQueue fun _ _ _ _ h _ => .pure h

theorem mirrors_afterHops {r r' : QueueId} (hr : Γ.queue r r') {last last' : Run σ Unit}
    (h : Mirrors (T.mirror q q' places?) (Fixed fun _ _ => True) Γ last last') (hops : Nat) :
    Mirrors (T.mirror q q' places?) (Fixed fun _ _ => True) Γ (afterHops r last hops)
      (afterHops r' last' hops) := by
  induction hops with
  | zero => exact h
  | succ hops ih => exact .enqueue hr ih (.pure trivial)

/-- Answers of which one stands in for the other begin alike. -/
theorem mirrors_begin (hm : Γ.queue q q') {a a' : Answer σ} (h : T.Answers a a') :
    Attempts (T.mirror q q' places?) T.Paired (T.mirror q q' places?).Thenables Γ (a.guard.begin q)
      (a'.guard.begin q') := by
  cases h with
  | ready v => exact Attempts.pure (.value (.value v))
  | deferred h =>
    refine Attempts.pure (.deferred ?_)
    exact (Attempts.exposed (Attempts.call h.guard)).bind fun _ _ _ _ hr => .pure (outcomes_outcomeOf hr)
  | settling home hops now later =>
    refine (Attempts.ofRun (mirrors_queue home hm)).bind fun Γ₁ _ r r' hr => ?_
    refine (Attempts.ofRun (.newPromise hr fun _ _ _ _ hp => .pure hp)).bind fun Γ₂ h₂ p p' hp => ?_
    by_cases hhops : hops = 0
    · rw [if_pos hhops, if_pos hhops]
      exact (mirrors_settleBy hp Pace.Paired.matched (now hhops)).bind fun Γ₃ h₃ _ _ _ =>
        Attempts.pure (.promise (h₃.promise hp))
    · rw [if_neg hhops, if_neg hhops]
      have hsettle : Attempts (T.mirror q q' places?) T.Final (Fixed fun _ _ => True) Γ₂ _ _ :=
        mirrors_settleBy hp Pace.Final.matched (later hhops)
      have hlast := mirrors_ignore hsettle.exposed
      exact (Attempts.ofRun (mirrors_afterHops (h₂.queue hr) hlast hops)).bind fun Γ₃ h₃ _ _ _ =>
        Attempts.pure (.promise (h₃.promise hp))
  | stuck home =>
    refine (Attempts.ofRun (mirrors_queue home hm)).bind fun Γ₁ _ r r' hr => ?_
    exact (Attempts.ofRun (.newPromise hr fun _ _ _ _ hp => .pure hp)).bind fun Γ₂ _ p p' hp =>
      Attempts.pure (.promise hp)

end Tandem

/-! ## Executions -/

/-- Of what a resolver answers, or of its fault, a promise is made. -/
def Execution.adopted (x : Execution σ) (r : Except Fault (Answer σ)) : Run σ Promise := do
  let answer : Attempt σ (Answer σ) := ExceptT.mk (pure r)
  match ← Attempt.caught (answer >>= fun a => a.guard.begin x.queue) with
  | .ok thenable => Promise.adopt x.queue thenable
  | .error f => Promise.settled x.queue (.error f)

theorem Execution.answered_eq (x : Execution σ) (c : Callback σ (Answer σ)) :
    x.answered c = (Attempt.call c).run.bind x.adopted := rfl

/-- A promise that would be settled at once, in vain: a panic there is one of the resolver. -/
theorem Execution.drifts_adopted (x : Execution σ) {home : Home} {c : Callback σ Json} {p : Panic}
    {app : σ} {w : World σ} (hc : c w.session.app = .error (.panic p) app) :
    Steps.Drifts w (x.adopted (.ok (.settling home 0 c)))
      { w with session := { w.session with app } } (Promise.settled x.queue (.error (.ofPanic p))) := by
  cases home with
  | own =>
    refine .newPromise fun _ => .getWorld ?_
    simp only [hc]
    exact .setWorld .here
  | foreign =>
    refine .newQueue fun _ => .newPromise fun _ => .getWorld ?_
    simp only [hc]
    exact .setWorld .here

/-- Executes the document of a request: a promise of the report, masked as the options say. -/
def Execution.masked (x : Execution σ) (r : Request) : Attempt σ Promise := do
  let p ← x.document r.document
  Attempt.ofRun <| p.map fun
    | .report report => .pure (.ok (.report { report with masking := r.options.masking }))
    | other => .pure (.ok other)

theorem Request.executeMasked_eq (r : Request) (S : Schema σ) (q : QueueId) :
    r.executeMasked S q = Attempt.ofRun (Execution.new S r.context q) >>= fun x => x.masked r :=
  bind_assoc _ _ _

/-- Two executions in tandem, each on a queue of its own and at a place of its own among the executions of its
world. -/
structure Tandem.Executions (T : Tandem σ) where
  context : Context
  queue : QueueId
  queue' : QueueId
  index : Nat
  index' : Nat

namespace Tandem.Executions

open Execution

variable {T : Tandem σ} (X : T.Executions)

def first : Execution σ := ⟨T.first, X.context, X.queue, X.index⟩

def second : Execution σ := ⟨T.second, X.context, X.queue', X.index'⟩

/-- What is compared of the two. -/
abbrev mirror : Mirror Payload (World σ) := T.mirror X.queue X.queue' (some (X.index, X.index'))

variable {X} {Γ : Pairing} {F : Fault → Fault → Prop}

/-! ### What executions meet -/

theorem mirrors_update {change change' : Progress → Progress}
    (h : ∀ p p', T.Records p p' → T.Records (change p) (change' p')) :
    Mirrors X.mirror (Fixed fun _ _ => True) Γ (Run.update X.index change : Run σ Unit)
      (Run.update X.index' change') :=
  .world (fun _ => .getWorld (.setWorld .here)) (fun _ => .getWorld (.setWorld .here))
    fun _ _ hw => ⟨(Worlds.modify hw h).1, (Worlds.modify hw h).2, trivial⟩

theorem mirrors_count (change : Tally → Tally) :
    Mirrors X.mirror (Fixed fun _ _ => True) Γ (X.first.count change) (X.second.count change) :=
  mirrors_update fun _ _ h => ⟨h.failures, h.fatal?, h.fatal?', congrArg change h.tally⟩

theorem mirrors_fail {f f' : Failure} (hf : T.failure f f') (place : Location) :
    Mirrors X.mirror (Fixed fun _ _ => True) Γ (X.first.fail f place) (X.second.fail f' place) :=
  mirrors_update fun _ _ h =>
    ⟨List.rel_append h.failures (.cons (T.failure_located _ hf) .nil), h.fatal?, h.fatal?', h.tally⟩

/-- Using the schema meets no defect that would be kept. -/
theorem mirrors_consult {A : α → β → Prop} {l : Lookup σ α} {l' : Lookup σ β} (h : T.Agrees F A l l') :
    Attempts X.mirror F (Fixed A) Γ (X.first.consult l) (X.second.consult l') := by
  refine (Attempts.consult h).bind ?_
  rintro _ - _ _ (hab | hf)
  · exact Attempts.pure hab
  · exact hf.elim

section

variable (hm : Γ.queue X.queue X.queue')

include hm

theorem mirrors_null : Mirrors X.mirror Pairing.promise Γ X.first.null X.second.null :=
  mirrors_settled hm (.ok (.value .null))

theorem mirrors_refuse (f : Failure) (place : Location) :
    Mirrors X.mirror Pairing.promise Γ (X.first.refuse f place) (X.second.refuse f place) :=
  (mirrors_fail (T.failure_refl f) place).bind fun _ h₁ _ _ _ => mirrors_null (h₁.queue hm)

/-! ### Fields -/

theorem mirrors_adopted {r r' : Except Fault (Answer σ)} (h : ExceptRel T.Faults T.Answers r r') :
    Mirrors X.mirror Pairing.promise Γ (X.first.adopted r) (X.second.adopted r') := by
  cases h with
  | error h => exact mirrors_settled hm (.error h)
  | ok h =>
    refine (Attempts.caught Pace.Paired.faults (mirrors_begin hm h)).bind ?_
    rintro Γ₁ h₁ _ _ (ht | hf)
    · exact mirrors_adopt (h₁.queue hm) ht
    · exact mirrors_settled (h₁.queue hm) (.error hf)

/-- **What a resolver answers.** -/
theorem mirrors_answered {c c' : Callback σ (Answer σ)} (h : T.Resolvers c c') :
    Mirrors X.mirror Pairing.promise Γ (X.first.answered c) (X.second.answered c') := by
  rw [answered_eq, answered_eq]
  refine .of_drifts fun w w' hw => ?_
  have hc := h _ _ hw.sessions
  generalize hr : c w.session.app = r at hc
  generalize hr' : c' w'.session.app = r' at hc
  cases hc with
  | @answer a a' app app' hs ha =>
    have hnext := hw.setSession hs
    exact ⟨_, _, _, _, (Attempts.drifts_call (r := .ok a) hr).bind _,
      (Attempts.drifts_call (r := .ok a') hr').bind _, hnext.1, hnext.2, mirrors_adopted hm (.ok ha)⟩
  | @fault f f' app app' hs hf =>
    have hnext := hw.setSession hs
    exact ⟨_, _, _, _, (Attempts.drifts_call (r := .error f) hr).bind _,
      (Attempts.drifts_call (r := .error f') hr').bind _, hnext.1, hnext.2, mirrors_adopted hm (.error hf)⟩
  | @lapse home c₀ p f' app app₁ app' hp hs hf =>
    have hnext := hw.setSession hs
    have hdrift := (Attempts.drifts_call (r := .ok (.settling home 0 c₀)) hr).bind X.first.adopted
    exact ⟨_, _, _, _, hdrift.trans (X.first.drifts_adopted hp),
      (Attempts.drifts_call (r := .error f') hr').bind _, hnext.1, hnext.2,
      mirrors_settled hm (.error hf)⟩

theorem mirrors_together {ps ps' : List Promise} (hps : List.Forall₂ Γ.promise ps ps')
    (join : List Json → Json) :
    Mirrors X.mirror Pairing.promise Γ (X.first.together ps join) (X.second.together ps' join) := by
  refine (mirrors_gather hm Pace.payloads_bundle ?_).bind fun Γ₁ h₁ all all' hall => ?_
  · rw [List.forall₂_map_left_iff, List.forall₂_map_right_iff]
    exact hps.imp fun _ _ hp => .promise hp
  · refine mirrors_map hall fun Γ₂ _ v v' hv => .pure (.ok ?_)
    unfold Payload.items
    rw [Pace.Payloads.json_eq hv]
    exact .value _

/-- **A field.** -/
theorem mirrors_settleField (place : Location) {c c' : Callback σ (Answer σ)} (hc : T.Resolvers c c')
    {complete complete' : Json → Attempt σ (Thenable Payload (World σ))}
    (h : ∀ Γ', Γ ≤ Γ' → ∀ v, Attempts X.mirror T.Faults X.mirror.Thenables Γ' (complete v) (complete' v)) :
    Mirrors X.mirror Pairing.promise Γ (X.first.settleField place c complete)
      (X.second.settleField place c' complete') := by
  refine (mirrors_answered hm hc).bind fun Γ₁ h₁ source source' hs => ?_
  refine (mirrors_count _).bind fun Γ₂ h₂ _ _ _ => ?_
  refine (mirrors_andThen (h₂.promise hs) fun Γ₃ h₃ v v' hv => ?_).bind fun Γ₃ h₃ done done' hd => ?_
  · rw [Pace.Payloads.json_eq hv]
    exact Attempts.caught id (h Γ₃ (h₁.trans (h₂.trans h₃)) v'.json)
  · refine mirrors_thenOrElse hd (fun Γ₄ _ v v' hv => ?_) (fun Γ₄ _ f f' hf => ?_)
    · exact (mirrors_count _).bind fun _ _ _ _ _ => .pure (.ok hv)
    · exact (mirrors_count _).bind fun _ _ _ _ _ =>
        (mirrors_fail hf place).bind fun _ _ _ _ _ => .pure (.ok (.value _))

theorem mirrors_unknown (site : Site) {e e' : Entity σ} (he : T.Entities e e') (kind : ArtifactKind)
    (name : String) :
    Mirrors X.mirror Pairing.promise Γ (X.first.unknown (site.seen T.onDemand) e kind name)
      (X.second.unknown (site.seen T.onDemand') e' kind name) := by
  unfold unknown
  rw [he.name]
  exact mirrors_refuse hm _ _

omit hm in
theorem mirrors_completeAttribute {a a' : Attribute σ} (ha : T.Attributes a a')
    (hfits : ∀ r, a.type? = some r → r.Fits T.first T.base) (v : Json) :
    Attempts X.mirror T.Faults (Fixed Eq) Γ (X.first.completeAttribute a v)
      (X.second.completeAttribute a' v) := by
  have checked : ∀ Γ w, Attempts X.mirror T.Faults (Fixed Eq) Γ
      (do
        Attempt.call (a.checkRule w)
        return w)
      (do
        Attempt.call (a'.checkRule w)
        return w) := fun Γ w =>
    (Attempts.call (ha.checkRule w)).bind fun _ _ _ _ _ => Attempts.pure rfl
  unfold completeAttribute
  rw [← ha.type?]
  cases ht : a.type? with
  | none => exact checked Γ v
  | some r =>
    obtain ⟨t, hresolve, hserialize⟩ := (hfits r ht).resolve T.plain
    refine (mirrors_consult (agrees_resolve hresolve)).bind ?_
    rintro Γ₁ - _ _ ⟨rfl, rfl⟩
    refine (mirrors_consult (agrees_serialize hserialize v)).bind ?_
    rintro Γ₂ - w _ rfl
    exact checked Γ₂ w

section

variable (site : Site) {e e' : Entity σ} (he : T.Entities e e') (reference : Json)

include he

theorem mirrors_field (hk : T.first.Knows T.types e) (name : String) :
    Mirrors X.mirror Pairing.promise Γ (X.first.field (site.seen T.onDemand) e reference name)
      (X.second.field (site.seen T.onDemand') e' reference name) := by
  unfold field
  rcases rel_cases (he.attribute? name) with ⟨ha, ha'⟩ | ⟨a, a', ha, ha', h, hmem⟩
  · rw [ha, ha']
    exact mirrors_unknown hm site he .field name
  · rw [ha, ha']
    have hresolve := h.resolve reference (site.focus .field a.label)
    rw [h.label] at hresolve
    simp only [h.label]
    refine mirrors_settleField hm _ hresolve fun Γ₁ _ v => ?_
    refine (mirrors_completeAttribute h ((T.sound.settles T.plain hk).attributes a hmem) v).bind ?_
    rintro Γ₂ - w _ rfl
    exact Attempts.pure (.value (.value w))

theorem mirrors_act (supplied : Entries Json) (name : String) :
    Mirrors X.mirror Pairing.promise Γ (X.first.act (site.seen T.onDemand) e reference supplied name)
      (X.second.act (site.seen T.onDemand') e' reference supplied name) := by
  unfold act
  rcases rel_cases (he.act? name) with ⟨ha, ha'⟩ | ⟨a, a', ha, ha', h, -⟩
  · rw [ha, ha']
    exact mirrors_unknown hm site he .act name
  · rw [ha, ha']
    have hrun : T.Resolvers (a.run reference supplied) (a'.run reference supplied) := by
      unfold Act.run
      rw [h.arguments]
      exact h.perform _ _
    exact mirrors_settleField hm _ hrun fun _ _ v => Attempts.pure (.value (.value v))

end

theorem mirrors_completeLinked {complete complete' : Json → Attempt σ Promise}
    (h : ∀ Γ', Γ ≤ Γ' → ∀ v, Attempts X.mirror F Pairing.promise Γ' (complete v) (complete' v)) (v : Json) :
    Attempts X.mirror F X.mirror.Thenables Γ (X.first.completeLinked complete v)
      (X.second.completeLinked complete' v) := by
  have single : ∀ v, Attempts X.mirror F X.mirror.Thenables Γ
      (do return .promise (← complete v)) (do return .promise (← complete' v)) := fun v =>
    (h Γ le_rfl v).bind fun _ _ _ _ hp => Attempts.pure (.promise hp)
  cases v with
  | null => exact Attempts.pure (.value (.value .null))
  | array references =>
    refine (Attempts.mapM Pairing.grows_promise h).bind fun Γ₁ h₁ ps ps' hps => ?_
    exact (Attempts.ofRun (mirrors_together (h₁.queue hm) hps _)).bind fun _ _ _ _ hp =>
      Attempts.pure (.promise hp)
  | bool b => exact single _
  | number n => exact single _
  | string s => exact single _
  | object fields => exact single _

theorem mirrors_link (site : Site) {e e' : Entity σ} (he : T.Entities e e')
    (hk : T.first.Knows T.types e) (reference : Json) (name : String) (nested : Query)
    {complete complete' : Site → Entity σ → Json → Attempt σ Promise}
    (h : ∀ Γ', Γ ≤ Γ' → ∀ (there : Site) target target', T.Entities target target' →
      T.first.Knows T.types target → ∀ v, Attempts X.mirror T.Faults Pairing.promise Γ'
        (complete (there.seen T.onDemand) target v) (complete' (there.seen T.onDemand') target' v)) :
    Attempts X.mirror F Pairing.promise Γ
      (X.first.link (site.seen T.onDemand) e reference name nested complete)
      (X.second.link (site.seen T.onDemand') e' reference name nested complete') := by
  unfold link
  rcases rel_cases (he.link? name) with ⟨hl, hl'⟩ | ⟨l, l', hl, hl', hll, hmem⟩
  · rw [hl, hl']
    exact Attempts.ofRun (mirrors_unknown hm site he .link name)
  · rw [hl, hl']
    refine (Attempts.consult (agrees_follow hk hll hmem e'.name)).bind ?_
    rintro Γ₁ h₁ _ _ (@⟨⟨t, target⟩, ⟨t', target'⟩, ht, hkt⟩ | hf)
    · have htarget : T.Entities target target' := ht
      simp only [← hll.label, ← hll.arguments, ← htarget.name]
      refine Attempts.ofRun (mirrors_settleField (h₁.queue hm) _ (hll.resolve reference
        { site.focus .link l.label with arguments := Argument.applyDefaults l.arguments nested.arguments })
        fun Γ₂ h₂ v => ?_)
      exact mirrors_completeLinked ((h₁.trans h₂).queue hm)
        (fun Γ₃ h₃ => h Γ₃ (h₁.trans (h₂.trans h₃)) (site.descend name target.name nested _) _ _ htarget hkt) v
    · exact hf.elim

end

/-! ### Entities -/

mutual

/-- **The fields of an entity.** -/
theorem mirrors_completeEntity {Γ : Pairing} (hm : Γ.queue X.queue X.queue') (site : Site) {e e' : Entity σ}
    (he : T.Entities e e') (hk : T.first.Knows T.types e) (reference : Json) :
    (q : Query) → {F : Fault → Fault → Prop} → Attempts X.mirror F Pairing.promise Γ
      (X.first.completeEntity (site.seen T.onDemand) e reference q)
      (X.second.completeEntity (site.seen T.onDemand') e' reference q)
  | ⟨_, attributes, act?, arguments, links⟩, _ => by
    rw [completeEntity, completeEntity]
    refine (Attempts.ofRun (Mirrors.mapM Pairing.grows_promise fun Γ' hΓ =>
      mirrors_field (hΓ.queue hm) site he reference hk)).bind fun Γ₁ h₁ as as' has => ?_
    refine (Attempts.ofRun (Mirrors.mapM Pairing.grows_promise fun Γ' hΓ =>
      mirrors_act ((h₁.trans hΓ).queue hm) site he reference arguments)).bind fun Γ₂ h₂ bs bs' hbs => ?_
    have hm₂ := (h₁.trans h₂).queue hm
    refine (mirrors_completeLinks hm₂ site he hk reference links).bind fun Γ₃ h₃ cs cs' hcs => ?_
    refine Attempts.ofRun (mirrors_together (h₃.queue hm₂) ?_ _)
    refine List.rel_append (List.rel_append ?_ ?_) hcs
    · exact has.imp fun _ _ => (h₂.trans h₃).promise
    · exact hbs.imp fun _ _ => h₃.promise

theorem mirrors_completeLinks {Γ : Pairing} (hm : Γ.queue X.queue X.queue') (site : Site) {e e' : Entity σ}
    (he : T.Entities e e') (hk : T.first.Knows T.types e) (reference : Json) :
    (links : List (String × Query)) → {F : Fault → Fault → Prop} →
      Attempts X.mirror F (fun Γ => List.Forall₂ Γ.promise) Γ
        (X.first.completeLinks (site.seen T.onDemand) e reference links)
        (X.second.completeLinks (site.seen T.onDemand') e' reference links)
  | [], _ => by
    rw [completeLinks, completeLinks]
    exact Attempts.pure .nil
  | (name, nested) :: rest, _ => by
    rw [completeLinks, completeLinks]
    refine (mirrors_link hm site he hk reference name nested fun Γ₁ h₁ there target target' ht hkt v =>
      mirrors_completeEntity (h₁.queue hm) there ht hkt v nested).bind fun Γ₁ h₁ p p' hp => ?_
    refine (mirrors_completeLinks (h₁.queue hm) site he hk reference rest).bind fun Γ₂ h₂ ps ps' hps => ?_
    exact Attempts.pure (.cons (h₂.promise hp) hps)

end

/-! ### Queries and documents -/

theorem agrees_root (q : Query) :
    T.Agrees F (Option.Rel fun e e' => T.Entities e e' ∧ T.first.Knows T.types e) (X.first.root q)
      (X.second.root q) := by
  unfold root
  cases q.typeName with
  | none => exact Pace.agrees_pure .none
  | some name =>
    refine (T.agrees_find name).bind ?_
    rintro t? _ ⟨rfl, hholds⟩
    cases t? with
    | none => exact Pace.agrees_pure .none
    | some t =>
      refine Pace.agrees_pure ?_
      rcases rel_cases (T.entity? t) with ⟨he, he'⟩ | ⟨e, e', he, he', h⟩
      · exact (congrArg₂ (Option.Rel _) he he').mpr .none
      · exact (congrArg₂ (Option.Rel _) he he').mpr (.some ⟨h, t, hholds t rfl, he⟩)

section

variable (hm : Γ.queue X.queue X.queue')

include hm

theorem mirrors_queryOn (name : String) (q : Query) {e e' : Entity σ} (he : T.Entities e e')
    (hk : T.first.Knows T.types e) :
    Mirrors X.mirror Pairing.promise Γ (X.first.queryOn name q e) (X.second.queryOn name q e') := by
  have hfetch : T.Resolvers (e.fetch q.arguments X.context) (e'.fetch q.arguments X.context) := by
    unfold Entity.fetch
    rw [he.arguments]
    exact he.resolve _ _
  unfold queryOn
  refine (mirrors_answered hm hfetch).bind fun Γ₁ h₁ p p' hp => ?_
  refine (mirrors_andThen hp fun Γ₂ h₂ v v' hv => ?_).bind fun Γ₂ h₂ r r' hr => ?_
  · have hm₂ := (h₁.trans h₂).queue hm
    simp only [first, second, T.onDemand_eq, T.onDemand'_eq, Pace.Payloads.json_eq hv, ← he.name, ← he.arguments]
    let site : Site := {
      artifact? := none
      entity := e.name
      query := q
      queryName := name
      path := []
      arguments := Argument.applyDefaults e.arguments q.arguments
      context := X.context
      onDemand := T.onDemand }
    refine (Attempts.exposed (mirrors_completeEntity hm₂ site he hk v'.json q)).bind ?_
    rintro Γ₃ h₃ _ _ (hp | hf)
    · exact .pure (.ok (.promise hp))
    · exact .pure (.error hf)
  · exact mirrors_recover hr fun Γ₃ _ f f' hf =>
      (mirrors_fail hf _).bind fun _ _ _ _ _ => .pure (.ok (.value _))

theorem mirrors_query (name : String) (q : Query) :
    Attempts X.mirror F Pairing.promise Γ (X.first.query name q) (X.second.query name q) := by
  refine (Attempts.ofRun (mirrors_count _)).bind fun Γ₁ h₁ _ _ _ => ?_
  refine (Attempts.consult (agrees_root q)).bind ?_
  rintro Γ₂ h₂ _ _ ((⟨he, hk⟩ | _) | hf)
  · exact Attempts.ofRun (mirrors_queryOn ((h₁.trans h₂).queue hm) name q he hk)
  · exact Attempts.ofRun (mirrors_refuse ((h₁.trans h₂).queue hm) _ _)
  · exact hf.elim

omit hm in
theorem mirrors_conclude (names : List String) (before before' : Nat) (values : List Json) :
    Mirrors X.mirror (Fixed X.mirror.Outcomes) Γ (X.first.conclude names before values)
      (X.second.conclude names before' values) := by
  have progress : Mirrors X.mirror (Fixed T.Records) Γ (Run.progress X.index : Run σ Progress)
      (Run.progress X.index') := by
    refine .world (fun _ => .getWorld .here) (fun _ => .getWorld .here) fun w w' hw =>
      ⟨hw, X.mirror.frame_refl w, ?_⟩
    obtain ⟨p, p', hp, hp', hr⟩ := Worlds.records hw _ rfl
    simpa [hp, hp'] using hr
  refine progress.bind fun Γ₁ _ p p' hp => ?_
  simp only [hp.fatal?, hp.fatal?']
  refine .ticks fun n n' => .pure (.ok (.report ⟨rfl, hp.failures, ?_, rfl⟩))
  simp [Tally.work, Tally.addTicks, hp.tally]

/-- **A document.** -/
theorem mirrors_document (d : Document) :
    Attempts X.mirror F Pairing.promise Γ (X.first.document d) (X.second.document d) := by
  refine (Attempts.ofRun (R := fun _ _ _ => True) (.ticks fun _ _ => .pure trivial)).bind
    fun Γ₁ h₁ before before' _ => ?_
  refine (Attempts.mapM Pairing.grows_promise fun Γ' hΓ ⟨name, q⟩ =>
    mirrors_query ((h₁.trans hΓ).queue hm) name q).bind fun Γ₂ h₂ ps ps' hps => ?_
  refine (Attempts.ofRun (mirrors_gather ((h₁.trans h₂).queue hm) Pace.payloads_bundle ?_)).bind
    fun Γ₃ h₃ all all' hall => ?_
  · rw [List.forall₂_map_left_iff, List.forall₂_map_right_iff]
    exact hps.imp fun _ _ hp => .promise hp
  · refine Attempts.ofRun (mirrors_map hall fun Γ₄ _ v v' hv => ?_)
    unfold Payload.items
    rw [Pace.Payloads.json_eq hv]
    exact mirrors_conclude _ _ _ _

/-- **A request that is executed**. -/
theorem mirrors_masked (r : Request) :
    Attempts X.mirror F Pairing.promise Γ (X.first.masked r) (X.second.masked r) := by
  refine (mirrors_document hm r.document).bind fun Γ₁ _ p p' hp => ?_
  refine Attempts.ofRun (mirrors_map hp ?_)
  rintro Γ₂ - _ _ (v | h)
  · exact .pure (.ok (.value v))
  · exact .pure (.ok (.report ⟨h.data, h.failures, h.tally, rfl⟩))

end

end Tandem.Executions

end EntityQuery
