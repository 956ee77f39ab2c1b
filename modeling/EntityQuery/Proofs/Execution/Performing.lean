import EntityQuery.Proofs.Execution.Tandem
import EntityQuery.Proofs.Execution.Waiting
import EntityQuery.Proofs.Promise.Weaving
import EntityQuery.Proofs.Validation.Tandem

/-!
# Requests in tandem

A request is validated and executed on a schema that was built without a loader, and on one that stands in for
it. Both come to the same, at the latest when their reports are waited for.

* `Tandem.Begun`: what validating a request and making its execution leave of the worlds.
* **`Tandem.exists_start`**: a request starts alike on both schemas. `Tandem.couples_start`: on two machines.
* **`Tandem.couples_perform`**: performing it comes to the same on both.
-/

namespace EntityQuery

open Machine

variable {σ : Type}

namespace Pace

variable (P : Pace σ)

/-- Faults, of which one stands for the other, for which there is no report. -/
inductive EngineFaults : EngineFault → EngineFault → Prop
  | stalled : EngineFaults .stalled .stalled
  | rejected {f f' : Failure} (h : P.failure f f') :
    EngineFaults (.ofRejection f) (.ofRejection f')

/-- Results of waiting for reports, of which one stands for the other. -/
abbrev Results : Except EngineFault Report → Except EngineFault Report → Prop :=
  ExceptRel P.EngineFaults P.Reports

end Pace

/-- A report, but for the tasks of the queue that it counts. -/
def Report.timeless (r : Report) : Report := { r with tally := r.tally.work }

/-- Where failures stand for themselves only, results are the same but for the tasks that are counted. -/
theorem Pace.timeless_eq {P : Pace σ} (hP : P.failure = Eq) {y y' : Except EngineFault Report}
    (h : P.Results y y') : y.map Report.timeless = y'.map Report.timeless := by
  cases h with
  | @ok r r' h =>
    obtain ⟨data, failures, tally, masking⟩ := r
    obtain ⟨data', failures', tally', masking'⟩ := r'
    have hdata : data = data' := h.data
    have hfailures : failures = failures' := List.forall₂_eq_eq_eq ▸ hP ▸ h.failures
    have htally : tally.work = tally'.work := h.tally
    have hmasking : masking = masking' := h.masking
    simp only [Except.map, Report.timeless, hdata, hfailures, htally, hmasking]
  | error h =>
    cases h with
    | stalled => rfl
    | rejected h =>
      rw [hP] at h
      rw [h]

/-- Validating a request ends at a fault, and so does the request. -/
def Request.Faults (r : Request) (schema : Schema σ) (base : Session σ) (f f' : Fault) : Prop :=
  f = f' ∧ r.options.skipValidation = false ∧
    ∃ s s', base.Alike s ∧ r.document.validate { schema } s = .error (.fault f) s'

namespace Tandem

variable (T : Tandem σ)

/-- What is left of two worlds once a request has been validated, and its execution made if it is not refused. -/
structure Begun (places? : Option (Nat × Nat)) (w w' v v' : World σ) : Prop where
  worlds : T.Worlds places? v v'
  executions : places? = none ∧ v.executions = w.executions ∨
    places? = some (w.executions.size, w'.executions.size) ∧ v.executions = w.executions.push {}

variable {T} {w w' : World σ}

/-- A request that is not refused. -/
theorem exists_executeMasked (hs : T.sessions w.session w'.session) (r : Request) (q q' : QueueId) :
    ∃ v v' t t', Steps.Drifts w (r.executeMasked T.first q).run v t ∧
      Steps.Drifts w' (r.executeMasked T.second q').run v' t' ∧
      T.Begun (some (w.executions.size, w'.executions.size)) w w' v v' ∧
      ∀ {F Γ}, Γ.queue q q' →
        Mirrors (T.mirror q q' (some (w.executions.size, w'.executions.size)))
          (fun Γ => ExceptRel F Γ.promise) Γ t t' := by
  let X : T.Executions := ⟨r.context, q, q', w.executions.size, w'.executions.size⟩
  rw [r.executeMasked_eq, r.executeMasked_eq]
  refine ⟨{ w with executions := w.executions.push {} }, { w' with executions := w'.executions.push {} },
    (X.first.masked r).run, (X.second.masked r).run, .getWorld (.setWorld .here),
    .getWorld (.setWorld .here), ⟨⟨hs, fun k hk => ?_⟩, .inr ⟨rfl, rfl⟩⟩,
    fun hm => Executions.mirrors_masked (X := X) hm r⟩
  obtain rfl := Option.mem_some_iff.mp hk
  exact ⟨{}, {}, by simp, by simp, Pace.records_new⟩

/-- **A request starts alike**: it is validated, and if it is not refused an execution is made; from there on the
steps mirror each other. -/
theorem exists_start (hs : T.sessions w.session w'.session) (r : Request) (q q' : QueueId) :
    ∃ places? v v' t t', Steps.Drifts w (r.start T.first q).run v t ∧
      Steps.Drifts w' (r.start T.second q').run v' t' ∧ T.Begun places? w w' v v' ∧
      ∀ {Γ}, Γ.queue q q' → Mirrors (T.mirror q q' places?)
        (fun Γ => ExceptRel (r.Faults T.first T.base) Γ.promise) Γ t t' := by
  cases hskip : r.options.skipValidation with
  | true =>
    simp only [Request.start, hskip, if_true, pure_bind]
    obtain ⟨v, v', t, t', h, h', hbegun, hm⟩ := exists_executeMasked hs r q q'
    exact ⟨_, v, v', t, t', h, h', hbegun, hm⟩
  | false =>
    simp only [Request.start, hskip, Bool.false_eq_true, if_false]
    obtain ⟨x, x', u, u', hx, hx', hu, hr⟩ := T.agrees_validate Rule.all r.document _ _ hs
    have hdrift := Attempts.drifts_consult hx
    have hdrift' := Attempts.drifts_consult hx'
    have refused : T.Begun none w w' { w with session := u } { w' with session := u' } :=
      ⟨⟨hu, fun _ hk => by cases hk⟩, .inl ⟨rfl, rfl⟩⟩
    cases hr with
    | @error f _ he =>
      subst he
      exact ⟨none, _, _, _, _, hdrift.bind _, hdrift'.bind _, refused,
        fun _ => .pure (.error ⟨rfl, hskip, _, _, T.alike hs, hx⟩)⟩
    | @ok failures _ he =>
      subst he
      cases failures with
      | nil =>
        have hworlds : T.sessions (World.session { w with session := u })
            (World.session { w' with session := u' }) := hu
        obtain ⟨v, v', t, t', h, h', hbegun, hm⟩ := exists_executeMasked hworlds r q q'
        exact ⟨_, v, v', t, t', (hdrift.bind _).trans h, (hdrift'.bind _).trans h',
          ⟨hbegun.worlds, hbegun.executions⟩, hm⟩
      | cons f rest =>
        refine ⟨none, _, _, _, _, hdrift.bind _, hdrift'.bind _, refused, fun hm => ?_⟩
        refine Attempts.ofRun (Promise.mirrors_settled hm (.ok (.report ⟨rfl, ?_, rfl, rfl⟩)))
        exact List.forall₂_same.mpr fun f _ => T.failure_refl f

/-- The same on two machines; what the validation leaves is litter. -/
theorem couples_start {m m' : Machine Payload (World σ)} (hs : T.sessions m.world.session m'.world.session)
    (r : Request) {q q' : QueueId} (hq : q.index < m.queues.size) (hq' : q'.index < m'.queues.size) :
    ∃ places? m₁ m₁', m.Littered m₁ ∧ m'.Littered m₁' ∧
      T.Begun places? m.world m'.world m₁.world m₁'.world ∧
      Work.Couples T.halts (r.start T.first q).run (r.start T.second q').run m m' fun a m₂ b m₂' =>
        ∃ Γ₂, (T.mirror q q' places?).After (.main q q') m₁ m₁' Γ₂ m₂ m₂' ∧
          ExceptRel (r.Faults T.first T.base) Γ₂.promise a b := by
  obtain ⟨places?, v, v', t, t', h, h', hbegun, hm⟩ := exists_start hs r q q'
  obtain ⟨m₁, hlit, rfl, hgo⟩ := h.exists_littered rfl
  obtain ⟨m₁', hlit', rfl, hgo'⟩ := h'.exists_littered rfl
  refine ⟨places?, m₁, m₁', hlit, hlit', hbegun, ?_⟩
  have hsim : (T.mirror q q' places?).Sim (.main q q') m₁ m₁' :=
    Mirror.sim_main (hq.trans_le hlit.queues_le) (hq'.trans_le hlit'.queues_le) hbegun.worlds
  exact ((hm hsim.main).ends_after hsim).map hgo hgo'

end Tandem

/-! ## Waiting for reports -/

/-- The report that was waited for. -/
def Report.received : Except WaitFault Payload → Except EngineFault Report
  | .ok (.report r) => .ok r
  | .ok (.value _) => .error .stalled
  | .error fault => .error (.ofWait fault)

theorem Report.wait_eq (q : QueueId) (p : Promise) :
    (Report.wait q p : Run σ (Except EngineFault Report)) =
      (p.wait q).bind fun x => .pure (Report.received x) := by
  refine congrArg (Steps.bind (p.wait q)) (funext fun x => ?_)
  rcases x with _ | _ | _ <;> rfl

/-- What is waited for, once a request has started. -/
def Report.awaited (q : QueueId) : Except Fault Promise → Run σ (Except Fault (Except EngineFault Report)) :=
  ExceptT.bindCont fun p => Attempt.ofRun (Report.wait q p)

theorem Request.ends_perform {lax : Prop} (r : Request) (schema : Schema σ)
    {m : Machine Payload (World σ)}
    {P : Except Fault (Except EngineFault Report) → Machine Payload (World σ) → Prop}
    (h : Work.Ends lax (r.start schema m.newQueue.1).run m.newQueue.2 fun a n =>
      Work.Ends lax (Report.awaited m.newQueue.1 a) n P) : Work.Ends lax (r.perform schema).run m P :=
  Work.EndsBy.attempt_bind (Work.EndsBy.ofRun (Work.ends_newQueue.mpr (Work.ends_pure (Work.EndsBy.bind h))))

theorem Request.couples_perform {halts : Prop} {r r' : Request} {schema schema' : Schema σ}
    {m m' : Machine Payload (World σ)}
    {R : Except Fault (Except EngineFault Report) → Machine Payload (World σ) →
      Except Fault (Except EngineFault Report) → Machine Payload (World σ) → Prop}
    (h : Work.Couples halts (r.start schema m.newQueue.1).run (r'.start schema' m'.newQueue.1).run
      m.newQueue.2 m'.newQueue.2 fun a n b n' =>
        Work.Couples halts (Report.awaited m.newQueue.1 a) (Report.awaited m'.newQueue.1 b) n n' R) :
    Work.Couples halts (r.perform schema).run (r'.perform schema').run m m' R :=
  Couples.bind (t := id) (u := id) h (r.ends_perform schema) (r'.ends_perform schema')

namespace Tandem

variable {T : Tandem σ} {q q' : QueueId} {places? : Option (Nat × Nat)}

theorem results_received {x x' : Except WaitFault Payload}
    (h : ExceptRel (T.mirror q q' places?).WaitFaults T.Payloads x x') :
    T.Results (Report.received x) (Report.received x') := by
  cases h with
  | ok h =>
    cases h with
    | value v => exact .error .stalled
    | report h => exact .ok h
  | error h =>
    cases h with
    | rejected h => exact .error (.rejected h)
    | stalled => exact .error .stalled

/-- Waiting for reports that are under way, on queues with nothing else on them. -/
theorem couples_wait {m m' : Machine Payload (World σ)} {Γ : Pairing}
    (hm : (T.mirror q q' places?).Sim Γ m m')
    (htasks : List.Forall₂ ((T.mirror q q' places?).Jobs Γ) (m.tasks q) (m'.tasks q'))
    {p p' : Promise} (hp : Γ.promise p p') :
    Work.Couples T.halts (Report.wait q p) (Report.wait q' p') m m' fun y m₂ y' m₂' =>
      T.Results y y' ∧ T.sessions m₂.world.session m₂'.world.session := by
  rw [Report.wait_eq, Report.wait_eq]
  refine Work.Couples.bind (Promise.couples_wait (Couples.mono (hm.ends_drain_main htasks hp) ?_))
  rintro - m₂ - m₂' ⟨Γ₂, hle, h₂⟩
  refine Work.couples_pure ⟨?_, h₂.world.sessions⟩
  exact results_received (Mirror.verdict_of_outcome (h₂.promise (hle.promise hp)).outcome)

/-- **Performing a request comes to the same.** -/
theorem couples_perform {m m' : Machine Payload (World σ)}
    (hs : T.sessions m.world.session m'.world.session) (r : Request) :
    Work.Couples T.halts (r.perform T.first).run (r.perform T.second).run m m' fun y m₂ y' m₂' =>
      ExceptRel (r.Faults T.first T.base) T.Results y y' ∧
        T.sessions m₂.world.session m₂'.world.session := by
  have hq : ∀ n : Machine Payload (World σ), n.newQueue.1.index < n.newQueue.2.queues.size := fun n => by
    simp [newQueue]
  have hempty : ∀ n : Machine Payload (World σ), n.newQueue.2.tasks n.newQueue.1 = [] := fun n => by
    rw [tasks_newQueue]
    simp [tasks, queue, newQueue]
  have hnew : T.sessions m.newQueue.2.world.session m'.newQueue.2.world.session := hs
  obtain ⟨places?, m₁, m₁', hlit, hlit', -, hstart⟩ := couples_start hnew r (hq m) (hq m')
  refine Request.couples_perform (Couples.mono hstart ?_)
  rintro _ m₂ _ m₂' ⟨Γ₂, hafter, hp | hf⟩
  · obtain ⟨ts, ts', hts, hts', hjobs⟩ := hafter.main
    have htasks : m₂.tasks m.newQueue.1 = ts := by
      refine hts.trans ?_
      rw [hlit.tasks]
      exact congrArg (· ++ ts) (hempty m)
    have htasks' : m₂'.tasks m'.newQueue.1 = ts' := by
      refine hts'.trans ?_
      rw [hlit'.tasks]
      exact congrArg (· ++ ts') (hempty m')
    have hwait := couples_wait hafter.sim (htasks.symm ▸ htasks'.symm ▸ hjobs) hp
    exact Work.Couples.bind (Couples.mono hwait fun _ _ _ _ h => Work.couples_pure ⟨.ok h.1, h.2⟩)
  · exact Work.couples_pure ⟨.error hf, hafter.sim.world.sessions⟩

end Tandem

end EntityQuery
