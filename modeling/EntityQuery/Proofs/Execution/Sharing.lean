import EntityQuery.Proofs.Execution.Evaluation
import EntityQuery.Proofs.Execution.Performing
import EntityQuery.Proofs.Execution.Purity

/-!
# Requests that share a queue

Requests are started on one queue, and their reports are waited for, in whatever order; waiting for one of them
moves the others on as well. Beside each request stands a run of it alone, on a machine with a queue of its own.
On a schema with pure callbacks, whose tasks do not panic, each report is the one that the request has alone.

* `Turn`, `Turn.run`: what is done on the shared queue, one thing after another.
* `Tandem.beside`: a schema with pure callbacks beside itself.
* `Lane`, `Sharing`: the requests that have been started, each beside its run alone.
* `Sharing.ends_start`, **`Sharing.ends_awaited`**: what one turn preserves. `Sharing.ends_run`: a whole run.
* **`shared_reports_are_own`**: the reports are those of the requests alone.
-/

namespace EntityQuery

open Machine Session

variable {σ α : Type}

/-! ## Turns on a shared queue -/

/-- A request is started, or the promise of the one that was started as the `i`-th is waited for. -/
inductive Turn
  | start (r : Request)
  | wait (i : Nat)

namespace Turn

/-- Takes turns on a queue, where some requests have been started before, and gives what has been waited for, the
oldest first. -/
def run (schema : Schema σ) (q : QueueId) (begun : List (Except Fault Promise)) :
    List Turn → Run σ (List (Except Fault (Except EngineFault Report)))
  | [] => .pure []
  | .start r :: rest => (r.start schema q).run.bind fun a => run schema q (begun ++ [a]) rest
  | .wait i :: rest =>
    match begun[i]? with
    | none => run schema q begun rest
    | some a => (Report.awaited q a).bind fun y => (run schema q begun rest).bind fun ys => .pure (y :: ys)

/-- The requests that are waited for, in order, where some have been started before. -/
def due (requests : List Request) : List Turn → List Request
  | [] => []
  | .start r :: rest => due (requests ++ [r]) rest
  | .wait i :: rest => requests[i]?.toList ++ due requests rest

end Turn

/-! ## A schema beside itself -/

theorem Answer.Regular.timely {a : Answer σ} (h : a.Regular) : a.Timely := by
  cases a with
  | settling home hops finish => exact h
  | _ => trivial

/-- Where the application has one state only, all callbacks are pure. -/
theorem Schema.callbacks_pure [Subsingleton σ] (schema : Schema σ) : schema.Callbacks Callback.Pure where
  resolver c _ := by
    refine ⟨Callback.pure_of_subsingleton c, fun a _ => ?_⟩
    cases a with
    | deferred compute => exact Callback.pure_of_subsingleton compute
    | settling home hops finish => exact Callback.pure_of_subsingleton finish
    | _ => trivial
  rule _ _ _ _ _ _ := Callback.pure_of_subsingleton _
  serialize _ _ _ _ := Callback.pure_of_subsingleton _
  parse _ _ _ _ := Callback.pure_of_subsingleton _

namespace Pace

variable (schema : Schema σ) (s : Session σ)

/-- Sessions that are both like a given one. -/
def beside : Pace σ :=
  .strict schema.onDemand schema.onDemand (fun a b => s.Alike a ∧ s.Alike b) False fun t message h =>
    ⟨h.1.trans (alike_warn _ t message), h.2.trans (alike_warn _ t message)⟩

variable {schema s}

/-- A pure callback comes to the same in any two states. -/
theorem calls_of_pure {c : Callback σ α} (hc : c.Pure) : (beside schema s).Calls Eq Eq c c := by
  have ends : ∀ app, ∃ app', c app = Callback.result (Callback.value c app) app' := fun app => by
    unfold Callback.value
    cases h : c app with
    | ok a app' => exact ⟨app', rfl⟩
    | error f app' => exact ⟨app', rfl⟩
  rintro a b ⟨ha, hb⟩
  obtain ⟨app, happ⟩ := ends a.app
  obtain ⟨app', happ'⟩ := ends b.app
  refine ⟨_, _, app, app', happ, happ', ⟨ha.trans (alike_setApp a app), hb.trans (alike_setApp b app')⟩, ?_⟩
  rw [hc.eq_value (c.gives_value b.app) a.app]
  cases Callback.value c a.app with
  | ok v => exact .ok rfl
  | error f => exact .error rfl

end Pace

/-- A schema beside itself, in sessions that are like the one that it was built in. -/
def Tandem.beside {schema : Schema σ} (hl : schema.loader? = none) {types : Entries NamedType} {s : Session σ}
    (hsound : schema.Sound types s) (hfinds : ∀ name, schema.Finds types s name)
    (hself : ∀ t, (Pace.beside schema s).Definitions (schema.definition t) (schema.definition t)) :
    Tandem σ :=
  .ofEager (.beside schema s) (.refl schema) hl hsound hfinds ⟨rfl, rfl⟩ id hself

/-- Both sessions are like the one that the first schema was built in, and no task panics. -/
structure Tandem.Even (T : Tandem σ) : Prop where
  calm : ¬T.halts
  sessions : ∀ {s s'}, T.sessions s s' ↔ T.base.Alike s ∧ T.base.Alike s'

/-! ## Requests that have been started -/

/-- A request that has been started on a shared queue, beside a run of it alone on another machine, which has
taken some tasks since it was started there. -/
def Lane (T : Tandem σ) (q : QueueId) (n : Machine Payload (World σ)) (r : Request)
    (a : Except Fault Promise) (L : Mirror Payload (World σ)) (Γ : Pairing)
    (n₂ : Machine Payload (World σ)) : Prop :=
  ∃ places? b n₁, L = T.mirror q n.newQueue.1 places? ∧
    Work.Ends False (r.start T.second n.newQueue.1).run n.newQueue.2 (fun c n' => c = b ∧ n' = n₁) ∧
    Ran n.newQueue.1 n₁ n₂ ∧ ExceptRel (r.Faults T.first T.base) Γ.promise a b

/-- Requests that have been started on a shared queue, each in its lane. -/
structure Lanes (T : Tandem σ) (n : Machine Payload (World σ)) (requests : List Request)
    (begun : List (Except Fault Promise)) (loom : Loom Nat Payload (World σ)) (Γ : Nat → Pairing)
    (m : Machine Payload (World σ)) (m' : Nat → Machine Payload (World σ))
    (owned : List (Nat × Job Payload (World σ))) : Prop where
  woven : Woven loom Γ m m' owned
  length : requests.length = begun.length
  mem_here : ∀ {i}, i ∈ loom.here ↔ i < begun.length
  lane : ∀ {i r a}, requests[i]? = some r → begun[i]? = some a →
    Lane T loom.queue n r a (loom.mirror i) (Γ i) (m' i)

/-- What is known of a shared queue between two turns. -/
structure Sharing (T : Tandem σ) (q : QueueId) (n : Machine Payload (World σ)) (requests : List Request)
    (begun : List (Except Fault Promise)) (m : Machine Payload (World σ)) : Prop where
  alike : T.base.Alike m.world.session
  lt : q.index < m.queues.size
  lanes : ∃ loom Γ m' owned, Lanes T n requests begun loom Γ m m' owned ∧ loom.queue = q

section

variable {T : Tandem σ} {q : QueueId} {m n : Machine Payload (World σ)} {requests : List Request}
  {begun : List (Except Fault Promise)}

/-- Nothing has been started yet. -/
theorem sharing_nil (hm : T.base.Alike m.world.session) {ticks : Nat}
    (hq : m.queues[q.index]? = some ⟨[], ticks⟩) : Sharing T q n [] [] m where
  alike := hm
  lt := (Array.getElem?_eq_some_iff.mp hq).1
  lanes := by
    let loom : Loom Nat Payload (World σ) := ⟨q, ∅, fun _ => T.mirror q q none⟩
    have hempty : m.tasks q = [] := by simp [tasks, queue, hq]
    exact ⟨loom, fun _ => .main q q, fun _ => m, [],
      ⟨.start rfl hempty, rfl, by simp [loom], fun h => by simp at h⟩, rfl⟩

variable {loom : Loom Nat Payload (World σ)} {Γ : Nat → Pairing} {m' : Nat → Machine Payload (World σ)}
  {owned : List (Nat × Job Payload (World σ))}

/-- What a lane owns of the executions is there. -/
theorem Lanes.exists_places (h : Lanes T n requests begun loom Γ m m' owned) {j : Nat}
    (hj : j ∈ loom.here) : ∃ places?, loom.mirror j = T.mirror loom.queue n.newQueue.1 places? ∧
      T.Worlds places? m.world (m' j).world ∧ ∀ k ∈ places?, k.1 < m.world.executions.size := by
  have hlt := h.mem_here.mp hj
  obtain ⟨places?, -, -, hL, -⟩ := h.lane (List.getElem?_eq_getElem (h.length.trans_gt hlt))
    (List.getElem?_eq_getElem hlt)
  have hworld := (h.woven.sim j hj).world
  rw [hL] at hworld
  refine ⟨places?, hL, hworld, fun k hk => ?_⟩
  obtain ⟨p, -, hp, -⟩ := hworld.records k hk
  exact (Array.getElem?_eq_some_iff.mp hp).1

/-- All lanes move on. -/
theorem Lanes.advance (h : Lanes T n requests begun loom Γ m m' owned) {Γ₂ : Nat → Pairing}
    {m₂ : Machine Payload (World σ)} {m₂' : Nat → Machine Payload (World σ)}
    {owned₂ : List (Nat × Job Payload (World σ))} (hw : Woven loom Γ₂ m₂ m₂' owned₂)
    (hon : ∀ i ∈ loom.here, Γ i ≤ Γ₂ i ∧ Ran (loom.mirror i).queue' (m' i) (m₂' i)) :
    Lanes T n requests begun loom Γ₂ m₂ m₂' owned₂ where
  woven := hw
  length := h.length
  mem_here := h.mem_here
  lane {i r a} hr ha := by
    obtain ⟨hle, hran⟩ := hon i (h.mem_here.mpr (List.getElem?_eq_some_iff.mp ha).1)
    obtain ⟨places?, b, n₁, hL, hstart, hran₁, hab⟩ := h.lane hr ha
    rw [hL] at hran
    refine ⟨places?, b, n₁, hL, hstart, hran₁.trans hran, ?_⟩
    cases hab with
    | ok hp => exact .ok (hle.promise hp)
    | error hf => exact .error hf

variable (hT : T.Even)

include hT

/-- An execution leaves the world of another one as it is. -/
theorem Tandem.Worlds.spared {places? others? : Option (Nat × Nat)} {w v w' : World σ}
    (h : T.Worlds places? w w') (hf : T.Frame others? w v)
    (hne : ∀ k ∈ places?, ∀ l ∈ others?, l.1 ≠ k.1) : T.Worlds places? v w' := by
  obtain ⟨hw, hw'⟩ := hT.sessions.mp h.sessions
  refine ⟨hT.sessions.mpr ⟨hf.session hw, hw'⟩, fun k hk => ?_⟩
  rw [hf.others k.1 (hne k hk)]
  exact h.records k hk

/-- Validating a request and making its execution leave the world of another one as it is. -/
theorem Tandem.Worlds.outlast {places? others? : Option (Nat × Nat)} {w w' u v v' : World σ}
    (h : T.Worlds others? w u) (hbegun : T.Begun places? w w' v v')
    (hlt : ∀ k ∈ others?, k.1 < w.executions.size) : T.Worlds others? v u := by
  refine ⟨hT.sessions.mpr ⟨(hT.sessions.mp hbegun.worlds.sessions).1, (hT.sessions.mp h.sessions).2⟩,
    fun k hk => ?_⟩
  have hkept : v.executions[k.1]? = w.executions[k.1]? := by
    rcases hbegun.executions with ⟨-, he⟩ | ⟨-, he⟩
    · rw [he]
    · rw [he, Array.getElem?_push, if_neg (hlt k hk).ne]
  rw [hkept]
  exact h.records k hk

/-- One more request opens a lane. -/
theorem Lanes.enter (h : Lanes T n requests begun loom Γ m m' owned) {r : Request}
    (hm : loom.queue.index < m.queues.size) {places? : Option (Nat × Nat)} {w' : World σ}
    {m₁ n₁ m₂ n₂ : Machine Payload (World σ)} (hlit : m.Littered m₁) (hlit' : n.newQueue.2.Littered n₁)
    (hbegun : T.Begun places? m.world w' m₁.world n₁.world) {a b : Except Fault Promise} {Γ₂ : Pairing}
    (hafter : (T.mirror loom.queue n.newQueue.1 places?).After (.main loom.queue n.newQueue.1) m₁ n₁ Γ₂ m₂ n₂)
    (hstart : Work.Ends False (r.start T.second n.newQueue.1).run n.newQueue.2 fun c n' => c = b ∧ n' = n₂)
    (hab : ExceptRel (r.Faults T.first T.base) Γ₂.promise a b) :
    ∃ loom₂ Γ₂ m₂' owned₂, Lanes T n (requests ++ [r]) (begun ++ [a]) loom₂ Γ₂ m₂ m₂' owned₂ ∧
      loom₂.queue = loom.queue := by
  have hlt : n.newQueue.1.index < n.newQueue.2.queues.size := by simp [newQueue]
  have hempty : n.newQueue.2.tasks n.newQueue.1 = [] := by
    rw [tasks_newQueue]
    simp [tasks, queue, newQueue]
  -- the execution of the request, if it has one, is the last one
  have hlast : ∀ k ∈ places?, k.1 = m.world.executions.size := by
    intro k hk
    rcases hbegun.executions with ⟨rfl, -⟩ | ⟨rfl, -⟩
    · cases hk
    · exact congrArg Prod.fst (Option.mem_some_iff.mp hk).symm
  have hw := h.woven.litter hlit fun j hj => by
    obtain ⟨others?, hL, hworld, hothers⟩ := h.exists_places hj
    rw [hL]
    exact hworld.outlast hT hbegun hothers
  obtain ⟨owned₂, hw₂⟩ := hw.enter (i := begun.length) (fun hi => (h.mem_here.mp hi).ne rfl) rfl hT.calm
    (hm.trans_le hlit.queues_le) (hlt.trans_le hlit'.queues_le) ((hlit'.tasks _).trans hempty) hbegun.worlds
    (fun j hj w w₂ w' hf hworld => by
      obtain ⟨others?, hL, -, hothers⟩ := h.exists_places hj
      rw [hL] at hf
      exact hworld.spared hT hf fun k hk l hl => (hlast k hk).symm ▸ (hothers l hl).ne)
    (fun j hj w w₂ w' hf hworld => by
      obtain ⟨others?, hL, -, hothers⟩ := h.exists_places hj
      rw [hL] at hworld ⊢
      exact hworld.spared hT hf fun k hk l hl => (hlast l hl).symm ▸ (hothers k hk).ne')
    hafter
  refine ⟨_, _, _, owned₂, ⟨hw₂, by simp [h.length], ?_, ?_⟩, rfl⟩
  · intro j
    simp only [Loom.join, Set.mem_insert_iff, h.mem_here, List.length_append, List.length_singleton]
    omega
  · intro j r' a' hr ha
    have hle : j < begun.length + 1 := by simpa using (List.getElem?_eq_some_iff.mp ha).1
    rcases Nat.lt_succ_iff_lt_or_eq.mp hle with hj | rfl
    · rw [List.getElem?_append_left (h.length.trans_gt hj)] at hr
      rw [List.getElem?_append_left hj] at ha
      simpa [Loom.join, hj.ne] using h.lane hr ha
    · obtain rfl : a = a' := by simpa using ha
      obtain rfl : r = r' := by simpa [← h.length] using hr
      have hlane : Lane T loom.queue n r a (T.mirror loom.queue n.newQueue.1 places?) Γ₂ n₂ :=
        ⟨places?, b, n₂, rfl, hstart, .refl n₂, hab⟩
      simpa [Loom.join] using hlane

/-- **Starting a request** opens a lane for it. -/
theorem Sharing.ends_start (h : Sharing T q n requests begun m) (hn : T.base.Alike n.world.session)
    (r : Request) : Work.Ends False (r.start T.first q).run m fun a m₂ =>
      Sharing T q n (requests ++ [r]) (begun ++ [a]) m₂ := by
  obtain ⟨loom, Γ, m', owned, hlanes, rfl⟩ := h.lanes
  have hlt : n.newQueue.1.index < n.newQueue.2.queues.size := by simp [newQueue]
  have hsessions : T.sessions m.world.session n.newQueue.2.world.session := hT.sessions.mpr ⟨h.alike, hn⟩
  obtain ⟨places?, m₁, n₁, hlit, hlit', hbegun, hstart⟩ := Tandem.couples_start hsessions r h.lt hlt
  refine (hstart.ends hT.calm).mono fun a m₂ hright => ?_
  obtain ⟨N, ⟨b, n₂, hrun, Γ₂, hafter, hab⟩ | ⟨hf, -⟩⟩ := hright
  · exact ⟨(hT.sessions.mp hafter.sim.world.sessions).1, (hafter.sim.queue hafter.sim.main).lt,
      hlanes.enter hT h.lt hlit hlit' hbegun hafter ⟨N, .inl ⟨b, n₂, hrun, rfl, rfl⟩⟩ hab⟩
  · exact hf.elim

/-- **Waiting for a report** moves all lanes on, and gives what the run alone gives. -/
theorem Sharing.ends_awaited (h : Sharing T q n requests begun m) {i : Nat} {r : Request}
    {a : Except Fault Promise} (hr : requests[i]? = some r) (ha : begun[i]? = some a) :
    Work.Ends False (Report.awaited q a) m fun y m₂ => Sharing T q n requests begun m₂ ∧
      Work.Ends False (r.perform T.second).run n fun y' _ =>
        ExceptRel (r.Faults T.first T.base) T.Results y y' := by
  obtain ⟨loom, Γ, m', owned, hlanes, rfl⟩ := h.lanes
  have hi : i ∈ loom.here := hlanes.mem_here.mpr (List.getElem?_eq_some_iff.mp ha).1
  obtain ⟨places?, b, n₁, hL, hstart, hran, hab⟩ := hlanes.lane hr ha
  -- the request alone begins as its lane did; how far the lane has come since is part of `Ran`
  have alone : ∀ {P}, Work.Ends False (Report.awaited n.newQueue.1 b) n₁ P →
      Work.Ends False (r.perform T.second).run n P := fun hP =>
    r.ends_perform T.second (hstart.mono fun _ _ he => he.1 ▸ he.2 ▸ hP)
  cases hab with
  | error hf => exact Work.ends_pure ⟨h, alone (Work.ends_pure (.error hf))⟩
  | @ok p p' hp =>
    refine Work.EndsBy.bind ?_
    rw [Report.wait_eq]
    refine Work.EndsBy.bind ((hlanes.woven.ends_wait hi hp).mono fun x m₂ hx => ?_)
    obtain ⟨⟨Γ₂, m₂', owned₂, hw₂, hon⟩, hown⟩ := hx
    rw [hL] at hown
    refine Work.ends_pure (Work.ends_pure ⟨?_, alone (Work.EndsBy.bind ?_)⟩)
    · have hsim := hw₂.sim i hi
      rw [hL] at hsim
      exact ⟨(hT.sessions.mp hsim.world.sessions).1, (hsim.queue hsim.main).lt,
        loom, Γ₂, m₂', owned₂, hlanes.advance hw₂ hon, rfl⟩
    · rw [Report.wait_eq]
      exact Work.EndsBy.bind ((hown n₁ hran).mono fun x' _ hx' =>
        Work.ends_pure (Work.ends_pure (.ok (Tandem.results_received hx'))))

/-- **A whole run** gives what the runs alone give. -/
theorem Sharing.ends_run (h : Sharing T q n requests begun m) (hn : T.base.Alike n.world.session)
    (turns : List Turn) : Work.Ends False (Turn.run T.first q begun turns) m fun ys _ =>
      List.Forall₂ (fun r y => Work.Ends False (r.perform T.second).run n fun y' _ =>
        ExceptRel (r.Faults T.first T.base) T.Results y y') (Turn.due requests turns) ys := by
  induction turns generalizing requests begun m with
  | nil => exact Work.ends_pure .nil
  | cons turn rest ih =>
    cases turn with
    | start r => exact Work.EndsBy.bind ((h.ends_start hT hn r).mono fun a m₂ h₂ => ih h₂)
    | wait i =>
      obtain ⟨loom, Γ, m', owned, hlanes, -⟩ := h.lanes
      rw [Turn.run, Turn.due]
      cases ha : begun[i]? with
      | none =>
        have hr : requests[i]? = none := by simpa [hlanes.length] using ha
        rw [hr]
        exact ih h
      | some a =>
        obtain ⟨r, hr⟩ : ∃ r, requests[i]? = some r := by
          have hlt := (List.getElem?_eq_some_iff.mp ha).1
          exact ⟨_, List.getElem?_eq_getElem (hlanes.length.trans_gt hlt)⟩
        rw [hr]
        refine Work.EndsBy.bind ((h.ends_awaited hT hr ha).mono fun y m₂ hy => ?_)
        exact Work.EndsBy.bind ((ih hy.1).mono fun ys _ hys => Work.ends_pure (.cons hy.2 hys))

end

/-! ## The reports -/

/-- **Requests that share a queue do not interfere.** On a schema that was built without a loader, with pure
callbacks whose tasks do not panic, requests are started on an idle queue and waited for, in whatever order. This
ends, and what is waited for is what each request gives alone, on whatever machine: the same data, the same
failures in the same order and the same counts, but for the tasks of the queue. -/
theorem shared_reports_are_own {schema : Schema σ} (hl : schema.loader? = none) {declared : List Ty} {app : σ}
    {s : Session σ} (hbuild : schema.build declared false { app } = .ok () s)
    (hpure : schema.Callbacks Callback.Pure) (htimely : schema.Timely) (turns : List Turn)
    {m : Machine Payload (World σ)} (hm : s.Alike m.world.session) {q : QueueId} {ticks : Nat}
    (hq : m.queues[q.index]? = some ⟨[], ticks⟩) {n : Machine Payload (World σ)} (hn : s.Alike n.world.session) :
    ∃ enough ys m₂, (∀ limit ≥ enough, m.run limit (Turn.run schema q [] turns) = .done ys m₂) ∧
      List.Forall₂ (fun r y => ∃ enough y' n₂,
        (∀ limit ≥ enough, n.run limit (r.perform schema).run = .done y' n₂) ∧
          y.map (Except.map Report.timeless) = y'.map (Except.map Report.timeless)) (Turn.due [] turns) ys := by
  obtain ⟨types, hsound, hfinds⟩ := Schema.sound_of_build hl hbuild
  let T := Tandem.beside hl hsound hfinds
    (Pace.definitions_self (.inl rfl) (hpure.mono Pace.calls_of_pure) (.inr htimely))
  have hT : T.Even := ⟨id, Iff.rfl⟩
  have hstart : Sharing T q n [] [] m := sharing_nil hm hq
  obtain ⟨enough, ⟨ys, m₂, hrun, hys⟩ | ⟨hf, -⟩⟩ := hstart.ends_run hT hn turns
  · refine ⟨enough, ys, m₂, hrun, hys.imp fun r y hy => ?_⟩
    obtain ⟨enough, ⟨y', n₂, hrun, hyy⟩ | ⟨hf, -⟩⟩ := hy
    · refine ⟨enough, y', n₂, hrun, ?_⟩
      cases hyy with
      | ok h => exact congrArg Except.ok (Pace.timeless_eq rfl h)
      | error h => exact congrArg Except.error h.1
    · exact hf.elim
  · exact hf.elim

/-- Two requests on one queue, of which the second one is waited for first. -/
theorem shared_reports_are_own_sample :
    let first : Request := { document := Sample.document }
    let second : Request := { document := Sample.document, options := { skipValidation := true } }
    let turns := [Turn.start first, .start second, .wait 1, .wait 0]
    Turn.due [] turns = [second, first] ∧
    ∃ enough ys m₂, (∀ limit ≥ enough, (Machine.start { session := Sample.session }).newQueue.2.run limit
        (Turn.run (Sample.schema "key") ⟨0⟩ [] turns) = .done ys m₂) ∧
      List.Forall₂ (fun r y => ∃ enough y' n₂,
        (∀ limit ≥ enough, (Machine.start { session := Sample.session }).run limit
          (r.perform (Sample.schema "key")).run = .done y' n₂) ∧
            y.map (Except.map Report.timeless) = y'.map (Except.map Report.timeless)) (Turn.due [] turns) ys :=
  ⟨rfl, shared_reports_are_own rfl (Sample.built "key") (Schema.callbacks_pure _)
    (fun c hc a ha => (Sample.regular "key" c hc a ha).timely) _ (.refl Sample.session) rfl (.refl Sample.session)⟩

end EntityQuery
