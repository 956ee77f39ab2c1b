import EntityQuery.Proofs.Promise.Meaning

/-!
# Promises of other queues

The reactions to a promise run on its own queue. So a promise that follows one of another queue is
settled only when somebody drains that queue. Adopting a promise and gathering it see to that; a
promise that is resolved with it, or goes on with it, does not.

* `Promise.resolvedWith`, `Promise.continuedWith`: promises that follow another one wherever its queue
  is.
* **`Machine.ends_stalled`**: waiting for a promise that nothing on its queue settles.
* **`Program.follows_foreign`**: where promises of other queues are followed, and where they are not.
-/

namespace EntityQuery

variable {V W : Type} {n : Nat} {main q : QueueId} {m : Machine V W}

namespace Promise

/-- A promise that its script resolves with another one. -/
def resolvedWith (q : QueueId) (source : Promise) : Work V W Promise :=
  create q fun p => (p.resolveWith (.ok (.promise source))).bind fun _ => .pure (.ok ())

/-- A promise that has a value, and goes on with another promise. -/
def continuedWith (q : QueueId) (v : V) (source : Promise) : Work V W Promise :=
  (settled q (.ok v)).bind fun p => p.andThen fun _ => .pure (.ok (.promise source))

end Promise

/-! ## Adopting and gathering -/

/-- **What is made from a promise of any queue comes to what it means**, given what that promise comes
to: where the promise is adopted or gathered, at any depth, its queue is drained. -/
theorem Program.wait_foreign (bundle : List V → V) (hmain : main.index < n)
    (hn : n ≤ m.queues.size) (hm : m.Tame) (hq : q.index < n) (source : Program V n main [] q)
    (body : Program V n main [q] main) :
    ∃ o out, source.Means bundle [] o ∧ body.Means bundle [o] out ∧
      ∃ enough p m', (∀ limit ≥ enough,
        m.run limit ((source.build bundle []).bind fun p => (body.build bundle [p]).bind fun target =>
          (target.wait main).bind fun answer => .pure (p, answer)) =
            .done (p, out.mapError WaitFault.rejected) m') ∧
        ∀ o', m'.outcome? p = some o' → o' = o := by
  have hcalm : Steps.Calm ((source.build (W := W) bundle []).bind fun p =>
      (body.build bundle [p]).bind fun target =>
        (target.wait main).bind fun answer => .pure (p, answer)) :=
    Steps.Calm.bind (source.calm_build bundle []) fun p =>
      Steps.Calm.bind (body.calm_build bundle [p]) fun target =>
        Steps.Calm.bind (Promise.calm_wait main target) fun answer => .pure (p, answer)
  obtain ⟨enough, ⟨⟨p, answer⟩, m', hrun, -⟩ | ⟨hf, -⟩⟩ := Work.ends_of_calm hcalm hm.calm
  swap
  · exact hf.elim
  obtain ⟨T, h⟩ : ∃ T, (Plans.empty V n main).Underway bundle T ∅ m :=
    Plans.underway_empty bundle hn hm
  -- The second program is built where the promise of the first one is shared, and the fate of all
  -- promises that is found in the end is right for both of them.
  have hyields : Plans.Yields bundle (Plans.empty V n main) ∅ m (Machine.drain enough)
      ((source.build bundle []).bind fun p => (body.build bundle [p]).bind fun target =>
        (target.wait main).bind fun answer => .pure (p, answer)) fun _ _ m' r =>
      ∃ (a : Fate V) (out : Outcome V), Agrees m'.outcome? a ∧ source.Means bundle [] (a r.1) ∧
        body.Means bundle [a r.1] out ∧ r.2 = out.mapError WaitFault.rejected := by
    refine (source.yields_build h hq .nil zero_lt_one).bind fun G₁ T₁ m₁ p _ h₁ hp => ?_
    have henv : G₁.Scoped [q] [p] 1 := by
      obtain ⟨plan, hplan, hhome, hrank, -⟩ := hp
      exact .cons ⟨plan, hplan, hhome, hrank.le⟩ .nil
    refine (body.yields_build h₁ hmain henv one_lt_two).bind fun G₂ T₂ m₂ target hl h₂ htarget => ?_
    have hboth : G₂.Delivers bundle target main 2 fun a out =>
        source.Means bundle [] (a p) ∧ body.Means bundle [a p] out := by
      obtain ⟨-, -, -, -, hsource⟩ := hl.toExtends.delivers one_le_two hp
      obtain ⟨plan, hplan, hhome, hrank, hbody⟩ := htarget
      exact ⟨plan, hplan, hhome, hrank, fun a hup => ⟨hsource a hup, hbody a hup⟩⟩
    refine (h₂.yields_wait (Plans.Underway.drains enough) hboth).bind
      fun G₃ T₃ m₃ answer _ h₃ hanswer => ?_
    obtain ⟨a, out, ha, ⟨hsource, hbody⟩, hanswer⟩ := hanswer
    exact .pure h₃ ⟨a, out, ha, hsource, hbody, hanswer⟩
  obtain ⟨-, -, -, -, a, out, ha, hsource, hbody, hanswer⟩ := hyields _ m' (hrun enough le_rfl)
  obtain rfl : answer = out.mapError WaitFault.rejected := hanswer
  exact ⟨a p, out, hsource, hbody, enough, p, m', hrun, fun o' ho' => (ha p o' ho').symm⟩

/-! ## Following without draining -/

section Stalled

variable {source p : Promise}

/-- **Waiting for a promise that nothing on its queue settles.** -/
theorem Machine.ends_stalled (hp : m.outcome? p = none) (hidle : m.tasks main = []) :
    Work.EndsBy Halt.panic False (p.wait main) m fun answer _ => answer = .error .stalled := by
  refine Work.ends_drain (Machine.ends_drain_of_empty hidle ?_)
  refine Work.ends_outcome.mpr ?_
  rw [hp]
  exact Work.ends_pure rfl

/-- A reaction to a promise of another queue puts nothing on this one. -/
theorem Machine.tasks_subscribe_foreign (hsource : m.home source ≠ main)
    (r : Outcome V → Job V W) : (m.subscribe source r).tasks main = m.tasks main := by
  rw [tasks_subscribe]
  cases m.outcome? source with
  | none => exact List.append_nil _
  | some o => simp [hsource.symm]

theorem Machine.outcome?_newPromise_self (q : QueueId) :
    (m.newPromise q).2.outcome? (m.newPromise q).1 = none := by
  rw [outcome?_newPromise, newPromise, outcome?, Array.getElem?_eq_none le_rfl]
  rfl

/-- **A promise that is resolved with one of another queue waits for it in vain**, unless something
else drains that queue. -/
theorem Promise.ends_resolvedWith (hs : source.index < m.cells.size)
    (hsource : m.home source ≠ main) (hidle : m.tasks main = []) :
    Work.EndsBy Halt.panic False ((resolvedWith main source).bind fun p => p.wait main) m
      fun answer _ => answer = .error .stalled := by
  refine Work.ends_newPromise.mpr (Work.ends_subscribe.mpr (Machine.ends_stalled ?_ ?_))
  · rw [Machine.outcome?_subscribe, Machine.outcome?_newPromise_self]
  · rw [Machine.tasks_subscribe_foreign (by rwa [Machine.home_newPromise main hs])]
    exact hidle

/-- **A promise that goes on with one of another queue waits for it in vain**, unless something else
drains that queue. -/
theorem Promise.ends_continuedWith (hs : source.index < m.cells.size)
    (hsource : m.home source ≠ main) (hmain : main.index < m.queues.size)
    (hidle : m.tasks main = []) (v : V) :
    Work.EndsBy Halt.panic False ((continuedWith main v source).bind fun p => p.wait main) m
      fun answer _ => answer = .error .stalled := by
  let p := (m.newPromise main).1
  let m₁ := ((m.newPromise main).2.settle p (.ok v)).2
  have hopen : (m.newPromise main).2.Open p :=
    ⟨by simp [p, Machine.newPromise], Machine.outcome?_newPromise_self main⟩
  have hp : m₁.outcome? p = some (.ok v) := by simp [m₁, Machine.outcome?_settle_eq, hopen]
  have hhome : m₁.home p = main := by simp [m₁, p]
  have hidle₁ : m₁.tasks main = [] := by
    have hfree : m.reactions p = [] := by simp [p, Machine.reactions, Machine.newPromise]
    simp [m₁, Machine.tasks_settle, hidle, hfree]
  have hmain₁ : main.index < m₁.queues.size := by simpa [m₁, Machine.newPromise] using hmain
  have hsize : m₁.cells.size = m.cells.size + 1 := by simp [m₁, Machine.newPromise]
  have hsource₁ : m₁.home source ≠ main := by
    simpa [m₁, Machine.home_newPromise main hs] using hsource
  let target := (m₁.newPromise main).1
  refine Work.ends_newPromise.mpr (Work.ends_settle.mpr (Work.ends_home.mpr ?_))
  change Work.EndsBy Halt.panic False (.newPromise (m₁.home p) _) m₁ _
  rw [hhome]
  refine Work.ends_newPromise.mpr (Work.ends_subscribe.mpr ?_)
  -- The reaction is the only task; it subscribes to the other promise, and then no task is left.
  set m₂ := (m₁.newPromise main).2
  have hmain₂ : main.index < m₂.queues.size := hmain₁
  have hidle₂ : m₂.tasks main = [] := hidle₁
  have hp₂ : m₂.outcome? p = some (.ok v) := by rw [Machine.outcome?_newPromise, hp]
  have hhome₂ : m₂.home p = main := by
    rw [Machine.home_newPromise main (by simp [p, hsize, Machine.newPromise]), hhome]
  have hsource₂ : m₂.home source ≠ main := by
    rwa [Machine.home_newPromise main (by omega)]
  generalize hr : (fun o : Outcome V => Job.mk _) = r
  have htask : (r (.ok v)).steps = .subscribe source target.settleJob (.pure ()) := by
    subst hr
    rfl
  have htasks : (m₂.subscribe p r).tasks main = [r (.ok v)] := by
    rw [Machine.tasks_subscribe, hp₂]
    simp [hhome₂, hidle₂, hmain₂]
  obtain ⟨m₃, hpop⟩ := Machine.exists_pop? htasks
  obtain ⟨hrest, -, hcells, -, -⟩ := Machine.tasks_pop? hpop
  have houtcome : ∀ x, m₃.outcome? x = m₂.outcome? x := fun x => by
    rw [Machine.outcome?, hcells, ← Machine.outcome?_subscribe p x r, Machine.outcome?]
  have htarget : m₂.outcome? target = none := Machine.outcome?_newPromise_self main
  have hidle₃ : (m₃.subscribe source target.settleJob).tasks main = [] := by
    rw [Machine.tasks_subscribe_foreign]
    · rw [htasks] at hrest
      exact (List.cons.inj hrest).2.symm
    · rw [Machine.home, hcells, ← Machine.home, Machine.home_subscribe]
      exact hsource₂
  refine Work.ends_drain (Machine.ends_drain_of_pop ?_ hpop ?_)
  · rw [Machine.outcome?_subscribe]
    exact htarget
  rw [htask]
  refine Work.ends_subscribe.mpr (Work.ends_pure (Machine.ends_drain_of_empty hidle₃ ?_))
  refine Work.ends_outcome.mpr ?_
  rw [Machine.outcome?_subscribe, houtcome, htarget]
  exact Work.ends_pure rfl

end Stalled

/-- **Where promises of other queues are followed, and where they are not.** A promise of any queue is
followed where it is adopted or gathered, at any depth and with anything else waiting in the queues:
waiting never stalls, and gives an outcome that follows from the one of that promise. Where a promise
is resolved with one of another queue, or goes on with it, and its own queue has no tasks, waiting for
it stalls, whatever the other queue holds. -/
theorem Program.follows_foreign (bundle : List V → V) (hmain : main.index < n)
    (hn : n ≤ m.queues.size) (hm : m.Tame) :
    (∀ q : QueueId, q.index < n → ∀ (source : Program V n main [] q) (body : Program V n main [q] main),
      ∃ o out, source.Means bundle [] o ∧ body.Means bundle [o] out ∧
        ∃ enough p m', (∀ limit ≥ enough,
          m.run limit ((source.build bundle []).bind fun p =>
            (body.build bundle [p]).bind fun target =>
              (target.wait main).bind fun answer => .pure (p, answer)) =
              .done (p, out.mapError WaitFault.rejected) m') ∧
          ∀ o', m'.outcome? p = some o' → o' = o) ∧
    ∀ p : Promise, p.index < m.cells.size → m.home p ≠ main → m.tasks main = [] → ∀ v,
      ∃ enough m₁ m₂, ∀ limit ≥ enough,
        m.run limit ((Promise.resolvedWith main p).bind fun target => target.wait main) =
            .done (.error .stalled) m₁ ∧
          m.run limit ((Promise.continuedWith main v p).bind fun target => target.wait main) =
            .done (.error .stalled) m₂ := by
  refine ⟨fun q hq source body => wait_foreign bundle hmain hn hm hq source body,
    fun p hp hhome hidle v => ?_⟩
  obtain ⟨N₁, ⟨_, m₁, h₁, rfl⟩ | ⟨hf, -⟩⟩ := Promise.ends_resolvedWith hp hhome hidle
  swap
  · exact hf.elim
  obtain ⟨N₂, ⟨_, m₂, h₂, rfl⟩ | ⟨hf, -⟩⟩ :=
    Promise.ends_continuedWith hp hhome (hmain.trans_le hn) hidle v
  swap
  · exact hf.elim
  exact ⟨max N₁ N₂, m₁, m₂, fun limit hlimit => ⟨h₁ limit (le_of_max_le_left hlimit),
    h₂ limit (le_of_max_le_right hlimit)⟩⟩

namespace Sample

/-- Two queues. The first one has a promise, and a task that resolves it. -/
def supplied : Machine Nat Unit :=
  ((Machine.start ()).newQueue.2.newQueue.2.newPromise ⟨0⟩).2.enqueue ⟨0⟩
    (Promise.settleJob ⟨0⟩ (.ok 3))

/-- A promise of the first queue that is resolved one task later. -/
def late : Program Nat 2 ⟨1⟩ [] ⟨0⟩ := .create 1 (.value 3)

/-- Adopts a promise of the first queue, and gathers it again in what it goes on with. -/
def twice : Program Nat 2 ⟨1⟩ [⟨0⟩] ⟨1⟩ :=
  .andThen (.adopt (.promise ⟨0⟩ Nat.zero_lt_two (.inr rfl) (.shared 0 rfl))) fun v =>
    .promise (.all (.cons (.promise ⟨0⟩ Nat.zero_lt_two (.inr rfl) (.shared 0 rfl))
      (.cons (.value v) .nil)))

theorem tame_supplied : supplied.Tame := by
  refine ((Machine.Every.start ()).newQueue.newQueue.newPromise _).append _
    (List.forall_mem_singleton.mpr ?_)
  exact .settle Nat.zero_lt_one fun _ => .pure ()

theorem means_twice {o out : Outcome Nat} (ho : late.Means List.sum [] o)
    (hout : twice.Means List.sum [o] out) : out = .ok 6 := by
  obtain rfl : o = .ok 3 := ho
  obtain ⟨vs, hvs, rfl⟩ : ∃ vs : List Nat,
      ([.ok 3, .ok 3] : List (Outcome Nat)) = vs.map .ok ∧ out = .ok vs.sum := by
    simpa [twice, Program.Means, Program.Items.Means, Program.Item.Means, Program.Answer.Means,
      Program.look] using hout
  obtain rfl : vs = [3, 3] := List.map_injective_iff.mpr (fun _ _ => Except.ok.inj) hvs.symm
  rfl

end Sample

theorem Program.follows_foreign_sample :
    (∃ enough p m', ∀ limit ≥ enough,
      Sample.supplied.run limit ((Sample.late.build List.sum []).bind fun p =>
        (Sample.twice.build List.sum [p]).bind fun target =>
          (target.wait ⟨1⟩).bind fun answer => .pure (p, answer)) = .done (p, .ok 6) m') ∧
    ∃ enough m₁ m₂, ∀ limit ≥ enough,
      Sample.supplied.run limit
          ((Promise.resolvedWith ⟨1⟩ ⟨0⟩).bind fun target => target.wait ⟨1⟩) =
          .done (.error .stalled) m₁ ∧
        Sample.supplied.run limit
          ((Promise.continuedWith ⟨1⟩ 2 ⟨0⟩).bind fun target => target.wait ⟨1⟩) =
          .done (.error .stalled) m₂ := by
  obtain ⟨hfollows, hstalls⟩ := Program.follows_foreign List.sum
    (show QueueId.index ⟨1⟩ < 2 by decide) (by decide) Sample.tame_supplied
  obtain ⟨o, out, ho, hout, enough, p, m', hrun, -⟩ := hfollows ⟨0⟩ (by decide) Sample.late Sample.twice
  obtain rfl := Sample.means_twice ho hout
  exact ⟨⟨enough, p, m', hrun⟩, hstalls ⟨0⟩ (by decide) (by decide) rfl 2⟩

/-- **A promise that is resolved with another one, or goes on with it, need not follow it**: draining the
first queue resolves the promise with three, which adopting it gives on the second queue; waiting for a
promise that is resolved with it, or goes on with it, stalls. -/
theorem Promise.following_stalls :
    (∃ m, Sample.supplied.run 9 (Promise.wait ⟨0⟩ ⟨0⟩) = .done (.ok 3) m) ∧
    (∃ m, Sample.supplied.run 9 ((Promise.adopt ⟨1⟩ (.promise ⟨0⟩)).bind fun target =>
      target.wait ⟨1⟩) = .done (.ok 3) m) ∧
    (∃ m, Sample.supplied.run 9 ((Promise.resolvedWith ⟨1⟩ ⟨0⟩).bind fun target =>
      target.wait ⟨1⟩) = .done (.error .stalled) m) ∧
    ∃ m, Sample.supplied.run 9 ((Promise.continuedWith ⟨1⟩ 2 ⟨0⟩).bind fun target =>
      target.wait ⟨1⟩) = .done (.error .stalled) m :=
  ⟨⟨_, rfl⟩, ⟨_, rfl⟩, ⟨_, rfl⟩, _, rfl⟩

end EntityQuery
