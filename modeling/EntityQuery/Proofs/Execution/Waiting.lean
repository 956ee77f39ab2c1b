import EntityQuery.Execution.Engine
import EntityQuery.Proofs.Execution.Attempts
import EntityQuery.Proofs.Promise.Draining

/-!
# Waiting for reports

Once the queries of a document are under way, waiting for the report drains the queue: the task that waits
for the queries makes the report, or, where a defect has been met, an error of it. If the queue runs dry
before that, the execution is stalled. This holds on any terms.

* `Document.Verdict`: what becomes of the values of the queries.
* `does_document`: the queries under way, and the task that waits for them.
* `Leaves`, `Concludes`: how the promise of the report is left, and how waiting for it ends.
* **`Expected.ends_drain`**: draining the queue leads there. **`ends_expected`**: so does waiting.
* `ends_settled_wait`: waiting for a promise that is settled at once.
-/

namespace EntityQuery

open Terms

variable {σ α β E : Type} [AddCommMonoid E]

/-- The task that makes the report of the values of the queries. -/
def Execution.concludeJob (x : Execution σ) (d : Document) (before : Nat) :
    Promise → Outcome Payload → Job Payload (World σ) :=
  Promise.reactJob (fun p => x.conclude d.names before p.items) fun f => .pure (.error f)

/-- Masks a report as the options say. -/
def Request.mask (r : Request) : Payload → Run σ (Outcome Payload)
  | .report report => .pure (.ok (.report { report with masking := r.options.masking }))
  | other => .pure (.ok other)

/-- The task that masks a report. -/
def Request.maskJob (r : Request) : Promise → Outcome Payload → Job Payload (World σ) :=
  Promise.reactJob r.mask fun f => .pure (.error f)

/-- What becomes of the values of the queries, where an execution has met `p`. -/
def Document.Verdict (d : Document) (v : Payload) (p : Progress) (o : Outcome Payload) : Prop :=
  match p.fatal? with
  | some e => o = .error (.ofDefect e)
  | none => ∃ r, o = .ok (.report r) ∧ r.data = some (Entries.ofPairs (d.names.zip v.items)) ∧
      r.failures = p.failures ∧ ∃ ticks, r.tally = p.tally.addTicks ticks

/-- The terms are those of an execution. -/
structure Terms.Hosts (C : Terms (World σ) E) (x : Execution σ) : Prop where
  queue : x.queue = C.queue
  progress : ∀ {w}, C.Good w → ∃ p, w.executions[x.index]? = some p

section

variable {C : Terms (World σ) E} {x : Execution σ} {d : Document}
  {φ : Prospect (Outcome Payload) E} {Φ : E → Prospect (Outcome Payload) E}

/-! ## The queries under way -/

/-- Steps that give promises of the queries; after their effect `e`, it is `Φ e` that says what becomes
of the promises together. -/
def Execution.Queries (C : Terms (World σ) E) (x : Execution σ) (d : Document)
    (Φ : E → Prospect (Outcome Payload) E) : Prop :=
  Does C .empty (d.queries.mapM fun (name, q) => x.query name q).run fun r T h e =>
    ∃ ps φs, r = .ok ps ∧ Futures C ps φs T h ∧ (∀ φ ∈ φs, ∀ f e, ¬ φ.settles (.error f) e) ∧
      (∀ vs e', Together (φs.map okPost) vs e' → (Φ e).settles (.ok (Payload.bundle vs)) e') ∧
      ∀ φ ∈ φs, ∀ e₁ e₂, φ.waits e₂ → (Φ e).waits (e₁ + e₂)

/-- **An execution under way: one task waits for its queries, and settles the promise of the
report.** -/
theorem does_document (hx : C.Hosts x) (hqueries : x.Queries C d Φ) :
    Does C .empty (x.document d).run fun r T h e => ∃ report before h₁,
      r = .ok report ∧ h = h₁.set (.promise report) (C.pending []) ∧
        h₁ (.promise report) = none ∧
          Awaited C (Φ e) (x.concludeJob d before report) T h₁ := by
  unfold Execution.document
  rw [hx.queue]
  refine Does.attempt_bind (Does.ofRun (does_ticks fun before => does_pure ?_))
  refine Does.attempt_bind (hqueries.mono ?_)
  rintro _ T h e ⟨ps, φs, rfl, hf, hok, htogether, hwaits⟩
  have hgather : Does C h (Promise.gather C.queue Payload.bundle (ps.map .promise))
      fun all T' h' d' => d' = 0 ∧ Future C all (Φ e) (T + T') h' :=
    hf.does_gather hok htogether hwaits
  refine Does.attempt_bind (Does.ofRun (hgather.mono ?_))
  rintro all T' h' _ ⟨rfl, hall⟩
  obtain ⟨o?, hc⟩ := hall.exists_cell
  have hmap : Does C h' (all.map fun p => x.conclude d.names before p.items)
      fun report T'' h'' d' => d' = 0 ∧ ∃ h₁,
        h'' = h₁.set (.promise report) (C.pending []) ∧
          h₁ (.promise report) = none ∧ Awaited C (Φ e)
            (x.concludeJob d before report) (T + T' + T'') h₁ := by
    rw [Promise.map, Promise.thenOrElse_eq]
    exact does_home hc hall.does_subscribe
  refine Does.ofRun (hmap.mono ?_)
  rintro report T'' h'' _ ⟨rfl, h₁, rfl, hn, ha⟩
  exact ⟨report, before, h₁, rfl, rfl, hn, by simpa [add_assoc] using ha⟩

/-- Masking the report of an execution under way. -/
theorem does_mask {r : Request} {report : Promise} {h : Parts σ}
    (hn : h (.promise report) = none) :
    Does C (h.set (.promise report) (C.pending [])) (report.map r.mask)
      fun masked T h' e => T = 0 ∧ e = 0 ∧ masked ≠ report ∧ h (.promise masked) = none ∧
        h' = (h.set (.promise report) (C.pending [r.maskJob masked])).set
          (.promise masked) (C.pending []) := by
  rw [Promise.map, Promise.thenOrElse_eq]
  refine does_home (Heap.set_self _ _ _) (does_newPromise fun masked hmasked => ?_)
  have hne : masked ≠ report := by
    rintro rfl
    rw [Heap.set_self] at hmasked
    cases hmasked
  have hne' : Part.promise masked ≠ .promise report := by simpa using hne
  have hpending : ((h.set (.promise report) (C.pending [])).set (.promise masked)
      (C.pending [])) (.promise report) = some (C.pending []) := by
    rw [Heap.set_of_ne hne'.symm, Heap.set_self]
  refine does_subscribe_of_pending hpending (does_pure ⟨rfl, rfl, hne, ?_, ?_⟩)
  · rwa [Heap.set_of_ne hne'] at hmasked
  · rw [Heap.set_comm hne'.symm, Heap.set_set]
    exact Heap.set_comm hne' _ _ _

/-- A promise under way to a report: the promise of the report, or of the masked report. -/
inductive Expected (C : Terms (World σ) E) (x : Execution σ) (d : Document)
    (φ : Prospect (Outcome Payload) E) : Promise → Tasks σ → Parts σ → Prop
  | report {before : Nat} {report : Promise} {T : Tasks σ} {h : Parts σ}
      (hn : h (.promise report) = none)
      (ha : Awaited C φ (x.concludeJob d before report) T h) :
      Expected C x d φ report T (h.set (.promise report) (C.pending []))
  | masked {before : Nat} {report masked : Promise} (r : Request) {T : Tasks σ} {h : Parts σ}
      (hn : h (.promise report) = none) (hne : masked ≠ report) (hn' : h (.promise masked) = none)
      (ha : Awaited C φ (x.concludeJob d before report) T h) :
      Expected C x d φ masked T
        ((h.set (.promise report) (C.pending [r.maskJob masked])).set (.promise masked)
          (C.pending []))

/-! ## From the queries to the report -/

/-- From a world, the promise of the report is left settled with the verdict on the queries, or, on lax
terms, waiting forever. No task is left. -/
inductive Leaves (C : Terms (World σ) E) (x : Execution σ) (d : Document)
    (φ : Prospect (Outcome Payload) E) (final : Promise) (w : World σ)
    (m : Machine Payload (World σ)) : Prop
  | settled {v : Payload} {e : E} {p : Progress} {o : Outcome Payload}
      (hstep : C.Step e w m.world) (hφ : φ.settles (.ok v) e)
      (hp : m.world.executions[x.index]? = some p) (hempty : (m.queue C.queue).tasks = [])
      (ho : m.outcome? final = some o) (h : d.Verdict v p o)
  | waiting {e : E} (hl : C.lax) (hstep : C.Step e w m.world) (hφ : φ.waits e)
      (hempty : (m.queue C.queue).tasks = []) (ho : m.outcome? final = none)

/-- Making the report changes nothing. -/
theorem ends_conclude {m : Machine Payload (World σ)} {p : Progress}
    (hp : m.world.executions[x.index]? = some p) (before : Nat) (v : Payload) :
    (x.conclude d.names before v.items).EndsBy C.halt C.lax m fun o m' =>
      m' = m ∧ d.Verdict v p o := by
  refine Work.EndsBy.bind (Work.ends_getWorld.mpr (Work.ends_pure ?_))
  rw [hp, Option.getD_some]
  unfold Document.Verdict
  cases hf : p.fatal? with
  | some e => exact Work.ends_pure ⟨rfl, rfl⟩
  | none =>
    exact Work.EndsBy.bind (Work.ends_ticks.mpr (Work.ends_pure
      (Work.ends_pure ⟨rfl, _, rfl, rfl, rfl, _, rfl⟩)))

/-- **The task that waits for the queries settles the promise of the report.** -/
theorem ends_drain_conclude {m : Machine Payload (World σ)} {c : Queue Payload (World σ)}
    {v : Payload} {before : Nat} {report final : Promise}
    {rs : List (Outcome Payload → Job Payload (World σ))} {k : Parts σ} {p : Progress}
    {Q : Machine Payload (World σ) → Prop} (hm : C.Ready m)
    (hc : m.heap (.queue C.queue) = some (.queue c))
    (htasks : c.tasks = [x.concludeJob d before report (.ok v)]) (hk : k.Within (C.view m))
    (hreport : k (.promise report) = some (C.pending rs)) (hfinal : m.outcome? final = none)
    (hp : m.world.executions[x.index]? = some p)
    (hnext : ∀ o m' c', d.Verdict v p o → C.Step 0 m.world m'.world →
      m'.world.executions[x.index]? = some p → m'.heap (.queue C.queue) = some (.queue c') →
      (c'.tasks : Tasks σ) = ↑(rs.map fun react => react o) →
      (k.set (.promise report) (C.settled o)).Within (C.view m') →
      EndsBy C.halt C.lax (fun limit => m'.drain limit C.queue (.until final)) fun _ => Q) :
    EndsBy C.halt C.lax (fun limit => m.drain limit C.queue (.until final)) fun _ => Q := by
  obtain ⟨tasks, ticks⟩ := c
  obtain rfl : tasks = _ := htasks
  obtain ⟨m₁, hpop, hworld, hheap⟩ := Machine.pop?_of_heap hc
  have hview : C.view m₁ = C.view m := view_set_queue hheap
  have hm₁ : C.Ready m₁ :=
    ⟨⟨_, by rw [hheap]; exact Function.update_self ..⟩, by rw [hworld]; exact hm.2⟩
  refine Machine.ends_drain_of_pop hfinal hpop (Work.EndsBy.bind ?_)
  refine (ends_conclude (by rw [hworld]; exact hp) before _).mono ?_
  rintro o _ ⟨hm', hverdict⟩
  rw [hm']
  refine Work.ends_settle.mpr (Work.ends_pure ?_)
  have hk₁ : k.Within (C.view m₁) := by rwa [hview]
  obtain ⟨he, hview₂⟩ := evolves_settle hreport hm₁ hk₁ o
  obtain ⟨c₁, added, hc₁, hc₂, hadded⟩ := he.queue
  rw [hheap] at hc₁
  obtain rfl : _ = c₁ := by simpa using hc₁
  have hworld₂ : (m₁.settle report o).2.world = m.world := Machine.world_settle.trans hworld
  refine hnext o _ _ hverdict ?_ ?_ hc₂ (by simpa using hadded) ?_
  · rw [hworld₂]
    exact C.step_zero hm.2
  · rw [hworld₂]
    exact hp
  · rw [hview₂]
    exact hk₁.set _ _

/-- The task that masks a report leaves a report that says the same; an error stays what it is. -/
theorem ends_drain_mask {req : Request} {final : Promise} {v : Payload} {p : Progress}
    {o : Outcome Payload} (hverdict : d.Verdict v p o) {m : Machine Payload (World σ)}
    {c : Queue Payload (World σ)} (hc : m.heap (.queue C.queue) = some (.queue c))
    (htasks : c.tasks = [req.maskJob final o])
    (hfinal : m.heap (.promise final) = some (C.pending [])) :
    EndsBy C.halt C.lax (fun limit => m.drain limit C.queue (.until final)) fun _ m' =>
      m'.world = m.world ∧ (m'.queue C.queue).tasks = [] ∧
        ∃ o', m'.outcome? final = some o' ∧ d.Verdict v p o' := by
  obtain ⟨tasks, ticks⟩ := c
  obtain rfl : tasks = _ := htasks
  obtain ⟨m₁, hpop, hworld, hheap⟩ := Machine.pop?_of_heap hc
  have hcell : m₁.heap (.promise final) = some (C.pending []) := by
    rw [hheap, Function.update_of_ne (by simp), hfinal]
  have hqueue : m₁.heap (.queue C.queue) = some (.queue ⟨[], min (ticks + 1) Queue.maxTicks⟩) := by
    rw [hheap, Function.update_self]
  have settles : ∀ o', d.Verdict v p o' → Work.EndsBy C.halt C.lax
      (Promise.ignore (final.settle o')) m₁ fun _ m' =>
        EndsBy C.halt C.lax (fun limit => m'.drain limit C.queue (.until final)) fun _ m' =>
          m'.world = m.world ∧ (m'.queue C.queue).tasks = [] ∧
            ∃ o', m'.outcome? final = some o' ∧ d.Verdict v p o' := by
    intro o' ho'
    refine Work.ends_settle.mpr (Work.ends_pure ?_)
    have ho : (m₁.settle final o').2.outcome? final = some o' :=
      (Machine.outcome?_settle (Array.getElem?_eq_some_iff.mp (Machine.cells_of_heap hcell)).1
        (Machine.outcome?_of_heap hcell) _).2
    have hempty : ((m₁.settle final o').2.queue C.queue).tasks = [] := by
      have hheap₂ := Machine.heap_settle hcell hqueue o'
      rw [Machine.queue_of_heap (by rw [hheap₂, Function.update_self])]
      rfl
    exact Machine.ends_drain_of_reached (by rw [Machine.reached, ho]; rfl)
      ⟨Machine.world_settle.trans hworld, hempty, o', ho, ho'⟩
  refine Machine.ends_drain_of_pop (Machine.outcome?_of_heap hfinal) hpop ?_
  unfold Document.Verdict at hverdict
  cases hf : p.fatal? with
  | some e =>
    rw [hf] at hverdict
    subst hverdict
    refine settles _ ?_
    rw [Document.Verdict, hf]
  | none =>
    rw [hf] at hverdict
    obtain ⟨r, rfl, hr⟩ := hverdict
    refine settles (.ok (.report { r with masking := req.options.masking })) ?_
    rw [Document.Verdict, hf]
    exact ⟨_, rfl, hr⟩

/-- **Draining the queue leads to the report.** -/
theorem Expected.ends_drain (hx : C.Hosts x) {final : Promise} {T : Tasks σ} {h : Parts σ}
    (he : Expected C x d φ final T h) (hφ : ∀ o e, φ.settles o e → ∃ v, o = .ok v)
    {m : Machine Payload (World σ)} {c : Queue Payload (World σ)} (hm : C.Ready m)
    (hc : m.heap (.queue C.queue) = some (.queue c)) (htasks : (c.tasks : Tasks σ) = T)
    (hh : h.Within (C.view m)) :
    EndsBy C.halt C.lax (fun limit => m.drain limit C.queue (.until final)) fun _ m' =>
      Leaves C x d φ final m.world m' := by
  have pending : ∀ {k : Parts σ} {m' : Machine Payload (World σ)},
      k (.promise final) = some (C.pending []) → k.Within (C.view m') → m'.outcome? final = none :=
    fun hk hw => Machine.outcome?_of_heap (heap_of_view (hw _ _ hk))
  cases he with
  | @report before _ _ h₁ hn ha =>
    let k : Parts σ := Heap.empty.set (.promise final) (C.pending [])
    have hself : k (.promise final) = some (C.pending []) := Heap.set_self _ _ _
    have hkw : k.Within (C.view m) := ((Heap.empty_within h₁).set _ _).trans hh
    refine ha.ends_drain hm hc htasks ((Heap.within_set_of_none hn _).trans hh) hkw
      (Heap.apart_single.mpr hn).symm ⟨_, hself, rfl⟩ ?_
      fun hl m' e hempty hk hstep hw => .waiting hl hstep hw hempty (pending hself hk)
    intro m' o e c' hm' hc' htasks' hk hstep ho
    obtain ⟨v, rfl⟩ := hφ o e ho
    obtain ⟨p, hp⟩ := hx.progress hm'.2
    refine ends_drain_conclude hm' hc' htasks' hk hself (pending hself hk) hp ?_
    intro o m₂ c₂ hverdict hstep₂ hp₂ hc₂ htasks₂ hw
    have hempty : (m₂.queue C.queue).tasks = [] := by
      rw [Machine.queue_of_heap hc₂]
      exact Multiset.coe_eq_zero _ |>.mp htasks₂
    have ho₂ : m₂.outcome? final = some o :=
      Machine.outcome?_of_heap (heap_of_view (hw _ _ (Heap.set_self _ _ _)))
    have hstep' := C.step_add hstep hstep₂
    rw [add_zero] at hstep'
    exact Machine.ends_drain_of_reached (by rw [Machine.reached, ho₂]; rfl)
      (.settled hstep' ho hp₂ hempty ho₂ hverdict)
  | @masked before report _ req _ h₁ hn hne hn' ha =>
    have hne' : Part.promise final ≠ .promise report := by simpa using hne
    let single : Parts σ := Heap.empty.set (.promise report) (C.pending [req.maskJob final])
    let k : Parts σ := single.set (.promise final) (C.pending [])
    have hself : k (.promise final) = some (C.pending []) := Heap.set_self _ _ _
    have hreport : k (.promise report) = some (C.pending [req.maskJob final]) :=
      (Heap.set_of_ne hne'.symm _ _).trans (Heap.set_self _ _ _)
    have hkw : k.Within (C.view m) :=
      (((Heap.empty_within h₁).set _ _).set _ _).trans hh
    have hw₁ : h₁.Within (C.view m) :=
      ((Heap.within_set_of_none hn _).set_right hn' _).trans hh
    have hapart : k.Apart h₁ := ((Heap.apart_single.mpr hn).set_right hn' _).symm
    refine ha.ends_drain hm hc htasks hw₁ hkw hapart ⟨_, hself, rfl⟩ ?_
      fun hl m' e hempty hk hstep hw => .waiting hl hstep hw hempty (pending hself hk)
    intro m' o e c' hm' hc' htasks' hk hstep ho
    obtain ⟨v, rfl⟩ := hφ o e ho
    obtain ⟨p, hp⟩ := hx.progress hm'.2
    refine ends_drain_conclude hm' hc' htasks' hk hreport (pending hself hk) hp ?_
    intro o m₂ c₂ hverdict hstep₂ hp₂ hc₂ htasks₂ hw
    have hfinal : (k.set (.promise report) (C.settled o)) (.promise final) =
        some (C.pending []) := by
      rw [Heap.set_of_ne hne', hself]
    have hstep' := C.step_add hstep hstep₂
    rw [add_zero] at hstep'
    refine (ends_drain_mask hverdict hc₂ (by simpa using htasks₂)
      (heap_of_view (hw _ _ hfinal))).mono ?_
    rintro _ m₃ ⟨hworld, hempty, o', ho', hverdict'⟩
    rw [← hworld] at hstep' hp₂
    exact .settled hstep' ho hp₂ hempty ho' hverdict'

/-! ## Waiting for the report -/

/-- How waiting for the report ends, on a machine `m` at the end: with the verdict on the queries, or, on
lax terms, stalled. From the world `w` on, the queries are begun with the effect `e`, and what follows has
the effect `e'`. -/
inductive Concludes (C : Terms (World σ) E) (x : Execution σ) (d : Document)
    (Φ : E → Prospect (Outcome Payload) E) (w : World σ) (m : Machine Payload (World σ)) :
    Except EngineFault Report → Prop
  | report {v : Payload} {w' : World σ} {e e' : E} {p : Progress} {r : Report}
      (hbegun : C.Step e w w') (hstep : C.Step e' w' m.world) (hΦ : (Φ e).settles (.ok v) e')
      (hp : m.world.executions[x.index]? = some p) (hf : p.fatal? = none)
      (hempty : (m.queue C.queue).tasks = [])
      (hdata : r.data = some (Entries.ofPairs (d.names.zip v.items)))
      (hr : r.failures = p.failures) (htally : ∃ ticks, r.tally = p.tally.addTicks ticks) :
      Concludes C x d Φ w m (.ok r)
  | defect {v : Payload} {w' : World σ} {e e' : E} {p : Progress} {fatal : Defect}
      (hbegun : C.Step e w w') (hstep : C.Step e' w' m.world) (hΦ : (Φ e).settles (.ok v) e')
      (hp : m.world.executions[x.index]? = some p) (hf : p.fatal? = some fatal) :
      Concludes C x d Φ w m (.error (.defect fatal))
  | stalled {w' : World σ} {e e' : E} (hl : C.lax) (hbegun : C.Step e w w')
      (hstep : C.Step e' w' m.world) (hΦ : (Φ e).waits e')
      (hempty : (m.queue C.queue).tasks = []) : Concludes C x d Φ w m (.error .stalled)

theorem EngineFault.ofRejection_ofDefect (e : Defect) : ofRejection (.ofDefect e) = .defect e :=
  rfl

/-- Waiting for a report. -/
theorem ends_wait {final : Promise} {m : Machine Payload (World σ)} {w w' : World σ} {e : E}
    (hbegun : C.Step e w w')
    (h : EndsBy C.halt C.lax (fun limit => m.drain limit C.queue (.until final)) fun _ m' =>
      Leaves C x d (Φ e) final w' m') :
    (Report.wait C.queue final).EndsBy C.halt C.lax m fun res m' => Concludes C x d Φ w m' res := by
  refine Work.EndsBy.bind (Work.EndsBy.bind (Work.ends_drain (h.mono fun _ m' hm' => ?_)))
  refine Work.ends_pure (Work.EndsBy.bind (Work.ends_outcome.mpr (Work.ends_pure ?_)))
  cases hm' with
  | @settled v e p o hstep hφ hp hempty ho hverdict =>
    rw [ho]
    unfold Document.Verdict at hverdict
    cases hf : p.fatal? with
    | some fatal =>
      rw [hf] at hverdict
      subst hverdict
      refine Work.ends_pure (Work.ends_pure ?_)
      rw [EngineFault.ofWait, EngineFault.ofRejection_ofDefect]
      exact .defect hbegun hstep hφ hp hf
    | none =>
      rw [hf] at hverdict
      obtain ⟨r, rfl, hdata, hr, htally⟩ := hverdict
      exact Work.ends_pure (Work.ends_pure (.report hbegun hstep hφ hp hf hempty hdata hr htally))
  | waiting hl hstep hφ hempty ho =>
    rw [ho]
    exact Work.ends_pure (Work.ends_pure (.stalled hl hbegun hstep hφ hempty))

end

section

variable {H : Type} {halt : H → Halt} {lax : Prop} {m : Machine Payload (World σ)}

/-- One after another, where the first may end at a fault. -/
theorem Work.EndsBy.attempt_bind {a : Attempt σ α} {k : α → Attempt σ β}
    {Q : Except Fault β → Machine Payload (World σ) → Prop}
    (h : Work.EndsBy halt lax a.run m fun r m' =>
      match r with
      | .ok a => Work.EndsBy halt lax (k a).run m' Q
      | .error f => Q (.error f) m') : Work.EndsBy halt lax (a >>= k).run m Q := by
  refine Work.EndsBy.bind (h.mono fun r m' hr => ?_)
  cases r with
  | ok a => exact hr
  | error f => exact Work.ends_pure hr

theorem Work.EndsBy.ofRun {w : Run σ α} {Q : Except Fault α → Machine Payload (World σ) → Prop}
    (h : Work.EndsBy halt lax w m fun a m' => Q (.ok a) m') :
    Work.EndsBy halt lax (Attempt.ofRun w).run m Q :=
  Work.EndsBy.bind (h.mono fun _ _ ha => Work.ends_pure ha)

/-- What an outcome is to those who wait for a report. -/
def Report.read : Outcome Payload → Except EngineFault Report
  | .ok (.report r) => .ok r
  | .ok (.value _) => .error .stalled
  | .error f => .error (.ofRejection f)

/-- Waiting for a promise that is settled at once. -/
theorem ends_settled_wait {q : QueueId} {o : Outcome Payload}
    {Q : Except Fault (Except EngineFault Report) → Machine Payload (World σ) → Prop}
    (hQ : ∀ m', m'.world = m.world → Q (.ok (Report.read o)) m') :
    Work.EndsBy halt lax (do
      Attempt.ofRun (Report.wait q (← Attempt.ofRun (Promise.settled q o))) :
        Attempt σ _).run m Q := by
  refine Work.EndsBy.attempt_bind (Work.EndsBy.ofRun ?_)
  refine Work.ends_newPromise.mpr (Work.ends_settle.mpr (Work.ends_pure ?_))
  have hcell : (m.newPromise q).2.heap (.promise (m.newPromise q).1) =
      some (.cell ⟨q, none, []⟩) := by
    rw [Machine.heap_newPromise, Function.update_self]
  have hlt : (m.newPromise q).1.index < (m.newPromise q).2.cells.size := by
    simp [Machine.newPromise]
  have hsettled := (Machine.outcome?_settle hlt (Machine.outcome?_of_heap hcell) o).2
  refine Work.EndsBy.ofRun (Work.EndsBy.bind (Work.EndsBy.bind (Work.ends_drain ?_)))
  refine Machine.ends_drain_of_reached (by rw [Machine.reached, hsettled]; rfl) ?_
  refine Work.ends_pure (Work.EndsBy.bind (Work.ends_outcome.mpr (Work.ends_pure ?_)))
  have hworld : ((m.newPromise q).2.settle (m.newPromise q).1 o).2.world = m.world :=
    Machine.world_settle
  have hread := hQ _ hworld
  rw [hsettled]
  obtain f | (v | r) := o <;> exact Work.ends_pure (Work.ends_pure hread)

/-- A new execution starts with nothing met. -/
theorem ends_new {schema : Schema σ} {context : Context} {q : QueueId}
    {Q : Execution σ → Machine Payload (World σ) → Prop}
    (hQ : Q ⟨schema, context, q, m.world.executions.size⟩
      { m with world := { m.world with executions := m.world.executions.push {} } }) :
    (Execution.new schema context q).EndsBy halt lax m Q :=
  Work.ends_getWorld.mpr (Work.ends_setWorld.mpr (Work.ends_pure hQ))

end

section

variable {C : Terms (World σ) E} {x : Execution σ} {d : Document}
  {Φ : E → Prospect (Outcome Payload) E} {m : Machine Payload (World σ)} {ticks : Nat}

/-- Steps that give a promise under way to a report, on a queue without tasks, and then waiting. -/
theorem ends_expected {a : Attempt σ Promise} (hx : C.Hosts x)
    (ha : Does C .empty a.run fun r T h e => ∃ final, r = .ok final ∧
      Expected C x d (Φ e) final T h)
    (hΦ : ∀ e o e', (Φ e).settles o e' → ∃ v, o = .ok v) (hm : C.Ready m)
    (hq : m.heap (.queue C.queue) = some (.queue ⟨[], ticks⟩)) :
    Work.EndsBy C.halt C.lax (do Attempt.ofRun (Report.wait C.queue (← a)) : Attempt σ _).run m
      fun r m' => ∃ res, r = .ok res ∧ Concludes C x d Φ m.world m' res := by
  refine Work.EndsBy.attempt_bind ((ha m hm (Heap.empty_within _)).mono ?_)
  rintro _ m' ⟨T, h, e, he, hw, -, final, rfl, hexpected⟩
  obtain ⟨c, added, hc, hc', hadded⟩ := he.queue
  rw [hq] at hc
  cases hc
  have hends := hexpected.ends_drain hx (hΦ e) (he.ready hm) hc' (by simpa using hadded) hw
  exact Work.EndsBy.ofRun ((ends_wait he.step hends).mono fun res m'' hres => ⟨res, rfl, hres⟩)

variable (hx : C.Hosts x) (hqueries : x.Queries C d Φ)
  (hΦ : ∀ e o e', (Φ e).settles o e' → ∃ v, o = .ok v)
  (hm : C.Ready m) (hq : m.heap (.queue C.queue) = some (.queue ⟨[], ticks⟩))

include hx hqueries hΦ hm hq

/-- **Executing the queries of a document, and waiting for the report.** -/
theorem ends_document :
    Work.EndsBy C.halt C.lax (do
      Attempt.ofRun (Report.wait C.queue (← x.document d)) : Attempt σ _).run m
      fun r m' => ∃ res, r = .ok res ∧ Concludes C x d Φ m.world m' res := by
  refine ends_expected hx ((does_document hx hqueries).mono ?_) hΦ hm hq
  rintro _ T h e ⟨report, before, h₁, rfl, rfl, hn, ha⟩
  exact ⟨report, rfl, .report hn ha⟩

/-- **Executing the queries of a document, masking the report, and waiting for it.** -/
theorem ends_masked (r : Request) :
    Work.EndsBy C.halt C.lax (do
      let p ← x.document d
      let masked ← Attempt.ofRun (p.map r.mask)
      Attempt.ofRun (Report.wait C.queue masked) : Attempt σ _).run m
      fun res m' => ∃ y, res = .ok y ∧ Concludes C x d Φ m.world m' y := by
  rw [← bind_assoc]
  refine ends_expected hx (Does.attempt_bind ((does_document hx hqueries).mono ?_)) hΦ hm hq
  rintro _ T h e ⟨report, before, h₁, rfl, rfl, hn, ha⟩
  refine Does.ofRun ((does_mask hn).mono ?_)
  rintro masked _ _ _ ⟨rfl, rfl, hne, hn', rfl⟩
  refine ⟨masked, rfl, ?_⟩
  rw [add_zero, add_zero]
  exact .masked r hn hne hn' ha

end

end EntityQuery
