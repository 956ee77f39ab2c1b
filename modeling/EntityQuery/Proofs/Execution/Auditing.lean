import EntityQuery.Proofs.Execution.Accounting
import EntityQuery.Proofs.Execution.Agreement
import EntityQuery.Proofs.Execution.Once

/-!
# Auditing reports

The report of an execution is drawn up once, at the end. Nothing is missing from it: it says what the
document comes to, and its counts and failures are those of all calls that have been made.

* `Document.Audited`: what there is to the report of an execution.
* `Concludes.audited`, **`ends_execute_audited`**: it is so at the end of each execution.
* **`reports_account_for_fields`**: what is counted in a report.
-/

namespace EntityQuery

open Lookup Session Execution Schema Terms

variable {σ : Type}

/-! ## What is noted down -/

/-- How often something has been counted. -/
def Tally.of (t : Tally) : Count → Nat
  | .query => t.queries
  | .execution => t.executed
  | .completion => t.completed
  | .failure => t.failed

@[simp] theorem Tally.of_addTicks (t : Tally) (n : Nat) (c : Count) : (t.addTicks n).of c = t.of c := by
  cases c <;> rfl

theorem Count.of_add (c c' : Count) (t : Tally) :
    (c'.add t).of c = t.of c + if c' = c then 1 else 0 := by
  cases c <;> cases c' <;> rfl

namespace Progress

@[simp] theorem noteAll_nil (p : Progress) : p.noteAll [] = p := rfl

@[simp] theorem noteAll_cons (p : Progress) (note : Note) (notes : List Note) :
    p.noteAll (note :: notes) = (p.note note).noteAll notes := rfl

/-- The failures that are noted down are kept, in order. -/
theorem failures_noteAll (p : Progress) (notes : List Note) :
    (p.noteAll notes).failures = p.failures ++ notes.filterMap Note.failure? := by
  induction notes generalizing p with
  | nil => simp
  | cons note rest ih =>
    rw [noteAll_cons, ih]
    cases note <;> simp [Progress.note, List.filterMap_cons, Note.failure?]

/-- The tally counts what is noted down as counted. -/
theorem tally_noteAll (p : Progress) (notes : List Note) (c : Count) :
    (p.noteAll notes).tally.of c = p.tally.of c + notes.countP (Note.counts c) := by
  induction notes generalizing p with
  | nil => rfl
  | cons note rest ih =>
    rw [noteAll_cons, ih, List.countP_cons]
    cases note with
    | counted c' =>
      rw [show (p.note (.counted c')).tally = c'.add p.tally from rfl, Count.of_add]
      simp only [Note.counts, decide_eq_true_eq]
      omega
    | kept r f => rfl

end Progress

/-- Each failure is kept for one reason. -/
theorem Note.length_failures (notes : List Note) :
    (notes.filterMap failure?).length =
      notes.countP (keeps .field) + notes.countP (keeps .query) + notes.countP (keeps .lack) := by
  induction notes with
  | nil => rfl
  | cons note rest ih =>
    cases note with
    | counted c => simpa [List.filterMap_cons, failure?, keeps] using ih
    | kept r f => cases r <;> simp [failure?, keeps, ih] <;> omega

/-- The calls of fields in what is added to a log. -/
theorem History.countP_placed (n : Nat) (added : List Event) :
    (History.placed n (added.map .event)).countP Entry.callsField = added.countP Event.callsField := by
  induction added generalizing n with
  | nil => rfl
  | cons e rest ih =>
    rw [List.map_cons, placed, List.countP_cons, List.countP_cons, ih]
    rfl

namespace Books

variable (log : List Entry) (notes : List Note)

theorem count_coe (c : Count) : count (log, (notes : Multiset Note)) c = notes.countP (Note.counts c) := by
  simp [count]

theorem kept_coe (r : Reason) : kept (log, (notes : Multiset Note)) r = notes.countP (Note.keeps r) := by
  simp [kept]

theorem calls_coe : calls ((log : Multiset Entry), notes) = log.countP Entry.callsField := by
  simp [calls]

end Books

/-! ## Reports -/

/-- What there is to the report of an execution of a document from the world `w` on, on a queue `q`, in
the sessions that are like `s`; it ends on the machine `m`, when `added` has been added to the log and
`notes` have been noted down. -/
structure Document.Audited (d : Document) (schema : Schema (Recorded σ)) (s : Session (Recorded σ))
    (context : Context) (w : World (Recorded σ)) (q : QueueId)
    (m : Machine Payload (World (Recorded σ))) (report : Report) (data : Entries Json)
    (added : List Event) (notes : List Note) : Prop where
  reports : report.data = some data
  log : m.world.session.log = w.session.log ++ added
  account : d.Account schema s context data
    ((History.placed w.session.log.length (added.map .event) : Multiset Entry),
      (notes : Multiset Note))
  /-- What has been noted down for the document when all is done. -/
  progress : m.world.executions[w.executions.size]? = some (({} : Progress).noteAll notes)
  /-- The report has all of it. -/
  failures : report.failures = (({} : Progress).noteAll notes).failures
  tally : ∃ ticks, report.tally = (({} : Progress).noteAll notes).tally.addTicks ticks
  /-- There is nothing left to do. -/
  idle : (m.queue q).tasks = []

section

variable {schema : Schema (Recorded σ)} {s : Session (Recorded σ)} {types : Entries NamedType}
  {d : Document} {m : Machine Payload (World (Recorded σ))} {q : QueueId} {ticks : Nat}

/-- **An execution that comes to a report is as its account says.** -/
theorem ends_execute_audited (hp : schema.Plain) (hrec : schema.Records) (hs : schema.Sound types s)
    (hr : d.Rooted schema types s) (hm : s.Alike m.world.session)
    (hq : m.heap (.queue q) = some (.queue ⟨[], ticks⟩)) (context : Context) :
    Work.EndsBy id True (do
      Attempt.ofRun (Report.wait q (← Request.execute schema q d context)) :
        Attempt (Recorded σ) _).run m
      fun r m' => ∀ report, r = .ok (.ok report) → ∃ data added notes,
        d.Audited schema s context m.world q m' report data added notes := by
  rw [Request.execute, bind_assoc]
  refine Work.EndsBy.attempt_bind (Work.EndsBy.ofRun (ends_new ?_))
  let x : Execution (Recorded σ) := ⟨schema, context, q, m.world.executions.size⟩
  let m₁ : Machine Payload (World (Recorded σ)) :=
    { m with world := { m.world with executions := m.world.executions.push {} } }
  have hfresh : m₁.world.executions[x.index]? = some {} := by simp [x, m₁]
  have hready : (x.accounting s).Ready m₁ := ⟨⟨_, hq⟩, hm, _, hfresh⟩
  have hqueries := queries_account (x := x) hp hrec hs hr
  refine (ends_document hosts_accounting hqueries ?_ hready hq).mono ?_
  · rintro _ _ _ ⟨ns, us, rfl, -⟩
    exact ⟨_, rfl⟩
  rintro _ m' ⟨res, rfl, hres⟩ report he
  cases he
  cases hres with
  | report hbegun hstep hΦ hprogress _ hempty hdata hfailures htally =>
    obtain ⟨ns, us, hv, hseries⟩ := hΦ
    cases hv
    obtain ⟨-, p, added, notes, hp₀, hp', hlog, hbooks⟩ := (x.accounting s).step_add hbegun hstep
    cases hfresh.symm.trans hp₀
    cases hp'.symm.trans hprogress
    have hid : us.map (Payload.json ∘ Payload.value) = us := List.map_id us
    rw [Payload.items_bundle, List.map_map, hid] at hdata
    exact ⟨_, added, notes, hdata, hlog, ⟨ns, us, hbooks ▸ hseries, rfl⟩, hp', hfailures, htally, hempty⟩

end

/-- **Metrics and failures account for every field.** Once the schema has been built without a loader, an
execution that comes to a report has an account, which says what has been called, what has been counted
and which failures have been kept and why. In the report, all queries of the document are counted; the
fields that are executed are those that come to a value and those that fail, and they are the calls of
attributes, acts and links; there is a failure for each field that fails, for each query that names no
entity or whose entity fails, and for each field that an entity does not have. Nothing is added after the
report has been drawn up: it says all that has been noted down when no task is left. -/
theorem reports_account_for_fields {schema : Schema σ} (hl : schema.loader? = none)
    {declared : List Ty} {app : Recorded σ} {s : Session (Recorded σ)}
    (hbuild : schema.recorded.build declared false { app } = .ok () s) (d : Document)
    (context : Context) {m m' : Machine Payload (World (Recorded σ))} (hm : s.Alike m.world.session)
    {q : QueueId} {ticks limit : Nat} (hq : m.queues[q.index]? = some ⟨[], ticks⟩) {report : Report}
    (hrun : m.run limit (do
        Attempt.ofRun (Report.wait q (← Request.execute schema.recorded q d context)) :
          Attempt (Recorded σ) (Except EngineFault Report)).run = .done (.ok (.ok report)) m') :
    ∃ data added notes, d.Audited schema.recorded s context m.world q m' report data added notes ∧
      report.tally.queries = d.queries.length ∧
      report.tally.executed = report.tally.completed + report.tally.failed ∧
      report.tally.executed = added.countP Event.callsField ∧
      report.failures = notes.filterMap Note.failure? ∧
      report.failures.length = report.tally.failed + notes.countP (Note.keeps .query) +
        notes.countP (Note.keeps .lack) := by
  obtain ⟨hp, types, hs, hr⟩ := Schema.serves_of_build (schema.loader?_recorded hl) hbuild
  have hends := (ends_execute_audited hp schema.records_recorded hs (hr d) hm
    (Machine.heap_of_queues hq) context).of_done hrun
  obtain ⟨data, added, notes, haudited⟩ := hends report rfl
  obtain ⟨hqueries, hcalls, hfields, hkept⟩ := haudited.account.balances
  simp only [Books.count_coe, Books.calls_coe, Books.kept_coe, History.countP_placed]
    at hqueries hcalls hfields hkept
  obtain ⟨elapsed, htally⟩ := haudited.tally
  have counted : ∀ c, report.tally.of c = notes.countP (Note.counts c) := by
    intro c
    rw [htally, Tally.of_addTicks, Progress.tally_noteAll]
    cases c <;> exact Nat.zero_add _
  have hfailures : report.failures = notes.filterMap Note.failure? := by
    rw [haudited.failures, Progress.failures_noteAll, List.nil_append]
  have hexecuted : report.tally.executed = _ := counted .execution
  have hcompleted : report.tally.completed = _ := counted .completion
  have hfailed : report.tally.failed = _ := counted .failure
  refine ⟨data, added, notes, haudited, (counted .query).trans hqueries, ?_,
    hexecuted.trans hcalls, hfailures, ?_⟩
  · rw [hexecuted, hcompleted, hfailed, hfields]
  · rw [hfailures, Note.length_failures, hkept, hfailed]

namespace Sample

/-- An execution of the document on an idle queue. -/
def executed : Ended Payload (World (Recorded Unit)) (Except Fault (Except EngineFault Report)) :=
  (Machine.start { session := recordedSession }).newQueue.2.run 100 (do
    let p ← Request.execute (schema "key").recorded ⟨0⟩ document {}
    Attempt.ofRun (Report.wait ⟨0⟩ p) : Attempt (Recorded Unit) (Except EngineFault Report)).run

theorem executed_eq : ∃ report m, executed = .done (.ok (.ok report)) m ∧
    (report.tally.completed, report.tally.failed, report.failures.length) = (3, 2, 3) := by
  have hreport : executed.report?.map
      (fun r => (r.tally.completed, r.tally.failed, r.failures.length)) = some (3, 2, 3) := by
    decide +kernel
  obtain ⟨report, hsome, hcounts⟩ := Option.map_eq_some_iff.mp hreport
  obtain ⟨m, hrun⟩ := Ended.exists_of_report? hsome
  exact ⟨report, m, hrun, hcounts⟩

end Sample

/-- Of five fields two fail: the key is refused, and one of two friends has no name. The age is lacking. -/
theorem reports_account_for_fields_sample : ∃ report m data added notes,
    Sample.executed = .done (.ok (.ok report)) m ∧
      Sample.document.Audited (Sample.schema "key").recorded Sample.recordedSession {}
        { session := Sample.recordedSession } ⟨0⟩ m report data added notes ∧
      report.tally.queries = 1 ∧ report.tally.executed = 5 ∧ report.tally.completed = 3 ∧
      report.tally.failed = 2 ∧ added.countP Event.callsField = 5 ∧ report.failures.length = 3 ∧
      notes.countP (Note.keeps .query) + notes.countP (Note.keeps .lack) = 1 := by
  obtain ⟨report, m, hrun, hcounts⟩ := Sample.executed_eq
  obtain ⟨hcompleted, hcounts⟩ := Prod.mk.inj hcounts
  obtain ⟨hfailed, hlength⟩ := Prod.mk.inj hcounts
  obtain ⟨data, added, notes, haudited, hqueries, hfields, hcalls, -, hfailures⟩ :=
    reports_account_for_fields rfl (Sample.recorded_built "key") Sample.document {}
      (.refl Sample.recordedSession) (q := ⟨0⟩) rfl hrun
  refine ⟨report, m, data, added, notes, hrun, haudited, hqueries, ?_, hcompleted, hfailed, ?_, hlength, ?_⟩
  all_goals omega

end EntityQuery
