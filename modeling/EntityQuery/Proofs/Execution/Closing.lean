import EntityQuery.Proofs.Execution.Tracing
import EntityQuery.Proofs.Validation.Quiet

/-!
# How requests close

A request on a schema that keeps a log is refused by its validation, or it is executed: then it closes with
a report, at the first defect that it has met, or stalled.

* `Request.Rejected`, `Request.Refused`, `Request.Passes`: what becomes of the request before it is executed.
* `Request.Closes`: how it closes, with what has happened.
* **`ends_perform_closes`**: it closes so.
-/

namespace EntityQuery

open Lookup Execution Terms

variable {σ : Type}

/-- Validating the document meets a defect. -/
def Request.Rejected (r : Request) (schema : Schema σ) (s : Session σ) (e : Defect) : Prop :=
  r.options.skipValidation = false ∧ ∃ s', r.document.validate { schema } s = .error (.defect e) s'

/-- The document breaks rules, and `failures` says which. -/
def Request.Refused (r : Request) (schema : Schema σ) (s : Session σ) (failures : List Failure) :
    Prop :=
  r.options.skipValidation = false ∧ failures ≠ [] ∧
    ∃ s', r.document.validate { schema } s = .ok failures s'

/-- The request is executed: its document is not validated, or no rule is broken. -/
def Request.Passes (r : Request) (schema : Schema σ) (s : Session σ) : Prop :=
  r.options.skipValidation = true ∨ ∃ s', r.document.validate { schema } s = .ok [] s'

/-- How a request closes that starts in the session `s`, on a machine `m` at the end. -/
inductive Request.Closes (r : Request) (schema : Schema (Recorded σ)) (G : Guide (Recorded σ))
    (s : Session (Recorded σ)) (m : Machine Payload (World (Recorded σ))) :
    Except EngineFault Report → Prop
  | rejected {e : Defect} (hrejected : r.Rejected schema s e)
      (hlog : m.world.session.log = s.log) : Closes r schema G s m (.error (.defect e))
  | refused {report : Report} (hrefused : r.Refused schema s report.failures)
      (hlog : m.world.session.log = s.log) (hdata : report.data = none) :
      Closes r schema G s m (.ok report)
  /-- All queries have come to values, and no defect has been met. -/
  | reported {h : History} {report : Report} {data : Entries Json} (hpass : r.Passes schema s)
      (hlog : m.world.session.log = s.log ++ h.events)
      (htrail : r.document.Trail G schema r.context (h.placed s.log.length)) (hd : h.defects = [])
      (hdata : report.data = some data) : Closes r schema G s m (.ok report)
  /-- All queries have come to values, and a defect has been met. -/
  | failed {h : History} {e : Defect} (hpass : r.Passes schema s)
      (hlog : m.world.session.log = s.log ++ h.events)
      (htrail : r.document.Trail G schema r.context (h.placed s.log.length))
      (hd : h.defects.head? = some e) : Closes r schema G s m (.error (.defect e))
  /-- A query waits forever, and there are no more tasks. -/
  | stalled {h : History} (hpass : r.Passes schema s)
      (hlog : m.world.session.log = s.log ++ h.events) (hs : Stalled (h.placed s.log.length))
      (hdry : (m.queue ⟨0⟩).tasks = []) : Closes r schema G s m (.error .stalled)

section

variable {x : Execution (Recorded σ)} {Good : Session (Recorded σ) → Prop} {G : Guide (Recorded σ)}
  {d : Document}

/-- What the queries of a document come to, where they have begun with some entries of the history. -/
def Guide.queriesProspect (G : Guide (Recorded σ)) (x : Execution (Recorded σ)) (d : Document)
    (begun : Multiset Entry) : Prospect (Outcome Payload) (Multiset Entry) :=
  ⟨fun o t => (∃ v, o = .ok v) ∧ ∃ ns, Begun Event.OfRoot ns begun ∧
      Sequence (d.queries.map fun (name, q) => G.queryTrail x.schema x.context name q) ns
        (begun + t), fun t => Stalled (begun + t)⟩

/-- Entities are resolved at once, and fields later on. -/
theorem Document.trail_of_steps {begun t : Multiset Entry} {v : Payload}
    {w w' w'' : World (Recorded σ)} (hbegun : (x.logging Good).Step begun w w')
    (hstep : (x.logging Good).Step t w' w'')
    (h : (G.queriesProspect x d begun).settles (.ok v) t) :
    d.Trail G x.schema x.context (begun + t) := by
  obtain ⟨-, ns, hb, hs⟩ := h
  refine ⟨ns, hs, fun call reply k hmem hfield n hn => ?_⟩
  obtain ⟨e, he⟩ := hb.places n hn
  rcases Multiset.mem_add.mp hmem with hmem | hmem
  · exact absurd hfield (hb.kind _ _ hmem call reply rfl)
  · exact precedes_of_steps hbegun hstep e n he _ hmem

end

section

variable {schema : Schema (Recorded σ)} {Good : Session (Recorded σ) → Prop}
  {Known : Entity (Recorded σ) → Prop} {G : Guide (Recorded σ)} {r : Request}
  {s : Session (Recorded σ)} (hG : G.Steers schema Good Known)
  (hroot : ∀ x : Execution (Recorded σ), x.schema = schema → ∀ name q,
    (name, q) ∈ r.document.queries → (x.root q).Upholds Good (G.Roots Known q))

include hG hroot

/-- Executing a request, once it has passed its validation. -/
theorem ends_executeMasked_closes {m : Machine Payload (World (Recorded σ))}
    (hpass : r.Passes schema s) (hm : Good m.world.session) (hlog : m.world.session.log = s.log)
    (hfresh : m.world.executions = #[])
    (hq : m.heap (.queue ⟨0⟩) = some (.queue ⟨[], 0⟩)) :
    Work.EndsBy id True (do
      Attempt.ofRun (Report.wait ⟨0⟩ (← r.executeMasked schema ⟨0⟩)) :
        Attempt (Recorded σ) _).run m
      fun res m' => ∀ y, res = .ok y → r.Closes schema G s m' y := by
  rw [Request.executeMasked, Request.execute, bind_assoc, bind_assoc]
  refine Work.EndsBy.attempt_bind (Work.EndsBy.ofRun (ends_new ?_))
  rw [hfresh]
  let x : Execution (Recorded σ) := ⟨schema, r.context, ⟨0⟩, 0⟩
  let m₁ : Machine Payload (World (Recorded σ)) :=
    { m with world := { m.world with executions := #[{}] } }
  have hready : (x.logging Good).Ready m₁ := ⟨⟨_, hq⟩, hm, _, rfl⟩
  have hqueries : x.Queries (x.logging Good) r.document (G.queriesProspect x r.document) :=
    queries_trace hG (hroot x rfl)
  refine (ends_masked hosts_logging hqueries (fun _ _ _ h => h.1) hready hq r).mono ?_
  rintro _ m' ⟨y, rfl, hy⟩ _ he
  cases he
  have combined : ∀ {begun t : Multiset Entry} {w' : World (Recorded σ)},
      (x.logging Good).Step begun m₁.world w' → (x.logging Good).Step t w' m'.world →
      ∃ h : History, m'.world.session.log = s.log ++ h.events ∧
        begun + t = (h.placed s.log.length : Multiset Entry) ∧
        ∀ p, m'.world.executions[0]? = some p → p.fatal? = h.defects.head? := by
    intro begun t w' hbegun hstep
    obtain ⟨-, p, p', h, hp, hp', hf, hevents, ht⟩ := (x.logging Good).step_add hbegun hstep
    have hw : m₁.world.session.log = s.log := hlog
    rw [hw] at hevents ht
    refine ⟨h, hevents, ht, fun p'' hp'' => ?_⟩
    cases hp
    cases hp'.symm.trans hp''
    exact hf
  cases hy with
  | report hbegun hstep hΦ hp hf _ hdata hr _ =>
    obtain ⟨h, hevents, ht, hfatal⟩ := combined hbegun hstep
    have htrail := Document.trail_of_steps hbegun hstep hΦ
    rw [ht] at htrail
    exact .reported hpass hevents htrail (List.head?_eq_none_iff.mp ((hfatal _ hp).symm.trans hf)) hdata
  | defect hbegun hstep hΦ hp hf =>
    obtain ⟨h, hevents, ht, hfatal⟩ := combined hbegun hstep
    have htrail := Document.trail_of_steps hbegun hstep hΦ
    rw [ht] at htrail
    exact .failed hpass hevents htrail ((hfatal _ hp).symm.trans hf)
  | stalled hl hbegun hstep hΦ hempty =>
    obtain ⟨h, hevents, ht, -⟩ := combined hbegun hstep
    have hstalled : Stalled (h.placed s.log.length : Multiset Entry) := ht ▸ hΦ
    exact .stalled hpass hevents hstalled hempty

omit hG hroot in
/-- Using the schema, however that ends. -/
theorem ends_anyConsult {α : Type} {lookup : Lookup (Recorded σ) α}
    {m : Machine Payload (World (Recorded σ))}
    {Q : Except Fault (Except Defect α) → Machine Payload (World (Recorded σ)) → Prop}
    (hok : ∀ a s', lookup m.world.session = .ok a s' →
      Q (.ok (.ok a)) { m with world := { m.world with session := s' } })
    (hdefect : ∀ e s', lookup m.world.session = .error (.defect e) s' →
      Q (.ok (.error e)) { m with world := { m.world with session := s' } })
    (hfault : ∀ f s', lookup m.world.session = .error (.fault f) s' →
      Q (.error f) { m with world := { m.world with session := s' } }) :
    Work.EndsBy id True (Attempt.consult lookup).run m Q := by
  refine Work.ends_getWorld.mpr ?_
  cases h : lookup m.world.session with
  | ok a s' => exact Work.ends_setWorld.mpr (Work.ends_pure (hok a s' h))
  | error e s' =>
    cases e with
    | defect d => exact Work.ends_setWorld.mpr (Work.ends_pure (hdefect d s' h))
    | fault f => exact Work.ends_setWorld.mpr (Work.ends_pure (hfault f s' h))
    | exhausted => exact Work.ends_setWorld.mpr (Work.ends_halt (p := Halt.exhausted) trivial)

/-- **A request closes in one of these ways.** -/
theorem ends_perform_closes (hs : Good s)
    (hvalid : (r.document.validate { schema }).Upholds Good fun _ => True) :
    Work.EndsBy id True (r.perform schema).run (Machine.start { session := s })
      fun res m => ∀ y, res = .ok y → r.Closes schema G s m y := by
  refine Work.EndsBy.attempt_bind (Work.EndsBy.ofRun (Work.ends_newQueue.mpr (Work.ends_pure ?_)))
  let m : Machine Payload (World (Recorded σ)) :=
    (Machine.start ({ session := s } : World (Recorded σ))).newQueue.2
  have hq : m.heap (.queue ⟨0⟩) = some (.queue ⟨[], 0⟩) := rfl
  change Work.EndsBy id True (do
    Attempt.ofRun (Report.wait ⟨0⟩ (← r.start schema ⟨0⟩)) : Attempt (Recorded σ) _).run m _
  unfold Request.start
  cases hskip : r.options.skipValidation with
  | true =>
    exact ends_executeMasked_closes hG hroot (.inl hskip) hs rfl rfl hq
  | false =>
    simp only [Bool.false_eq_true, if_false]
    rw [bind_assoc]
    have hquiet := Document.quiet_validate (v := { schema }) hG.records r.document s
    have hgood := hvalid s hs
    unfold Lookup.after at hquiet
    refine Work.EndsBy.attempt_bind (ends_anyConsult (fun failures s' hv => ?_)
      (fun e s' hv => ?_) fun f s' _ y he => ?_)
    · have hv : r.document.validate { schema } s = .ok failures s' := hv
      rw [hv] at hquiet hgood
      cases failures with
      | nil => exact ends_executeMasked_closes hG hroot (.inr ⟨s', hv⟩) hgood.1 hquiet rfl hq
      | cons f fs =>
        refine ends_settled_wait fun m' hm' y he => ?_
        cases he
        exact .refused ⟨hskip, List.cons_ne_nil f fs, s', hv⟩ (by rw [hm']; exact hquiet) rfl
    · have hv : r.document.validate { schema } s = .error (.defect e) s' := hv
      rw [hv] at hquiet
      refine ends_settled_wait fun m' hm' y he => ?_
      cases he
      exact .rejected ⟨hskip, s', hv⟩ (by rw [hm']; exact hquiet)
    · cases he

end

end EntityQuery
