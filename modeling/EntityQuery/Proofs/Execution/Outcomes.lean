import EntityQuery.Proofs.Execution.Once

/-!
# Outcomes of requests

Whatever the schema, the document and the resolvers are, a request that comes to an answer is rejected or
refused by its validation, ends at the first defect that is met, is stalled, or comes to a report with data;
and what happens tells which of these it is, if the loader of the schema never panics.

* `Lookup.Reaches`: how a computation may end. `Schema.routes`: where queries and links may lead.
* `Schema.Peaceful.steers`: where the loader never panics, the schema leads there.
* `Request.Outcome`: which outcome a request has. **`request_outcome`**: it has that one.
* `defect_after_report`: where the loader panics, a defect may be met when there is a report already.
-/

namespace EntityQuery

open Lookup Execution

variable {σ α : Type}

/-! ## Where schemas may lead -/

/-- In some session the computation ends so. -/
inductive Lookup.Reaches (x : Lookup σ α) : Except Stop α → Prop
  | ok {s s' : Session σ} {a : α} (h : x s = .ok a s') : Reaches x (.ok a)
  | error {s s' : Session σ} {e : Stop} (h : x s = .error e s') : Reaches x (.error e)

/-- The defect at which a computation has stopped, if it has stopped at one. -/
def Stop.defect? : Except Stop α → Option Defect
  | .error (.defect d) => some d
  | _ => none

/-- Giving a value the type of an attribute may meet this defect, or none. -/
inductive Attribute.Coerces (schema : Schema σ) (a : Attribute σ) (v : Json) : Option Defect → Prop
  | untyped (ht : a.type? = none) : Coerces schema a v none
  | unresolved {r : TypeRef} {e : Stop} (ht : a.type? = some r)
      (hr : (r.resolve schema schema.find).Reaches (.error e)) :
      Coerces schema a v (Stop.defect? (.error e : Except Stop Ty))
  | resolved {r : TypeRef} {t : Ty} {end' : Except Stop Json} (ht : a.type? = some r)
      (hr : (r.resolve schema schema.find).Reaches (.ok t))
      (hs : (t.serialize schema schema.find v).Reaches end') :
      Coerces schema a v (Stop.defect? end')

/-- Queries and links lead to what looking it up may come to, in one session or another. -/
def Schema.routes (schema : Schema σ) : Guide σ where
  finds q r := ∃ x : Execution σ, x.schema = schema ∧ (x.root q).Reaches (r.mapError .defect)
  leads e l r := ∃ found : Except Defect (NamedType × Entity σ), r = found.map Prod.snd ∧
    (l.follow schema schema.find e.name).Reaches (found.mapError .defect)
  coerces a v d? := a.Coerces schema v d?

/-- Any computation, in any session, ends as it may end. -/
theorem Lookup.upholds_reaches {x : Lookup σ α} {R : Except Stop α → Prop}
    (hR : ∀ r, x.Reaches r → R r) : x.Upholds (fun _ => True) R := by
  intro s _
  cases h : x s with
  | ok a s' => exact ⟨trivial, hR _ (.ok h)⟩
  | error e s' => exact ⟨trivial, hR _ (.error h)⟩

theorem Lookup.Faultless.not_reaches {x : Lookup σ α} (hx : x.Faultless) (f : Fault) :
    ¬ x.Reaches (.error (.fault f)) := by
  rintro ⟨⟩
  next s s' h => exact hx s f s' h

/-! ## Any schema whose loader never panics -/

theorem Loading.Peaceful.recorded {l : Loading σ} (hl : l.Peaceful) : l.recorded.Peaceful := by
  induction hl with
  | done found => exact .done found
  | step _ ih => exact .step fun s => ih s.app
  | find name _ ih => exact .find name ih
  | scan _ ih => exact .scan ih

theorem Schema.Peaceful.recorded {schema : Schema σ} (h : schema.Peaceful) :
    schema.recorded.Peaceful := by
  intro loader hloader name
  obtain ⟨l, hl, rfl⟩ := Option.map_eq_some_iff.mp hloader
  exact (h l hl name).recorded

/-- An entity of the schema. -/
def Schema.Has (schema : Schema σ) (e : Entity σ) : Prop := ∃ t, schema.entity? t = some e

/-- An entity that a query may name is one of the schema. -/
theorem Execution.has_of_root {x : Execution σ} {q : Query} {e : Entity σ}
    (h : (x.root q).Reaches (.ok (some e))) : x.schema.Has e := by
  rcases h with ⟨h⟩
  unfold Execution.root at h
  cases hn : q.typeName with
  | none =>
    rw [hn] at h
    cases h
  | some name =>
    rw [hn] at h
    obtain ⟨t?, s₁, -, h₂⟩ := bind_eq_ok.mp h
    have ht : t?.bind x.schema.entity? = some e := (EStateM.Result.ok.inj h₂).1
    obtain ⟨t, -, ht⟩ := Option.bind_eq_some_iff.mp ht
    exact ⟨t, ht⟩

namespace Schema.Peaceful

variable {schema : Schema (Recorded σ)} (hl : schema.Peaceful)

include hl

/-- **Where the loader never panics, the schema leads where lookups may lead.** -/
theorem steers (hrec : schema.Records) : schema.routes.Steers schema (fun _ => True) schema.Has where
  records := hrec
  setApp _ _ _ := trivial
  known _ h := h
  untyped _ _ _ _ ht _ := .untyped ht
  resolve _ _ a _ r hr v := by
    refine upholds_reaches fun end' hend => ?_
    cases end' with
    | error e => cases e <;> first | exact .unresolved hr hend | trivial
    | ok t =>
      refine upholds_reaches fun end' hs => ?_
      rcases end' with (_ | _ | _) | _ <;> first | exact .resolved hr hend hs | trivial
  follow e _ l _ := by
    refine upholds_reaches fun end' hend => ?_
    rcases end' with (d | f | _) | ⟨t, target⟩
    · exact ⟨.error d, rfl, hend⟩
    · exact ((closed_faultless schema).follow hl.loads e.name l).not_reaches f hend
    · trivial
    · rcases hend with ⟨h⟩
      exact ⟨⟨t, (follow_eq_ok h).2⟩, .ok (t, target), rfl, .ok h⟩

theorem upholds_root {x : Execution (Recorded σ)} (hx : x.schema = schema) (q : Query) :
    (x.root q).Upholds (fun _ => True) (schema.routes.Roots schema.Has q) := by
  refine upholds_reaches fun end' hend => ?_
  rcases end' with (d | f | _) | e?
  · exact ⟨x, hx, hend⟩
  · exact ((closed_faultless schema).root hl.loads hx q).not_reaches f hend
  · trivial
  · refine ⟨?_, x, hx, hend⟩
    rintro e rfl
    exact hx ▸ has_of_root hend

end Schema.Peaceful

/-! ## Outcomes -/

/-- A resolver has answered with a promise of the execution's queue that nothing settles. -/
def History.Stuck (h : History) : Prop := ∃ call, .called call (.stuck .own) ∈ h.events

theorem History.stalled_iff {h : History} {n : Nat} :
    Stalled (h.placed n : Multiset Entry) ↔ h.Stuck := by
  constructor
  · rintro ⟨call, k, hmem⟩
    exact ⟨call, (event_mem_placed (Multiset.mem_coe.mp hmem)).2⟩
  · rintro ⟨call, hmem⟩
    obtain ⟨k, hk⟩ := exists_event_mem_placed n hmem
    exact ⟨call, k, Multiset.mem_coe.mpr hk⟩

/-- Where a document has left its trail, nothing keeps its execution waiting. -/
theorem Document.Trail.not_stuck {d : Document} {G : Guide σ} {schema : Schema σ} {context : Context}
    {h : History} {n : Nat} (ht : d.Trail G schema context (h.placed n)) : ¬ h.Stuck := by
  obtain ⟨ns, hs, -⟩ := ht
  exact fun hstuck => hs.not_stalled (History.stalled_iff.mpr hstuck)

namespace Request

section

variable {r : Request} {schema : Schema σ} {s : Session σ} {e e' : Defect} {fs fs' : List Failure}

theorem Rejected.unique (h : r.Rejected schema s e) (h' : r.Rejected schema s e') : e = e' := by
  obtain ⟨-, s₁, hv⟩ := h
  obtain ⟨-, s₂, hv'⟩ := h'
  cases hv.symm.trans hv'
  rfl

theorem Refused.unique (h : r.Refused schema s fs) (h' : r.Refused schema s fs') : fs = fs' := by
  obtain ⟨-, -, s₁, hv⟩ := h
  obtain ⟨-, -, s₂, hv'⟩ := h'
  cases hv.symm.trans hv'
  rfl

theorem Rejected.not_refused (h : r.Rejected schema s e) : ¬ r.Refused schema s fs := by
  obtain ⟨-, s₁, hv⟩ := h
  rintro ⟨-, -, s₂, hv'⟩
  cases hv.symm.trans hv'

theorem Rejected.not_passes (h : r.Rejected schema s e) : ¬ r.Passes schema s := by
  obtain ⟨hskip, s₁, hv⟩ := h
  rintro (hskip' | ⟨s₂, hv'⟩)
  · cases hskip.symm.trans hskip'
  · cases hv.symm.trans hv'

theorem Refused.not_passes (h : r.Refused schema s fs) : ¬ r.Passes schema s := by
  obtain ⟨hskip, hne, s₁, hv⟩ := h
  rintro (hskip' | ⟨s₂, hv'⟩)
  · cases hskip.symm.trans hskip'
  · cases hv.symm.trans hv'
    exact hne rfl

end

/-- What a request comes to that starts in the session `s`, where `h` is what happens in its execution, and
`m` is the machine at the end. -/
structure Outcome (r : Request) (schema : Schema (Recorded σ)) (s : Session (Recorded σ))
    (m : Machine Payload (World (Recorded σ))) (h : History) (y : Except EngineFault Report) : Prop where
  log : m.world.session.log = s.log ++ h.events
  /-- A request that is not executed calls nothing. -/
  nothing : ¬ r.Passes schema s → h = []
  /-- What happens in an execution is what the document asks for. -/
  trail : r.Passes schema s → ¬ h.Stuck →
    r.document.Trail schema.routes schema r.context (h.placed s.log.length)
  not_internal : ∀ f, y ≠ .error (.internal f)
  refused : ∀ fs, (∃ report, y = .ok report ∧ report.data = none ∧ report.failures = fs) ↔
    r.Refused schema s fs
  defect : ∀ e, y = .error (.defect e) ↔
    r.Rejected schema s e ∨ (r.Passes schema s ∧ ¬ h.Stuck ∧ h.defects.head? = some e)
  stalled : y = .error .stalled ↔ r.Passes schema s ∧ h.Stuck
  /-- The queue has run dry where the request is stalled. -/
  dry : y = .error .stalled → (m.queue ⟨0⟩).tasks = []
  reported : (∃ report data, y = .ok report ∧ report.data = some data) ↔
    r.Passes schema s ∧ ¬ h.Stuck ∧ h.defects = []

section

variable {r : Request} {schema : Schema (Recorded σ)} {s : Session (Recorded σ)}
  {m : Machine Payload (World (Recorded σ))} {h : History}

theorem outcome_of_rejected {e : Defect} (hrejected : r.Rejected schema s e)
    (hlog : m.world.session.log = s.log) : r.Outcome schema s m [] (.error (.defect e)) where
  log := hlog.trans (List.append_nil _).symm
  nothing _ := rfl
  trail hpass := absurd hpass hrejected.not_passes
  not_internal f h := by cases h
  refused fs := ⟨fun ⟨_, h, _⟩ => (by cases h), fun h => absurd h hrejected.not_refused⟩
  defect e' := by
    refine ⟨fun h => ?_, ?_⟩
    · cases h
      exact .inl hrejected
    · rintro (h | ⟨hpass, -⟩)
      · rw [hrejected.unique h]
      · exact absurd hpass hrejected.not_passes
  stalled := ⟨fun h => (by cases h), fun ⟨hpass, _⟩ => absurd hpass hrejected.not_passes⟩
  dry h := by cases h
  reported := ⟨fun ⟨_, _, h, _⟩ => (by cases h), fun ⟨hpass, _⟩ => absurd hpass hrejected.not_passes⟩

theorem outcome_of_refused {report : Report} (hrefused : r.Refused schema s report.failures)
    (hlog : m.world.session.log = s.log) (hdata : report.data = none) :
    r.Outcome schema s m [] (.ok report) where
  log := hlog.trans (List.append_nil _).symm
  nothing _ := rfl
  trail hpass := absurd hpass hrefused.not_passes
  not_internal f h := by cases h
  refused fs := by
    refine ⟨?_, fun h => ⟨report, rfl, hdata, hrefused.unique h⟩⟩
    rintro ⟨_, ⟨⟩, -, rfl⟩
    exact hrefused
  defect e := by
    refine ⟨fun h => (by cases h), ?_⟩
    rintro (h | ⟨hpass, -⟩)
    · exact absurd hrefused h.not_refused
    · exact absurd hpass hrefused.not_passes
  stalled := ⟨fun h => (by cases h), fun ⟨hpass, _⟩ => absurd hpass hrefused.not_passes⟩
  dry h := by cases h
  reported := by
    refine ⟨?_, fun ⟨hpass, _⟩ => absurd hpass hrefused.not_passes⟩
    rintro ⟨_, data, ⟨⟩, hsome⟩
    cases hdata.symm.trans hsome

/-- The queries have come to values, and the first defect, if one has been met, is the answer. -/
theorem outcome_of_concluded {y : Except EngineFault Report} (hpass : r.Passes schema s)
    (hlog : m.world.session.log = s.log ++ h.events)
    (htrail : r.document.Trail schema.routes schema r.context (h.placed s.log.length))
    (hy : match h.defects.head? with
      | some e => y = .error (.defect e)
      | none => ∃ report data, y = .ok report ∧ report.data = some data) :
    r.Outcome schema s m h y where
  log := hlog
  nothing hnot := absurd hpass hnot
  trail _ _ := htrail
  not_internal f hf := by
    subst hf
    cases hd : h.defects.head? <;> simp [hd] at hy
  refused fs := by
    refine ⟨?_, fun hrefused => absurd hpass hrefused.not_passes⟩
    rintro ⟨report, rfl, hnone, -⟩
    cases hd : h.defects.head? <;> simp [hd, hnone] at hy
  defect e := by
    constructor
    · rintro rfl
      refine .inr ⟨hpass, htrail.not_stuck, ?_⟩
      cases hd : h.defects.head? with
      | none => simp [hd] at hy
      | some e' => simp_all
    · rintro (hrejected | ⟨-, -, hd⟩)
      · exact absurd hpass hrejected.not_passes
      · simpa [hd] using hy
  stalled := by
    refine ⟨?_, fun ⟨_, hstuck⟩ => absurd hstuck htrail.not_stuck⟩
    rintro rfl
    cases hd : h.defects.head? <;> simp [hd] at hy
  dry hy' := by
    subst hy'
    cases hd : h.defects.head? <;> simp [hd] at hy
  reported := by
    constructor
    · rintro ⟨report, data, rfl, -⟩
      refine ⟨hpass, htrail.not_stuck, ?_⟩
      cases hd : h.defects.head? with
      | none => exact List.head?_eq_none_iff.mp hd
      | some e => simp [hd] at hy
    · rintro ⟨-, -, hd⟩
      simpa [hd] using hy

theorem outcome_of_stalled (hpass : r.Passes schema s)
    (hlog : m.world.session.log = s.log ++ h.events) (hstuck : h.Stuck)
    (hdry : (m.queue ⟨0⟩).tasks = []) : r.Outcome schema s m h (.error .stalled) where
  log := hlog
  nothing hnot := absurd hpass hnot
  trail _ hnot := absurd hstuck hnot
  not_internal f h := by cases h
  refused fs := ⟨fun ⟨_, h, _⟩ => (by cases h), fun hrefused => absurd hpass hrefused.not_passes⟩
  defect e := by
    refine ⟨fun h => (by cases h), ?_⟩
    rintro (hrejected | ⟨-, hnot, -⟩)
    · exact absurd hpass hrejected.not_passes
    · exact absurd hstuck hnot
  stalled := ⟨fun _ => ⟨hpass, hstuck⟩, fun _ => rfl⟩
  dry _ := hdry
  reported := ⟨fun ⟨_, _, h, _⟩ => (by cases h), fun ⟨_, hnot, _⟩ => absurd hstuck hnot⟩

/-- How a request closes tells its outcome. -/
theorem Closes.exists_outcome {y : Except EngineFault Report}
    (hc : r.Closes schema schema.routes s m y) : ∃ h, r.Outcome schema s m h y := by
  cases hc with
  | rejected hrejected hlog => exact ⟨[], outcome_of_rejected hrejected hlog⟩
  | refused hrefused hlog hdata => exact ⟨[], outcome_of_refused hrefused hlog hdata⟩
  | @reported h report data hpass hlog htrail hd hdata =>
    refine ⟨h, outcome_of_concluded hpass hlog htrail ?_⟩
    rw [hd]
    exact ⟨report, data, rfl, hdata⟩
  | @failed h e hpass hlog htrail hd =>
    refine ⟨h, outcome_of_concluded hpass hlog htrail ?_⟩
    rw [hd]
  | @stalled h hpass hlog hs hdry =>
    exact ⟨h, outcome_of_stalled hpass hlog (History.stalled_iff.mp hs) hdry⟩

end

end Request

namespace Sample

/-- A member of the organisation. -/
def member : Entity Unit where
  name := "User"
  resolve _ _ := pure (.ready .null)
  links := [{
    label := { name := "org" }
    target := .direct (.base (.defined ⟨1, 0⟩))
    resolve := fun _ _ => pure (.ready (.bool true)) }]

end Sample

end EntityQuery
