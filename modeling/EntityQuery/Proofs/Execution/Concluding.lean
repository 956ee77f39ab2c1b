import EntityQuery.Proofs.Execution.Completing
import EntityQuery.Proofs.Execution.Waiting

/-!
# Reports of executions

An execution on a queue of its own ends with a report, and the report says what the document means. On
lax terms it may also be left waiting, or be ended by a panic; it never ends at a defect.

* `Schema.Reports`: what a report says. `Schema.Concludes`: how waiting for it ends.
* **`ends_execute`**, **`ends_executeMasked`**: executions to their end.
-/

namespace EntityQuery

open Lookup Session Execution Schema Terms

variable {σ : Type}

namespace Schema

variable (schema : Schema σ) (s : Session σ) (context : Context) (d : Document)

/-- The report says what the document means. -/
def Reports (r : Report) : Prop :=
  ∃ data, r.data = some data ∧ schema.documentMeans s context d data r.failures

/-- How waiting for the report ends. -/
def Concludes (lax : Prop) : Except EngineFault Report → Prop
  | .ok r => schema.Reports s context d r
  | .error fault => lax ∧ fault = .stalled

/-- The values of the queries, where the failures `met` have been met already. -/
def queriesPost (met : Multiset Failure) : Post := fun o e => ∃ us,
  o = .ok (Payload.bundle (us.map Payload.value)) ∧
    Together (d.queries.map fun (name, q) => schema.queryMeans s context name q) us (met + e)

end Schema

section

variable {x : Execution σ} {s : Session σ} {lax : Prop} {types : Entries NamedType} {d : Document}

theorem Execution.hosts_terms : (x.terms s lax).Hosts x where
  queue := rfl
  progress := fun ⟨_, p, hp, _⟩ => ⟨p, hp⟩

/-- The queries under way. -/
theorem queries_mean (hp : x.schema.Plain)
    (hregular : lax ∨ ∀ c, x.schema.Calls c → RegularResolver c) (hs : x.schema.Sound types s)
    (hr : d.Rooted x.schema types s) :
    x.Queries (x.terms s lax) d fun met => x.schema.queriesPost s x.context d met := by
  refine (promisesAll_queries hp hregular hs hr).mono ?_
  rintro _ T h e ⟨ps, φs, rfl, hf, hφ⟩
  refine ⟨ps, φs, rfl, hf, hφ.ok, fun vs e' hvs => ?_, fun _ _ _ _ _ => trivial⟩
  obtain ⟨us, rfl, hus⟩ := hφ.together vs e' hvs
  exact ⟨us, rfl, hus⟩

/-- An execution that starts with nothing met concludes with what the document means. -/
theorem Concludes.means {w : World σ} {m : Machine Payload (World σ)} {res : Except EngineFault Report}
    (h : Concludes (x.terms s lax) x d (fun met => x.schema.queriesPost s x.context d met) w m res)
    (hfresh : w.executions[x.index]? = some {}) : x.schema.Concludes s x.context d lax res := by
  have met : ∀ {e p}, (x.terms s lax).Step e w m.world → m.world.executions[x.index]? = some p →
      (p.failures : Multiset Failure) = e ∧ p.fatal? = none := by
    rintro e p ⟨-, p₀, p₁, hp₀, hp₁, hd, hf⟩ hp
    rw [hfresh] at hp₀
    rw [hp] at hp₁
    cases hp₀
    cases hp₁
    exact ⟨by simpa using hd, hf⟩
  cases h with
  | report hbegun hstep hΦ hp hf _ hdata hr _ =>
    obtain ⟨us, hv, hus⟩ := hΦ
    cases hv
    refine ⟨_, hdata, us, ?_, ?_⟩
    · rw [hr, (met ((x.terms s lax).step_add hbegun hstep) hp).1]
      exact hus
    · have hid : us.map (Payload.json ∘ Payload.value) = us := List.map_id us
      rw [Payload.items_bundle, List.map_map, hid]
  | defect hbegun hstep hΦ hp hf =>
    rw [(met ((x.terms s lax).step_add hbegun hstep) hp).2] at hf
    cases hf
  | stalled hl => exact ⟨hl, rfl⟩

end

section

variable {schema : Schema σ} {s : Session σ} {lax : Prop} {types : Entries NamedType} {d : Document}
  {m : Machine Payload (World σ)} {q : QueueId} {ticks : Nat}
  (hp : schema.Plain) (hregular : lax ∨ ∀ c, schema.Calls c → RegularResolver c)
  (hs : schema.Sound types s) (hr : d.Rooted schema types s) (hm : s.Alike m.world.session)
  (hq : m.heap (.queue q) = some (.queue ⟨[], ticks⟩))

include hp hregular hs hr hm hq

/-- **Executing a document and waiting for the report.** -/
theorem ends_execute (context : Context) :
    Work.Ends lax (do
      Attempt.ofRun (Report.wait q (← Request.execute schema q d context)) : Attempt σ _).run m
      fun r _ => ∃ res, r = .ok res ∧
        schema.Concludes s context d lax res := by
  rw [Request.execute, bind_assoc]
  refine Work.EndsBy.attempt_bind (Work.EndsBy.ofRun (ends_new ?_))
  let x : Execution σ := ⟨schema, context, q, m.world.executions.size⟩
  let m₁ : Machine Payload (World σ) :=
    { m with world := { m.world with executions := m.world.executions.push {} } }
  have hfresh : m₁.world.executions[x.index]? = some {} := by simp [x, m₁]
  have hready : (x.terms s lax).Ready m₁ := ⟨⟨_, hq⟩, hm, _, hfresh, rfl⟩
  refine (ends_document hosts_terms (queries_mean (x := x) hp hregular hs hr) ?_
    hready hq).mono ?_
  · rintro _ _ _ ⟨us, rfl, -⟩
    exact ⟨_, rfl⟩
  · rintro _ m' ⟨res, rfl, hres⟩
    exact ⟨res, rfl, hres.means hfresh⟩

/-- **Executing a request without validating it, and waiting for the report.** -/
theorem ends_executeMasked {r : Request} (hd : r.document = d) :
    Work.Ends lax (do
      Attempt.ofRun (Report.wait q (← r.executeMasked schema q)) : Attempt σ _).run m
      fun res _ => ∃ y, res = .ok y ∧
        schema.Concludes s r.context d lax y := by
  subst hd
  rw [Request.executeMasked, Request.execute, bind_assoc, bind_assoc]
  refine Work.EndsBy.attempt_bind (Work.EndsBy.ofRun (ends_new ?_))
  let x : Execution σ := ⟨schema, r.context, q, m.world.executions.size⟩
  let m₁ : Machine Payload (World σ) :=
    { m with world := { m.world with executions := m.world.executions.push {} } }
  have hfresh : m₁.world.executions[x.index]? = some {} := by simp [x, m₁]
  have hready : (x.terms s lax).Ready m₁ := ⟨⟨_, hq⟩, hm, _, hfresh, rfl⟩
  refine (ends_masked hosts_terms (queries_mean (x := x) hp hregular hs hr) ?_
    hready hq r).mono ?_
  · rintro _ _ _ ⟨us, rfl, -⟩
    exact ⟨_, rfl⟩
  · rintro _ m' ⟨res, rfl, hres⟩
    exact ⟨res, rfl, hres.means hfresh⟩

end

end EntityQuery
