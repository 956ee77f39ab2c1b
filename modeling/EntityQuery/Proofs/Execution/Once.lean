import EntityQuery.Proofs.Execution.Closing
import EntityQuery.Proofs.Execution.Defects

/-!
# Every resolver is called once

On a schema that was built without a loader, an execution that comes to a report calls each resolver that
the document asks for exactly once, and in order; and it does exactly once all the work that their answers
put off. This holds for all resolvers, at any depth, for lists of any length, and in whatever order
promises are settled.

* `Schema.guide`: where queries and links lead on a sound session. `Schema.Sound.steers`: the schema leads
  there.
* **`every_resolver_called_once`**.
-/

namespace EntityQuery

open Lookup Session Execution

variable {σ α : Type}

/-- Queries lead to the entities that they name, links to those that they are declared to lead to, and no
value meets a defect. -/
def Schema.guide (schema : Schema σ) (s : Session σ) : Guide σ where
  finds q r := ∃ e?, r = .ok e? ∧ q.Roots schema s e?
  leads e l r := ∃ t target, r = .ok target ∧
    Answers (l.follow schema schema.find e.name) (t, target) s
  coerces _ _ d? := d? = none

section

variable {schema : Schema (Recorded σ)} {types : Entries NamedType} {s : Session (Recorded σ)}

/-- **On a sound session the schema leads where its declarations say.** -/
theorem Schema.Sound.steers (hs : schema.Sound types s) (hp : schema.Plain)
    (hrec : schema.Records) : (schema.guide s).Steers schema s.Alike (schema.Knows types) where
  records := hrec
  setApp s' app h := h.trans (alike_setApp s' app)
  known := fun e ⟨t, _, ht⟩ => ⟨t, ht⟩
  untyped _ _ _ _ _ _ := rfl
  resolve e hk a ha r hr v := by
    obtain ⟨t, hsettled, hfits⟩ := ((hs.settles hp hk).attributes a ha r hr).resolve hp
    refine hsettled.answers.upholds ((hfits.serialize (K := .safe s) hp
      (fun sc n v _ => (comes_call _).mono fun _ _ => trivial) v).upholds ?_)
    rintro (f | w) _ <;> rfl
  follow e hk l hl := by
    obtain ⟨t, target, hknown, hfollow⟩ := (hs.settles hp hk).links l hl
    exact hfollow.answers.upholds ⟨hknown, t, target, rfl, hfollow.answers⟩

/-- What a query of a rooted document names is found. -/
theorem Document.Rooted.upholds_root {d : Document} (hr : d.Rooted schema types s)
    {x : Execution (Recorded σ)} (hx : x.schema = schema) {name : String} {q : Query}
    (hq : (name, q) ∈ d.queries) :
    (x.root q).Upholds s.Alike ((schema.guide s).Roots (schema.Knows types) q) := by
  subst hx
  obtain ⟨e?, hroot, hknown⟩ := hr.exists_root hq
  exact hroot.answers.upholds ⟨hknown, e?, rfl, hroot⟩

end

/-- **Every resolver that a document asks for is called once, in order.** Once the schema has been built
without a loader, an execution that comes to a report leaves in the log what the document asks for and
nothing else: the entity of each query, in order, before any field; for each reference that an entity is
completed on, a call for each attribute, for the act and for each link, in order; and for each answer that
puts off work, that this work is done. -/
theorem every_resolver_called_once {schema : Schema σ} {types : List Ty} {app : Recorded σ}
    {s₀ s : Session (Recorded σ)} {d : Document} (hl : schema.loader? = none)
    (hbuild : schema.recorded.build types false { app } = .ok () s₀) (hs : s₀.Alike s)
    {context : Context} {options : Options} {limit : Nat} {report : Report} {data : Entries Json}
    {m : Machine Payload (World (Recorded σ))}
    (hrun : (Machine.start { session := s }).run limit
      (Request.perform ⟨d, context, options⟩ schema.recorded).run = .done (.ok (.ok report)) m)
    (hdata : report.data = some data) :
    ∃ added, m.world.session.log = s.log ++ added ∧
      d.Trail (schema.recorded.guide s) schema.recorded context
        (History.placed s.log.length (added.map .event)) := by
  obtain ⟨hp, sorts, hsound, hr⟩ := (Schema.Checked.built (schema.loader?_recorded hl) hbuild hs).sound
  have hG := hsound.steers hp schema.records_recorded
  have hvalid := Document.yields_validate (v := { schema := schema.recorded }) hp hsound hr
  have hcloses := (ends_perform_closes (r := ⟨d, context, options⟩) hG
    (fun x hx name q hq => hr.upholds_root hx hq) (.refl s)
    (Comes.upholds hvalid fun _ _ => trivial)).of_done hrun _ rfl
  cases hcloses with
  | refused _ _ hnone =>
    rw [hnone] at hdata
    cases hdata
  | reported _ hlog htrail hd => exact ⟨_, hlog, History.eq_map_events hd ▸ htrail⟩

namespace Sample

/-- The session that the schema starts with, with an empty log. -/
def recordedSession : Session (Recorded Unit) where
  registry := session.registry
  complete := true
  app := { app := () }

set_option maxRecDepth 10000 in
theorem recorded_built (secret : String) :
    (schema secret).recorded.build [.base (.defined ⟨0, 0⟩)] false { app := { app := () } } =
      .ok () recordedSession := by
  unfold Schema.build Schema.check Schema.checkFound Schema.scan
  rw [Schema.find_eq_of_eager rfl]
  rfl

/-- An execution of the document, that is not validated. -/
def recordedRun : Ended Payload (World (Recorded Unit)) (Except Fault (Except EngineFault Report)) :=
  (Machine.start { session := recordedSession }).run 100
    (Request.perform ⟨document, {}, { skipValidation := true }⟩ (schema "key").recorded).run

/-- Whether a run ends with data, and with a log of a length. -/
def reportsAfter (length : Nat) :
    Ended Payload (World (Recorded Unit)) (Except Fault (Except EngineFault Report)) → Bool
  | .done (.ok (.ok report)) m => report.data.isSome && m.world.session.log.length == length
  | _ => false

theorem recordedRun_eq : ∃ report data m, recordedRun = .done (.ok (.ok report)) m ∧
    report.data = some data ∧ m.world.session.log.length = 11 := by
  have hrun : reportsAfter 11 recordedRun = true := by decide +kernel
  unfold reportsAfter at hrun
  split at hrun
  · next report m h =>
    obtain ⟨hdata, hlength⟩ := Bool.and_eq_true_iff.mp hrun
    obtain ⟨data, hdata⟩ := Option.isSome_iff_exists.mp hdata
    exact ⟨report, data, m, h, hdata, by simpa using hlength⟩
  · cases hrun

end Sample

theorem every_resolver_called_once_sample : ∃ report m,
    Sample.recordedRun = .done (.ok (.ok report)) m ∧ ∃ added, m.world.session.log = added ∧
      added.length = 11 ∧ Sample.document.Trail
        ((Sample.schema "key").recorded.guide Sample.recordedSession) (Sample.schema "key").recorded {}
        (History.placed 0 (added.map .event)) := by
  obtain ⟨report, data, m, hrun, hdata, hlength⟩ := Sample.recordedRun_eq
  obtain ⟨added, hlog, htrail⟩ := every_resolver_called_once rfl (Sample.recorded_built "key")
    (.refl Sample.recordedSession) hrun hdata
  have hlog : m.world.session.log = added := hlog
  exact ⟨report, m, hrun, added, hlog, hlog ▸ hlength, htrail⟩

end EntityQuery
