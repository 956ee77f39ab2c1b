import EntityQuery.Proofs.Execution.Concluding

/-!
# Defects surface before any execution

A schema that has been checked shows no defect while documents are validated and executed, whatever the
documents and the callbacks are.

* `Schema.Checked`: sessions in which a schema serves a document after a check.
* `Request.Concludes`: how requests come to an end. `ends_perform_concludes`: a request on a sound session.
* **`no_defect_of_checked`**: neither validating nor executing ends at a defect.
-/

namespace EntityQuery

open Lookup Session Execution Terms

variable {σ α β : Type}

section

variable {schema : Schema σ} {s : Session σ} {lax : Prop} {types : Entries NamedType}
  {m : Machine Payload (World σ)} {q : QueueId} {ticks : Nat}

/-- Using the schema, where that meets no defect. -/
theorem ends_consult {lookup : Lookup σ α} {R : Except Fault α → Prop} (hl : Comes s R lookup)
    (hm : s.Alike m.world.session) {Q : Except Fault (Except Defect α) →
      Machine Payload (World σ) → Prop}
    (hQ : ∀ r m', R r → m'.heap = m.heap → s.Alike m'.world.session → Q (r.map .ok) m') :
    Work.Ends lax (Attempt.consult lookup).run m Q := by
  obtain ⟨r, s', hx, hs, hr⟩ := hl m.world.session hm
  refine Work.ends_getWorld.mpr ?_
  rw [hx]
  cases r with
  | ok a => exact Work.ends_pure (hQ (.ok a) _ hr rfl hs)
  | error f => exact Work.ends_pure (hQ (.error f) _ hr rfl hs)

/-- How a request comes to an end: its validation ends at a fault or refuses it, or it is executed. -/
inductive Request.Concludes (r : Request) (schema : Schema σ) (s : Session σ) :
    Except Fault (Except EngineFault Report) → Prop
  | fault (hskip : r.options.skipValidation = false) (f : Fault) : Concludes r schema s (.error f)
  | refused (hskip : r.options.skipValidation = false) (failures : List Failure) :
    Concludes r schema s (.ok (.ok { data := none, failures, masking := r.options.masking }))
  | executed {y : Except EngineFault Report} (h : schema.Concludes s r.context r.document True y) :
    Concludes r schema s (.ok y)

variable (hp : schema.Plain) (hs : schema.Sound types s) {r : Request}
  (hr : r.document.Rooted schema types s)

include hp hs hr

/-- **A request on a sound session.** -/
theorem ends_perform_concludes (hm : s.Alike m.world.session) :
    Work.Ends True (r.perform schema).run m fun res _ => r.Concludes schema s res := by
  refine Work.EndsBy.attempt_bind (Work.EndsBy.ofRun (Work.ends_newQueue.mpr (Work.ends_pure ?_)))
  have hq : m.newQueue.2.heap (.queue m.newQueue.1) = some (.queue ⟨[], 0⟩) := by
    rw [Machine.heap_newQueue, Function.update_self]
  have executed : ∀ m' : Machine Payload (World σ), s.Alike m'.world.session →
      m'.heap (.queue m.newQueue.1) = some (.queue ⟨[], 0⟩) →
      Work.Ends True (do
        Attempt.ofRun (Report.wait m.newQueue.1 (← r.executeMasked schema m.newQueue.1)) :
          Attempt σ _).run m' fun res _ => r.Concludes schema s res := by
    intro m' hm' hq'
    refine (ends_executeMasked hp (.inl trivial) hs hr hm' hq' rfl).mono ?_
    rintro _ _ ⟨y, rfl, hy⟩
    exact .executed hy
  simp only
  unfold Request.start
  split
  · exact executed _ hm hq
  · have hskip : r.options.skipValidation = false := Bool.eq_false_iff.mpr ‹_›
    rw [bind_assoc]
    have hvalidate := Document.yields_validate (v := { schema }) hp hs hr
    have hm : s.Alike m.newQueue.2.world.session := hm
    refine Work.EndsBy.attempt_bind (ends_consult hvalidate hm ?_)
    rintro res m' - hheap hm'
    rw [← hheap] at hq
    cases res with
    | error f => exact .fault hskip f
    | ok failures =>
      cases failures with
      | nil => exact executed m' hm' hq
      | cons f rest => exact ends_settled_wait fun _ _ => .refused hskip _

/-- **A request on a sound session ends at no defect.** -/
theorem ends_perform (hm : s.Alike m.world.session) :
    Work.Ends True (r.perform schema).run m fun res _ => ∀ e, res ≠ .ok (.error (.defect e)) := by
  refine (ends_perform_concludes hp hs hr hm).mono ?_
  rintro _ _ (- | - | hy) e he
  · cases he
  · cases he
  · cases he
    cases hy.2

end

/-! ## Schemas that have been checked -/

theorem Schema.Sound.later {schema : Schema σ} {types : Entries NamedType} {s s' : Session σ}
    (h : schema.Sound types s) (hs : s.Later s') : schema.Sound types s' :=
  ⟨h.toScanned.later hs, fun t e ht he s'' hs'' => h.passes t e ht he s'' (hs.trans hs'')⟩

/-- A session in which a document is served by a schema that has been checked: as building a schema
without a loader leaves it, or, where types are loaded by a loader that does not call back, at any time
after a check whose scan has found the types that the document names. -/
inductive Schema.Checked (schema : Schema σ) (d : Document) (s : Session σ) : Prop
  | built {declared : List Ty} {app : σ} {s₀ : Session σ} (hl : schema.loader? = none)
      (hbuild : schema.build declared false { app } = .ok () s₀) (hs : s₀.Alike s)
  | loaded {declared : List Ty} {assumeValid : Bool} {app : σ} {s₀ s₁ s₂ s₃ : Session σ}
      {types : Entries NamedType} (hl : schema.onDemand = true) (hp : schema.Plain)
      (hbuild : schema.build declared assumeValid { app } = .ok () s₀) (h₁ : s₀.Later s₁)
      (hscan : schema.scan s₁ = .ok types s₂) (hcheck : schema.check s₁ = .ok () s₃)
      (hs : s₃.Later s)
      (hd : ∀ name q, (name, q) ∈ d.queries → ∀ typeName, q.typeName = some typeName →
        Entries.has types typeName = true)

theorem Schema.Checked.sound {schema : Schema σ} {d : Document} {s : Session σ}
    (h : schema.Checked d s) :
    schema.Plain ∧ ∃ types, schema.Sound types s ∧ d.Rooted schema types s := by
  cases h with
  | built hl hbuild hs =>
    obtain ⟨types, hsound, hfinds⟩ := sound_of_build hl hbuild
    refine ⟨plain_of_eager hl, types, hsound.later hs.later, ?_⟩
    intro name q _ typeName _
    obtain ⟨t?, ht, hfind⟩ := hfinds typeName
    exact ⟨t?, ht, fun s' hs' => hfind s' (hs.trans hs')⟩
  | loaded hl hp hbuild h₁ hscan hcheck hs hd =>
    have hstandards : Standards _ := fun k => h₁.ready _ _ (standards_of_build hl hbuild k)
    obtain ⟨types, _, hscan', -, hsound, -⟩ := sound_of_check hp hstandards hcheck
    rw [hscan] at hscan'
    cases hscan'
    have hlater := hsound.later hs
    exact ⟨hp, _, hlater, fun name q hq typeName hn =>
      hlater.toScanned.finds (hd name q hq typeName hn)⟩

/-- **Defects surface before any execution.** Once the schema has been checked, validating a document
ends at no defect, whatever rules are checked, and neither does a request for it. -/
theorem no_defect_of_checked {schema : Schema σ} {d : Document} {s : Session σ}
    (h : schema.Checked d s) :
    (∀ (rules : List Rule) (e : Defect) (s' : Session σ),
      d.validate { schema, rules } s ≠ .error (.defect e) s') ∧
    ∀ (context : Context) (options : Options) (m m' : Machine Payload (World σ)) (limit : Nat)
      (res : Except Fault (Except EngineFault Report)), m.world.session = s →
      m.run limit (Request.perform ⟨d, context, options⟩ schema).run = .done res m' →
      ∀ e, res ≠ .ok (.error (.defect e)) := by
  obtain ⟨hp, types, hs, hr⟩ := h.sound
  refine ⟨fun rules e s' hv => ?_, fun context options m m' limit res hm hrun => ?_⟩
  · have hyields := Document.yields_validate (v := { schema, rules }) hp hs hr
    obtain ⟨r, s'', hx, -, -⟩ := hyields s (.refl s)
    rw [hv] at hx
    cases r <;> cases hx
  · have hm' : s.Alike m.world.session := hm ▸ .refl s
    exact (ends_perform hp hs hr hm').of_done hrun

theorem no_defect_of_checked_sample :
    (∀ (rules : List Rule) (e : Defect) (s' : Session Unit),
      Sample.document.validate { schema := Sample.schema "key", rules } Sample.session ≠
        .error (.defect e) s') ∧
    ∀ (context : Context) (options : Options) (m m' : Machine Payload (World Unit)) (limit : Nat)
      (res : Except Fault (Except EngineFault Report)), m.world.session = Sample.session →
      m.run limit (Request.perform ⟨Sample.document, context, options⟩ (Sample.schema "key")).run =
        .done res m' →
      ∀ e, res ≠ .ok (.error (.defect e)) :=
  no_defect_of_checked (.built rfl (Sample.built "key") (.refl Sample.session))

end EntityQuery
