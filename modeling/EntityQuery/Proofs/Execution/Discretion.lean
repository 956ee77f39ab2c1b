import EntityQuery.Proofs.Execution.Alongside
import EntityQuery.Proofs.Execution.Concluding

/-!
# Masking is discreet

What a client is shown of an execution does not depend on what no client may see: on the messages and
causes of unsafe failures, and on what panics say.

* `Undistinguished`: how two executions end that a client cannot tell apart.
* **`masking_noninterference`**: on schemas whose callbacks fail alike, executions end so.
-/

namespace EntityQuery

variable {σ : Type}

/-- How two executions end that a client cannot tell apart: with reports that are shown alike. On lax
terms, both may also be left waiting, or both be ended by a panic that nothing catches. -/
inductive Undistinguished (lax : Prop) (mask : String) :
    Ended Payload (World σ) (Except Fault (Except EngineFault Report)) →
      Ended Payload (World σ) (Except Fault (Except EngineFault Report)) → Prop
  | shown {r r' : Report} {m m' : Machine Payload (World σ)} {json : Json}
      (h : r.toJson mask = .ok json) (h' : r'.toJson mask = .ok json) :
    Undistinguished lax mask (.done (.ok (.ok r)) m) (.done (.ok (.ok r')) m')
  | stalled {m m' : Machine Payload (World σ)} (hl : lax) :
    Undistinguished lax mask (.done (.ok (.error .stalled)) m) (.done (.ok (.error .stalled)) m')
  | panicked {p p' : Panic} {m m' : Machine Payload (World σ)} (hl : lax) :
    Undistinguished lax mask (.halted (.panic p) m) (.halted (.panic p') m')

theorem EngineFault.Alike.eq_stalled {e e' : EngineFault} (h : e.Alike e') (he : e = .stalled) :
    e' = .stalled := by
  cases h with
  | stalled => rfl
  | @rejected f g _ =>
    unfold ofRejection at he
    split at he <;> cases he

section

variable {lax : Prop} (mask : String) {n : Machine Payload (World σ)}
  {e' : Ended Payload (World σ) (Except Fault (Except EngineFault Report))}

theorem Undistinguished.of_done {y : Except EngineFault Report}
    (hy : ∀ fault, y = .error fault → lax ∧ fault = .stalled)
    (h : Ended.Alike (likeness σ) (ExceptRel Fault.Alike (ExceptRel EngineFault.Alike Report.Alike))
      (.done (.ok y) n) e') : Undistinguished lax mask (.done (.ok y) n) e' := by
  rcases h with ⟨hresult, -⟩ | -
  rcases hresult with hy' | -
  rcases hy' with hreport | hfault
  · obtain ⟨json, hr, hr'⟩ := hreport.shown mask
    exact .shown hr hr'
  · obtain ⟨hlax, hstalled⟩ := hy _ rfl
    rw [hfault.eq_stalled hstalled, hstalled]
    exact .stalled hlax

theorem Undistinguished.of_panic (hlax : lax) {p : Panic}
    (h : Ended.Alike (likeness σ) (ExceptRel Fault.Alike (ExceptRel EngineFault.Alike Report.Alike))
      (.halted (.panic p) n) e') : Undistinguished lax mask (.halted (.panic p) n) e' := by
  rcases h with - | ⟨hhalt, -⟩
  cases hhalt
  exact .panicked hlax

end

/-- The samples fail alike, whatever their secrets. -/
theorem Sample.alike (secret secret' : String) : (schema secret).Alike (schema secret') := by
  refine ⟨fun _ => .entity ⟨rfl, rfl, fun _ _ => .pure (.ready _), ?_, .nil, ?_⟩, rfl, rfl, rfl, rfl⟩
  · refine .cons ⟨rfl, rfl, fun reference _ => .pure ?_, fun _ => .pure rfl⟩
      (.cons ⟨rfl, rfl, fun _ _ => .pure ?_, fun _ => .pure rfl⟩ .nil)
    · exact .settling .own 1 (.pure rfl)
    · have hcause := Failure.alike_internal (.other secret) (.other secret')
      exact .deferred fun s => .error (.failure (hcause.causedBy nofun)) s
  · exact .cons ⟨rfl, rfl, rfl, fun _ _ => .pure (.settling .foreign 2 (.pure rfl))⟩ .nil

/-- **Masking does not let unsafe texts through.** Take a schema that was built without a loader, and
callbacks for it that fail alike: they differ in the messages and causes of unsafe failures and in what
panics say, and in nothing else. Whatever the document, if no debug flag asks for more, executions with
either set of callbacks end after finitely many tasks and a client cannot tell them apart. Where all
promises of resolvers are settled without a panic, both end with reports. -/
theorem masking_noninterference {schema schema' : Schema σ} (hl : schema.loader? = none)
    {declared : List Ty} {app : σ} {s : Session σ}
    (hbuild : schema.build declared false { app } = .ok () s) (h : schema.Alike schema')
    {lax : Prop} (hregular : lax ∨ ∀ c, schema.Calls c → RegularResolver c) {r : Request}
    (hflags : r.options.flags.Discreet) (mask : String) {m m' : Machine Payload (World σ)}
    (hm : (likeness σ).Machines m m') (hs : s.Alike m.world.session) {q : QueueId} {ticks : Nat}
    (hq : m.queues[q.index]? = some ⟨[], ticks⟩) :
    ∃ enough, ∀ limit ≥ enough, Undistinguished lax mask
      (m.run limit (do
        Attempt.ofRun (Report.wait q (← r.executeMasked schema q)) :
          Attempt σ (Except EngineFault Report)).run)
      (m'.run limit (do
        Attempt.ofRun (Report.wait q (← r.executeMasked schema' q)) :
          Attempt σ (Except EngineFault Report)).run) := by
  obtain ⟨hp, types, hsound, hr⟩ := Schema.serves_of_build hl hbuild
  have hends := ends_executeMasked hp hregular hsound (hr r.document) hs
    (Machine.heap_of_queues hq) (r := r) rfl
  have hlockstep : Attempt.Alike (ExceptRel EngineFault.Alike Report.Alike)
      (do Attempt.ofRun (Report.wait q (← r.executeMasked schema q)))
      (do Attempt.ofRun (Report.wait q (← r.executeMasked schema' q))) := by
    refine (Request.alike_executeMasked hflags h hl q).bind ?_
    rintro p _ rfl
    exact Attempt.alike_ofRun (Report.alike_wait q p)
  obtain ⟨enough, ⟨_, n, hrun, y, rfl, hy⟩ | ⟨hlax, p, n, hrun⟩⟩ := hends
  · refine ⟨enough, fun limit hlimit => ?_⟩
    have hends := hlockstep.machine_run hm limit
    simp only at hrun
    rw [hrun limit hlimit] at hends ⊢
    refine .of_done mask (fun fault hfault => ?_) hends
    subst hfault
    exact hy
  · refine ⟨enough, fun limit hlimit => ?_⟩
    have hends := hlockstep.machine_run hm limit
    simp only at hrun
    rw [hrun limit hlimit] at hends ⊢
    exact .of_panic mask hlax hends

theorem masking_noninterference_sample :
    ∃ enough, ∀ limit ≥ enough, Undistinguished False Masking.standardMask
      ((Machine.start { session := Sample.session }).newQueue.2.run limit (do
        let p ← Request.executeMasked ⟨Sample.document, {}, {}⟩ (Sample.schema "key") ⟨0⟩
        Attempt.ofRun (Report.wait ⟨0⟩ p) : Attempt Unit (Except EngineFault Report)).run)
      ((Machine.start { session := Sample.session }).newQueue.2.run limit (do
        let p ← Request.executeMasked ⟨Sample.document, {}, {}⟩ (Sample.schema "other key") ⟨0⟩
        Attempt.ofRun (Report.wait ⟨0⟩ p) : Attempt Unit (Except EngineFault Report)).run) := by
  have hw : (likeness Unit).world { session := Sample.session } { session := Sample.session } :=
    ⟨rfl, .empty⟩
  exact masking_noninterference rfl (Sample.built "key") (Sample.alike "key" "other key")
    (.inr (Sample.regular "key")) .none Masking.standardMask
    (Likeness.machines_start hw).newQueue.2 (.refl Sample.session) rfl

end EntityQuery
