import EntityQuery.Execution.Engine
import EntityQuery.Proofs.Promise.Alongside
import EntityQuery.Proofs.Schema.Likeness

/-!
# Two executions side by side

Executions of one document on schemas that are alike run in lockstep. What they hold and keep is alike:
the values are the same, and so are the failures as far as a client may see them.

* `likeness`: likeness of what executions hold and keep. `Run.Alike`, `Attempt.Alike`: runs in lockstep.
* **`Execution.alike_settleField`**: a field.
* **`Execution.alike_completeEntity`**: the fields of an entity, by recursion on the query.
* **`Execution.alike_document`**, **`Request.alike_executeMasked`**, **`Report.alike_wait`**: documents
  to their reports.
-/

namespace EntityQuery

open Lockstep Promise

variable {σ α β γ δ : Type}

/-! ## What executions hold and keep -/

/-- Likeness of reports: they differ in what no client may see of their failures, and they are masked
in one way, which shows nothing more than a client may see. -/
structure Report.Alike (r r' : Report) : Prop where
  data : r.data = r'.data
  failures : List.Forall₂ Failure.Alike r.failures r'.failures
  tally : r.tally = r'.tally
  masking : r.masking = r'.masking
  discreet : r.masking.flags.Discreet

/-- Likeness of what promises of an execution hold. -/
inductive Payload.Alike : Payload → Payload → Prop
  | value (v : Json) : Alike (.value v) (.value v)
  | report {r r' : Report} (h : r.Alike r') : Alike (.report r) (.report r')

/-- Likeness of what an execution has met so far. -/
structure Progress.Alike (p p' : Progress) : Prop where
  failures : List.Forall₂ Failure.Alike p.failures p'.failures
  fatal? : p.fatal? = p'.fatal?
  tally : p.tally = p'.tally

/-- Likeness of worlds: one session, and executions that are alike. -/
structure World.Alike (w w' : World σ) : Prop where
  session : w.session = w'.session
  executions : ArrayRel Progress.Alike w.executions w'.executions

/-- Likeness of what executions hold and keep. -/
def likeness (σ : Type) : Likeness Payload (World σ) := ⟨Payload.Alike, World.Alike⟩

/-- Runs in lockstep. -/
abbrev Run.Alike (R : α → β → Prop) (s : Run σ α) (s' : Run σ β) : Prop :=
  Lockstep (likeness σ) R s s'

/-- Attempts in lockstep: both end at faults that are alike, or with answers related by `A`. -/
abbrev Attempt.Alike (A : α → β → Prop) (x : Attempt σ α) (x' : Attempt σ β) : Prop :=
  Run.Alike (ExceptRel Fault.Alike A) x.run x'.run

/-- Reports that are alike are shown alike. -/
theorem Report.Alike.shown {r r' : Report} (h : r.Alike r') (mask : String) :
    ∃ json, r.toJson mask = .ok json ∧ r'.toJson mask = .ok json := by
  obtain ⟨failures, hr, hr'⟩ := Masking.formatAll_of_alike h.discreet mask h.failures
  unfold Report.toJson
  rw [← h.masking, ← h.data, hr, hr']
  exact ⟨_, rfl, rfl⟩

theorem Payload.Alike.json_eq {p p' : Payload} (h : p.Alike p') : p.json = p'.json := by
  cases h with
  | value v => rfl
  | report _ => rfl

theorem Payload.alike_bundle (ps ps' : List Payload) (h : List.Forall₂ Payload.Alike ps ps') :
    (bundle ps).Alike (bundle ps') := by
  have hjson : ps.map json = ps'.map json := by
    induction h with
    | nil => rfl
    | cons h _ ih => rw [List.map_cons, List.map_cons, h.json_eq, ih]
  unfold bundle
  rw [hjson]
  exact .value _

theorem Run.alike_stepWorld {R : α → β → Prop} {f : World σ → α × World σ}
    {f' : World σ → β × World σ}
    (h : ∀ w w', w.Alike w' → R (f w).1 (f' w').1 ∧ (f w).2.Alike (f' w').2) :
    Run.Alike R (.stepWorld f) (.stepWorld f') :=
  .getWorld fun w w' hw => .setWorld (h w w' hw).2 (.pure (h w w' hw).1)

/-! ## Attempts -/

namespace Attempt

variable {A : α → β → Prop} {B : γ → δ → Prop}

theorem alike_pure {a : α} {b : β} (h : A a b) :
    Alike (σ := σ) A (Pure.pure a : Attempt σ α) (Pure.pure b) := .pure (.ok h)

theorem Alike.bind {x : Attempt σ α} {x' : Attempt σ β} {k : α → Attempt σ γ} {k' : β → Attempt σ δ}
    (h : Alike A x x') (hk : ∀ a b, A a b → Alike B (k a) (k' b)) :
    Alike B (x >>= k) (x' >>= k') := by
  refine Lockstep.bind h ?_
  rintro _ _ (hab | he)
  · exact hk _ _ hab
  · exact .pure (.error he)

theorem alike_ofRun {s : Run σ α} {s' : Run σ β} (h : Run.Alike A s s') :
    Alike A (ofRun s) (ofRun s') :=
  h.bind fun _ _ hab => .pure (.ok hab)

theorem alike_call {c : Callback σ α} {c' : Callback σ β} (h : Callback.Alike A c c') :
    Alike A (call c) (call c') := by
  refine Run.alike_stepWorld ?_
  rintro ⟨s, xs⟩ ⟨_, xs'⟩ ⟨rfl, hxs⟩
  have hc := h s.app
  simp only
  revert hc
  generalize c s.app = r
  generalize c' s.app = r'
  rintro (⟨hab, app⟩ | ⟨he, app⟩)
  · exact ⟨.ok hab, rfl, hxs⟩
  · exact ⟨.error he, rfl, hxs⟩

theorem alike_consult {x : Lookup σ α} {x' : Lookup σ β} (h : Lookup.Alike A x x') :
    Alike (ExceptRel Eq A) (consult x) (consult x') := by
  refine .getWorld ?_
  rintro ⟨s, xs⟩ ⟨_, xs'⟩ ⟨rfl, hxs⟩
  have hx := h s
  simp only
  revert hx
  generalize x s = r
  generalize x' s = r'
  rintro (⟨hab, s⟩ | ⟨hd | hf | _, s⟩)
  · exact .setWorld ⟨rfl, hxs⟩ (.pure (.ok (.ok hab)))
  · exact .setWorld ⟨rfl, hxs⟩ (.pure (.ok (.error rfl)))
  · exact .setWorld ⟨rfl, hxs⟩ (.pure (.error hf))
  · exact .setWorld ⟨rfl, hxs⟩ (.halt .exhausted)

theorem Alike.orFailure {x : Attempt σ α} {x' : Attempt σ β} (h : Alike A x x') :
    Alike (ExceptRel Failure.Alike A) x.orFailure x'.orFailure := by
  refine Lockstep.bind h ?_
  rintro _ _ (hab | hf | ⟨p, p'⟩)
  · exact .pure (.ok (.ok hab))
  · exact .pure (.ok (.error hf))
  · exact .pure (.error (.panic p p'))

theorem Alike.caught {x : Attempt σ α} {x' : Attempt σ β} (h : Alike A x x') :
    Run.Alike (ExceptRel Failure.Alike A) x.caught x'.caught := by
  refine Lockstep.bind h ?_
  rintro _ _ (hab | hf)
  · exact .pure (.ok hab)
  · exact .pure (.error hf.toFailure)

theorem Alike.exposed {x : Attempt σ α} {x' : Attempt σ β} (h : Alike A x x') :
    Run.Alike (ExceptRel Failure.Alike A) x.exposed x'.exposed := by
  refine Lockstep.bind h ?_
  rintro _ _ (hab | hf | ⟨p, p'⟩)
  · exact .pure (.ok hab)
  · exact .pure (.error hf)
  · exact .halt (.panic p p')

theorem alike_mapM {f f' : γ → Attempt σ α} (h : ∀ c, Alike Eq (f c) (f' c)) (cs : List γ) :
    Alike Eq (cs.mapM f) (cs.mapM f') := by
  induction cs with
  | nil => exact alike_pure rfl
  | cons c cs ih =>
    rw [List.mapM_cons, List.mapM_cons]
    refine (h c).bind ?_
    rintro a _ rfl
    refine ih.bind ?_
    rintro as _ rfl
    exact alike_pure rfl

end Attempt

/-! ## Answers -/

theorem Callback.alike_guard {c c' : Callback σ α} (h : Callback.Alike Eq c c') :
    Callback.Alike Eq c.guard c'.guard := by
  intro s
  have hc := h s
  unfold Callback.guard
  revert hc
  generalize c s = r
  generalize c' s = r'
  rintro (⟨hab, s⟩ | ⟨hf | ⟨p, p'⟩, s⟩)
  · exact .ok hab s
  · exact .error (.failure hf) s
  · exact .error (.failure (Failure.alike_ofPanic p p')) s

theorem Answer.Alike.guard {a a' : Answer σ} (h : a.Alike a') : a.guard.Alike a'.guard := by
  cases h with
  | ready v => exact .ready v
  | deferred h => exact .deferred (Callback.alike_guard h)
  | settling home hops h => exact .settling home hops h
  | stuck home => exact .stuck home

theorem alike_outcomeOf {r r' : Except Failure Json} (h : ExceptRel Failure.Alike Eq r r') :
    (likeness σ).Outcomes (outcomeOf r) (outcomeOf r') := by
  cases h with
  | ok h =>
    cases h
    exact .ok (.value _)
  | error h => exact .error h

theorem Home.alike_queue (home : Home) (q : QueueId) :
    Run.Alike Eq (home.queue q : Run σ QueueId) (home.queue q) := by
  cases home with
  | own => exact .eq
  | foreign => exact .newQueue fun _ => .eq

theorem alike_settleBy (p : Promise) {c c' : Callback σ Json} (h : Callback.Alike Eq c c') :
    Attempt.Alike (fun _ _ => True) (settleBy p c) (settleBy p c') :=
  (Attempt.alike_call h).orFailure.bind fun _ _ hr =>
    (Attempt.alike_ofRun (lockstep_settle p (alike_outcomeOf hr))).bind fun _ _ _ =>
      Attempt.alike_pure trivial

theorem alike_afterHops (q : QueueId) {last last' : Run σ Unit}
    (h : Run.Alike (fun _ _ => True) last last') (hops : Nat) :
    Run.Alike (fun _ _ => True) (afterHops q last hops) (afterHops q last' hops) := by
  induction hops with
  | zero => exact h
  | succ hops ih => exact .enqueue ih (.pure trivial)

/-- Answers that are alike begin alike. -/
theorem Answer.Alike.begin {a a' : Answer σ} (h : a.Alike a') (q : QueueId) :
    Attempt.Alike (likeness σ).Thenables (a.begin q) (a'.begin q) := by
  cases h with
  | ready v => exact Attempt.alike_pure (.value (.value v))
  | deferred h =>
    refine Attempt.alike_pure (.deferred ?_)
    exact (Attempt.alike_call h).exposed.bind fun _ _ hr => .pure (alike_outcomeOf hr)
  | settling home hops h =>
    refine (Attempt.alike_ofRun (home.alike_queue q)).bind ?_
    rintro q _ rfl
    refine (Attempt.alike_ofRun (.newPromise fun _ => .eq)).bind ?_
    rintro p _ rfl
    have hsettle := alike_settleBy p h
    by_cases hhops : hops = 0
    · rw [if_pos hhops, if_pos hhops]
      exact hsettle.bind fun _ _ _ => Attempt.alike_pure (.promise p)
    · rw [if_neg hhops, if_neg hhops]
      have hwork := alike_afterHops q (lockstep_ignore hsettle.exposed) hops
      exact (Attempt.alike_ofRun hwork).bind fun _ _ _ => Attempt.alike_pure (.promise p)
  | stuck home =>
    refine (Attempt.alike_ofRun (home.alike_queue q)).bind ?_
    rintro q _ rfl
    refine (Attempt.alike_ofRun (.newPromise fun _ => .eq)).bind ?_
    rintro p _ rfl
    exact Attempt.alike_pure (.promise p)

namespace Execution

/-- An execution on another schema. -/
def on (x : Execution σ) (schema : Schema σ) : Execution σ := { x with schema }

@[simp] theorem schema_on (x : Execution σ) (schema : Schema σ) : (x.on schema).schema = schema := rfl

@[simp] theorem context_on (x : Execution σ) (schema : Schema σ) :
    (x.on schema).context = x.context := rfl

/-! ## What executions meet -/

theorem alike_update (execution : Nat) {change change' : Progress → Progress}
    (h : ∀ p p', p.Alike p' → (change p).Alike (change' p')) :
    Run.Alike Eq (Run.update execution change : Run σ Unit) (Run.update execution change') := by
  refine .getWorld fun w w' hw => .setWorld ⟨hw.session, ?_⟩ .eq
  exact hw.executions.modify execution h

variable (x : Execution σ) (S : Schema σ)

theorem alike_count (change : Tally → Tally) :
    Run.Alike Eq (x.count change) ((x.on S).count change) :=
  alike_update x.index fun _ _ h => ⟨h.failures, h.fatal?, congrArg change h.tally⟩

theorem alike_fail {f f' : Failure} (hf : f.Alike f') (place : Location) :
    Run.Alike Eq (x.fail f place) ((x.on S).fail f' place) :=
  alike_update x.index fun _ _ h =>
    ⟨List.rel_append h.failures (.cons (hf.located _) .nil), h.fatal?, h.tally⟩

theorem alike_abort (d : Defect) : Run.Alike Eq (x.abort d) ((x.on S).abort d) :=
  alike_update x.index fun _ _ h => ⟨h.failures, congrArg (·.or (some d)) h.fatal?, h.tally⟩

theorem alike_consult {A : α → β → Prop} {l : Lookup σ α} {l' : Lookup σ β}
    (h : Lookup.Alike A l l') : Attempt.Alike A (x.consult l) ((x.on S).consult l') := by
  refine (Attempt.alike_consult h).bind ?_
  rintro _ _ (hab | ⟨rfl⟩)
  · exact Attempt.alike_pure hab
  · exact (Attempt.alike_ofRun (x.alike_abort S _)).bind fun _ _ _ =>
      .pure (.error (.failure (.refl _)))

theorem alike_null : Run.Alike Eq x.null (x.on S).null := lockstep_settled x.queue (.ok (.value _))

theorem alike_refuse (f : Failure) (place : Location) :
    Run.Alike Eq (x.refuse f place) ((x.on S).refuse f place) :=
  (x.alike_fail S (.refl f) place).bind fun _ _ _ => x.alike_null S

/-! ## Fields -/

theorem alike_answered {c c' : Callback σ (Answer σ)} (h : Callback.Alike Answer.Alike c c') :
    Run.Alike Eq (x.answered c) ((x.on S).answered c') := by
  have answer := ((Attempt.alike_call h).bind fun _ _ ha => ha.guard.begin x.queue).caught
  refine answer.bind ?_
  rintro _ _ (ht | hf)
  · exact lockstep_adopt x.queue ht
  · exact lockstep_settled x.queue (.error hf)

theorem alike_together (promises : List Promise) (join : List Json → Json) :
    Run.Alike Eq (x.together promises join) ((x.on S).together promises join) := by
  refine (lockstep_gather Payload.alike_bundle x.queue ?_).bind ?_
  · rw [List.forall₂_map_left_iff, List.forall₂_map_right_iff]
    exact List.forall₂_same.mpr fun p _ => .promise p
  · rintro all _ rfl
    refine lockstep_map all fun p p' hp => .pure (.ok ?_)
    unfold Payload.items
    rw [hp.json_eq]
    exact .value _

/-- **A field.** -/
theorem alike_settleField (place : Location) {c c' : Callback σ (Answer σ)}
    (hc : Callback.Alike Answer.Alike c c')
    {complete complete' : Json → Attempt σ (Thenable Payload (World σ))}
    (h : ∀ v, Attempt.Alike (likeness σ).Thenables (complete v) (complete' v)) :
    Run.Alike Eq (x.settleField place c complete) ((x.on S).settleField place c' complete') := by
  refine (x.alike_answered S hc).bind ?_
  rintro source _ rfl
  refine (x.alike_count S _).bind fun _ _ _ => ?_
  refine (lockstep_andThen source fun p p' hp => ?_).bind ?_
  · rw [hp.json_eq]
    exact (h p'.json).caught
  · rintro completed _ rfl
    refine lockstep_thenOrElse completed (fun p p' hp => ?_) (fun f f' hf => ?_)
    · exact (x.alike_count S _).bind fun _ _ _ => .pure (.ok hp)
    · exact (x.alike_count S _).bind fun _ _ _ =>
        (x.alike_fail S hf place).bind fun _ _ _ => .pure (.ok (.value _))

theorem alike_unknown (site : Site) {e e' : Entity σ} (he : e.Alike e') (kind : ArtifactKind)
    (name : String) :
    Run.Alike Eq (x.unknown site e kind name) ((x.on S).unknown site e' kind name) := by
  unfold unknown
  rw [he.name]
  exact x.alike_refuse S _ _

variable {x S} (hx : x.schema.Alike S) (hl : x.schema.loader? = none)

include hx hl

theorem alike_completeAttribute {a a' : Attribute σ} (ha : a.Alike a') (v : Json) :
    Attempt.Alike Eq (x.completeAttribute a v) ((x.on S).completeAttribute a' v) := by
  have checked : ∀ w, Attempt.Alike Eq
      (do
        Attempt.call (a.checkRule w)
        return w)
      (do
        Attempt.call (a'.checkRule w)
        return w) := fun w =>
    (Attempt.alike_call (ha.checkRule w)).bind fun _ _ _ => Attempt.alike_pure rfl
  unfold completeAttribute
  rw [← ha.type?]
  cases a.type? with
  | none => exact checked v
  | some r =>
    have hresolve : Lookup.Alike Eq (r.resolve x.schema x.schema.find) (r.resolve S S.find) := by
      rw [hx.resolve_eq, hx.find_eq hl]
      exact Lookup.alike_self _
    refine (x.alike_consult S hresolve).bind ?_
    rintro t _ rfl
    have hserialize : Lookup.Alike Eq (t.serialize x.schema x.schema.find v)
        (t.serialize S S.find v) := hx.find_eq hl ▸ hx.serialize _ t v
    refine (x.alike_consult S hserialize).bind ?_
    rintro w _ rfl
    exact checked w

theorem alike_field (site : Site) {e e' : Entity σ} (he : e.Alike e') (reference : Json)
    (name : String) :
    Run.Alike Eq (x.field site e reference name) ((x.on S).field site e' reference name) := by
  unfold field
  rcases rel_cases (he.attribute? name) with ⟨ha, ha'⟩ | ⟨a, a', ha, ha', halike⟩
  · rw [ha, ha']
    exact x.alike_unknown S site he .field name
  · rw [ha, ha']
    simp only [← halike.label]
    refine x.alike_settleField S _ (halike.resolve _ _) fun v => ?_
    refine (alike_completeAttribute hx hl halike v).bind ?_
    rintro w _ rfl
    exact Attempt.alike_pure (.value (.value w))

omit hx hl in
theorem alike_act (site : Site) {e e' : Entity σ} (he : e.Alike e') (reference : Json)
    (supplied : Entries Json) (name : String) :
    Run.Alike Eq (x.act site e reference supplied name)
      ((x.on S).act site e' reference supplied name) := by
  unfold act
  rcases rel_cases (he.act? name) with ⟨ha, ha'⟩ | ⟨a, a', ha, ha', halike⟩
  · rw [ha, ha']
    exact x.alike_unknown S site he .act name
  · rw [ha, ha']
    have hrun : Callback.Alike Answer.Alike (a.run reference supplied)
        (a'.run reference supplied) := by
      unfold Act.run
      rw [halike.arguments]
      exact halike.perform _ _
    exact x.alike_settleField S _ hrun fun v => Attempt.alike_pure (.value (.value v))

omit hx hl in
theorem alike_completeLinked {complete complete' : Json → Attempt σ Promise}
    (h : ∀ v, Attempt.Alike Eq (complete v) (complete' v)) (v : Json) :
    Attempt.Alike (likeness σ).Thenables (x.completeLinked complete v)
      ((x.on S).completeLinked complete' v) := by
  have single : ∀ v, Attempt.Alike (likeness σ).Thenables
      (do return .promise (← complete v)) (do return .promise (← complete' v)) := fun v => by
    refine (h v).bind ?_
    rintro p _ rfl
    exact Attempt.alike_pure (.promise p)
  cases v with
  | null => exact Attempt.alike_pure (.value (.value .null))
  | array references =>
    refine (Attempt.alike_mapM h references).bind ?_
    rintro promises _ rfl
    refine (Attempt.alike_ofRun (x.alike_together S promises _)).bind ?_
    rintro p _ rfl
    exact Attempt.alike_pure (.promise p)
  | bool b => exact single _
  | number n => exact single _
  | string s => exact single _
  | object fields => exact single _

theorem alike_link (site : Site) {e e' : Entity σ} (he : e.Alike e') (reference : Json)
    (name : String) (nested : Query)
    {complete complete' : Site → Entity σ → Json → Attempt σ Promise}
    (h : ∀ there target target', target.Alike target' → ∀ v,
      Attempt.Alike Eq (complete there target v) (complete' there target' v)) :
    Attempt.Alike Eq (x.link site e reference name nested complete)
      ((x.on S).link site e' reference name nested complete') := by
  unfold link
  rcases rel_cases (he.link? name) with ⟨ha, ha'⟩ | ⟨l, l', ha, ha', halike⟩
  · rw [ha, ha']
    exact Attempt.alike_ofRun (x.alike_unknown S site he .link name)
  · rw [ha, ha']
    have hfollow : Lookup.Alike (fun p p' => p.1 = p'.1 ∧ p.2.Alike p'.2)
        (l.follow x.schema x.schema.find e.name) (l'.follow S S.find e'.name) := by
      rw [← hx.find_eq hl, ← he.name]
      exact hx.follow _ halike e.name
    refine (Attempt.alike_consult hfollow).bind ?_
    rintro _ _ (⟨-, htarget⟩ | ⟨rfl⟩)
    · simp only [← halike.label, ← halike.arguments, ← htarget.name]
      refine Attempt.alike_ofRun (x.alike_settleField S _ (halike.resolve _ _) ?_)
      exact alike_completeLinked (h _ _ _ htarget)
    · exact (Attempt.alike_ofRun (x.alike_abort S _)).bind fun _ _ _ =>
        Attempt.alike_ofRun (x.alike_null S)

/-! ## Entities -/

mutual

/-- **The fields of an entity.** -/
theorem alike_completeEntity (site : Site) {e e' : Entity σ} (he : e.Alike e') (reference : Json) :
    (q : Query) → Attempt.Alike Eq (x.completeEntity site e reference q)
      ((x.on S).completeEntity site e' reference q)
  | ⟨_, attributes, act?, arguments, links⟩ => by
    rw [completeEntity, completeEntity]
    refine (Attempt.alike_ofRun (lockstep_mapM (alike_field hx hl site he reference) _)).bind ?_
    rintro ofAttributes _ rfl
    refine (Attempt.alike_ofRun (lockstep_mapM (alike_act site he reference arguments) _)).bind ?_
    rintro ofAct _ rfl
    refine (alike_completeLinks site he reference links).bind ?_
    rintro ofLinks _ rfl
    exact Attempt.alike_ofRun (x.alike_together S _ _)

theorem alike_completeLinks (site : Site) {e e' : Entity σ} (he : e.Alike e') (reference : Json) :
    (links : List (String × Query)) → Attempt.Alike Eq (x.completeLinks site e reference links)
      ((x.on S).completeLinks site e' reference links)
  | [] => by
    rw [completeLinks, completeLinks]
    exact Attempt.alike_pure rfl
  | (name, nested) :: rest => by
    rw [completeLinks, completeLinks]
    refine (alike_link hx hl site he reference name nested fun there target target' ht v =>
      alike_completeEntity there ht v nested).bind ?_
    rintro first _ rfl
    refine (alike_completeLinks site he reference rest).bind ?_
    rintro others _ rfl
    exact Attempt.alike_pure rfl

end

/-! ## Queries and documents -/

theorem alike_root (q : Query) :
    Lookup.Alike (Option.Rel Entity.Alike) (x.root q) ((x.on S).root q) := by
  unfold root
  cases q.typeName with
  | none => exact .pure .none
  | some name =>
    change Lookup.Alike _ _ (S.find name >>= fun t? => pure (t?.bind S.entity?))
    rw [← hx.find_eq hl]
    refine (Lookup.alike_self _).bind ?_
    rintro t? _ rfl
    cases t? with
    | none => exact .pure .none
    | some t => exact .pure (hx.entity? t)

theorem alike_queryOn (name : String) (q : Query) {e e' : Entity σ} (he : e.Alike e') :
    Run.Alike Eq (x.queryOn name q e) ((x.on S).queryOn name q e') := by
  have hfetch : Callback.Alike Answer.Alike (e.fetch q.arguments x.context)
      (e'.fetch q.arguments x.context) := by
    unfold Entity.fetch
    rw [he.arguments]
    exact he.resolve _ _
  unfold queryOn
  refine (x.alike_answered S hfetch).bind ?_
  rintro reference _ rfl
  refine (lockstep_andThen reference fun p p' hp => ?_).bind ?_
  · simp only [schema_on, context_on, ← hp.json_eq, ← he.name, ← he.arguments, ← hx.onDemand_eq]
    refine (alike_completeEntity hx hl _ he p.json q).exposed.bind ?_
    rintro _ _ (⟨rfl⟩ | hf)
    · exact .pure (.ok (.promise _))
    · exact .pure (.error hf)
  · rintro completed _ rfl
    exact lockstep_recover completed fun f f' hf =>
      (x.alike_fail S hf _).bind fun _ _ _ => .pure (.ok (.value _))

theorem alike_query (name : String) (q : Query) :
    Attempt.Alike Eq (x.query name q) ((x.on S).query name q) := by
  refine (Attempt.alike_ofRun (x.alike_count S _)).bind fun _ _ _ => ?_
  refine (Attempt.alike_consult (alike_root hx hl q)).bind ?_
  rintro _ _ ((he | _) | ⟨rfl⟩)
  · exact Attempt.alike_ofRun (alike_queryOn hx hl name q he)
  · exact Attempt.alike_ofRun (x.alike_refuse S _ _)
  · exact (Attempt.alike_ofRun (x.alike_abort S _)).bind fun _ _ _ =>
      Attempt.alike_ofRun (x.alike_null S)

omit hx hl in
theorem alike_conclude (names : List String) (before : Nat) (values : List Json) :
    Run.Alike (likeness σ).Outcomes (x.conclude names before values)
      ((x.on S).conclude names before values) := by
  have progress : Run.Alike Progress.Alike (Run.progress x.index : Run σ Progress)
      (Run.progress x.index) := .getWorld fun w w' hw => .pure <| by
    rcases rel_cases (hw.executions x.index) with ⟨hp, hp'⟩ | ⟨p, p', hp, hp', halike⟩
    · rw [hp, hp']
      exact ⟨.nil, rfl, rfl⟩
    · rw [hp, hp']
      exact halike
  refine progress.bind fun p p' hp => ?_
  rw [← hp.fatal?]
  cases p.fatal? with
  | some d => exact .pure (.error (.refl _))
  | none =>
    refine .ticks fun n => .pure (.ok (.report ⟨rfl, hp.failures, ?_, rfl, .none⟩))
    exact congrArg (fun t => t.addTicks (n - before)) hp.tally

/-- **A document.** -/
theorem alike_document (d : Document) :
    Attempt.Alike Eq (x.document d) ((x.on S).document d) := by
  refine (Attempt.alike_ofRun (.ticks fun _ => .eq)).bind ?_
  rintro before _ rfl
  refine (Attempt.alike_mapM ?_ d.queries).bind ?_
  · rintro ⟨name, q⟩
    exact alike_query hx hl name q
  rintro promises _ rfl
  refine (Attempt.alike_ofRun (lockstep_gather Payload.alike_bundle x.queue ?_)).bind ?_
  · rw [List.forall₂_map_left_iff, List.forall₂_map_right_iff]
    exact List.forall₂_same.mpr fun p _ => .promise p
  · rintro all _ rfl
    refine Attempt.alike_ofRun (lockstep_map all fun p p' hp => ?_)
    unfold Payload.items
    rw [hp.json_eq]
    exact alike_conclude _ _ _

end Execution

/-! ## Requests -/

theorem Execution.alike_new (S S' : Schema σ) (context : Context) (q : QueueId) :
    Run.Alike (fun x x' => x' = x.on S' ∧ x.schema = S) (Execution.new S context q)
      (Execution.new S' context q) := by
  refine Run.alike_stepWorld fun w w' hw => ⟨⟨?_, rfl⟩, hw.session, ?_⟩
  · rw [hw.executions.size_eq]
    rfl
  · exact hw.executions.push ⟨.nil, rfl, rfl⟩

/-- **Executing a request.** -/
theorem Request.alike_executeMasked {r : Request} (hr : r.options.flags.Discreet)
    {S S' : Schema σ} (h : S.Alike S') (hl : S.loader? = none) (q : QueueId) :
    Attempt.Alike Eq (r.executeMasked S q) (r.executeMasked S' q) := by
  have hexecute : Attempt.Alike Eq (Request.execute S q r.document r.context)
      (Request.execute S' q r.document r.context) := by
    refine (Attempt.alike_ofRun (Execution.alike_new S S' r.context q)).bind ?_
    rintro x _ ⟨rfl, rfl⟩
    exact Execution.alike_document h hl r.document
  refine hexecute.bind ?_
  rintro p _ rfl
  refine Attempt.alike_ofRun (lockstep_map p ?_)
  rintro _ _ (v | h)
  · exact .pure (.ok (.value v))
  · exact .pure (.ok (.report ⟨h.data, h.failures, h.tally, rfl, hr⟩))

/-- Likeness of the faults for which there is no report. -/
inductive EngineFault.Alike : EngineFault → EngineFault → Prop
  | stalled : Alike .stalled .stalled
  | rejected {f g : Failure} (h : f.Alike g) : Alike (.ofRejection f) (.ofRejection g)

/-- **Waiting for a report.** -/
theorem Report.alike_wait (q : QueueId) (p : Promise) :
    Run.Alike (ExceptRel EngineFault.Alike Report.Alike)
      (Report.wait q p : Run σ (Except EngineFault Report)) (Report.wait q p) := by
  refine (lockstep_wait q p).bind ?_
  rintro _ _ ((v | h) | h)
  · exact .pure (.error .stalled)
  · exact .pure (.ok h)
  · cases h with
    | rejected h => exact .pure (.error (.rejected h))
    | stalled => exact .pure (.error .stalled)

end EntityQuery
