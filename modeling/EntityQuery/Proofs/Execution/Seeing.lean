import EntityQuery.Proofs.Execution.Noting
import EntityQuery.Proofs.Execution.Sharing
import EntityQuery.Proofs.Execution.Sights
import EntityQuery.Proofs.Promise.Reactions

/-!
# Executions show resolvers where they are

A reference is completed only where a call has produced it, and the resolvers that are called on it see the place
and the arguments that go with it. That is carried down the links of a document by what promises are made for: at
any moment of any run, of one that is halted or waits forever as well.

* `honours_field`, `honours_link`, `honours_completeEntity`: one lemma for each function of an execution.
* `honours_start`, `honours_turns`: requests, also of which many share a queue.
* **`resolvers_see_their_place`**.
-/

namespace EntityQuery

open Lookup Session Execution Schema Machine

variable {σ : Type}

/-! ## Fields -/

section

variable {x : Execution (Recorded σ)} {s : Session (Recorded σ)} {log : List Event}
  {P : Multiset Entry → Call → Prop} {g : Moment σ}

theorem honours_together {promises : List Promise} {join : List Json → Json} :
    (x.together promises join).Honours (World.Orderly s log P) g fun _ _ => True := by
  refine (honours_gather fun th hth => ?_).bind fun g' p _ _ =>
    (honours_map (T := ⊥) fun _ _ _ _ => .pure UpperSet.mem_bot).trivial
  obtain ⟨p, -, rfl⟩ := List.mem_map.mp hth
  exact g.promises_bot p

theorem honours_null : x.null.Honours (World.Orderly s log P) g fun _ _ => True :=
  (honours_settled (T := ⊥) UpperSet.mem_bot).trivial

theorem honours_refuse (f : Failure) (place : Location) :
    (x.refuse f place).Honours (World.Orderly s log P) g fun _ _ => True :=
  (honours_update _ _).bind fun _ _ _ _ => honours_null

/-- A field whose value is completed, by steps that may rely on what the call has come to. -/
theorem honours_settleField {place : Location} {call : Call}
    {c : Callback (Recorded σ) (Answer (Recorded σ))}
    {complete : Json → Attempt (Recorded σ) (Thenable Payload (World (Recorded σ)))}
    (hc : c.Logs call) (hP : P (g.world.since log.length) call)
    (hcomplete : ∀ g' k v, g ≤ g' → call.CameTo (g'.world.since log.length) k (.ok v) →
      (complete v).Honours (World.Orderly s log P) g' fun g'' th =>
        th.Honours (World.Orderly s log P) g'' ⊥) :
    (x.settleField place c complete).Honours (World.Orderly s log P) g fun _ _ => True := by
  refine (honours_answered hc hP).bind fun g₁ source hle₁ hsource =>
    (honours_update _ _).bind fun g₂ _ hle₂ _ => ?_
  refine (honours_andThen (T := ⊥) fun g₃ p hle₃ hmeets => ?_).bind fun g₃ completed _ _ => ?_
  · obtain ⟨k, hk⟩ := hsource.mono hle₂ g₃.world p hmeets
    exact (hcomplete g₃ k p.json ((hle₁.trans hle₂).trans hle₃) hk).caught
  · refine (honours_thenOrElse (T := ⊥) (fun g₄ p _ _ => ?_) fun g₄ f _ => ?_).trivial
    · exact (honours_update _ _).bind fun _ _ _ _ => .pure UpperSet.mem_bot
    · exact (honours_update _ _).bind fun _ _ _ _ => (honours_update _ _).bind fun _ _ _ _ =>
        .pure UpperSet.mem_bot

theorem honours_completeLinked {complete : Json → Attempt (Recorded σ) Promise} {v : Json}
    (hcomplete : ∀ g', g ≤ g' → ∀ linked ∈ v.linked,
      (complete linked).Honours (World.Orderly s log P) g' fun _ _ => True) :
    (x.completeLinked complete v).Honours (World.Orderly s log P) g fun g' th =>
      th.Honours (World.Orderly s log P) g' ⊥ := by
  have one : v.linked = [v] → Attempt.Honours (World.Orderly s log P) g
      (fun g' th => th.Honours (World.Orderly s log P) g' ⊥)
      (do return .promise (← complete v) : Attempt (Recorded σ) (Thenable Payload _)) := by
    intro hv
    exact (hcomplete g le_rfl v (hv ▸ List.mem_singleton_self v)).bind fun g' p _ _ =>
      honours_return (g'.promises_bot p)
  cases v with
  | null => exact honours_return UpperSet.mem_bot
  | array references =>
    refine (honours_mapM hcomplete).bind fun g₁ promises _ _ => ?_
    exact (honours_ofRun honours_together).bind fun g₂ p _ _ => honours_return (g₂.promises_bot p)
  | bool b => exact one rfl
  | number n => exact one rfl
  | string t => exact one rfl
  | object entries => exact one rfl

end

section

variable {x : Execution (Recorded σ)} {s : Session (Recorded σ)} {log : List Event}
  {P : Multiset Entry → Call → Prop} {g : Moment σ} {types : Entries NamedType} {d : Document}
  {index : Nat} {path : List String} {e : Entity (Recorded σ)} {declared : List Argument} {q : Query}
  {producer : Call} {reference : Json}

section

variable (hp : x.schema.Plain) (hrec : x.schema.Records)

include hp hrec

theorem honours_completeAttribute {a : Attribute (Recorded σ)} (hrule : ∀ v, Callback.Quiet (a.checkRule v))
    (ha : ∀ r, a.type? = some r → r.Fits x.schema s) (v : Json) :
    (x.completeAttribute a v).Honours (World.Orderly s log P) g fun _ _ => True := by
  have ruled : ∀ g' w, Attempt.Honours (World.Orderly s log P) g' (fun _ _ => True) (do
      Attempt.call (a.checkRule w)
      return w : Attempt (Recorded σ) Json) := fun g' w =>
    (honours_quiet (hrule w)).bind fun _ _ _ _ => honours_return trivial
  unfold completeAttribute
  cases htype : a.type? with
  | none => exact ruled g v
  | some r =>
    obtain ⟨t, hr, ht⟩ := (ha r htype).resolve hp
    have hresolve : Yields s (fun t' => t' = t) (r.resolve x.schema x.schema.find) :=
      hr.answers.comes fun _ he => by cases he; rfl
    have hserialize : Yields s (fun _ => True) (t.serialize x.schema x.schema.find v) :=
      (ht.serialize (K := .safe s) hp
        (fun sc n w _ => (comes_call _).mono fun _ _ => trivial) v).mono fun _ _ _ _ => trivial
    refine (honours_consult (hrec.resolve r) hresolve).bind fun g' t' _ ht' => ?_
    rw [ht']
    exact (honours_consult (hrec.serialize t v) hserialize).bind fun g'' w _ _ => ruled g'' w

end

variable (hp : x.schema.Plain) (hrec : x.schema.Records) (hs : x.schema.Sound types s)
  (hr : d.Rooted x.schema types s) (hlawful : ∀ t e, x.schema.entity? t = some e → e.Lawful)
  (hP : ∀ noted call, call.Informed x.schema s d x.context noted → P noted call)
  (hk : d.Produces x.schema s x.context (g.world.since log.length) index path e declared q producer
    reference)

include hp hrec hs hr hlawful hP hk

/-- **The resolver of an attribute sees its place and the arguments that go with its reference.** -/
theorem honours_field {name : String} (hn : name ∈ q.attributes) :
    (x.field (q.site x.schema x.context (d.nameOf index) path e declared) e reference name).Honours
      (World.Orderly s log P) g fun _ _ => True := by
  have hreach := hk.reaches
  have hknown := hreach.knows hp hs hr
  have hsettled := hs.settles hp hknown
  obtain ⟨t, -, ht⟩ := hknown
  have hlogs := hrec.entities t e ht
  unfold Execution.field
  cases ha : e.attribute? name with
  | none => exact honours_refuse _ _
  | some a =>
    have hmem : a ∈ e.attributes := List.mem_of_find?_eq_some ha
    obtain rfl : a.label.name = name := by simpa using List.find?_some ha
    have howned : e.artifact? .field a.label.name = some a.label := by simp [Entity.artifact?, ha]
    have hinformed := Call.Informed.attribute hk (hreach.sees x.context howned hn _)
      hk.arguments_eq.symm (Argument.applyDefaults_eq (hreach.distinct hlawful hp hs hr) q.arguments)
    refine honours_settleField (hlogs.attributes a hmem _ _) (hP _ _ hinformed) fun g' k v _ _ => ?_
    exact (honours_completeAttribute hp hrec (hlogs.rules a hmem) (hsettled.attributes a hmem) v).bind
      fun _ _ _ _ => honours_return UpperSet.mem_bot

omit hlawful in
theorem honours_act (site : Site) (name : String) :
    (x.act site e reference q.arguments name).Honours (World.Orderly s log P) g fun _ _ => True := by
  obtain ⟨t, -, ht⟩ := hk.reaches.knows hp hs hr
  unfold Execution.act
  cases ha : e.act? name with
  | none => exact honours_refuse _ _
  | some a =>
    have hmem : a ∈ e.acts := List.mem_of_find?_eq_some ha
    exact honours_settleField ((hrec.entities t e ht).acts a hmem _ _) (hP _ _ (.act _ _ _ _))
      fun _ _ _ _ _ => honours_return UpperSet.mem_bot

/-- **The resolver of a link sees its place, and the arguments of the query that is nested under it.** What it
comes to is what that query is completed on. -/
theorem honours_link {name : String} {nested : Query} (hn : (name, nested) ∈ q.links)
    {complete : Site → Entity (Recorded σ) → Json → Attempt (Recorded σ) Promise}
    (hcomplete : ∀ g' target (l : Link (Recorded σ)) producer linked, g ≤ g' →
      d.Produces x.schema s x.context (g'.world.since log.length) index (path ++ [name]) target
        l.arguments nested producer linked →
      (complete (nested.site x.schema x.context (d.nameOf index) (path ++ [name]) target l.arguments)
        target linked).Honours (World.Orderly s log P) g' fun _ _ => True) :
    (x.link (q.site x.schema x.context (d.nameOf index) path e declared) e reference name nested
      complete).Honours (World.Orderly s log P) g fun _ _ => True := by
  have hreach := hk.reaches
  have hknown := hreach.knows hp hs hr
  have hsettled := hs.settles hp hknown
  obtain ⟨t, -, ht⟩ := hknown
  have hlogs := hrec.entities t e ht
  unfold Execution.link
  cases hl : e.link? name with
  | none => exact honours_ofRun (honours_refuse _ _)
  | some l =>
    have hmem : l ∈ e.links := List.mem_of_find?_eq_some hl
    obtain rfl : l.label.name = name := by simpa using List.find?_some hl
    obtain ⟨t', target, -, hfollow⟩ := hsettled.links l hmem
    have hyields : Yields s (fun r => r = (t', target)) (l.follow x.schema x.schema.find e.name) :=
      hfollow.answers.comes fun _ he => by cases he; rfl
    refine (honours_attemptConsult (hrec.follow e.name l) hyields).bind ?_
    rintro g₁ _ hle₁ ⟨_, rfl, rfl⟩
    have hk₁ := hk.mono (World.since_mono hle₁.2 _)
    have howned : e.artifact? .link l.label.name = some l.label := by simp [Entity.artifact?, hl]
    have hdistinct := ((hlawful t e ht).ofLinks l hmem)
    have hinformed := Call.Informed.link hk₁
      (hreach.sees x.context howned (List.mem_map_of_mem hn)
        (Argument.applyDefaults l.arguments nested.arguments)) hn hl
      (Argument.applyDefaults_eq hdistinct nested.arguments)
    refine honours_ofRun (honours_settleField (hlogs.links l hmem _ _) (hP _ _ hinformed)
      fun g₂ k v hle₂ hcame => honours_completeLinked fun g₃ hle₃ linked hlinked => ?_)
    have hle := hle₂.trans hle₃
    exact hcomplete g₃ target l _ linked (hle₁.trans hle) (.link (hk₁.mono (World.since_mono hle.2 _)) hn hl
      hfollow.answers rfl (hcame.mono (World.since_mono hle₃.2 _)) hlinked)

omit hp hrec hs hr hlawful hP hk

/-! ## Entities -/

mutual

/-- **At the end of any path, every resolver sees its place**: by recursion on the query, where each reference
has been produced. -/
theorem honours_completeEntity (hp : x.schema.Plain) (hrec : x.schema.Records)
    (hs : x.schema.Sound types s) (hr : d.Rooted x.schema types s)
    (hlawful : ∀ t e, x.schema.entity? t = some e → e.Lawful)
    (hP : ∀ noted call, call.Informed x.schema s d x.context noted → P noted call) :
    (q : Query) → ∀ (g : Moment σ) path (e : Entity (Recorded σ)) declared producer reference,
      d.Produces x.schema s x.context (g.world.since log.length) index path e declared q producer reference →
      (x.completeEntity (q.site x.schema x.context (d.nameOf index) path e declared) e reference q).Honours
        (World.Orderly s log P) g fun _ _ => True
  | ⟨typeName, attributes, act?, arguments, links⟩ => by
    intro g path e declared producer reference hk
    rw [completeEntity]
    refine (honours_ofRun (honours_runMapM fun g' hle name hn =>
      honours_field hp hrec hs hr hlawful hP (hk.mono (World.since_mono hle.2 _)) hn)).bind fun g₁ _ hle₁ _ => ?_
    refine (honours_ofRun (honours_runMapM fun g' hle name _ =>
      honours_act hp hrec hs hr hP (hk.mono (World.since_mono (hle₁.trans hle).2 _)) _ name)).bind
        fun g₂ _ hle₂ _ => ?_
    have hk₂ := hk.mono (World.since_mono (hle₁.trans hle₂).2 _)
    refine (honours_completeLinks hp hrec hs hr hlawful hP links g₂ path e declared _ producer reference
      (List.Subset.refl _) hk₂).bind fun g₃ _ _ _ => ?_
    exact honours_ofRun honours_together

theorem honours_completeLinks (hp : x.schema.Plain) (hrec : x.schema.Records)
    (hs : x.schema.Sound types s) (hr : d.Rooted x.schema types s)
    (hlawful : ∀ t e, x.schema.entity? t = some e → e.Lawful)
    (hP : ∀ noted call, call.Informed x.schema s d x.context noted → P noted call) :
    (links : List (String × Query)) → ∀ (g : Moment σ) path (e : Entity (Recorded σ)) declared q producer
      reference, links ⊆ q.links →
      d.Produces x.schema s x.context (g.world.since log.length) index path e declared q producer reference →
      (x.completeLinks (q.site x.schema x.context (d.nameOf index) path e declared) e reference links).Honours
        (World.Orderly s log P) g fun _ _ => True
  | [] => by
    intros
    rw [completeLinks]
    exact honours_return trivial
  | (name, nested) :: rest => by
    intro g path e declared q producer reference hsub hk
    rw [completeLinks]
    refine (honours_link hp hrec hs hr hlawful hP hk (hsub List.mem_cons_self)
      fun g' target l producer linked _ hk' => honours_completeEntity hp hrec hs hr hlawful hP nested g' _
        target l.arguments producer linked hk').bind fun g₁ _ hle _ => ?_
    exact (honours_completeLinks hp hrec hs hr hlawful hP rest g₁ path e declared q producer reference
      (fun _ h => hsub (List.mem_cons_of_mem _ h)) (hk.mono (World.since_mono hle.2 _))).bind
        fun _ _ _ _ => honours_return trivial

end

/-! ## Queries and documents -/

variable (hp : x.schema.Plain) (hrec : x.schema.Records) (hs : x.schema.Sound types s)
  (hr : d.Rooted x.schema types s) (hlawful : ∀ t e, x.schema.entity? t = some e → e.Lawful)
  (hP : ∀ noted call, call.Informed x.schema s d x.context noted → P noted call)

include hp hrec hs hr hlawful hP

theorem honours_queryOn {name : String} (hq : d.queries[index]? = some (name, q))
    (hroot : q.Roots x.schema s (some e)) :
    (x.queryOn name q e).Honours (World.Orderly s log P) g fun _ _ => True := by
  have hreach : d.Reaches x.schema s index [] e e.arguments q := .root hq hroot
  obtain ⟨t, -, ht⟩ := hreach.knows hp hs hr
  have hname : d.nameOf index = name := by
    simp [Document.nameOf, Document.names, List.getD_eq_getElem?_getD, hq]
  have hinformed : Call.Informed x.schema s d x.context (g.world.since log.length)
      (.entity e.name (Argument.applyDefaults e.arguments q.arguments) x.context) :=
    .entity (List.mem_of_getElem? hq) hroot
      (Argument.applyDefaults_eq (hlawful t e ht).arguments q.arguments)
  refine (honours_answered ((hrec.entities t e ht).resolve _ _) (hP _ _ hinformed)).bind
    fun g₁ reference _ hreference => ?_
  refine (honours_andThen (T := ⊥) fun g₂ p hle hmeets => ?_).bind fun g₃ completed _ hcompleted =>
    (honours_recover hcompleted fun g₄ f _ => (honours_update _ _).bind fun _ _ _ _ =>
      .pure UpperSet.mem_bot).trivial
  obtain ⟨k, hcame⟩ := hreference g₂.world p hmeets
  have hcompletes : (x.completeEntity (q.site x.schema x.context (d.nameOf index) [] e e.arguments) e p.json
      q).Honours (World.Orderly s log P) g₂ fun _ _ => True :=
    honours_completeEntity hp hrec hs hr hlawful hP q g₂ [] e e.arguments _ p.json (.root hq hroot hcame)
  rw [hname] at hcompletes
  refine hcompletes.exposed.bind fun g₃ r _ _ => .pure fun th hth => ?_
  cases r with
  | ok p =>
    cases hth
    exact g₃.promises_bot p
  | error f => cases hth

theorem honours_query {name : String} (hq : (name, q) ∈ d.queries) :
    (x.query name q).Honours (World.Orderly s log P) g fun _ _ => True := by
  obtain ⟨index, hindex⟩ := List.getElem?_of_mem hq
  obtain ⟨e?, hroot, -⟩ := hr.exists_root hq
  refine (honours_ofRun (honours_update _ _)).bind fun g₁ _ _ _ => ?_
  refine (honours_attemptConsult (hrec.root rfl q) hroot.yields).bind ?_
  rintro g₂ _ - ⟨e', rfl, rfl⟩
  cases e' with
  | none => exact honours_ofRun (honours_refuse _ _)
  | some e => exact honours_ofRun (honours_queryOn hp hrec hs hr hlawful hP hindex hroot)

omit hp hrec hs hr hlawful hP in
theorem honours_conclude (names : List String) (before : Nat) (values : List Json) :
    (x.conclude names before values).Honours (World.Orderly s log P) g fun _ _ => True := by
  refine .getWorld fun _ => ?_
  simp only [Steps.bind]
  split
  · exact .pure trivial
  · exact .ticks fun n => .pure trivial

theorem honours_document : (x.document d).Honours (World.Orderly s log P) g fun _ _ => True := by
  refine (honours_ofRun (Q := fun _ _ => True) (.ticks fun n => .pure trivial)).bind fun g₁ before _ _ => ?_
  refine (honours_mapM fun g' _ nq hnq =>
    honours_query hp hrec hs hr hlawful hP hnq).bind fun g₂ promises _ _ => ?_
  refine (honours_ofRun (honours_gather fun th hth => ?_)).bind fun g₃ all _ _ => ?_
  · obtain ⟨p, -, rfl⟩ := List.mem_map.mp hth
    exact g₂.promises_bot p
  · refine honours_ofRun (honours_map (T := ⊥) fun g₄ p _ _ => ?_).trivial
    exact (honours_conclude _ _ _).mono fun g' o _ _ => by cases o <;> exact UpperSet.mem_bot

end

/-! ## Requests -/

section

variable {schema : Schema (Recorded σ)} {s : Session (Recorded σ)} {log : List Event}
  {P : Multiset Entry → Call → Prop} {g : Moment σ} {types : Entries NamedType} {q : QueueId}
  (hp : schema.Plain) (hrec : schema.Records) (hs : schema.Sound types s)
  (hr : ∀ d : Document, d.Rooted schema types s) (hlawful : ∀ t e, schema.entity? t = some e → e.Lawful)

include hp hrec hs hr hlawful

theorem honours_execute {d : Document} {context : Context}
    (hP : ∀ noted call, call.Informed schema s d context noted → P noted call) :
    (Request.execute schema q d context).Honours (World.Orderly s log P) g fun _ _ => True := by
  refine Attempt.Honours.bind (Q := fun _ x => x.schema = schema ∧ x.context = context) ?_ ?_
  · exact honours_ofRun (.getWorld fun hw => .setWorld (le_refl g.world) ⟨hw.alike, hw.calls⟩
      (.pure ⟨rfl, rfl⟩))
  · rintro g' x - ⟨rfl, rfl⟩
    exact honours_document hp hrec hs (hr d) hlawful hP

/-- **A request shows its resolvers where they are**, on any queue and at any moment. -/
theorem honours_start {r : Request}
    (hP : ∀ noted call, call.Informed schema s r.document r.context noted → P noted call) :
    (r.start schema q).Honours (World.Orderly s log P) g fun _ _ => True := by
  have executed : ∀ g', (r.executeMasked schema q).Honours (World.Orderly s log P) g' fun _ _ => True := by
    intro g'
    refine (honours_execute hp hrec hs hr hlawful hP).bind fun g₁ p _ _ =>
      honours_ofRun (honours_map (T := ⊥) fun g₂ v _ _ => ?_).trivial
    cases v <;> exact .pure UpperSet.mem_bot
  have settled : ∀ (g' : Moment σ) (o : Outcome Payload), (Attempt.ofRun (Promise.settled q o)).Honours
      (World.Orderly s log P) g' fun _ _ => True := fun g' o =>
    honours_ofRun (honours_settled (T := ⊥) (by cases o <;> exact UpperSet.mem_bot)).trivial
  unfold Request.start
  split
  · exact executed g
  · have hyields := Document.yields_validate (v := { schema }) hp hs (hr r.document)
    refine (honours_attemptConsult (Document.quiet_validate hrec _) hyields).bind ?_
    rintro g₁ _ - ⟨failures, rfl, -⟩
    cases failures with
    | nil => exact executed g₁
    | cons f rest => exact settled g₁ _

omit hp hrec hs hr hlawful in
theorem honours_reportWait (p : Promise) :
    (Report.wait q p : Run (Recorded σ) _).Honours (World.Orderly s log P) g fun _ _ => True := by
  refine honours_wait.bind fun _ o _ _ => ?_
  obtain fault | (v | report) := o <;> exact .pure trivial

/-- Requests that share a queue show their resolvers where they are. -/
theorem honours_turns (begun : List (Except Fault Promise)) (turns : List Turn)
    (hP : ∀ r, .start r ∈ turns → ∀ noted call,
      call.Informed schema s r.document r.context noted → P noted call) :
    (Turn.run schema q begun turns).Honours (World.Orderly s log P) g fun _ _ => True := by
  induction turns generalizing g begun with
  | nil => exact .pure trivial
  | cons turn rest ih =>
    have later : ∀ r, .start r ∈ rest → ∀ noted call,
        call.Informed schema s r.document r.context noted → P noted call :=
      fun r hr => hP r (List.mem_cons_of_mem _ hr)
    cases turn with
    | start r =>
      have started : (r.start schema q).Honours (World.Orderly s log P) g fun _ _ => True :=
        honours_start hp hrec hs hr hlawful (hP r List.mem_cons_self)
      exact Steps.Honours.bind started fun g₁ a _ _ => ih _ later
    | wait i =>
      rw [Turn.run]
      split
      · exact ih _ later
      · next a _ =>
        have awaited : (Report.awaited q a).Honours (World.Orderly s log P) g fun _ _ => True := by
          cases a with
          | error f => exact .pure trivial
          | ok p => exact Steps.Honours.trivial (honours_ofRun (honours_reportWait p))
        exact awaited.bind fun g₁ y _ _ => (ih _ later).bind fun _ _ _ _ => .pure trivial

end

/-- **Every resolver sees where it is called.** On a schema whose entities are built from drafts, and that was
built without a loader, requests are started and waited for in any order on a queue of a machine on which no
task waits. At any moment of their run, also where it is halted or waits forever, each attribute or link that
has been called sees the query, the path, the entity and the artifact that one of the documents asks for; and
the arguments that were seen by the call that has produced its reference, or, for a link, those of the query
nested under it. -/
theorem resolvers_see_their_place {schema : Schema σ} (hl : schema.loader? = none) (hdrafted : schema.Drafted)
    {declared : List Ty} {app : Recorded σ} {s : Session (Recorded σ)}
    (hbuild : schema.recorded.build declared false { app } = .ok () s)
    {m : Machine Payload (World (Recorded σ))} (hm : s.Alike m.world.session)
    (hidle : ∀ q, m.tasks q = []) (q : QueueId) (turns : List Turn) (limit : Nat) :
    ∃ added, (m.run limit (Turn.run schema.recorded q [] turns)).machine.world.session.log =
        m.world.session.log ++ added ∧
      ∀ before call reply after, added = before ++ .called call reply :: after →
        ∃ r, .start r ∈ turns ∧ call.Informed schema.recorded s r.document r.context
          (History.placed m.world.session.log.length (before.map .event) : List Entry) := by
  obtain ⟨hp, types, hs, hr⟩ := Schema.serves_of_build (schema.loader?_recorded hl) hbuild
  let P (noted : Multiset Entry) (call : Call) : Prop :=
    ∃ r, .start r ∈ turns ∧ call.Informed schema.recorded s r.document r.context noted
  have hstart : World.Orderly s m.world.session.log P m.world :=
    ⟨hm, [], (List.append_nil _).symm, justified_nil P _⟩
  obtain ⟨Γ, hΓ⟩ := Machine.Honours.idle hstart hidle
  have hturns : (Turn.run schema.recorded q [] turns).Honours (World.Orderly s m.world.session.log P)
      (m.stage Γ) fun _ _ => True :=
    honours_turns hp schema.records_recorded hs hr (fun t e he => hdrafted.lawful_recorded he) [] turns
      fun r hr noted call hcall => ⟨r, hr, hcall⟩
  obtain ⟨Γ', -, hΓ'⟩ := (hΓ.run limit hturns).machine
  exact hΓ'.world.calls

namespace Sample

/-- An entity with a link to two others, with arguments that have defaults. -/
def greeter : Entity Unit where
  name := "Greeter"
  resolve _ _ := pure (.ready (.string "ada"))
  attributes := [{
    label := { name := "greeting" }
    resolve := fun reference _ => pure (.settling .own 1 (pure reference)) }]
  links := [{
    label := { name := "peers" }
    target := .named "Greeter"
    resolve := fun _ _ => pure (.settling .foreign 2 (pure (.array [.string "bob", .string "eve"])))
    arguments := [
      { name := "count", type := .direct (.base (.standard .int)), default? := some (.nat 2) },
      { name := "tone", type := .direct (.base (.standard .string)) }] }]
  arguments := [
    { name := "tone", type := .direct (.base (.standard .string)), default? := some (.string "plain") }]

/-- A schema of the one entity. -/
def greeters : Schema Unit where
  define _ := .entity greeter
  target _ := .base (.standard .string)
  limit := 30

/-- The session that the schema starts with. -/
def greetersSession : Session (Recorded Unit) where
  registry := [("String", .ready (.standard .string)), ("Int", .ready (.standard .int)),
    ("Float", .ready (.standard .float)), ("Boolean", .ready (.standard .boolean)),
    ("ID", .ready (.standard .id)), ("Greeter", .ready (.defined ⟨0, 0⟩))]
  complete := true
  app := { app := () }

theorem greeters_built :
    greeters.recorded.build [.base (.defined ⟨0, 0⟩)] false { app := { app := () } } =
      .ok () greetersSession := by
  unfold Schema.build Schema.check Schema.checkFound Schema.scan
  rw [Schema.find_eq_of_eager rfl]
  rfl

/-- What the entity is declared as. -/
def greeterDraft : Draft Unit where
  name := greeter.name
  resolve? := some greeter.resolve
  attributes := greeter.attributes
  links := greeter.links
  arguments := greeter.arguments

theorem greeters_drafted : greeters.Drafted := by
  intro t e he
  refine ⟨greeterDraft, ?_⟩
  cases t with
  | standard k => cases he
  | defined id =>
    cases he
    rfl

/-- A request for greetings, of an entity and of its peers. -/
def greetings : Request where
  document := { queries := [("hello", {
    typeName := some "Greeter"
    attributes := ["greeting"]
    act := none
    arguments := []
    links := [("peers", {
      typeName := none
      attributes := ["greeting"]
      act := none
      arguments := [("tone", .string "loud")]
      links := [] })] })] }

/-- Two such requests on one queue. -/
def greetingTurns : List Turn := [.start greetings, .start greetings, .wait 1, .wait 0]

/-- The log of their run. -/
def greetingLog : List Event :=
  ((Machine.start { session := greetersSession }).newQueue.2.run 100
    (Turn.run greeters.recorded ⟨0⟩ [] greetingTurns)).machine.world.session.log

/-- A peer has been asked for its greeting, and its resolver has seen an argument that was supplied to the link
and one that the link declares a default for. -/
def Greets (e : Event) : Prop :=
  ∃ reference site reply, e = .called (.attribute "Greeter" { name := "greeting" } reference site) reply ∧
    site.path = ["peers"] ∧ (Json.object site.arguments).render =
      (Json.object [("tone", .string "loud"), ("count", .nat 2)]).render

/-- Whether the entry is such a call. -/
def isGreeting : Event → Bool
  | .called (.attribute "Greeter" ⟨"greeting", none, false, none⟩ _ site) _ =>
    decide (site.path = ["peers"]) && decide ((Json.object site.arguments).render =
      (Json.object [("tone", .string "loud"), ("count", .nat 2)]).render)
  | _ => false

theorem greets : ∃ e ∈ greetingLog, Greets e := by
  have hany : greetingLog.any isGreeting = true := by decide +kernel
  obtain ⟨e, he, hgreets⟩ := List.any_eq_true.mp hany
  refine ⟨e, he, ?_⟩
  unfold isGreeting at hgreets
  split at hgreets
  · obtain ⟨hpath, harguments⟩ := Bool.and_eq_true_iff.mp hgreets
    exact ⟨_, _, _, rfl, of_decide_eq_true hpath, of_decide_eq_true harguments⟩
  · cases hgreets

end Sample

theorem resolvers_see_their_place_sample :
    (∃ e ∈ Sample.greetingLog, Sample.Greets e) ∧
    ∀ before call reply after, Sample.greetingLog = before ++ .called call reply :: after →
      ∃ r, .start r ∈ Sample.greetingTurns ∧
        call.Informed Sample.greeters.recorded Sample.greetersSession r.document r.context
          (History.placed 0 (before.map .event) : List Entry) := by
  refine ⟨Sample.greets, ?_⟩
  let m : Machine Payload (World (Recorded Unit)) :=
    (Machine.start { session := Sample.greetersSession }).newQueue.2
  have hidle : ∀ q, m.tasks q = [] := fun q => by
    rw [tasks_newQueue]
    simp [Machine.start, Machine.tasks, Machine.queue]
  obtain ⟨added, hlog, hcalls⟩ := resolvers_see_their_place rfl Sample.greeters_drafted Sample.greeters_built
    (m := m) (.refl Sample.greetersSession) hidle ⟨0⟩ Sample.greetingTurns 100
  have hlog : Sample.greetingLog = added := hlog
  rw [hlog]
  exact hcalls

end EntityQuery
