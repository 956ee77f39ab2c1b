import EntityQuery.Proofs.Execution.Concluding

/-!
# Evaluating documents directly

The plain recursive evaluation of a document, in one session, with no promises and no queues. Where
every callback comes to the same in all states of the application, it is the only value that the
document means, with the only failures.

* `Callback.Pure`, `Schema.Pure`: callbacks that come to the same in all states.
* `Evaluator`: the evaluation, by recursion on the query; `Evaluator.document` evaluates a document.
* `Meaning.Is`: a meaning has one value. **`Evaluator.is_entity`**: so has every entity.
* **`execution_refines_evaluation`**: an execution reports what the evaluation gives.
-/

namespace EntityQuery

open Lookup Session Execution Schema

variable {σ α : Type}

/-! ## What callbacks come to -/

/-- The callback comes to the same in all states of the application. -/
def Callback.Pure (c : Callback σ α) : Prop := ∀ r r', c.Gives r → c.Gives r' → r = r'

/-- What a callback comes to in a state of the application. -/
def Callback.value (c : Callback σ α) (app : σ) : Except Fault α :=
  match c app with
  | .ok a _ => .ok a
  | .error f _ => .error f

theorem Callback.gives_value (c : Callback σ α) (app : σ) : c.Gives (Callback.value c app) := by
  unfold Callback.value
  cases hc : c app with
  | ok a app' => exact ⟨app, app', hc⟩
  | error f app' => exact ⟨app, app', hc⟩

theorem Callback.Pure.eq_value {c : Callback σ α} (hc : c.Pure) {r : Except Fault α}
    (h : c.Gives r) (app : σ) : r = Callback.value c app :=
  hc r _ h (gives_value c app)

/-- The callbacks behind an answer come to the same in all states. -/
def Answer.Pure : Answer σ → Prop
  | .deferred compute => Callback.Pure compute
  | .settling _ _ finish => Callback.Pure finish
  | _ => True

/-- Resolvers with their answers, rules, and the coercions of scalars on the way out come to the same
in all states. -/
structure Schema.Pure (schema : Schema σ) : Prop where
  resolver : ∀ c, schema.Calls c → c.Pure ∧ ∀ a, c.Gives (.ok a) → a.Pure
  rule : ∀ t e a v, schema.entity? t = some e → a ∈ e.attributes → (a.checkRule v).Pure
  serialize : ∀ t sc v, schema.definition t = .scalar sc → (sc.serialize v).Pure

/-- Where the application has one state only, every callback comes to the same. -/
theorem Callback.pure_of_subsingleton [Subsingleton σ] (c : Callback σ α) : Callback.Pure c := by
  rintro r r' ⟨app, app₁, h⟩ ⟨app', app₁', h'⟩
  rw [Subsingleton.elim app' app, h] at h'
  cases r <;> cases r' <;> cases h' <;> rfl

theorem Schema.pure_of_subsingleton [Subsingleton σ] (schema : Schema σ) : schema.Pure := by
  refine ⟨fun c _ => ⟨Callback.pure_of_subsingleton c, fun a _ => ?_⟩,
    fun _ _ _ _ _ _ => Callback.pure_of_subsingleton _,
    fun _ _ _ _ => Callback.pure_of_subsingleton _⟩
  cases a with
  | ready _ => trivial
  | deferred _ => exact Callback.pure_of_subsingleton _
  | settling _ _ _ => exact Callback.pure_of_subsingleton _
  | stuck _ => trivial

/-- The failure that a stop counts as. -/
def Stop.toFailure : Stop → Failure
  | defect d => .ofDefect d
  | fault f => f.toFailure
  | exhausted => .invariant "Lookups nest too deep"

/-- What a lookup comes to in a session. -/
def Lookup.value (x : Lookup σ α) (s : Session σ) : Except Failure α :=
  match x s with
  | .ok a _ => .ok a
  | .error e _ => .error e.toFailure

theorem Lookup.Answers.value {x : Lookup σ α} {a : α} {s : Session σ} (h : Answers x a s) :
    Lookup.value x s = .ok a := by
  unfold Lookup.value
  rw [h s (.refl s)]

/-! ## The evaluation -/

/-- A value, and the failures that were met. -/
structure Evaluated where
  value : Json
  failures : List Failure := []

/-- Null, and a failure. -/
def Evaluated.failed (f : Failure) : Evaluated := ⟨.null, [f]⟩

/-- What an evaluation goes by. -/
structure Evaluator (σ : Type) where
  schema : Schema σ
  context : Context
  session : Session σ

namespace Evaluator

variable (v : Evaluator σ)

/-- What an answer comes to. -/
def answer : Answer σ → Except Failure Json
  | .ready w => .ok w
  | .deferred compute => (Callback.value compute v.session.app).mapError Fault.toFailure
  | .settling _ _ finish => (Callback.value finish v.session.app).mapError Fault.toFailure
  | .stuck _ => .error WaitFault.stalled.failure

/-- What a resolver comes to. -/
def resolved (c : Callback σ (Answer σ)) : Except Failure Json :=
  match Callback.value c v.session.app with
  | .ok a => v.answer a
  | .error f => .error f.toFailure

/-- A field: what its resolver comes to, completed; or null, and the failure at its place. -/
def settled (place : Location) (c : Callback σ (Answer σ))
    (complete : Json → Except Failure Evaluated) : Evaluated :=
  match v.resolved c >>= complete with
  | .ok e => e
  | .error f => .failed (f.located [place])

/-- The value of an attribute, coerced by its type. -/
def coerced (a : Attribute σ) (w : Json) : Except Failure Json :=
  match a.type? with
  | none => .ok w
  | some r =>
    Lookup.value (do (← r.resolve v.schema v.schema.find).serialize v.schema v.schema.find w) v.session

/-- The value of an attribute, coerced by its type and checked against its rule. -/
def completed (a : Attribute σ) (w : Json) : Except Failure Evaluated := do
  let w ← v.coerced a w
  let _ ← (Callback.value (a.checkRule w) v.session.app).mapError Fault.toFailure
  return ⟨w, []⟩

/-- An attribute of an entity, by name. -/
def field (site : Site) (e : Entity σ) (reference : Json) (name : String) : Evaluated :=
  match e.attribute? name with
  | none => .failed (refusal site e .field name)
  | some a =>
    v.settled (place site .field name) (a.resolve reference (site.focus .field a.label))
      (v.completed a)

/-- An act on an entity. -/
def act (site : Site) (e : Entity σ) (reference : Json) (supplied : Entries Json)
    (name : String) : Evaluated :=
  match e.act? name with
  | none => .failed (refusal site e .act name)
  | some a => v.settled (place site .act name) (a.run reference supplied) fun w => .ok ⟨w, []⟩

/-- What a link leads to: nothing, one entity, or a list of them. -/
def linked (complete : Json → Evaluated) : Json → Evaluated
  | .null => ⟨.null, []⟩
  | .array references =>
    ⟨.array (references.map fun w => (complete w).value),
      references.flatMap fun w => (complete w).failures⟩
  | reference => complete reference

/-- A link of an entity, given how the entity that it leads to is evaluated. -/
def link (site : Site) (e : Entity σ) (reference : Json) (name : String) (nested : Query)
    (complete : Site → Entity σ → Json → Evaluated) : Evaluated :=
  match e.link? name with
  | none => .failed (refusal site e .link name)
  | some l =>
    match Lookup.value (l.follow v.schema v.schema.find e.name) v.session with
    | .error f => .failed f
    | .ok (_, target) =>
      let arguments := Argument.applyDefaults l.arguments nested.arguments
      let here := { site.focus .link l.label with arguments }
      let there := site.descend name target.name nested arguments
      v.settled (place site .link name) (l.resolve reference here) fun w =>
        .ok (linked (complete there target) w)

mutual

/-- The fields that a query asks for, as one object: attributes, then the act, then links. -/
def entity (site : Site) (e : Entity σ) (reference : Json) : Query → Evaluated
  | ⟨_, attributes, act?, arguments, nested⟩ =>
    let fields := attributes.map (v.field site e reference) ++
      act?.toList.map (v.act site e reference arguments) ++ links site e reference nested
    let keys := attributes ++ act?.toList ++ Entries.keys nested
    ⟨.object (Entries.ofPairs (keys.zip (fields.map Evaluated.value))),
      fields.flatMap Evaluated.failures⟩

/-- The links that a query asks for, in order. -/
def links (site : Site) (e : Entity σ) (reference : Json) :
    List (String × Query) → List Evaluated
  | [] => []
  | (name, nested) :: rest =>
    v.link site e reference name nested (fun there target linked =>
      entity there target linked nested) :: links site e reference rest

end

/-- The entity that a query names. -/
def root (q : Query) : Except Failure (Option (Entity σ)) :=
  match q.typeName with
  | none => .ok none
  | some name => (Lookup.value (v.schema.find name) v.session).map (·.bind v.schema.entity?)

/-- A query of the document: its entity is resolved, arguments filled in, then its fields. -/
def query (name : String) (q : Query) : Evaluated :=
  match v.root q with
  | .error f => .failed f
  | .ok none => .failed (rootRefusal name q)
  | .ok (some e) =>
    match v.resolved (e.fetch q.arguments v.context) with
    | .error f => .failed (f.located [.ofQuery name])
    | .ok reference => v.entity (rootSite v.schema v.context name q e) e reference q

/-- The queries of a document, in order. -/
def queries (d : Document) : List Evaluated := d.queries.map fun (name, q) => v.query name q

/-- The data of a document, under the names of its queries. -/
def data (d : Document) : Entries Json :=
  Entries.ofPairs (d.names.zip ((v.queries d).map Evaluated.value))

/-- The failures that are met in a document. -/
def failures (d : Document) : List Failure := (v.queries d).flatMap Evaluated.failures

end Evaluator

/-! ## The evaluation is what is meant -/

/-- The meaning has one value, with the failures of an evaluation. -/
def Meaning.Is (P : Meaning) (e : Evaluated) : Prop :=
  ∀ w es, P w es → w = e.value ∧ es = e.failures

theorem Meaning.is_failed {P : Meaning} {f : Failure} (h : ∀ w es, P w es → w = .null ∧ es = {f}) :
    Meaning.Is P (.failed f) := fun w es hw => by
  obtain ⟨rfl, rfl⟩ := h w es hw
  exact ⟨rfl, rfl⟩

theorem Meaning.is_together {Ps : List Meaning} {evs : List Evaluated}
    (h : List.Forall₂ Meaning.Is Ps evs) {vs : List Json} {es : Multiset Failure}
    (ht : Together Ps vs es) :
    vs = evs.map Evaluated.value ∧ es = (evs.flatMap Evaluated.failures : List Failure) := by
  induction h generalizing vs es with
  | nil =>
    cases ht
    exact ⟨rfl, rfl⟩
  | cons hP _ ih =>
    cases ht with
    | cons hv hvs =>
      obtain ⟨rfl, rfl⟩ := hP _ _ hv
      obtain ⟨rfl, rfl⟩ := ih hvs
      exact ⟨rfl, by rw [List.flatMap_cons, Multiset.coe_add]⟩

section

variable {v : Evaluator σ} {types : Entries NamedType} (hpure : v.schema.Pure)

theorem Answer.Means.eq_answer {a : Answer σ} {r : Except Failure Json} (h : a.Means r)
    (hpure : a.Pure) : r = v.answer a := by
  cases h with
  | ready v => rfl
  | deferred h => rw [Callback.Pure.eq_value hpure h v.session.app]; rfl
  | settling h => rw [Callback.Pure.eq_value hpure h v.session.app]; rfl
  | stuck => rfl

include hpure

theorem Resolves.eq_resolved {c : Callback σ (Answer σ)} (hc : v.schema.Calls c)
    {r : Except Failure Json} (h : Resolves c r) : r = v.resolved c := by
  obtain ⟨hcall, hanswer⟩ := hpure.resolver c hc
  unfold Evaluator.resolved
  cases h with
  | @fault f h =>
    have hvalue : Callback.value c v.session.app = .error f :=
      (hcall.eq_value h _).symm
    rw [hvalue]
  | @answer a r h ha =>
    have hvalue : Callback.value c v.session.app = .ok a :=
      (hcall.eq_value h _).symm
    rw [hvalue]
    exact ha.eq_answer (hanswer a h)

/-- A field has one value if completing the value of its resolver has. -/
theorem is_settled {place : Location} {c : Callback σ (Answer σ)} (hc : v.schema.Calls c)
    {completes : Json → Except Failure Json → Multiset Failure → Prop}
    {complete : Json → Except Failure Evaluated}
    (hok : ∀ w v es, completes w (.ok v) es →
      ∃ e, complete w = .ok e ∧ v = e.value ∧ es = e.failures)
    (herror : ∀ w f es, completes w (.error f) es → complete w = .error f ∧ es = 0) :
    Meaning.Is (FieldMeans place c completes) (v.settled place c complete) := by
  intro u es h
  unfold Evaluator.settled
  cases h with
  | unresolved h =>
    rw [← Resolves.eq_resolved hpure hc h]
    exact ⟨rfl, rfl⟩
  | failed h hw =>
    obtain ⟨hcomplete, rfl⟩ := herror _ _ _ hw
    rw [← Resolves.eq_resolved hpure hc h]
    simp only [bind, Except.bind, hcomplete, zero_add]
    exact ⟨rfl, rfl⟩
  | completed h hw =>
    obtain ⟨e, hcomplete, rfl, rfl⟩ := hok _ _ _ hw
    rw [← Resolves.eq_resolved hpure hc h]
    simp only [bind, Except.bind, hcomplete]
    exact ⟨trivial, trivial⟩

/-! ### Attributes, acts and links -/

omit hpure in
/-- What a computation always comes to is its value. -/
theorem Lookup.Comes.value {α : Type} {l : Lookup σ α} {r : Except Fault α}
    (h : Comes s (· = r) l) : Lookup.value l s = r.mapError Fault.toFailure := by
  obtain ⟨r', s', hl, -, rfl⟩ := h s (.refl s)
  unfold Lookup.value
  rw [hl]
  cases r' <;> rfl

variable (hp : v.schema.Plain)

include hp

theorem Schema.Coerces.eq_coerced {a : Attribute σ}
    (ha : ∀ r, a.type? = some r → r.Fits v.schema v.session) {w : Json} {r : Except Fault Json}
    (h : v.schema.Coerces v.session a w r) :
    r.mapError Fault.toFailure = v.coerced a w := by
  unfold Coerces at h
  unfold Evaluator.coerced
  cases ht : a.type? with
  | none =>
    rw [ht] at h
    rw [h]
    rfl
  | some ref =>
    rw [ht] at h
    obtain ⟨t, hresolve, s', s'', hs', hgives⟩ := h
    obtain ⟨t', hresolve', hfits⟩ := (ha ref ht).resolve hp
    obtain rfl : t = t' := (EStateM.Result.ok.inj
      ((hresolve v.session (.refl _)).symm.trans (hresolve'.answers v.session (.refl _)))).1
    have hcall : (Kind.pure v.session).Serializes v.schema := fun sc n u hn =>
      ⟨_, (comes_call _).mono fun r hr => (hpure.serialize n sc u hn).eq_value hr v.session.app⟩
    obtain ⟨r₀, hcomes⟩ := hfits.serialize hp hcall w
    obtain ⟨r₁, s₁, hr₁, -, rfl⟩ := hcomes s' hs'
    obtain rfl : r = r₁ := by
      rw [hgives] at hr₁
      cases r <;> cases r₁ <;> cases hr₁ <;> rfl
    have hvalue := Comes.value ((hresolve.comes (Q := fun r => r = .ok t) rfl).bind
      (f := fun t => t.serialize v.schema v.schema.find w) (R := fun r' => r' = r)
      (fun t' ht' => by cases ht'; exact hcomes) fun g hg => by cases hg)
    exact hvalue.symm

theorem Schema.AttributeMeans.eq_completed {t : NamedType} {e : Entity σ} {a : Attribute σ}
    (ht : v.schema.entity? t = some e) (hmem : a ∈ e.attributes)
    (ha : ∀ r, a.type? = some r → r.Fits v.schema v.session) {w : Json} {r : Except Failure Json}
    {es : Multiset Failure} (h : v.schema.AttributeMeans v.session a w r es) :
    v.completed a w = r.map (⟨·, []⟩) ∧ es = 0 := by
  unfold Evaluator.completed
  cases h with
  | uncoerced hc =>
    rw [← hc.eq_coerced hpure hp ha]
    exact ⟨rfl, rfl⟩
  | @ruled w' r hc hr =>
    have hvalue : Callback.value (a.checkRule w') v.session.app = r :=
      ((hpure.rule t e a w' ht hmem).eq_value hr _).symm
    refine ⟨?_, rfl⟩
    rw [← hc.eq_coerced hpure hp ha]
    simp only [Except.mapError, bind, Except.bind, hvalue]
    cases r <;> rfl

theorem is_field (site : Site) {e : Entity σ} (hk : v.schema.Knows types e)
    (he : v.schema.Settles types v.session e) (reference : Json) (name : String) :
    Meaning.Is (v.schema.fieldMeans v.session site e reference name)
      (v.field site e reference name) := by
  unfold fieldMeans Evaluator.field
  cases ha : e.attribute? name with
  | none => exact Meaning.is_failed fun _ _ h => h
  | some a =>
    have hmem : a ∈ e.attributes := List.mem_of_find?_eq_some ha
    obtain ⟨t, -, ht⟩ := hk
    have hcompleted : ∀ {w r es}, v.schema.AttributeMeans v.session a w r es →
        v.completed a w = r.map (⟨·, []⟩) ∧ es = 0 :=
      fun h => h.eq_completed hpure hp ht hmem (he.attributes a hmem)
    refine is_settled hpure (.field ht hmem reference _) (fun w v es h => ?_) fun w f es h => ?_
    · obtain ⟨heq, rfl⟩ := hcompleted h
      exact ⟨_, heq, rfl, rfl⟩
    · exact hcompleted h

omit hp

theorem is_act (site : Site) {e : Entity σ} (hk : v.schema.Knows types e) (reference : Json)
    (supplied : Entries Json) (name : String) :
    Meaning.Is (actMeans site e reference supplied name)
      (v.act site e reference supplied name) := by
  unfold actMeans Evaluator.act
  cases ha : e.act? name with
  | none => exact Meaning.is_failed fun _ _ h => h
  | some a =>
    have hmem : a ∈ e.acts := List.mem_of_find?_eq_some ha
    obtain ⟨t, -, ht⟩ := hk
    refine is_settled hpure (.act ht hmem reference _) (fun w v es h => ?_) fun w f es h => ?_
    · obtain ⟨hv, rfl⟩ := h
      cases hv
      exact ⟨_, rfl, rfl, rfl⟩
    · obtain ⟨hf, -⟩ := h
      cases hf

omit hpure in
/-- What a link leads to has one value if each entity that it may lead to has. -/
theorem is_linked {complete : Json → Evaluated} {P : Json → Meaning}
    (hc : ∀ w, Meaning.Is (P w) (complete w)) {w u : Json} {es : Multiset Failure}
    (h : LinkedMeans P w u es) :
    u = (Evaluator.linked complete w).value ∧ es = (Evaluator.linked complete w).failures := by
  cases h with
  | null => exact ⟨rfl, rfl⟩
  | @array references _ _ h =>
    have hall : List.Forall₂ Meaning.Is (references.map P) (references.map complete) := by
      rw [List.forall₂_map_left_iff, List.forall₂_map_right_iff]
      exact List.forall₂_same.mpr fun w _ => hc w
    obtain ⟨rfl, rfl⟩ := Meaning.is_together hall h
    rw [List.map_map, List.flatMap_map]
    exact ⟨rfl, rfl⟩
  | one hn ha h =>
    have hone : Evaluator.linked complete w = complete w := by
      cases w with
      | null => cases hn
      | array references => exact absurd rfl (ha references)
      | _ => rfl
    rw [hone]
    exact hc w u es h

theorem is_link (site : Site) {e : Entity σ} (hk : v.schema.Knows types e)
    (he : v.schema.Settles types v.session e) (reference : Json) (name : String) (nested : Query)
    {complete : Site → Entity σ → Json → Evaluated} {P : Site → Entity σ → Json → Meaning}
    (hc : ∀ there target, v.schema.Knows types target → ∀ w,
      Meaning.Is (P there target w) (complete there target w)) :
    Meaning.Is (v.schema.linkMeans v.session site e reference name nested P)
      (v.link site e reference name nested complete) := by
  unfold linkMeans Evaluator.link
  cases hl : e.link? name with
  | none => exact Meaning.is_failed fun _ _ h => h
  | some l =>
    have hmem : l ∈ e.links := List.mem_of_find?_eq_some hl
    obtain ⟨t, target, hknown, hfollow⟩ := he.links l hmem
    obtain ⟨t₀, -, ht⟩ := hk
    intro w es h
    obtain ⟨t', target', hfollow', h⟩ := h
    have heq := (EStateM.Result.ok.inj
      ((hfollow' v.session (.refl _)).symm.trans (hfollow.answers v.session (.refl _)))).1
    cases heq
    have hvalue : Lookup.value (l.follow v.schema v.schema.find e.name)
        v.session = .ok (t, target) := Answers.value hfollow.answers
    simp only [hvalue]
    refine is_settled hpure (.link ht hmem reference _) (fun w v es h => ?_)
      (fun w f es h => ?_) w es h
    · obtain ⟨u, hu, h⟩ := h
      cases hu
      exact ⟨_, rfl, is_linked (hc _ target hknown) h⟩
    · obtain ⟨u, hu, -⟩ := h
      cases hu

/-! ### Entities and documents -/

variable (hp : v.schema.Plain) (hs : v.schema.Sound types v.session)

include hp hs

mutual

/-- **The fields of an entity have one value.** -/
theorem is_entity (site : Site) {e : Entity σ} (hk : v.schema.Knows types e) (reference : Json) :
    (q : Query) → Meaning.Is (v.schema.entityMeans v.session site e reference q)
      (v.entity site e reference q)
  | ⟨_, attributes, act?, arguments, links⟩ => by
    intro w es h
    have he := hs.settles hp hk
    rw [entityMeans] at h
    obtain ⟨vs, hvs, rfl⟩ := h
    have hall : List.Forall₂ Meaning.Is
        (attributes.map (v.schema.fieldMeans v.session site e reference) ++
          act?.toList.map (actMeans site e reference arguments) ++
            v.schema.linksMean v.session site e reference links)
        (attributes.map (v.field site e reference) ++
          act?.toList.map (v.act site e reference arguments) ++
            v.links site e reference links) := by
      refine List.rel_append (List.rel_append ?_ ?_) (is_links site hk reference links)
      · rw [List.forall₂_map_left_iff, List.forall₂_map_right_iff]
        exact List.forall₂_same.mpr fun name _ => is_field hpure hp site hk he reference name
      · rw [List.forall₂_map_left_iff, List.forall₂_map_right_iff]
        exact List.forall₂_same.mpr fun name _ => is_act hpure site hk reference arguments name
    obtain ⟨rfl, rfl⟩ := Meaning.is_together hall hvs
    rw [Evaluator.entity]
    exact ⟨rfl, rfl⟩

theorem is_links (site : Site) {e : Entity σ} (hk : v.schema.Knows types e) (reference : Json) :
    (links : List (String × Query)) → List.Forall₂ Meaning.Is
      (v.schema.linksMean v.session site e reference links) (v.links site e reference links)
  | [] => by
    rw [linksMean, Evaluator.links]
    exact .nil
  | (name, nested) :: rest => by
    rw [linksMean, Evaluator.links]
    exact .cons (is_link hpure site hk (hs.settles hp hk) reference name nested
      fun there target hknown w => is_entity there hknown w nested) (is_links site hk reference rest)

end

omit hpure hp hs in
theorem Query.Roots.eq_root {q : Query} {e? : Option (Entity σ)} (h : q.Roots v.schema v.session e?) :
    v.root q = .ok e? := by
  unfold Query.Roots at h
  unfold Evaluator.root
  cases hn : q.typeName with
  | none =>
    rw [hn] at h
    rw [h]
  | some name =>
    rw [hn] at h
    obtain ⟨t?, hfind, rfl⟩ := h
    have hvalue : Lookup.value (v.schema.find name) v.session = .ok t? :=
      Answers.value hfind
    simp only [hvalue]
    rfl

/-- **A query has one value.** -/
theorem is_query (name : String) (q : Query)
    (hk : ∀ e, q.Roots v.schema v.session (some e) → v.schema.Knows types e) :
    Meaning.Is (v.schema.queryMeans v.session v.context name q) (v.query name q) := by
  have resolved : ∀ {e : Entity σ} {r}, v.schema.Knows types e →
      Resolves (e.fetch q.arguments v.context) r →
      v.resolved (e.fetch q.arguments v.context) = r := by
    rintro e r ⟨t, -, ht⟩ hr
    exact (Resolves.eq_resolved hpure (.entity ht _ _) hr).symm
  intro w es h
  unfold Evaluator.query
  cases h with
  | unknown h =>
    rw [h.eq_root]
    exact ⟨rfl, rfl⟩
  | unresolved h hr =>
    rw [h.eq_root]
    simp only [resolved (hk _ h) hr]
    exact ⟨rfl, rfl⟩
  | resolved h hr hv =>
    rw [h.eq_root]
    simp only [resolved (hk _ h) hr]
    exact is_entity hpure hp hs _ (hk _ h) _ q w es hv

/-- **A document has one value.** -/
theorem eq_evaluation {d : Document} (hr : d.Rooted v.schema types v.session) {data : Entries Json}
    {es : Multiset Failure} (h : v.schema.documentMeans v.session v.context d data es) :
    data = v.data d ∧ es = v.failures d := by
  obtain ⟨vs, hvs, rfl⟩ := h
  have hall : List.Forall₂ Meaning.Is
      (d.queries.map fun (name, q) => v.schema.queryMeans v.session v.context name q)
      (v.queries d) := by
    unfold Evaluator.queries
    rw [List.forall₂_map_left_iff, List.forall₂_map_right_iff]
    refine List.forall₂_same.mpr ?_
    rintro ⟨name, q⟩ hq
    refine is_query hpure hp hs name q fun e he => ?_
    obtain ⟨e?, hroot, hk⟩ := hr.exists_root hq
    exact hk e (hroot.unique he)
  obtain ⟨rfl, rfl⟩ := Meaning.is_together hall hvs
  exact ⟨rfl, rfl⟩

end

/-- **An execution reports what the direct evaluation gives.** On a schema that was built without a
loader, with callbacks that come to the same in all states and answer with promises that do not wait
forever, executing a document on an idle queue and waiting ends after finitely many tasks. -/
theorem execution_refines_evaluation {schema : Schema σ} (hl : schema.loader? = none)
    {declared : List Ty} {app : σ} {s : Session σ}
    (hbuild : schema.build declared false { app } = .ok () s) (hpure : schema.Pure)
    (hregular : ∀ c, schema.Calls c → RegularResolver c) (d : Document) (context : Context)
    {m : Machine Payload (World σ)} (hm : s.Alike m.world.session) {q : QueueId} {ticks : Nat}
    (hq : m.queues[q.index]? = some ⟨[], ticks⟩) :
    ∃ enough r m', (∀ limit ≥ enough,
        m.run limit (do
          Attempt.ofRun (Report.wait q (← Request.execute schema q d context)) :
            Attempt σ (Except EngineFault Report)).run = .done (.ok (.ok r)) m') ∧
      r.data = some ((⟨schema, context, s⟩ : Evaluator σ).data d) ∧
      r.failures.Perm ((⟨schema, context, s⟩ : Evaluator σ).failures d) := by
  obtain ⟨hp, types, hs, hr⟩ := Schema.serves_of_build hl hbuild
  have hends : Work.Ends False _ m _ :=
    ends_execute hp (.inr hregular) hs (hr d) hm (Machine.heap_of_queues hq) context
  obtain ⟨enough, ⟨res, m', hrun, y, rfl, hy⟩ | ⟨hlax, -⟩⟩ := hends
  · cases y with
    | error fault => exact hy.1.elim
    | ok r =>
      obtain ⟨data, hdata, hmeans⟩ := hy
      obtain ⟨rfl, hfailures⟩ := eq_evaluation (v := ⟨schema, context, s⟩) hpure hp hs (hr d) hmeans
      exact ⟨enough, r, m', hrun, hdata, Multiset.coe_eq_coe.mp hfailures⟩
  · exact hlax.elim

/-- The evaluation of the sample, which is what executing it on an idle queue reports. -/
theorem execution_refines_evaluation_sample :
    (∃ enough r m', (∀ limit ≥ enough,
        (Machine.start { session := Sample.session }).newQueue.2.run limit (do
          let p ← Request.execute (Sample.schema "key") ⟨0⟩ Sample.document {}
          Attempt.ofRun (Report.wait ⟨0⟩ p) : Attempt Unit (Except EngineFault Report)).run =
            .done (.ok (.ok r)) m') ∧
      r.data = some ((⟨Sample.schema "key", {}, Sample.session⟩ : Evaluator Unit).data
        Sample.document) ∧
      r.failures.Perm ((⟨Sample.schema "key", {}, Sample.session⟩ : Evaluator Unit).failures
        Sample.document)) ∧
    ((⟨Sample.schema "key", {}, Sample.session⟩ : Evaluator Unit).failures Sample.document).map
      Failure.message = ["key", "Entity \"User\" has no attribute \"age\"",
        "Cannot return null for non-nullable type String!"] :=
  ⟨execution_refines_evaluation rfl (Sample.built "key") (pure_of_subsingleton _)
    (Sample.regular "key") Sample.document {} (.refl Sample.session) rfl, by decide +kernel⟩

end EntityQuery
