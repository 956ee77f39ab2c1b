import EntityQuery.Proofs.Execution.Fields

/-!
# Promises of entities and documents

On a sound session, completing an entity gives a promise of what its fields mean, at any depth and for
any list of references; so does each query of a document. The induction is on the query.

* `Attribute.finds_value`: completing the value of an attribute, on any terms where that has no effect.
* `promises_field`, `promises_act`, `promises_link`: the kinds of fields.
* **`promises_completeEntity`**: the fields of an entity.
* **`promises_query`**, **`promisesAll_queries`**: the queries of a document.
-/

namespace EntityQuery

open Lookup Session Execution Schema

variable {σ : Type}

/-! ## Values of attributes -/

/-- On these terms the steps come to what `R` says, with no effect and no tasks. -/
def Attempt.Finds {α E : Type} [AddCommMonoid E] (C : Terms (World σ) E) (a : Attempt σ α)
    (R : Except Fault α → Prop) : Prop :=
  ∀ h, Does C h a.run fun r T h' d => T = 0 ∧ h' = h ∧ d = 0 ∧ R r

/-- Completing an attribute whose type fits, where using the schema and calling back have no effect. -/
theorem Attribute.finds_value {E : Type} [AddCommMonoid E] {C : Terms (World σ) E} {x : Execution σ}
    {s : Session σ} (hp : x.schema.Plain) {a : Attribute σ}
    (ha : ∀ r, a.type? = some r → r.Fits x.schema s)
    (hresolve : ∀ (r : TypeRef) (R : Except Fault Ty → Prop),
      Comes s R (r.resolve x.schema x.schema.find) →
        (x.consult (r.resolve x.schema x.schema.find)).Finds C R)
    (hserialize : ∀ (t : Ty) (v : Json) (R : Except Fault Json → Prop),
      Comes s R (t.serialize x.schema x.schema.find v) →
        (x.consult (t.serialize x.schema x.schema.find v)).Finds C R)
    (hrule : ∀ w, (Attempt.call (a.checkRule w)).Finds C (a.checkRule w).Gives) (v : Json) :
    (x.completeAttribute a v).Finds C fun r =>
      x.schema.AttributeMeans s a v (r.mapError Fault.toFailure) 0 := by
  intro h
  have ruled : ∀ w, x.schema.Coerces s a v (.ok w) → ∀ h, Does C h
      (do
        Attempt.call (a.checkRule w)
        return w : Attempt σ Json).run fun r T h' d => T = 0 ∧ h' = h ∧ d = 0 ∧
        x.schema.AttributeMeans s a v (r.mapError Fault.toFailure) 0 := by
    intro w hw h
    refine Does.attempt_bind ((hrule w h).mono ?_)
    rintro (f | u) T h' d ⟨rfl, rfl, rfl, hr⟩
    · exact ⟨rfl, rfl, rfl, .ruled hw hr⟩
    · exact does_return ⟨by simp, rfl, by simp, .ruled hw hr⟩
  unfold Execution.completeAttribute
  cases ht : a.type? with
  | none => exact ruled v (by rw [Coerces, ht]) h
  | some r =>
    obtain ⟨t, hr, hfits⟩ := (ha r ht).resolve hp
    have hcoerces : ∀ r', (t.serialize x.schema x.schema.find v).Gives s r' →
        x.schema.Coerces s a v r' := fun r' hr' => by
      rw [Coerces, ht]
      exact ⟨t, hr.answers, hr'⟩
    have hcomes := hfits.serialize (K := .safe s) hp
      (fun sc n v _ => (comes_call _).mono fun _ _ => trivial) v
    refine Does.attempt_bind
      ((hresolve r _ (hr.answers.comes (Q := fun r => r = .ok t) rfl) h).mono ?_)
    rintro _ T h₁ d ⟨rfl, rfl, rfl, rfl⟩
    refine Does.attempt_bind ((hserialize t v _ (Comes.gives hcomes) h₁).mono ?_)
    rintro (f | w) T h₂ d ⟨rfl, rfl, rfl, hr'⟩
    · exact ⟨by simp, rfl, by simp, .uncoerced (hcoerces _ hr')⟩
    · refine (ruled w (hcoerces _ hr') h₂).mono ?_
      rintro r T h₃ d ⟨rfl, rfl, rfl, hm⟩
      exact ⟨by simp, rfl, by simp, hm⟩

section

variable {x : Execution σ} {s : Session σ} {lax : Prop} {types : Entries NamedType}

/-! ## Attributes, acts and links -/

/-- Completing an attribute whose type fits. -/
theorem does_completeAttribute (hp : x.schema.Plain) {a : Attribute σ}
    (ha : ∀ r, a.type? = some r → r.Fits x.schema s) (v : Json) :
    (x.completeAttribute a v).Finds (x.terms s lax) fun r =>
      x.schema.AttributeMeans s a v (r.mapError Fault.toFailure) 0 :=
  Attribute.finds_value hp ha
    (fun _ _ hr _ => does_consult hr fun _ ht => ⟨rfl, rfl, rfl, ht⟩)
    (fun _ _ _ hr _ => does_consult hr fun _ hw => ⟨rfl, rfl, rfl, hw⟩)
    (fun _ _ => does_call fun _ hr => ⟨rfl, rfl, rfl, hr⟩) v

theorem promises_unknown (site : Site) (e : Entity σ) (kind : ArtifactKind) (name : String) :
    Promises (x.terms s lax) (Attempt.ofRun (x.unknown site e kind name))
      (unknownMeans site e kind name) :=
  promises_refuse _ _

variable (hp : x.schema.Plain) (hregular : lax ∨ ∀ c, x.schema.Calls c → RegularResolver c)

include hregular

theorem regular_of_calls {c : Callback σ (Answer σ)} (hc : x.schema.Calls c) :
    lax ∨ RegularResolver c :=
  hregular.imp_right fun h => h c hc

include hp in
theorem promises_field (site : Site) {e : Entity σ} (hk : x.schema.Knows types e)
    (he : x.schema.Settles types s e) (reference : Json) (name : String) :
    Promises (x.terms s lax) (Attempt.ofRun (x.field site e reference name))
      (x.schema.fieldMeans s site e reference name) := by
  unfold Execution.field fieldMeans
  cases ha : e.attribute? name with
  | none => exact promises_unknown site e .field name
  | some a =>
    have hmem : a ∈ e.attributes := List.mem_of_find?_eq_some ha
    obtain ⟨t, -, ht⟩ := hk
    refine promises_settleField (regular_of_calls hregular (.field ht hmem reference _)) ?_
    intro w _
    refine Does.attempt_bind ((does_completeAttribute hp (he.attributes a hmem) w .empty).mono ?_)
    rintro r T h d ⟨rfl, -, rfl, hm⟩
    cases r with
    | ok v => exact does_return ⟨rfl, v, rfl, by rw [add_zero, add_zero]; exact hm⟩
    | error f => exact ⟨rfl, hm⟩

theorem promises_act (site : Site) {e : Entity σ} (hk : x.schema.Knows types e) (reference : Json)
    (supplied : Entries Json) (name : String) :
    Promises (x.terms s lax) (Attempt.ofRun (x.act site e reference supplied name))
      (actMeans site e reference supplied name) := by
  unfold Execution.act actMeans
  cases ha : e.act? name with
  | none => exact promises_unknown site e .act name
  | some a =>
    have hmem : a ∈ e.acts := List.mem_of_find?_eq_some ha
    obtain ⟨t, -, ht⟩ := hk
    refine promises_settleField (regular_of_calls hregular (.act ht hmem reference _)) ?_
    intro w _
    exact does_return ⟨rfl, w, rfl, rfl, by simp⟩

omit hregular in
/-- Following what a link leads to. -/
theorem completes_linked {complete : Json → Attempt σ Promise} {P : Json → Meaning}
    (hc : ∀ w, Promises (x.terms s lax) (complete w) (P w)) (w : Json) :
    Completes (x.terms s lax) (x.completeLinked complete w) fun r es =>
      ∃ u, r = .ok u ∧ LinkedMeans P w u es := by
  have one : ∀ w : Json, w.isNull = false → (∀ references, w ≠ .array references) →
      Completes (x.terms s lax) (do return .promise (← complete w)) fun r es =>
        ∃ u, r = .ok u ∧ LinkedMeans P w u es := by
    intro w hn ha
    refine Does.attempt_bind (Does.mono (hc w) ?_)
    rintro _ T h d ⟨p, rfl, hp⟩
    have hp' : Future (x.terms s lax) p (valuePost (fun v es =>
        ∃ u, (Except.ok v : Except Failure Json) = .ok u ∧ LinkedMeans P w u es) d) T h := by
      refine Future.mono hp ?_
      rintro o e ⟨v, rfl, hv⟩
      exact ⟨v, rfl, v, rfl, .one hn ha hv⟩
    exact does_return (by rw [add_zero, add_zero]; exact hp')
  cases w with
  | null => exact does_return ⟨rfl, .null, rfl, .null, rfl, by simpa using .null⟩
  | array references =>
    refine Does.attempt_bind ((promisesAll_mapM references fun w _ => hc w).mono ?_)
    rintro _ T h d ⟨ps, φs, rfl, hf, hφ⟩
    let means : Meaning := fun v es => ∃ u, (Except.ok v : Except Failure Json) = .ok u ∧
      LinkedMeans P (.array references) u es
    have hjoin : ∀ us es, Together (references.map P) us es → means (.array us) es :=
      fun us es hus => ⟨_, rfl, .array hus⟩
    refine Does.attempt_bind (Does.ofRun ((does_together hf hφ hjoin).mono ?_))
    rintro p T' h' _ ⟨rfl, hp⟩
    exact does_return (by simp only [add_zero]; exact hp)
  | bool b => exact one _ rfl fun _ h => by cases h
  | number n => exact one _ rfl fun _ h => by cases h
  | string t => exact one _ rfl fun _ h => by cases h
  | object fields => exact one _ rfl fun _ h => by cases h

theorem promises_link (site : Site) {e : Entity σ} (hk : x.schema.Knows types e)
    (he : x.schema.Settles types s e) (reference : Json) (name : String) (nested : Query)
    {complete : Site → Entity σ → Json → Attempt σ Promise} {P : Site → Entity σ → Json → Meaning}
    (hc : ∀ there target, x.schema.Knows types target → ∀ w,
      Promises (x.terms s lax) (complete there target w) (P there target w)) :
    Promises (x.terms s lax) (x.link site e reference name nested complete)
      (x.schema.linkMeans s site e reference name nested P) := by
  unfold Execution.link linkMeans
  cases hl : e.link? name with
  | none => exact promises_unknown site e .link name
  | some l =>
    have hmem : l ∈ e.links := List.mem_of_find?_eq_some hl
    obtain ⟨t, target, hknown, hfollow⟩ := he.links l hmem
    obtain ⟨t₀, -, ht⟩ := hk
    refine Does.attempt_bind (does_attemptConsult
      (hfollow.answers.comes (Q := fun r => r = .ok (t, target)) rfl) ?_)
    rintro _ rfl
    let arguments := Argument.applyDefaults l.arguments nested.arguments
    let there := site.descend name target.name nested arguments
    have hfield : Promises (x.terms s lax)
        (Attempt.ofRun (x.settleField (place site .link name)
          (l.resolve reference { site.focus .link l.label with arguments })
          (x.completeLinked (complete there target)))) _ :=
      promises_settleField (regular_of_calls hregular (.link ht hmem reference _))
        fun w _ => completes_linked (hc there target hknown) w
    refine Does.mono hfield ?_
    rintro _ T h d ⟨p, rfl, hp⟩
    refine ⟨p, rfl, ?_⟩
    rw [zero_add, zero_add]
    refine hp.mono ?_
    rintro o es ⟨v, rfl, hv⟩
    exact ⟨v, rfl, t, target, hfollow.answers, hv⟩

/-! ## Entities -/

variable (hs : x.schema.Sound types s)

include hp hs

mutual

/-- **Completing an entity gives a promise of what its fields mean.** -/
theorem promises_completeEntity (site : Site) {e : Entity σ} (hk : x.schema.Knows types e)
    (reference : Json) : (q : Query) →
    Promises (x.terms s lax) (x.completeEntity site e reference q)
      (x.schema.entityMeans s site e reference q)
  | ⟨typeName, attributes, act?, arguments, links⟩ => by
    have he := hs.settles hp hk
    rw [Execution.completeEntity]
    have ofAttributes : PromisesAll (x.terms s lax)
        (Attempt.ofRun (attributes.mapM (x.field site e reference)))
        (attributes.map (x.schema.fieldMeans s site e reference)) := by
      rw [Attempt.ofRun_mapM]
      exact promisesAll_mapM attributes fun name _ =>
        promises_field hp hregular site hk he reference name
    have ofAct : PromisesAll (x.terms s lax)
        (Attempt.ofRun (act?.toList.mapM (x.act site e reference arguments)))
        (act?.toList.map (actMeans site e reference arguments)) := by
      rw [Attempt.ofRun_mapM]
      exact promisesAll_mapM _ fun name _ => promises_act hregular site hk reference arguments name
    have ofLinks := promises_completeLinks site hk reference links
    refine Does.attempt_bind ((ofAttributes.beside (.nil .empty) fulfil_nil).mono ?_)
    rintro _ T h d ⟨ps, φs, rfl, hf, hφ⟩
    refine Does.attempt_bind ((ofAct.beside hf hφ).mono ?_)
    rintro _ T' h' d' ⟨ps', φs', rfl, hf', hφ'⟩
    refine Does.attempt_bind ((ofLinks.beside hf' hφ').mono ?_)
    rintro _ T'' h'' d'' ⟨ps'', φs'', rfl, hf'', hφ''⟩
    rw [List.nil_append] at hf'' hφ''
    have hjoin : ∀ us es, Together (attributes.map (x.schema.fieldMeans s site e reference) ++
          act?.toList.map (actMeans site e reference arguments) ++
            x.schema.linksMean s site e reference links) us es →
        x.schema.entityMeans s site e reference ⟨typeName, attributes, act?, arguments, links⟩
          (.object (Entries.ofPairs ((attributes ++ act?.toList ++ Entries.keys links).zip us))) es :=
      fun us es hus => by
        rw [entityMeans]
        exact ⟨us, hus, rfl⟩
    refine Does.ofRun ((does_together hf'' hφ'' hjoin).mono ?_)
    rintro p T₃ h₃ _ ⟨rfl, hp⟩
    exact ⟨p, rfl, by simpa [add_assoc] using hp⟩

theorem promises_completeLinks (site : Site) {e : Entity σ} (hk : x.schema.Knows types e)
    (reference : Json) : (links : List (String × Query)) →
    PromisesAll (x.terms s lax) (x.completeLinks site e reference links)
      (x.schema.linksMean s site e reference links)
  | [] => by
    rw [Execution.completeLinks, linksMean]
    exact does_return ⟨[], [], rfl, .nil _, fulfil_nil⟩
  | (name, nested) :: rest => by
    have he := hs.settles hp hk
    have first := promises_link hregular site hk he reference name nested
      fun there target hknown w => promises_completeEntity there hknown w nested
    have others := promises_completeLinks site hk reference rest
    rw [Execution.completeLinks, linksMean]
    refine Does.attempt_bind ((first.beside (.nil .empty) fulfil_nil).mono ?_)
    rintro _ T h d ⟨p, φs, rfl, hf, hφ⟩
    refine Does.attempt_bind ((others.beside hf hφ).mono ?_)
    rintro _ T' h' d' ⟨ps, φs', rfl, hf', hφ'⟩
    refine does_return ⟨p :: ps, φs', rfl, by simpa using hf', by simpa using hφ'⟩

end

/-! ## Queries -/

omit hp hs hregular in
/-- The entity that a query names is looked up without an effect. -/
theorem Query.Roots.answers {q : Query} {e? : Option (Entity σ)} (h : q.Roots x.schema s e?) :
    Answers (x.root q) e? s := by
  unfold Query.Roots at h
  unfold Execution.root
  cases hn : q.typeName with
  | none =>
    rw [hn] at h
    rw [h]
    exact answers_pure none
  | some name =>
    rw [hn] at h
    obtain ⟨t?, hfind, rfl⟩ := h
    exact hfind.bind (answers_pure _)

/-- **A query on an entity gives a promise of what it means.** -/
theorem promises_queryOn (name : String) {q : Query} {e : Entity σ}
    (hroot : q.Roots x.schema s (some e)) (hk : x.schema.Knows types e) :
    Promises (x.terms s lax) (Attempt.ofRun (x.queryOn name q e))
      (x.schema.queryMeans s x.context name q) := by
  have hcalls : x.schema.Calls (e.fetch q.arguments x.context) := by
    obtain ⟨t, -, ht⟩ := hk
    exact .entity ht _ _
  refine Does.ofRun ((does_queryOn serves_terms
    (acts_resolver _ (regular_of_calls hregular hcalls))
    (χ := fun _ => valuePost (x.schema.queryMeans s x.context name q) 0)
    ?_ ?_ ?_ fun _ _ h => h).mono ?_)
  · rintro ⟨⟩ v es ⟨rfl, r, hr, hv⟩
    cases r with
    | error f => cases hv
    | ok w =>
      cases hv
      have hentity := promises_completeEntity hp hregular hs
        (rootSite x.schema x.context name q e) hk w q
      refine Does.mono hentity ?_
      rintro _ T h d ⟨p, rfl, hf⟩
      refine ⟨p, rfl, hf.mono ?_⟩
      rintro o es ⟨v, rfl, hv⟩
      exact ⟨v, rfl, by simpa using .resolved hroot hr hv⟩
  · rintro ⟨⟩ f es ⟨v, hv, -⟩
    cases hv
  · rintro ⟨⟩ f es ⟨rfl, r, hr, hv⟩
    cases r with
    | ok w => cases hv
    | error g =>
      cases hv
      exact ⟨.null, rfl, by simpa using .unresolved hroot hr⟩
  · rintro p T h _ ⟨⟨⟩, rfl, hf⟩
    exact ⟨p, rfl, by simpa using hf⟩

theorem promises_query (name : String) {q : Query} {e? : Option (Entity σ)}
    (hroot : q.Roots x.schema s e?) (hk : ∀ e, e? = some e → x.schema.Knows types e) :
    Promises (x.terms s lax) (x.query name q) (x.schema.queryMeans s x.context name q) := by
  refine Does.attempt_bind (Does.ofRun ?_)
  have hcount : Does (x.terms s lax) .empty ((x.count Tally.addQuery).bind .pure)
      fun _ T h d => T = 0 ∧ h = .empty ∧ d = 0 :=
    does_count (does_pure ⟨rfl, rfl, rfl⟩)
  refine hcount.mono ?_
  rintro _ _ _ _ ⟨rfl, rfl, rfl⟩
  refine Does.attempt_bind (does_attemptConsult
    (hroot.answers.comes (Q := fun r => r = .ok e?) rfl) ?_)
  rintro _ rfl
  cases e? with
  | none =>
    let f : Failure := .engine ("Unknown entity type \"" ++ q.typeName.getD "" ++ "\"")
    have hrefuse : Promises (x.terms s lax) (Attempt.ofRun (x.refuse f (.ofQuery name))) _ :=
      promises_refuse f _
    refine Does.mono hrefuse ?_
    rintro _ T h d ⟨p, rfl, hf⟩
    refine ⟨p, rfl, ?_⟩
    simp only [zero_add]
    refine hf.mono ?_
    rintro o es ⟨v, rfl, rfl, hes⟩
    exact ⟨.null, rfl, by rw [hes]; exact .unknown hroot⟩
  | some e =>
    refine (promises_queryOn hp hregular hs name hroot (hk e rfl)).mono ?_
    rintro _ T h d ⟨p, rfl, hf⟩
    exact ⟨p, rfl, by simpa only [zero_add] using hf⟩

/-- **The queries of a document give promises of what they mean.** -/
theorem promisesAll_queries {d : Document} (hr : d.Rooted x.schema types s) :
    PromisesAll (x.terms s lax) (d.queries.mapM fun (name, q) => x.query name q)
      (d.queries.map fun (name, q) => x.schema.queryMeans s x.context name q) := by
  refine promisesAll_mapM d.queries ?_
  rintro ⟨name, q⟩ hq
  obtain ⟨e?, hroot, hk⟩ := hr.exists_root hq
  exact promises_query hp hregular hs name hroot hk

end

end EntityQuery
