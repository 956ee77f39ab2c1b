import EntityQuery.Proofs.Execution.Defects

/-!
# What an execution raises itself

Apart from what the callbacks of the application make fail, an execution keeps failures of its own: for
names that an entity does not have, and for queries that name no entity. Validating the same document
reports each of them.

* `Schema.Provides`: the failures that callbacks and coercions make.
* `Schema.Accounts`: failures that are raised by the execution or provided.
* **`accounts_entity`**: the failures of an entity, by recursion on the query.
* **`raised_are_violations`**: what an execution raises is a violation.
-/

namespace EntityQuery

open Lookup Session Execution Schema

variable {σ : Type}

/-! ## Failures accounted for -/

/-- The failure that an execution keeps for a lack. -/
def Lack.failure (x : Lack) : Failure :=
  (Failure.engine (Validator.unknownArtifact x.entity x.kind x.name)).located
    [.ofField x.spot.queryName (String.intercalate "." (x.spot.path ++ [x.name])) x.kind.text]

/-- The same place for a validation. -/
def Site.spot (site : Site) : Spot := ⟨site.queryName, site.path⟩

namespace Schema

variable (schema : Schema σ) (s : Session σ)

/-- The failures that are provided by the application: a resolver comes to the failure, or the coercion
or the rule of an attribute. -/
inductive Provides : Failure → Prop
  | resolver {c : Callback σ (Answer σ)} {f : Failure} (hc : schema.Calls c)
      (h : Resolves c (.error f)) : Provides f
  | attribute {t : NamedType} {e : Entity σ} {a : Attribute σ} {w : Json} {f : Failure}
      {es : Multiset Failure} (ht : schema.entity? t = some e) (ha : a ∈ e.attributes)
      (h : schema.AttributeMeans s a w (.error f) es) : Provides f

/-- Failures that are raised, beside failures that are provided, each at its place. -/
def Accounts (Raised : Failure → Prop) (es : Multiset Failure) : Prop :=
  ∃ raised given : Multiset Failure, es = raised + given ∧ (∀ f ∈ raised, Raised f) ∧
    ∀ f ∈ given, ∃ f₀ place, f = f₀.located [place] ∧ schema.Provides s f₀

variable {schema s} {R R' : Failure → Prop} {es es' : Multiset Failure} {f : Failure}

theorem accounts_zero : schema.Accounts s R 0 :=
  ⟨0, 0, rfl, fun _ h => absurd h (Multiset.notMem_zero _), fun _ h =>
    absurd h (Multiset.notMem_zero _)⟩

theorem accounts_raised (hf : R f) : schema.Accounts s R {f} :=
  ⟨{f}, 0, (add_zero _).symm, fun _ h => Multiset.mem_singleton.mp h ▸ hf, fun _ h =>
    absurd h (Multiset.notMem_zero _)⟩

theorem accounts_given (hf : schema.Provides s f) (place : Location) :
    schema.Accounts s R {f.located [place]} :=
  ⟨0, {f.located [place]}, (zero_add _).symm, fun _ h => absurd h (Multiset.notMem_zero _),
    fun _ h => ⟨f, place, Multiset.mem_singleton.mp h, hf⟩⟩

theorem Accounts.add (h : schema.Accounts s R es) (h' : schema.Accounts s R es') :
    schema.Accounts s R (es + es') := by
  obtain ⟨raised, given, rfl, hr, hg⟩ := h
  obtain ⟨raised', given', rfl, hr', hg'⟩ := h'
  refine ⟨raised + raised', given + given', add_add_add_comm _ _ _ _, fun f hf => ?_, fun f hf => ?_⟩
  · exact (Multiset.mem_add.mp hf).elim (hr f) (hr' f)
  · exact (Multiset.mem_add.mp hf).elim (hg f) (hg' f)

theorem Accounts.mono (h : schema.Accounts s R es) (hR : ∀ f, R f → R' f) :
    schema.Accounts s R' es := by
  obtain ⟨raised, given, rfl, hr, hg⟩ := h
  exact ⟨raised, given, rfl, fun f hf => hR f (hr f hf), hg⟩

theorem accounts_together {Ps : List Meaning} {vs : List Json}
    (hPs : ∀ P ∈ Ps, ∀ v es, P v es → schema.Accounts s R es) (h : Together Ps vs es) :
    schema.Accounts s R es := by
  induction h with
  | nil => exact accounts_zero
  | cons hv _ ih =>
    obtain ⟨hP, hPs⟩ := List.forall_mem_cons.mp hPs
    exact (hP _ _ hv).add (ih hPs)

end Schema

/-! ## Fields -/

section

variable {schema : Schema σ} {s : Session σ} {types : Entries NamedType} {R : Failure → Prop}

theorem accounts_settled {place : Location} {c : Callback σ (Answer σ)} (hc : schema.Calls c)
    {completes : Json → Except Failure Json → Multiset Failure → Prop}
    (hcompletes : ∀ w r es, completes w r es →
      schema.Accounts s R es ∧ ∀ f, r = .error f → schema.Provides s f)
    {v : Json} {es : Multiset Failure} (h : FieldMeans place c completes v es) :
    schema.Accounts s R es := by
  cases h with
  | unresolved h => exact accounts_given (.resolver hc h) place
  | failed h hw =>
    obtain ⟨ha, hp⟩ := hcompletes _ _ _ hw
    exact ha.add (accounts_given (hp _ rfl) place)
  | completed h hw => exact (hcompletes _ _ _ hw).1

variable (hp : schema.Plain) (hs : schema.Sound types s)

/-- The failures that an execution raises for what a query asks for in vain. -/
def Schema.Raises (schema : Schema σ) (s : Session σ) (site : Site) (e : Entity σ) (q : Query)
    (f : Failure) : Prop :=
  ∃ x, Lacks schema s site.spot e q x ∧ f = x.failure

variable {site : Site} {e : Entity σ} {q : Query} {v : Json} {es : Multiset Failure}

theorem accounts_field (hk : schema.Knows types e) {reference : Json} {name : String}
    (hq : name ∈ q.attributes) (h : schema.fieldMeans s site e reference name v es) :
    schema.Accounts s (schema.Raises s site e q) es := by
  unfold fieldMeans at h
  cases ha : e.attribute? name with
  | none =>
    rw [ha] at h
    obtain ⟨-, rfl⟩ := h
    exact accounts_raised ⟨_, .field hq ha, rfl⟩
  | some a =>
    rw [ha] at h
    have hmem : a ∈ e.attributes := List.mem_of_find?_eq_some ha
    obtain ⟨t, -, ht⟩ := hk
    refine accounts_settled (.field ht hmem reference _) (fun w r es hw => ?_) h
    refine ⟨?_, ?_⟩
    · cases hw <;> exact accounts_zero
    · rintro f rfl
      exact .attribute ht hmem hw

theorem accounts_act (hk : schema.Knows types e) {reference : Json} {supplied : Entries Json}
    {name : String} (hq : q.act = some name)
    (h : actMeans site e reference supplied name v es) :
    schema.Accounts s (schema.Raises s site e q) es := by
  unfold actMeans at h
  cases ha : e.act? name with
  | none =>
    rw [ha] at h
    obtain ⟨-, rfl⟩ := h
    exact accounts_raised ⟨_, .act hq ha, rfl⟩
  | some a =>
    rw [ha] at h
    have hmem : a ∈ e.acts := List.mem_of_find?_eq_some ha
    obtain ⟨t, -, ht⟩ := hk
    refine accounts_settled (.act ht hmem reference _) ?_ h
    rintro w r es ⟨rfl, rfl⟩
    exact ⟨accounts_zero, fun f hf => by cases hf⟩

theorem accounts_linked {P : Json → Meaning} (hP : ∀ w v es, P w v es → schema.Accounts s R es)
    {w : Json} (h : LinkedMeans P w v es) : schema.Accounts s R es := by
  cases h with
  | null => exact accounts_zero
  | array h =>
    refine accounts_together (fun Q hQ v es hv => ?_) h
    obtain ⟨w, -, rfl⟩ := List.mem_map.mp hQ
    exact hP w v es hv
  | one _ _ h => exact hP w v es h

theorem accounts_link (hk : schema.Knows types e) (he : schema.Settles types s e)
    {reference : Json} {name : String} {nested : Query} (hq : (name, nested) ∈ q.links)
    {P : Site → Entity σ → Json → Meaning}
    (hP : ∀ there target, schema.Knows types target → ∀ w v es, P there target w v es →
      schema.Accounts s (schema.Raises s there target nested) es)
    (h : schema.linkMeans s site e reference name nested P v es) :
    schema.Accounts s (schema.Raises s site e q) es := by
  unfold linkMeans at h
  cases hl : e.link? name with
  | none =>
    rw [hl] at h
    obtain ⟨-, rfl⟩ := h
    exact accounts_raised ⟨_, .link hq hl, rfl⟩
  | some l =>
    rw [hl] at h
    obtain ⟨t', target', hfollow', h⟩ := h
    have hmem : l ∈ e.links := List.mem_of_find?_eq_some hl
    obtain ⟨t, target, hknown, hfollow⟩ := he.links l hmem
    cases (EStateM.Result.ok.inj
      ((hfollow' s (.refl s)).symm.trans (hfollow.answers s (.refl s)))).1
    obtain ⟨t₀, -, ht⟩ := hk
    refine accounts_settled (.link ht hmem reference _) ?_ h
    rintro w r es ⟨u, rfl, hu⟩
    refine ⟨accounts_linked (fun w v es hw => (hP _ _ hknown w v es hw).mono ?_) hu,
      fun f hf => by cases hf⟩
    rintro f ⟨x, hx, rfl⟩
    exact ⟨x, .nested hq hl hfollow' hx, rfl⟩

/-! ## Entities and documents -/

mutual

/-- **The failures of an entity are raised for what it lacks, or provided.** -/
theorem accounts_entity (hp : schema.Plain) (hs : schema.Sound types s) (site : Site)
    {e : Entity σ} (hk : schema.Knows types e) (reference : Json) : (q : Query) →
    ∀ v es, schema.entityMeans s site e reference q v es →
      schema.Accounts s (schema.Raises s site e q) es
  | ⟨typeName, attributes, act?, arguments, links⟩, v, es, h => by
    rw [entityMeans] at h
    obtain ⟨vs, hvs, -⟩ := h
    refine accounts_together (fun P hP v es hv => ?_) hvs
    rcases List.mem_append.mp hP with hP | hP
    · rcases List.mem_append.mp hP with hP | hP
      · obtain ⟨name, hname, rfl⟩ := List.mem_map.mp hP
        exact accounts_field hk hname hv
      · obtain ⟨name, hname, rfl⟩ := List.mem_map.mp hP
        exact accounts_act hk (Option.mem_toList.mp hname) hv
    · exact accounts_links hp hs site hk reference links (fun _ h => h) P hP v es hv

theorem accounts_links (hp : schema.Plain) (hs : schema.Sound types s) (site : Site)
    {e : Entity σ} (hk : schema.Knows types e) (reference : Json) {q : Query} :
    (links : List (String × Query)) → (∀ l ∈ links, l ∈ q.links) →
    ∀ P ∈ schema.linksMean s site e reference links, ∀ v es, P v es →
      schema.Accounts s (schema.Raises s site e q) es
  | [], _ => by
    rw [linksMean]
    exact fun P hP => absurd hP List.not_mem_nil
  | (name, nested) :: rest, hq => by
    rw [linksMean]
    obtain ⟨hfirst, hrest⟩ := List.forall_mem_cons.mp hq
    intro P hP v es hv
    rcases List.mem_cons.mp hP with rfl | hP
    · exact accounts_link hk (hs.settles hp hk) hfirst
        (fun there _ hknown w => accounts_entity hp hs there hknown w nested) hv
    · exact accounts_links hp hs site hk reference rest hrest P hP v es hv

end

include hp hs

/-- The failures that an execution raises for the queries of a document. -/
def Document.Raises (schema : Schema σ) (s : Session σ) (d : Document) (f : Failure) : Prop :=
  ∃ name q, (name, q) ∈ d.queries ∧
    ((q.Roots schema s none ∧ f = rootRefusal name q) ∨
      ∃ e x, q.Roots schema s (some e) ∧ Lacks schema s { queryName := name } e q x ∧ f = x.failure)

theorem accounts_query {context : Context} {name : String} {q : Query} {v : Json}
    {es : Multiset Failure} (hk : ∀ e, q.Roots schema s (some e) → schema.Knows types e)
    {d : Document} (hq : (name, q) ∈ d.queries) (h : schema.queryMeans s context name q v es) :
    schema.Accounts s (d.Raises schema s) es := by
  cases h with
  | unknown hroot => exact accounts_raised ⟨name, q, hq, .inl ⟨hroot, rfl⟩⟩
  | @unresolved e _ hroot hr =>
    obtain ⟨t, -, ht⟩ := hk e hroot
    exact accounts_given (.resolver (.entity ht _ _) hr) _
  | @resolved e _ _ _ hroot _ hv =>
    refine (accounts_entity hp hs _ (hk e hroot) _ q _ _ hv).mono ?_
    rintro f ⟨x, hx, rfl⟩
    exact ⟨name, q, hq, .inr ⟨e, x, hroot, hx, rfl⟩⟩

theorem accounts_document {d : Document} (hr : d.Rooted schema types s) {context : Context}
    {data : Entries Json} {es : Multiset Failure} (h : schema.documentMeans s context d data es) :
    schema.Accounts s (d.Raises schema s) es := by
  obtain ⟨vs, hvs, -⟩ := h
  refine accounts_together (fun P hP v es hv => ?_) hvs
  obtain ⟨⟨name, q⟩, hq, rfl⟩ := List.mem_map.mp hP
  refine accounts_query hp hs (fun e he => ?_) hq hv
  obtain ⟨e?, hroot, hk⟩ := hr.exists_root hq
  exact hk e (hroot.unique he)

end

/-! ## Violations -/

/-- A violation of the rule restates a failure: it has the same message, for the same query and the
same path. -/
structure Failure.RestatedBy (f g : Failure) : Prop where
  rule : Entries.find? g.info "rule" = some (.string Rule.knownArtifacts.name)
  message : g.message = f.message
  place : ∃ l l', f.locations = [l] ∧ g.locations = [l'] ∧ l'.query = l.query ∧ l'.field = l.field

/-- A violation says that the query of a name asks for no known entity. -/
structure Failure.RejectsRoot (g : Failure) (name : String) : Prop where
  rule : Entries.find? g.info "rule" = some (.string Rule.knownEntityTypes.name)
  place : g.locations = [.ofQuery name]

theorem Spot.location_some (spot : Spot) (name : String) :
    spot.location (some name) =
      ⟨spot.queryName, some (String.intercalate "." (spot.path ++ [name])), []⟩ := by
  unfold Spot.location
  cases h : spot.path ++ (some name).toList with
  | nil => simp at h
  | cons p ps =>
    simp only [← h]
    rfl

theorem Lack.restated (schema : Schema σ) (x : Lack) :
    ∃ g ∈ x.violation { schema }, x.failure.RestatedBy g := by
  refine ⟨_, List.mem_singleton.mpr rfl, rfl, rfl, _, _, rfl, rfl, ?_⟩
  rw [Spot.location_some]
  exact ⟨rfl, rfl⟩

/-- What an execution raises is a violation of the document. -/
theorem Document.Raises.violated {schema : Schema σ} {s : Session σ} {d : Document}
    {violations : List Failure} (hv : Validator.Covers { schema } s d.queries violations)
    {f : Failure} (h : d.Raises schema s f) :
    (∃ x : Lack, f = x.failure ∧ ∃ g ∈ violations, f.RestatedBy g) ∨
      ∃ name q, f = rootRefusal name q ∧ ∃ g ∈ violations, g.RejectsRoot name := by
  obtain ⟨name, q, hq, ⟨hroot, rfl⟩ | ⟨e, x, hroot, hx, rfl⟩⟩ := h
  · obtain ⟨message, hm⟩ := (hv name q hq).2 hroot
    exact .inr ⟨name, q, rfl, _, hm (List.mem_singleton.mpr rfl), rfl, rfl⟩
  · obtain ⟨g, hg, hx'⟩ := x.restated schema
    exact .inl ⟨x, rfl, g, (hv name q hq).1 e x hroot hx hg, hx'⟩

/-- The report that a run ends with, if it ends with one. -/
def Ended.report? {V W : Type} : Ended V W (Except Fault (Except EngineFault Report)) → Option Report
  | .done (.ok (.ok r)) _ => some r
  | _ => none

theorem Ended.exists_of_report? {V W : Type}
    {e : Ended V W (Except Fault (Except EngineFault Report))} {r : Report} (h : e.report? = some r) :
    ∃ m, e = .done (.ok (.ok r)) m := by
  unfold report? at h
  split at h
  · cases h
    exact ⟨_, rfl⟩
  · cases h

/-- A request that is not validated. -/
theorem ends_perform_of_skip {schema : Schema σ} {s : Session σ} {types : Entries NamedType}
    (hp : schema.Plain) (hs : schema.Sound types s) {r : Request}
    (hr : r.document.Rooted schema types s) (hskip : r.options.skipValidation = true)
    {m : Machine Payload (World σ)} (hm : s.Alike m.world.session) :
    Work.Ends True (r.perform schema).run m fun res _ => ∃ y, res = .ok y ∧
      schema.Concludes s r.context r.document True y := by
  refine (ends_perform_concludes hp hs hr hm).mono ?_
  rintro _ _ (⟨hvalidated, -⟩ | ⟨hvalidated, -⟩ | hy)
  · rw [hskip] at hvalidated
    cases hvalidated
  · rw [hskip] at hvalidated
    cases hvalidated
  · exact ⟨_, rfl, hy⟩

/-- **What an execution raises itself is a violation.** On a schema that was built without a loader,
the failures of a document that is executed without validating it are raised or provided by the
application. Each that is raised, validating the document reports as well: for a name that an entity
does not have, in the same words, for the same query and the same path; for a query that names no
entity, for that query. So nothing is raised where validating reports nothing. -/
theorem raised_are_violations {schema : Schema σ} (hl : schema.loader? = none)
    {declared : List Ty} {app : σ} {s : Session σ}
    (hbuild : schema.build declared false { app } = .ok () s) {r : Request}
    (hskip : r.options.skipValidation = true) {m m' : Machine Payload (World σ)}
    (hm : s.Alike m.world.session) {limit : Nat} {report : Report}
    (hrun : m.run limit (r.perform schema).run = .done (.ok (.ok report)) m')
    {s₁ s₂ : Session σ} (hs₁ : s.Alike s₁) {violations : List Failure}
    (hvalidate : r.document.validate { schema } s₁ = .ok violations s₂) :
    ∃ raised given : Multiset Failure, report.failures = raised + given ∧
      (∀ f ∈ raised, (∃ x : Lack, f = x.failure ∧ ∃ g ∈ violations, f.RestatedBy g) ∨
        ∃ name q, f = rootRefusal name q ∧ ∃ g ∈ violations, g.RejectsRoot name) ∧
      (∀ f ∈ given, ∃ f₀ place, f = f₀.located [place] ∧ schema.Provides s f₀) ∧
      (violations = [] → raised = 0) := by
  obtain ⟨hp, types, hs, hr⟩ := Schema.serves_of_build hl hbuild
  have hr := hr r.document
  have hcovers : Validator.Covers { schema } s r.document.queries violations := by
    obtain ⟨res, s', hx, -, hc⟩ := Document.yields_validate (v := { schema }) hp hs hr s₁ hs₁
    rw [hvalidate] at hx
    cases res with
    | ok fs =>
      cases hx
      exact hc _ rfl
    | error f => cases hx
  obtain ⟨y, hy, hconcludes⟩ := (ends_perform_of_skip hp hs hr hskip hm).of_done hrun
  cases hy
  obtain ⟨data, -, hmeans⟩ := hconcludes
  obtain ⟨raised, given, hfailures, hraised, hgiven⟩ := accounts_document hp hs hr hmeans
  have hviolated : ∀ f ∈ raised, _ := fun f hf => (hraised f hf).violated hcovers
  refine ⟨raised, given, hfailures, hviolated, hgiven, fun hnil => ?_⟩
  refine Multiset.eq_zero_of_forall_notMem fun f hf => ?_
  rw [hnil] at hviolated
  rcases hviolated f hf with ⟨x, -, g, hg, -⟩ | ⟨name, q, -, g, hg, -⟩
  · exact List.not_mem_nil hg
  · exact List.not_mem_nil hg

theorem raised_are_violations_sample :
    ∃ report m' violations s₂,
      (Machine.start { session := Sample.session }).run 100
        (Request.perform ⟨Sample.document, {}, { skipValidation := true }⟩ (Sample.schema "key")).run =
          .done (.ok (.ok report)) m' ∧
      Sample.document.validate { schema := Sample.schema "key" } Sample.session =
        .ok violations s₂ ∧
      ∃ raised given : Multiset Failure, report.failures = raised + given ∧
        (∀ f ∈ raised, (∃ x : Lack, f = x.failure ∧ ∃ g ∈ violations, f.RestatedBy g) ∨
          ∃ name q, f = rootRefusal name q ∧ ∃ g ∈ violations, g.RejectsRoot name) ∧
        (∀ f ∈ given, ∃ f₀ place, f = f₀.located [place] ∧
          (Sample.schema "key").Provides Sample.session f₀) ∧
        (violations = [] → raised = 0) := by
  obtain ⟨report, hreport⟩ := Option.isSome_iff_exists.mp (show Option.isSome (Ended.report?
    ((Machine.start { session := Sample.session }).run 100 (Request.perform
      ⟨Sample.document, {}, { skipValidation := true }⟩ (Sample.schema "key")).run)) = true by
    decide +kernel)
  obtain ⟨m', hrun⟩ := Ended.exists_of_report? hreport
  cases hvalidate : Sample.document.validate { schema := Sample.schema "key" } Sample.session with
  | ok violations s₂ =>
    exact ⟨report, m', violations, s₂, hrun, rfl, raised_are_violations rfl (Sample.built "key") rfl
      (.refl Sample.session) hrun (.refl Sample.session) hvalidate⟩
  | error e s₂ =>
    have hok : (match Sample.document.validate { schema := Sample.schema "key" } Sample.session with
        | .ok .. => true
        | .error .. => false) = true := by decide +kernel
    rw [hvalidate] at hok
    cases hok

end EntityQuery
