import EntityQuery.Proofs.Execution.Agreement
import EntityQuery.Proofs.Validation.Paths

/-!
# Where failures are

A failure that does not say where it is gets the place of what it leaves null: of a query, or of a field
below one. In a document that breaks no rule these places tell everything apart that may be left null.

* `Gap`: what a failure leaves null. `Document.HasGap`: what of a document may be left null.
* `Document.Fails`: what goes wrong there. `Document.placeOf`: the place that the failure gets.
* `locates_entity`: the failures of an entity, by recursion on the query.
* `Document.gap_unique`: places tell gaps apart.
* **`locations_identify_gaps`**.
-/

namespace EntityQuery

open Lookup Session Execution Schema

variable {σ : Type}

/-! ## Gaps -/

/-- What a failure leaves null: a query of the document, or, at the end of a path of links from it, a
field. -/
inductive Gap
  | query (index : Nat)
  | field (index : Nat) (path : List String) (kind : ArtifactKind) (name : String)
  deriving DecidableEq, Repr

/-- What goes wrong when an artifact is resolved on a reference: its resolver comes to a failure, or the
value of an attribute cannot be completed. -/
inductive Schema.Misses (schema : Schema σ) (s : Session σ) (site : Site) (e : Entity σ)
    (reference : Json) : ArtifactKind → String → Failure → Prop
  | attribute {name : String} {a : Attribute σ} {f : Failure} (ha : e.attribute? name = some a)
      (h : Resolves (a.resolve reference (site.focus .field a.label)) (.error f)) :
      Misses schema s site e reference .field name f
  | completion {name : String} {a : Attribute σ} {w : Json} {f : Failure} {es : Multiset Failure}
      (ha : e.attribute? name = some a)
      (h : Resolves (a.resolve reference (site.focus .field a.label)) (.ok w))
      (hw : schema.AttributeMeans s a w (.error f) es) :
      Misses schema s site e reference .field name f
  | act {name : String} {a : Act σ} {f : Failure} (ha : e.act? name = some a)
      (h : Resolves (a.run reference site.query.arguments) (.error f)) :
      Misses schema s site e reference .act name f
  | link {name : String} {l : Link σ} {arguments : Entries Json} {f : Failure}
      (hl : e.link? name = some l)
      (h : Resolves (l.resolve reference { site.focus .link l.label with arguments }) (.error f)) :
      Misses schema s site e reference .link name f

namespace Document

/-- The name of the query of an index. -/
def nameOf (d : Document) (index : Nat) : String := d.names.getD index ""

/-- The place that a failure at a gap gets. -/
def placeOf (d : Document) : Gap → Location
  | .query index => .ofQuery (d.nameOf index)
  | .field index path kind name =>
    .ofField (d.nameOf index) (String.intercalate "." (path ++ [name])) kind.text

/-- What of the document may be left null: its queries, and what is asked for at the end of a path. -/
inductive HasGap (schema : Schema σ) (s : Session σ) (d : Document) : Gap → Prop
  | query {index : Nat} (h : index < d.queries.length) : HasGap schema s d (.query index)
  | field {index : Nat} {path : List String} {e : Entity σ} {declared : List Argument} {q : Query}
      {kind : ArtifactKind} {name : String} (h : d.Reaches schema s index path e declared q)
      (hq : q.Asks kind name) : HasGap schema s d (.field index path kind name)

/-- What goes wrong at a gap: a query names no entity, or the entity cannot be resolved; an entity does not
have what it is asked for, or that fails on a reference. -/
inductive Fails (schema : Schema σ) (s : Session σ) (context : Context) (d : Document) :
    Gap → Failure → Prop
  | unknown {index : Nat} {name : String} {q : Query} (hq : d.queries[index]? = some (name, q))
      (he : q.Roots schema s none) : Fails schema s context d (.query index)
        (.engine ("Unknown entity type \"" ++ q.typeName.getD "" ++ "\""))
  | unresolved {index : Nat} {name : String} {q : Query} {e : Entity σ} {f : Failure}
      (hq : d.queries[index]? = some (name, q)) (he : q.Roots schema s (some e))
      (h : Resolves (e.fetch q.arguments context) (.error f)) :
      Fails schema s context d (.query index) f
  | lacking {index : Nat} {path : List String} {e : Entity σ} {declared : List Argument} {q : Query}
      {kind : ArtifactKind} {name : String} (h : d.Reaches schema s index path e declared q)
      (hq : q.Asks kind name) (hnone : e.artifact? kind name = none) :
      Fails schema s context d (.field index path kind name)
        (.engine (Validator.unknownArtifact e.name kind name))
  | field {index : Nat} {path : List String} {e : Entity σ} {declared : List Argument} {q : Query}
      {kind : ArtifactKind} {name : String} {reference : Json} {f : Failure}
      (h : d.Reaches schema s index path e declared q) (hq : q.Asks kind name)
      (hf : schema.Misses s (q.site schema context (d.nameOf index) path e declared) e reference
        kind name f) : Fails schema s context d (.field index path kind name) f

/-- Each of the failures has the place of the gap where it goes wrong. -/
def Locates (schema : Schema σ) (s : Session σ) (context : Context) (d : Document)
    (es : Multiset Failure) : Prop :=
  ∀ f ∈ es, ∃ g f₀, d.Fails schema s context g f₀ ∧ f = f₀.located [d.placeOf g]

variable {schema : Schema σ} {s : Session σ} {context : Context} {d : Document} {g : Gap}
  {f : Failure} {es es' : Multiset Failure}

theorem Fails.hasGap (h : d.Fails schema s context g f) : d.HasGap schema s g := by
  cases h with
  | unknown hq | unresolved hq => exact .query (List.getElem?_eq_some_iff.mp hq).1
  | lacking h hq | field h hq => exact .field h hq

theorem locates_zero : d.Locates schema s context 0 := fun _ hf =>
  absurd hf (Multiset.notMem_zero _)

theorem Fails.locates (h : d.Fails schema s context g f) :
    d.Locates schema s context {f.located [d.placeOf g]} := fun _ hf =>
  ⟨g, f, h, Multiset.mem_singleton.mp hf⟩

theorem Locates.add (h : d.Locates schema s context es) (h' : d.Locates schema s context es') :
    d.Locates schema s context (es + es') := fun f hf =>
  (Multiset.mem_add.mp hf).elim (h f) (h' f)

theorem locates_together {Ps : List Meaning} {vs : List Json}
    (hPs : ∀ P ∈ Ps, ∀ v es, P v es → d.Locates schema s context es) (h : Together Ps vs es) :
    d.Locates schema s context es := by
  induction h with
  | nil => exact locates_zero
  | cons hv _ ih =>
    obtain ⟨hP, hPs⟩ := List.forall_mem_cons.mp hPs
    exact (hP _ _ hv).add (ih hPs)

end Document

/-! ## The failures of an execution -/

section

variable {schema : Schema σ} {s : Session σ} {context : Context} {d : Document} {index : Nat}
  {path : List String} {e : Entity σ} {declared : List Argument} {q : Query} {v : Json}
  {es : Multiset Failure}

theorem locates_settled {g : Gap} {c : Callback σ (Answer σ)}
    {completes : Json → Except Failure Json → Multiset Failure → Prop}
    (hc : ∀ f, Resolves c (.error f) → d.Fails schema s context g f)
    (hcompletes : ∀ w r es, Resolves c (.ok w) → completes w r es →
      d.Locates schema s context es ∧ ∀ f, r = .error f → d.Fails schema s context g f)
    (h : FieldMeans (d.placeOf g) c completes v es) : d.Locates schema s context es := by
  cases h with
  | unresolved h => exact (hc _ h).locates
  | failed h hw =>
    obtain ⟨hes, hf⟩ := hcompletes _ _ _ h hw
    exact hes.add (hf _ rfl).locates
  | completed h hw => exact (hcompletes _ _ _ h hw).1

variable (hreach : d.Reaches schema s index path e declared q)

include hreach

theorem locates_field {reference : Json} {name : String} (hq : name ∈ q.attributes)
    (h : schema.fieldMeans s (q.site schema context (d.nameOf index) path e declared) e reference
      name v es) : d.Locates schema s context es := by
  have hasks : q.Asks .field name := hq
  unfold fieldMeans at h
  cases ha : e.attribute? name with
  | none =>
    rw [ha] at h
    obtain ⟨-, rfl⟩ := h
    exact (Document.Fails.lacking hreach hasks (Option.map_eq_none_iff.mpr ha)).locates
  | some a =>
    rw [ha] at h
    refine locates_settled (g := .field index path .field name)
      (fun f hf => .field hreach hasks (.attribute ha hf)) (fun w r es hr hw => ⟨?_, ?_⟩) h
    · cases hw <;> exact Document.locates_zero
    · rintro f rfl
      exact .field hreach hasks (.completion ha hr hw)

theorem locates_act {reference : Json} {name : String} (hq : q.act = some name)
    (h : actMeans (q.site schema context (d.nameOf index) path e declared) e reference q.arguments
      name v es) : d.Locates schema s context es := by
  have hasks : q.Asks .act name := hq
  unfold actMeans at h
  cases ha : e.act? name with
  | none =>
    rw [ha] at h
    obtain ⟨-, rfl⟩ := h
    exact (Document.Fails.lacking hreach hasks (Option.map_eq_none_iff.mpr ha)).locates
  | some a =>
    rw [ha] at h
    refine locates_settled (g := .field index path .act name)
      (fun f hf => .field hreach hasks (.act ha hf)) ?_ h
    rintro w r es - ⟨rfl, rfl⟩
    exact ⟨Document.locates_zero, nofun⟩

omit hreach in
theorem locates_linked {P : Json → Meaning}
    (hP : ∀ w v es, P w v es → d.Locates schema s context es) {w : Json}
    (h : LinkedMeans P w v es) : d.Locates schema s context es := by
  cases h with
  | null => exact Document.locates_zero
  | array h =>
    refine Document.locates_together (fun Q hQ v es hv => ?_) h
    obtain ⟨w, -, rfl⟩ := List.mem_map.mp hQ
    exact hP w v es hv
  | one _ _ h => exact hP w v es h

theorem locates_link {reference : Json} {name : String} {nested : Query}
    (hq : (name, nested) ∈ q.links) {P : Site → Entity σ → Json → Meaning}
    (hP : ∀ target l, d.Reaches schema s index (path ++ [name]) target l nested → ∀ w v es,
      P (nested.site schema context (d.nameOf index) (path ++ [name]) target l) target w v es →
      d.Locates schema s context es)
    (h : schema.linkMeans s (q.site schema context (d.nameOf index) path e declared) e reference
      name nested P v es) : d.Locates schema s context es := by
  have hasks : q.Asks .link name := List.mem_map.mpr ⟨_, hq, rfl⟩
  unfold linkMeans at h
  cases hl : e.link? name with
  | none =>
    rw [hl] at h
    obtain ⟨-, rfl⟩ := h
    exact (Document.Fails.lacking hreach hasks (Option.map_eq_none_iff.mpr hl)).locates
  | some l =>
    rw [hl] at h
    obtain ⟨t, target, hfollow, h⟩ := h
    refine locates_settled (g := .field index path .link name)
      (fun f hf => .field hreach hasks (.link hl hf)) ?_ h
    rintro w r es - ⟨u, rfl, hu⟩
    exact ⟨locates_linked (hP target l.arguments (hreach.link hq hl hfollow)) hu, nofun⟩

omit hreach

mutual

/-- **The failures of an entity have the places of the gaps where they go wrong.** -/
theorem locates_entity (reference : Json) : (q : Query) → ∀ path e declared,
    d.Reaches schema s index path e declared q → ∀ v es,
    schema.entityMeans s (q.site schema context (d.nameOf index) path e declared) e reference q v es →
      d.Locates schema s context es
  | ⟨typeName, attributes, act?, arguments, links⟩, path, e, declared, hreach, v, es, h => by
    rw [entityMeans] at h
    obtain ⟨vs, hvs, -⟩ := h
    refine Document.locates_together (fun P hP v es hv => ?_) hvs
    rcases List.mem_append.mp hP with hP | hP
    · rcases List.mem_append.mp hP with hP | hP
      · obtain ⟨name, hname, rfl⟩ := List.mem_map.mp hP
        exact locates_field hreach hname hv
      · obtain ⟨name, hname, rfl⟩ := List.mem_map.mp hP
        exact locates_act hreach (Option.mem_toList.mp hname) hv
    · exact locates_links reference hreach links (fun _ h => h) P hP v es hv

theorem locates_links (reference : Json) {q : Query} {path : List String} {e : Entity σ}
    {declared : List Argument} (hreach : d.Reaches schema s index path e declared q) :
    (links : List (String × Query)) → (∀ l ∈ links, l ∈ q.links) →
    ∀ P ∈ schema.linksMean s (q.site schema context (d.nameOf index) path e declared) e reference
      links, ∀ v es, P v es → d.Locates schema s context es
  | [], _ => by
    rw [linksMean]
    exact fun P hP => absurd hP List.not_mem_nil
  | (name, nested) :: rest, hq => by
    rw [linksMean]
    obtain ⟨hfirst, hrest⟩ := List.forall_mem_cons.mp hq
    intro P hP v es hv
    rcases List.mem_cons.mp hP with rfl | hP
    · exact locates_link hreach hfirst
        (fun target l hreach w => locates_entity w nested _ target l hreach) hv
    · exact locates_links reference hreach rest hrest P hP v es hv

end

/-- The failures of a query. -/
theorem locates_query {name : String} (hq : d.queries[index]? = some (name, q))
    (h : schema.queryMeans s context name q v es) : d.Locates schema s context es := by
  have hname : d.nameOf index = name := by
    simp [Document.nameOf, Document.names, List.getD_eq_getElem?_getD, hq]
  subst hname
  cases h with
  | unknown hroot => exact (Document.Fails.unknown hq hroot).locates
  | unresolved hroot hr => exact (Document.Fails.unresolved hq hroot hr).locates
  | resolved hroot _ hv => exact locates_entity _ q [] _ _ (.root hq hroot) _ _ hv

/-- **The failures of a document have the places of the gaps where they go wrong.** -/
theorem locates_document {data : Entries Json} (h : schema.documentMeans s context d data es) :
    d.Locates schema s context es := by
  obtain ⟨vs, hvs, -⟩ := h
  refine Document.locates_together (fun P hP v es hv => ?_) hvs
  obtain ⟨⟨name, q⟩, hq, rfl⟩ := List.mem_map.mp hP
  obtain ⟨index, hindex⟩ := List.getElem?_of_mem hq
  exact locates_query hindex hv

end

/-! ## Places tell gaps apart -/

section

variable {schema : Schema σ} {types : Entries NamedType} {s s₁ s₂ : Session σ} {d : Document}

theorem Document.index_unique (hd : d.names.Nodup) {i j : Nat} (hi : i < d.queries.length)
    (hj : j < d.queries.length) (h : d.nameOf i = d.nameOf j) : i = j := by
  have hi' : i < d.names.length := by simpa [names] using hi
  have hj' : j < d.names.length := by simpa [names] using hj
  have hname : ∀ {k : Nat} (hk : k < d.names.length), d.nameOf k = d.names[k] := fun hk => by
    rw [nameOf, List.getD_eq_getElem?_getD, List.getElem?_eq_getElem hk, Option.getD_some]
  rw [hname hi', hname hj'] at h
  exact (List.Nodup.getElem_inj_iff hd).mp h

/-- **In a document that breaks no rule, the places of gaps tell them apart**, by the query and by the path
of the field. -/
theorem Document.gap_unique (hp : schema.Plain) (hs : schema.Sound types s)
    (hr : d.Rooted schema types s) (hdrafted : schema.Drafted) (hs₁ : s.Alike s₁)
    (haccepted : d.validate { schema } s₁ = .ok [] s₂) {g g' : Gap} (h : d.HasGap schema s g)
    (h' : d.HasGap schema s g') (hquery : (d.placeOf g).query = (d.placeOf g').query)
    (hfield : (d.placeOf g).field = (d.placeOf g').field) : g = g' := by
  have hnodup := Document.nodup_of_accepted haccepted
  cases h with
  | query hlt =>
    cases h' with
    | query hlt' => rw [index_unique hnodup hlt hlt' hquery]
    | field => cases hfield
  | @field index path e _ q kind name hreach hq =>
    cases h' with
    | query => cases hfield
    | @field index' path' e' _ q' kind' name' hreach' hq' =>
      obtain rfl := index_unique hnodup hreach.lt hreach'.lt hquery
      have lawful : ∀ t e, schema.entity? t = some e → e.Lawful := fun _ _ => hdrafted.lawful
      have parts : ∀ {path e declared q kind name}, d.Reaches schema s index path e declared q →
          q.Asks kind name → (e.artifact? kind name).isSome ∧ e.Lawful ∧
            ∀ part ∈ path ++ [name], Name.IsName part := by
        intro path e declared q kind name hreach hq
        have hhas := hreach.has_of_accepted hp hs hr hs₁ haccepted hq
        obtain ⟨t, -, ht⟩ := hreach.visits.knows hp hs hr
        refine ⟨hhas, lawful t e ht, fun part hpart => ?_⟩
        rcases List.mem_append.mp hpart with hpart | hpart
        · exact hreach.named lawful hp hs hr part hpart
        · rw [List.mem_singleton.mp hpart]
          exact (lawful t e ht).named name (Entity.mem_names hhas)
      obtain ⟨hhas, hlawful, hnamed⟩ := parts hreach hq
      obtain ⟨hhas', -, hnamed'⟩ := parts hreach' hq'
      have hparts := Name.intercalate_injective hnamed hnamed' (by simp) (by simp)
        (Option.some.inj hfield)
      obtain ⟨rfl, hname⟩ := List.append_inj' hparts rfl
      cases hname
      -- the kinds agree, for both artifacts belong to the entity at the end of the path
      obtain rfl := hreach.entity_unique hreach'
      rw [hlawful.kind_unique hhas hhas']

end

/-! ## Locations -/

/-- Where a failure says that it is: the names of queries, and the paths of fields. -/
def Failure.whereabouts (f : Failure) : List (String × Option String) :=
  f.locations.map fun l => (l.query, l.field)

theorem Failure.whereabouts_located {f : Failure} (h : f.locations = []) (l : Location) :
    (f.located [l]).whereabouts = [(l.query, l.field)] := by
  rw [Failure.located, if_pos (by rw [h]; rfl)]
  rfl

/-- **Locations identify what failed.** On a schema of entities that are built from drafts, which was built
itself without a loader, every failure in the report of an execution gets the place of the gap where it
goes wrong. In a document that breaks no rule, failures that do not say themselves where they are have the
same place only at the same gap. -/
theorem locations_identify_gaps {schema : Schema σ} (hl : schema.loader? = none)
    (hdrafted : schema.Drafted) {declared : List Ty} {app : σ} {s : Session σ}
    (hbuild : schema.build declared false { app } = .ok () s) {d : Document} {s₁ s₂ : Session σ}
    (hs₁ : s.Alike s₁) (haccepted : d.validate { schema } s₁ = .ok [] s₂) :
    (∀ (g g' : Gap) (f f' : Failure), d.HasGap schema s g → d.HasGap schema s g' →
      f.locations = [] → f'.locations = [] →
      (f.located [d.placeOf g]).whereabouts = (f'.located [d.placeOf g']).whereabouts → g = g') ∧
    ∀ (context : Context) (options : Options) (m m' : Machine Payload (World σ)) (limit : Nat)
      (report : Report) (data : Entries Json), s.Alike m.world.session →
      m.run limit (Request.perform ⟨d, context, options⟩ schema).run = .done (.ok (.ok report)) m' →
      report.data = some data → ∀ f ∈ report.failures, ∃ g f₀, d.HasGap schema s g ∧
        d.Fails schema s context g f₀ ∧ f = f₀.located [d.placeOf g] := by
  obtain ⟨hp, types, hs, hr⟩ := Schema.serves_of_build hl hbuild
  refine ⟨fun g g' f f' h h' hf hf' heq => ?_,
    fun context options m m' limit report data hm hrun hdata f hf => ?_⟩
  · rw [Failure.whereabouts_located hf, Failure.whereabouts_located hf'] at heq
    obtain ⟨hquery, hfield⟩ := Prod.mk.inj (List.cons.inj heq).1
    exact Document.gap_unique hp hs (hr d) hdrafted hs₁ haccepted h h' hquery hfield
  · have hconcludes := (ends_perform_concludes (r := ⟨d, context, options⟩) hp hs (hr d) hm).of_done
      hrun
    cases hconcludes with
    | refused => cases hdata
    | executed hy =>
      obtain ⟨_, -, hmeans⟩ := hy
      obtain ⟨g, f₀, hfails, hlocated⟩ := locates_document hmeans f (Multiset.mem_coe.mpr hf)
      exact ⟨g, f₀, hfails.hasGap, hfails, hlocated⟩

namespace Sample

/-- What the entity of the schema is declared as. -/
def draft (secret : String) : Draft Unit where
  name := "User"
  resolve? := some (user secret).resolve
  attributes := (user secret).attributes
  links := (user secret).links

theorem draft_built (secret : String) : (draft secret).build = .ok (user secret) := by
  have hartifacts : Draft.checkArtifacts "User" [] [("name", []), ("key", []), ("friends", [])] =
      .ok () := by decide +kernel
  have hname : Draft.checkName "Entity" "User" = .ok () := rfl
  exact Draft.bind_eq_ok.mpr ⟨(), hname, Draft.bind_eq_ok.mpr ⟨(), hartifacts,
    Draft.bind_eq_ok.mpr ⟨(), rfl, rfl⟩⟩⟩

theorem schema_drafted (secret : String) : (schema secret).Drafted := fun _ _ he =>
  ⟨draft secret, by rw [eq_of_entity? he]; exact draft_built secret⟩

/-- A document that asks for what the entity has. -/
def knowing : Document where
  queries := [("people", {
    typeName := some "User"
    attributes := ["name", "key"]
    act := none
    arguments := []
    links := [("friends", {
      typeName := none
      attributes := ["name"]
      act := none
      arguments := []
      links := [] })] })]

theorem knowing_accepted :
    ∃ s, knowing.validate { schema := schema "key" } session = .ok [] s :=
  exists_of_accepts (by decide +kernel)

end Sample

theorem locations_identify_gaps_sample :
    ∃ report data m', (Machine.start { session := Sample.session }).run 100
        (Request.perform ⟨Sample.knowing, {}, {}⟩ (Sample.schema "key")).run =
          .done (.ok (.ok report)) m' ∧ report.data = some data ∧ report.failures.length = 2 ∧
      (∀ f ∈ report.failures, ∃ g f₀, Sample.knowing.HasGap (Sample.schema "key") Sample.session g ∧
        Sample.knowing.Fails (Sample.schema "key") Sample.session {} g f₀ ∧
        f = f₀.located [Sample.knowing.placeOf g]) ∧
      ∀ (g g' : Gap) (f f' : Failure), Sample.knowing.HasGap (Sample.schema "key") Sample.session g →
        Sample.knowing.HasGap (Sample.schema "key") Sample.session g' →
        f.locations = [] → f'.locations = [] →
        (f.located [Sample.knowing.placeOf g]).whereabouts =
          (f'.located [Sample.knowing.placeOf g']).whereabouts → g = g' := by
  have hreport : (match Ended.report? ((Machine.start { session := Sample.session }).run 100
      (Request.perform ⟨Sample.knowing, {}, {}⟩ (Sample.schema "key")).run) with
      | some r => r.data.isSome && r.failures.length == 2
      | none => false) = true := by decide +kernel
  split at hreport
  · next report h =>
    obtain ⟨hdata, hlength⟩ := Bool.and_eq_true_iff.mp hreport
    obtain ⟨data, hdata⟩ := Option.isSome_iff_exists.mp hdata
    obtain ⟨m', hrun⟩ := Ended.exists_of_report? h
    obtain ⟨_, haccepted⟩ := Sample.knowing_accepted
    obtain ⟨hunique, hlocated⟩ := locations_identify_gaps rfl (Sample.schema_drafted "key")
      (Sample.built "key") (.refl Sample.session) haccepted
    exact ⟨report, data, m', hrun, hdata, by simpa using hlength,
      hlocated {} {} _ m' 100 report data (.refl Sample.session) hrun hdata, hunique⟩
  · cases hreport

end EntityQuery
