import EntityQuery.Proofs.Execution.Defects
import EntityQuery.Proofs.Execution.Performing
import EntityQuery.Proofs.Execution.Purity
import EntityQuery.Proofs.Schema.Counterpart

/-!
# Using a schema that loads its types

A schema that was built without a loader, and its lazy counterpart, which loads the types of the first one as they
are asked for. The counterpart is used for look-ups, validations and whole requests, in whatever order. However
much of the types it has loaded so far, what comes next comes to the same as on the first schema, and the loader is
asked for none of the types twice.

* `Callback.Constant`: callbacks that always come to the same, and change nothing.
* `Counterpart.tandem`: the two schemas in tandem.
* `Usage`: what a schema is used for. **`Tandem.couples_usage`**: it comes to the same on two schemas in tandem.
* **`lazily_loaded_is_eager`**: after any use of the counterpart, any use comes to the same.
-/

namespace EntityQuery

open Machine Session

variable {σ α : Type}

/-! ## Constant callbacks -/

/-- The callback always comes to the same, and leaves the state of the application as it is. -/
def Callback.Constant (c : Callback σ α) : Prop := ∃ r, ∀ app, c app = Callback.result r app

theorem Callback.constant_lift (r : Except Failure α) : (Scalar.lift r : Callback σ α).Constant := by
  cases r with
  | ok a => exact ⟨.ok a, fun _ => rfl⟩
  | error f => exact ⟨.error (.failure f), fun _ => rfl⟩

theorem Pace.calls_of_constant {P : Pace σ} {c : Callback σ α} (hc : c.Constant) : P.Calls Eq Eq c c := by
  obtain ⟨r, hr⟩ := hc
  refine fun s s' hs => ⟨r, r, s.app, s'.app, hr s.app, hr s'.app, hs, ?_⟩
  cases r with
  | ok a => exact .ok rfl
  | error f => exact .error rfl

/-! ## A schema and its counterpart -/

namespace Counterpart

variable (P : Counterpart σ)

/-- The first schema in a session like the one that it was built in, and the counterpart in a session that has
loaded part of the types. -/
def pace : Pace σ :=
  .strict P.schema.onDemand P.lazily.onDemand (fun s s' => P.session.Alike s ∧ P.Partial s') True
    fun t message h => ⟨h.1.trans (alike_warn _ t message), h.2.warn t message⟩

/-- A schema and its counterpart in tandem, where all callbacks are constant and no resolver looks at whether types
are loaded on demand. -/
def tandem (hpure : P.schema.Callbacks Callback.Constant) (hblind : P.schema.Blind) : Tandem σ where
  toPace := P.pace
  first := P.schema
  second := P.lazily
  types := P.types
  base := P.session
  eager := P.eager
  sound := P.sound
  finds name := by
    refine ⟨Entries.find? P.types name, fun t ht => ?_, fun s' hs => P.find_eq name s' hs⟩
    unfold Schema.Holds
    rw [P.sound.named name t ht, ht]
  onDemand_eq := rfl
  onDemand'_eq := rfl
  nameOf_eq := rfl
  target_eq := rfl
  limit_eq := rfl
  definition := Pace.definitions_self (.inr hblind) (hpure.mono Pace.calls_of_constant) (.inl trivial)
  alike h := h.1
  forced h := h.2.forced
  find := by
    rintro s s' ⟨hs, hs'⟩ name t? h
    rw [P.find_eq name s hs] at h
    obtain ⟨t', ht', hpartial⟩ := find_ok hs' name
    exact ⟨t', (EStateM.Result.ok.inj h).1 ▸ ht', hs, hpartial⟩
  resolve := by
    rintro s s' ⟨hs, hs'⟩ r t h
    obtain ⟨t', ht', hpartial⟩ := (P.respects.resolve (P.schema.congruent_withLoader _) conveys_find r).2 t h s' hs'
    exact ⟨t', ht', hs, hpartial⟩

end Counterpart

/-! ## What a schema is used for -/

/-- What a schema is used for: looking up a name, validating a document, performing a request. -/
inductive Usage
  | find (name : String)
  | validate (rules : List Rule) (d : Document)
  | perform (r : Request)

/-- What comes of it. -/
inductive Gained
  | found (r : Except Defect (Option NamedType))
  | violations (r : Except Defect (List Failure))
  | report (r : Except EngineFault Report)

/-- The defect of the schema that it ends at. -/
def Gained.defect? : Gained → Option Defect
  | .found (.error d) => some d
  | .violations (.error d) => some d
  | .report (.error (.defect d)) => some d
  | _ => none

/-- What comes of it, but for the tasks of queues that are counted. -/
def Gained.timeless : Gained → Gained
  | .report r => .report (r.map Report.timeless)
  | gained => gained

/-- Uses a schema. -/
def Usage.run (schema : Schema σ) : Usage → Attempt σ Gained
  | .find name => do return .found (← Attempt.consult (schema.find name))
  | .validate rules d => do return .violations (← Attempt.consult (d.validate { schema, rules }))
  | .perform r => do return .report (← r.perform schema)

namespace Tandem

variable {T : Tandem σ} {m m' : Machine Payload (World σ)}

/-- Using two schemas comes to the same. -/
theorem couples_consult {α β : Type} {F : Fault → Fault → Prop} {A : α → β → Prop} {x : Lookup σ α}
    {x' : Lookup σ β} (h : T.Agrees F A x x') (hs : T.sessions m.world.session m'.world.session) :
    Work.Couples T.halts (Attempt.consult x).run (Attempt.consult x').run m m' fun a n b n' =>
      ExceptRel F (ExceptRel (fun _ _ => False) A) a b ∧ T.sessions n.world.session n'.world.session := by
  obtain ⟨r, r', t, t', hx, hx', ht, hr⟩ := h _ _ hs
  obtain ⟨n, -, hn, hgo⟩ := (Attempts.drifts_consult hx).exists_littered rfl
  obtain ⟨n', -, hn', hgo'⟩ := (Attempts.drifts_consult hx').exists_littered rfl
  refine (Work.couples_pure ⟨?_, by rw [hn, hn']; exact ht⟩).map hgo hgo'
  cases hr with
  | ok h => exact .ok (.ok h)
  | error h => exact .error h

/-- **A usage comes to the same on two schemas in tandem**, where failures stand for themselves only. -/
theorem couples_usage (hT : T.failure = Eq) (hs : T.sessions m.world.session m'.world.session) (u : Usage) :
    Work.Couples T.halts (u.run T.first).run (u.run T.second).run m m' fun y n y' n' =>
      y.map Gained.timeless = y'.map Gained.timeless ∧ T.sessions n.world.session n'.world.session := by
  cases u with
  | find name =>
    have hfind : T.Agrees (fun _ _ => False) Eq (T.first.find name) (T.second.find name) :=
      (T.agrees_find name).mono fun _ _ h => h.1
    refine Work.Couples.bind (Couples.mono (couples_consult hfind hs) ?_)
    rintro _ n _ n' ⟨⟨⟨rfl⟩ | hf⟩ | hf, hn⟩
    · exact Work.couples_pure ⟨rfl, hn⟩
    · exact hf.elim
    · exact hf.elim
  | validate rules d =>
    refine Work.Couples.bind (Couples.mono (couples_consult (T.agrees_validate rules d) hs) ?_)
    rintro _ n _ n' ⟨⟨⟨rfl⟩ | hf⟩ | ⟨rfl⟩, hn⟩
    · exact Work.couples_pure ⟨rfl, hn⟩
    · exact hf.elim
    · exact Work.couples_pure ⟨rfl, hn⟩
  | perform r =>
    refine Work.Couples.bind (Couples.mono (couples_perform hs r) ?_)
    rintro _ n _ n' ⟨hy | hf, hn⟩
    · refine Work.couples_pure ⟨?_, hn⟩
      exact congrArg (fun y => Except.ok (Gained.report y)) (Pace.timeless_eq hT hy)
    · exact Work.couples_pure ⟨congrArg Except.error hf.1, hn⟩

end Tandem

theorem Gained.defect?_timeless (g : Gained) : g.timeless.defect? = g.defect? := by
  unfold timeless defect?
  rcases g with _ | _ | (_ | _ | _) | _ <;> rfl

section

variable {schema : Schema σ} {types : Entries NamedType} {s : Session σ} {m : Machine Payload (World σ)}

/-- Using a sound schema meets no defect of it. -/
theorem ends_usage (hp : schema.Plain) (hs : schema.Sound types s) (hfinds : ∀ name, schema.Finds types s name)
    (hm : s.Alike m.world.session) (u : Usage) :
    Work.Ends True (u.run schema).run m fun y _ => ∀ g, y = .ok g → g.defect? = none := by
  have hrooted : ∀ d : Document, d.Rooted schema types s := fun _ _ _ _ name _ => hfinds name
  cases u with
  | find name =>
    obtain ⟨t?, -, hfind⟩ := hfinds name
    refine Work.EndsBy.bind (ends_consult (R := fun r => r = .ok t?) (fun s' hs' => ?_) hm ?_)
    · exact ⟨.ok t?, s', hfind s' hs', hs', rfl⟩
    · rintro _ n rfl - -
      exact Work.ends_pure fun g hg => by cases hg; rfl
  | validate rules d =>
    refine Work.EndsBy.bind (ends_consult (d.yields_validate (v := { schema, rules }) hp hs (hrooted d)) hm ?_)
    rintro r n - - -
    cases r with
    | ok fs => exact Work.ends_pure fun g hg => by cases hg; rfl
    | error f => exact Work.ends_pure fun g hg => by cases hg
  | perform r =>
    refine Work.EndsBy.bind ((ends_perform hp hs (hrooted r.document) hm).mono fun y n hy => ?_)
    rcases y with f | (d | _ | _) | _
    · exact Work.ends_pure fun g hg => by cases hg
    · exact absurd rfl (hy d)
    all_goals exact Work.ends_pure fun g hg => by cases hg; rfl

end

/-- Whatever the counterpart is used for, it loads part of the types only, and asks for none of them twice. -/
theorem Counterpart.ends_history (P : Counterpart σ) (hpure : P.schema.Callbacks Callback.Constant)
    (hblind : P.schema.Blind) {m : Machine Payload (World σ)} (hm : P.Partial m.world.session)
    (history : List Usage) : Work.Ends True (history.mapM fun u => (u.run P.lazily).run) m fun _ n =>
      P.Partial n.world.session := by
  induction history generalizing m with
  | nil => exact Work.ends_pure hm
  | cons u rest ih =>
    have hsessions : (P.tandem hpure hblind).sessions (Machine.start { session := P.session } :
        Machine Payload (World σ)).world.session m.world.session := ⟨.refl _, hm⟩
    rw [List.mapM_cons]
    refine Work.EndsBy.bind ((Tandem.couples_usage rfl hsessions u).right.mono ?_)
    rintro y n ⟨-, -, -, -, hn⟩
    exact Work.EndsBy.bind ((ih hn).mono fun ys n' hn' => Work.ends_pure hn')

/-- **A schema that loads its types is used like the one that it loads them from.** A schema was built without a
loader; its callbacks are constant, and no resolver looks at whether types are loaded on demand. The counterpart
is built without any types, and its loader takes note of each name and gives what a scan of the schema gives.
After any use of it that ends, any use comes to the same on both, and meets no defect; and of the names that the
loader has been asked for until then, none that stands for a type occurs twice. -/
theorem lazily_loaded_is_eager {schema : Schema σ} (hl : schema.loader? = none) {declared : List Ty}
    {app : σ} {s t : Session σ} (hbuild : schema.build declared false { app } = .ok () s)
    {types : Entries NamedType} (hscan : schema.scan s = .ok types t) (hbound : types.length < schema.limit)
    (hpure : schema.Callbacks Callback.Constant) (hblind : schema.Blind) (note : String → σ → σ) (start : σ)
    {forced : List PartId} (hforced : s.forced ⊆ forced) (assumeValid : Bool) :
    ∃ s₀, (schema.lazily types note).build [] assumeValid { app := start, forced } = .ok () s₀ ∧
      ∀ m m' : Machine Payload (World σ), s.Alike m.world.session → m'.world.session = s₀ →
      ∀ (history : List Usage) (u : Usage),
        Work.Ends True (history.mapM fun u => (u.run (schema.lazily types note)).run) m' fun _ n' =>
          Work.Couples True (u.run schema).run (u.run (schema.lazily types note)).run m n' fun y _ y' n =>
            y.map Gained.timeless = y'.map Gained.timeless ∧ (∀ g, y' = .ok g → g.defect? = none) ∧
            ∃ asked : List String, n.world.session.app = asked.foldl (fun app name => note name app) start ∧
              (asked.filter (Entries.has types)).Nodup := by
  let P := Counterpart.ofScan hl hbuild hscan hbound note start
  obtain ⟨s₀, hs₀, hpartial⟩ := P.build_lazily hforced assumeValid
  refine ⟨s₀, hs₀, fun m m' hm hm' history u => ?_⟩
  refine (P.ends_history hpure hblind (hm' ▸ hpartial) history).mono fun _ n' hn' => ?_
  let T := P.tandem hpure hblind
  have hsessions : T.sessions m.world.session n'.world.session := ⟨hm, hn'⟩
  -- the first schema meets no defect, so the counterpart, which comes to the same, meets none either
  have hcalm := ends_usage P.plain P.sound T.finds hm u
  refine Couples.mono ((Tandem.couples_usage (T := T) rfl hsessions u).and_left fun limit y n hrun =>
    hcalm.of_done hrun) ?_
  rintro y n y' n₂ ⟨hy, hsame, -, hn₂⟩
  refine ⟨hsame, fun g hg => ?_, ?_⟩
  · subst hg
    cases y with
    | error f => cases hsame
    | ok g' =>
      have hg : g'.timeless = g.timeless := Except.ok.inj hsame
      rw [← g.defect?_timeless, ← hg, g'.defect?_timeless]
      exact hy g' rfl
  · obtain ⟨asked, happ, honce⟩ := hn₂.asked
    exact ⟨asked, happ, honce.nodup⟩

/-! ## A resolver that looks -/

namespace Sample

/-- An entity that links to itself, and that tells what it sees of whether types are loaded on demand. -/
def scout (look : Bool → Bool) : Entity (List String) where
  name := "Scout"
  resolve _ _ := pure (.ready .null)
  attributes := [{
    label := { name := "seen" }
    type? := some (.named "Boolean")
    resolve := fun _ site => pure (.ready (.bool (look site.onDemand))) }]
  links := [{
    label := { name := "next" }
    target := .named "Scout"
    resolve := fun _ _ => pure (.ready .null) }]

/-- A schema of such an entity. -/
def scouting (look : Bool → Bool) : Schema (List String) where
  define _ := .entity (scout look)
  target _ := .base (.standard .string)
  limit := 30

/-- The types of the schema. -/
def scoutTypes : Entries NamedType := [("String", .standard .string), ("Int", .standard .int),
  ("Float", .standard .float), ("Boolean", .standard .boolean), ("ID", .standard .id),
  ("Scout", .defined ⟨0, 0⟩)]

/-- The session that the schema is built in. -/
def scoutSession : Session (List String) where
  registry := scoutTypes.map fun (name, t) => (name, .ready t)
  complete := true
  app := []

set_option maxRecDepth 10000 in
theorem built_scouting (look : Bool → Bool) :
    (scouting look).build [.base (.defined ⟨0, 0⟩)] false { app := [] } = .ok () scoutSession := by
  unfold Schema.build Schema.check Schema.checkFound Schema.scan
  rw [Schema.find_eq_of_eager rfl]
  rfl

theorem scan_scouting (look : Bool → Bool) :
    (scouting look).scan scoutSession = .ok scoutTypes scoutSession := by
  unfold Schema.scan
  rw [Schema.find_eq_of_eager rfl]
  rfl

theorem eq_scout {look : Bool → Bool} {t : NamedType} {e : Entity (List String)}
    (h : (scouting look).entity? t = some e) : e = scout look := by
  cases t with
  | standard k => cases h
  | defined id =>
    cases h
    rfl

theorem eq_standard {look : Bool → Bool} {t : NamedType} {sc : Scalar (List String)}
    (h : (scouting look).definition t = .scalar sc) : ∃ k, sc = .ofStandard k := by
  cases t with
  | standard k =>
    cases h
    exact ⟨k, rfl⟩
  | defined id => cases h

theorem constant_scouting (look : Bool → Bool) : (scouting look).Callbacks Callback.Constant where
  resolver c hc := by
    have ready : ∀ v : Json, c = pure (.ready v) → Callback.Constant c ∧ ∀ a, c.Gives (.ok a) →
        a.Holds Callback.Constant := by
      rintro v rfl
      refine ⟨⟨.ok (.ready v), fun _ => rfl⟩, fun a ha => ?_⟩
      obtain ⟨app, app', ha⟩ := ha
      cases ha
      trivial
    cases hc with
    | entity he arguments context =>
      cases eq_scout he
      exact ready .null rfl
    | field he ha reference site =>
      cases eq_scout he
      cases List.mem_singleton.mp ha
      exact ready (.bool (look site.onDemand)) rfl
    | act he ha reference arguments =>
      cases eq_scout he
      cases ha
    | link he hl reference site =>
      cases eq_scout he
      cases List.mem_singleton.mp hl
      exact ready .null rfl
  rule t e a v he ha := by
    cases eq_scout he
    cases List.mem_singleton.mp ha
    exact ⟨.ok (), fun _ => rfl⟩
  serialize t sc v h := by
    obtain ⟨k, rfl⟩ := eq_standard h
    exact Callback.constant_lift (k.serialize v)
  parse t sc v h := by
    obtain ⟨k, rfl⟩ := eq_standard h
    exact Callback.constant_lift (k.parse v)

theorem blind_scouting (b : Bool) : (scouting fun _ => b).Blind where
  attributes t e a he ha v site b₁ b₂ := by
    cases eq_scout he
    cases List.mem_singleton.mp ha
    rfl
  links t e l he hl v site b₁ b₂ := by
    cases eq_scout he
    cases List.mem_singleton.mp hl
    rfl

/-- Asks what an entity tells. -/
def scoutRequest : Request where
  document := ⟨[("q", {
    typeName := some "Scout"
    attributes := ["seen"]
    act := none
    arguments := []
    links := [] })]⟩

/-- What the entity tells, on a schema that is used in a session. -/
def told (schema : Schema (List String)) (session : Session (List String)) : Option Bool :=
  match (Machine.start { session }).run 100 (scoutRequest.perform schema).run with
  | .done (.ok (.ok r)) _ =>
    match (r.query? "q").map (Json.member · "seen") with
    | some (.bool seen) => some seen
    | _ => none
  | _ => none

/-- Takes note of a name. -/
def jot (name : String) (names : List String) : List String := names ++ [name]

/-- The session that the counterpart starts with. -/
def scoutStart : Session (List String) where
  registry := Standard.all.map fun k => (k.name, .ready (.standard k))
  app := []

end Sample

/-- A name that stands for nothing and then a type are looked up, and the request is performed. -/
theorem lazily_loaded_is_eager_sample :
    let schema := Sample.scouting fun _ => true
    let lazily := schema.lazily Sample.scoutTypes Sample.jot
    Work.Ends True ([.find "Nobody", .find "Scout"].mapM fun u => (Usage.run lazily u).run)
      (Machine.start { session := Sample.scoutStart }) fun _ n' =>
        Work.Couples True (Usage.run schema (.perform Sample.scoutRequest)).run
          (Usage.run lazily (.perform Sample.scoutRequest)).run
          (Machine.start { session := Sample.scoutSession }) n' fun y _ y' n =>
            y.map Gained.timeless = y'.map Gained.timeless ∧ (∀ g, y' = .ok g → g.defect? = none) ∧
            ∃ asked : List String,
              n.world.session.app = asked.foldl (fun app name => Sample.jot name app) [] ∧
                (asked.filter (Entries.has Sample.scoutTypes)).Nodup := by
  obtain ⟨s₀, hs₀, h⟩ := lazily_loaded_is_eager rfl (Sample.built_scouting _) (Sample.scan_scouting _)
    (by decide) (Sample.constant_scouting _) (Sample.blind_scouting true) Sample.jot []
    (List.Subset.refl _) false
  have hstart : Sample.scoutStart = s₀ := (EStateM.Result.ok.inj hs₀).2
  exact h _ _ (.refl _) hstart _ _

/-- **A resolver that looks at whether types are loaded on demand** gives other data on the counterpart. -/
theorem loading_is_seen :
    (Sample.scouting id).Callbacks Callback.Constant ∧
    (Sample.scouting id).build [.base (.defined ⟨0, 0⟩)] false { app := [] } = .ok () Sample.scoutSession ∧
    (Sample.scouting id).scan Sample.scoutSession = .ok Sample.scoutTypes Sample.scoutSession ∧
    ((Sample.scouting id).lazily Sample.scoutTypes Sample.jot).build [] false { app := [] } =
      .ok () Sample.scoutStart ∧
    Sample.told (Sample.scouting id) Sample.scoutSession = some false ∧
    Sample.told ((Sample.scouting id).lazily Sample.scoutTypes Sample.jot) Sample.scoutStart = some true :=
  ⟨Sample.constant_scouting id, Sample.built_scouting id, Sample.scan_scouting id, rfl,
    by decide +kernel⟩

end EntityQuery
