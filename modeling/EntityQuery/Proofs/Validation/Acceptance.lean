import EntityQuery.Proofs.Validation.Coverage

/-!
# What an accepted document supplies

Where a full validation reports nothing, the arguments that are supplied anywhere in the document fit
the declarations that they are looked up in: those of the entity or of the link first, and those of
the act where these do not have the name.

* `Document.Visits`: where in a document which entity is queried, and by which declarations.
* `Schema.Accepts`: a value that its declaration accepts; `Schema.Fits`: supplied arguments that fit.
* **`Document.fits_of_accepted`**: what a validation that reports nothing makes sure of.
-/

namespace EntityQuery

open Lookup Session

variable {σ α β : Type}

/-! ## Places of a document -/

/-- From a query on an entity, whose arguments are declared by a list, to the queries nested under
it. -/
inductive Query.Meets (schema : Schema σ) (s : Session σ) :
    Entity σ → List Argument → Query → Entity σ → List Argument → Query → Prop
  | here {e : Entity σ} {declared : List Argument} {q : Query} :
      Meets schema s e declared q e declared q
  | nested {e target e' : Entity σ} {declared declared' : List Argument} {q nested q' : Query}
      {name : String} {l : Link σ} {t : NamedType} (hq : (name, nested) ∈ q.links)
      (hl : e.link? name = some l)
      (ht : Answers (l.follow schema schema.find e.name) (t, target) s)
      (h : Meets schema s target l.arguments nested e' declared' q') :
      Meets schema s e declared q e' declared' q'

/-- The document queries the entity, by a query whose arguments are declared by the list: the
arguments of the entity itself, or those of the link that leads to it. -/
inductive Document.Visits (schema : Schema σ) (s : Session σ) (d : Document) (e : Entity σ)
    (declared : List Argument) (q : Query) : Prop
  | intro {name : String} {root : Query} {e₀ : Entity σ} (hq : (name, root) ∈ d.queries)
      (he : root.Roots schema s (some e₀))
      (h : Query.Meets schema s e₀ e₀.arguments root e declared q)

section

variable {schema : Schema σ} {s : Session σ} {d : Document} {e target e' : Entity σ}
  {declared declared' : List Argument} {q nested q' : Query} {name : String} {l : Link σ}
  {t : NamedType}

theorem Query.Meets.link (h : Query.Meets schema s e declared q e' declared' q')
    (hq : (name, nested) ∈ q'.links) (hl : e'.link? name = some l)
    (ht : Answers (l.follow schema schema.find e'.name) (t, target) s) :
    Query.Meets schema s e declared q target l.arguments nested := by
  induction h with
  | here => exact .nested hq hl ht .here
  | nested hq' hl' ht' _ ih => exact .nested hq' hl' ht' (ih hq hl ht)

theorem Document.Visits.root (hq : (name, q) ∈ d.queries) (he : q.Roots schema s (some e)) :
    d.Visits schema s e e.arguments q :=
  .intro hq he .here

theorem Document.Visits.link (h : d.Visits schema s e declared q) (hq : (name, nested) ∈ q.links)
    (hl : e.link? name = some l) (ht : Answers (l.follow schema schema.find e.name) (t, target) s) :
    d.Visits schema s target l.arguments nested := by
  obtain ⟨hq₀, he₀, hm⟩ := h
  exact .intro hq₀ he₀ (hm.link hq hl ht)

theorem Query.Meets.knows {types : Entries NamedType}
    (h : Query.Meets schema s e declared q e' declared' q') (hp : schema.Plain)
    (hs : schema.Sound types s) (he : schema.Knows types e) : schema.Knows types e' := by
  induction h with
  | here => exact he
  | nested _ hl ht _ ih =>
    obtain ⟨t', target', htarget, hfollow⟩ :=
      (hs.settles hp he).links _ (List.mem_of_find?_eq_some hl)
    -- the link leads to the same entity whenever it is followed
    have heq := (hfollow.answers s (.refl s)).symm.trans (ht s (.refl s))
    cases heq
    exact ih htarget

/-- The document queries entities of known types only. -/
theorem Document.Visits.knows {types : Entries NamedType} (h : d.Visits schema s e declared q)
    (hp : schema.Plain) (hs : schema.Sound types s) (hr : d.Rooted schema types s) :
    schema.Knows types e := by
  obtain ⟨hq, he, hm⟩ := h
  obtain ⟨e?, hroot, hknown⟩ := hr.exists_root hq
  exact hm.knows hp hs (hknown _ (hroot.unique he))

end

/-! ## Fitting arguments -/

/-- What reading supplied values makes of the state of the application. -/
inductive Schema.Drifts (schema : Schema σ) (app : σ) : σ → Prop
  | refl : Drifts schema app app
  | read {app₁ app₂ : σ} {t : NamedType} {sc : Scalar σ} {v : Json} (h : Drifts schema app app₁)
      (hd : schema.definition t = .scalar sc)
      (hv : (∃ w, sc.parse v app₁ = .ok w app₂) ∨ ∃ f, sc.parse v app₁ = .error f app₂) :
      Drifts schema app app₂

/-- A session that reading supplied values leads to. -/
structure Session.Drifts (schema : Schema σ) (s s' : Session σ) : Prop where
  alike : s.Alike s'
  app : schema.Drifts s.app s'.app

/-- The declaration of the argument accepts the value, when it is asked in a session that reading
supplied values leads to. -/
def Schema.Accepts (schema : Schema σ) (s : Session σ) (a : Argument) (v : Json) : Prop :=
  ∃ t w s₁ s₂, Answers (a.type.resolve schema schema.find) t s ∧ s.Drifts schema s₁ ∧
    t.parse schema schema.find v s₁ = .ok w s₂

/-- The supplied arguments fit the declared ones: none that is required is missing, and the values are
accepted; those whose names other declarations shadow are left out. -/
structure Schema.Fits (schema : Schema σ) (s : Session σ) (declared shadow : List Argument)
    (supplied : Entries Json) : Prop where
  required : ∀ a ∈ declared, ∀ s' s'', s.Alike s' →
    a.isRequired schema schema.find s' = .ok true s'' → Entries.has supplied a.name = true
  accepted : ∀ name v, (name, v) ∈ supplied → ∀ a, Argument.find? declared name = some a →
    Argument.find? shadow name = none → schema.Accepts s a v

/-- The arguments of a query fit the declarations that go with it, and those of the act. -/
def Schema.Feeds (schema : Schema σ) (s : Session σ) (e : Entity σ) (declared : List Argument)
    (q : Query) : Prop :=
  schema.Fits s declared [] q.arguments ∧
    ∀ name a, q.act = some name → e.act? name = some a →
      schema.Fits s a.arguments declared q.arguments

/-! ## Validations from a session on -/

namespace Lookup

variable {schema : Schema σ} {s s' : Session σ} {x : Lookup σ α} {f : α → Lookup σ β}

/-- In sessions that reading supplied values leads to, the computation comes to a value that meets `Q`,
or a callback faults, and it leaves such a session. -/
def Proceeds (schema : Schema σ) (s : Session σ) (Q : α → Prop) (x : Lookup σ α) : Prop :=
  ∀ s', s.Drifts schema s' → ∃ r s'', x s' = ended r s'' ∧ s.Drifts schema s'' ∧
    ∀ a, r = .ok a → Q a

variable {Q : α → Prop} {R : β → Prop}

theorem Proceeds.bind (hx : Proceeds schema s Q x) (hf : ∀ a, Q a → Proceeds schema s R (f a)) :
    Proceeds schema s R (x >>= f) := by
  intro s' hs
  obtain ⟨r, s₁, h₁, hs₁, hr⟩ := hx s' hs
  cases r with
  | ok a =>
    obtain ⟨r', s₂, h₂, hs₂, hr'⟩ := hf a (hr a rfl) s₁ hs₁
    exact ⟨r', s₂, (bind_of_ok h₁).trans h₂, hs₂, hr'⟩
  | error g => exact ⟨.error g, s₁, bind_of_error h₁, hs₁, fun _ he => by cases he⟩

theorem proceeds_pure {a : α} (h : Q a) : Proceeds schema s Q (pure a) := fun s' hs =>
  ⟨.ok a, s', rfl, hs, fun _ he => by cases he; exact h⟩

theorem Answers.proceeds_bind {a : α} (hx : Answers x a s) (hf : Proceeds schema s R (f a)) :
    Proceeds schema s R (x >>= f) := by
  intro s' hs
  obtain ⟨r, s'', h, hs'', hr⟩ := hf s' hs
  exact ⟨r, s'', (bind_of_ok (hx s' hs.alike)).trans h, hs'', hr⟩

theorem proceeds_warn (t : Topic) (message : String) :
    Proceeds schema s (fun _ : PUnit => True) (modify (Session.warn · t message)) := fun s' hs =>
  ⟨.ok ⟨⟩, s'.warn t message, rfl, ⟨hs.alike.trans (alike_warn s' t message), hs.app⟩,
    fun _ _ => trivial⟩

/-- The computations that do no more to the state of the application than reading supplied values. -/
def Kind.drifting (schema : Schema σ) (s : Session σ) : Kind s where
  Has x := Proceeds schema s (fun _ => True) x
  of_answers h := fun s' hs => ⟨.ok _, s', h s' hs.alike, hs, fun _ _ => trivial⟩
  of_fails h := fun s' hs => ⟨.error (.failure _), s', h s' hs.alike, hs, fun _ _ => trivial⟩
  bind hx hf := hx.bind fun a _ => hf a
  answers_bind hx hf := hx.proceeds_bind hf

theorem drifting_parses (schema : Schema σ) (s : Session σ) :
    (Kind.drifting schema s).Parses schema := by
  intro sc t v hd s' hs
  unfold Lookup.call
  cases hc : sc.parse v s'.app with
  | ok w app =>
    exact ⟨.ok w, { s' with app }, rfl, ⟨hs.alike.trans (alike_setApp s' app),
      hs.app.read hd (.inl ⟨w, hc⟩)⟩, fun _ _ => trivial⟩
  | error f app =>
    exact ⟨.error f, { s' with app }, rfl, ⟨hs.alike.trans (alike_setApp s' app),
      hs.app.read hd (.inr ⟨f, hc⟩)⟩, fun _ _ => trivial⟩

/-- What is read, or why it is not. -/
theorem proceeds_catchFailure
    (hx : Proceeds schema s (fun _ => True) x) : Proceeds schema s (fun r => ∀ a, r = .ok a →
      ∃ s₁ s₂, s.Drifts schema s₁ ∧ x s₁ = .ok a s₂) x.catchFailure := by
  intro s' hs
  obtain ⟨r, s'', h, hs'', -⟩ := hx s' hs
  unfold Lookup.catchFailure
  rw [h]
  cases r with
  | ok a =>
    refine ⟨.ok (.ok a), s'', rfl, hs'', ?_⟩
    rintro _ ⟨⟩ b ⟨⟩
    exact ⟨s', s'', hs, h⟩
  | error f =>
    cases f with
    | failure f =>
      refine ⟨.ok (.error f), s'', rfl, hs'', ?_⟩
      rintro _ ⟨⟩ b ⟨⟩
    | panic p => exact ⟨.error (.panic p), s'', rfl, hs'', fun _ he => by cases he⟩

end Lookup

/-! ## Arguments -/

theorem Argument.answers_isRequired {schema : Schema σ} {s : Session σ} (hp : schema.Plain)
    {a : Argument} (ha : a.type.Fits schema s) :
    ∃ b, Answers (a.isRequired schema schema.find) b s := by
  obtain ⟨t, ht, -⟩ := ha.resolve hp
  unfold Argument.isRequired
  split
  · exact ⟨false, answers_pure _⟩
  · exact ⟨t.isNonNull, ht.answers.bind (answers_pure _)⟩

namespace Validator

variable {schema : Schema σ} {types : Entries NamedType} {s : Session σ}

/-- A full validation reports every violation. -/
theorem report_ne_nil (r : Rule) (message : String) (place : Location) :
    ({ schema } : Validator σ).report r message place ≠ [] := by
  unfold Validator.report Validator.checks
  rw [if_pos (by simpa using Rule.mem_all r)]
  exact List.cons_ne_nil _ _

variable (hp : schema.Plain)

include hp

theorem proceeds_suppliedValue (spot : Spot) {a : Argument} (ha : a.type.Fits schema s)
    (name : String) (value : Json) :
    Proceeds schema s (fun fs => fs = [] → schema.Accepts s a value)
      (({ schema } : Validator σ).suppliedValue spot a name value) := by
  obtain ⟨t, ht, hfits⟩ := ha.resolve hp
  have hparse := hfits.parse hp (drifting_parses schema s) (Nat.le_refl _) value
  refine ht.answers.proceeds_bind ((proceeds_catchFailure hparse).bind fun r hr => ?_)
  cases r with
  | ok w =>
    obtain ⟨s₁, s₂, hs₁, hw⟩ := hr w rfl
    exact proceeds_pure fun _ => ⟨t, w, s₁, s₂, ht.answers, hs₁, hw⟩
  | error f => exact proceeds_pure fun hnil => absurd hnil (report_ne_nil _ _ _)

theorem proceeds_supplied (spot : Spot) {declared act : List Argument}
    (hd : ∀ a ∈ declared, a.type.Fits schema s) (ha : ∀ a ∈ act, a.type.Fits schema s)
    (given : Entries Json) :
    Proceeds schema s (fun fs => fs = [] → ∀ name v, (name, v) ∈ given → ∀ a,
        (Argument.find? declared name).or (Argument.find? act name) = some a →
          schema.Accepts s a v)
      (({ schema } : Validator σ).supplied spot declared act given) := by
  induction given with
  | nil => exact proceeds_pure fun _ _ _ h => absurd h List.not_mem_nil
  | cons entry rest ih =>
    obtain ⟨name, value⟩ := entry
    have tail : ∀ fs, (fs = [] → ∀ a,
          (Argument.find? declared name).or (Argument.find? act name) = some a →
            schema.Accepts s a value) →
        Proceeds schema s (fun fs => fs = [] → ∀ name' v, (name', v) ∈ (name, value) :: rest → ∀ a,
            (Argument.find? declared name').or (Argument.find? act name') = some a →
              schema.Accepts s a v)
          (do return fs ++ (← ({ schema } : Validator σ).supplied spot declared act rest)) := by
      refine fun fs hfs => ih.bind fun fs' hfs' => proceeds_pure fun hnil name' v hmem a hf => ?_
      obtain ⟨hnil₁, hnil₂⟩ := List.append_eq_nil_iff.mp hnil
      rcases List.mem_cons.mp hmem with he | hmem
      · cases he
        exact hfs hnil₁ a hf
      · exact hfs' hnil₂ name' v hmem a hf
    rw [Validator.supplied]
    cases hf : (Argument.find? declared name).or (Argument.find? act name) with
    | none => exact tail _ fun _ a he => by rw [hf] at he; cases he
    | some a =>
      have fits : a.type.Fits schema s := by
        rcases Option.or_eq_some_iff.mp hf with h | ⟨-, h⟩
        · exact hd a (List.mem_of_find?_eq_some h)
        · exact ha a (List.mem_of_find?_eq_some h)
      refine (proceeds_suppliedValue hp spot fits name value).bind fun fs hfs => tail fs ?_
      intro hnil a' he
      rw [hf] at he
      cases he
      exact hfs hnil

theorem proceeds_missing (spot : Spot) (given : Entries Json) {declared : List Argument}
    (hd : ∀ a ∈ declared, a.type.Fits schema s) :
    Proceeds schema s (fun fs => fs = [] → ∀ a ∈ declared, Entries.has given a.name = true ∨
        Answers (a.isRequired schema schema.find) false s)
      (({ schema } : Validator σ).missing spot given declared) := by
  induction declared with
  | nil => exact proceeds_pure fun _ _ h => absurd h List.not_mem_nil
  | cons a rest ih =>
    obtain ⟨ha, hrest⟩ := List.forall_mem_cons.mp hd
    have tail : ∀ fs, (fs = [] → Entries.has given a.name = true ∨
          Answers (a.isRequired schema schema.find) false s) →
        Proceeds schema s (fun fs => fs = [] → ∀ b ∈ a :: rest, Entries.has given b.name = true ∨
            Answers (b.isRequired schema schema.find) false s)
          (do return fs ++ (← ({ schema } : Validator σ).missing spot given rest)) := by
      refine fun fs hfs => (ih hrest).bind fun fs' hfs' => proceeds_pure fun hnil => ?_
      obtain ⟨hnil₁, hnil₂⟩ := List.append_eq_nil_iff.mp hnil
      exact List.forall_mem_cons.mpr ⟨hfs hnil₁, hfs' hnil₂⟩
    rw [Validator.missing]
    split
    · next hhas => exact tail [] fun _ => .inl hhas
    · obtain ⟨b, hb⟩ := a.answers_isRequired hp ha
      refine hb.proceeds_bind ?_
      cases b with
      | false => exact tail [] fun _ => .inr hb
      | true =>
        exact (answers_refTextOf schema a.type).proceeds_bind
          (tail _ fun hnil => absurd hnil (report_ne_nil _ _ _))

/-- What a full validation of arguments that reports nothing makes sure of. -/
theorem proceeds_arguments (spot : Spot) {declared act : List Argument}
    (hd : ∀ a ∈ declared, a.type.Fits schema s) (ha : ∀ a ∈ act, a.type.Fits schema s)
    (given : Entries Json) :
    Proceeds schema s
      (fun fs => fs = [] → schema.Fits s declared [] given ∧ schema.Fits s act declared given)
      (({ schema } : Validator σ).arguments spot declared act given) := by
  have hboth : ∀ a ∈ declared ++ act, a.type.Fits schema s := fun a h =>
    (List.mem_append.mp h).elim (hd a) (ha a)
  refine (proceeds_supplied hp spot hd ha given).bind fun wrong hwrong => ?_
  have hchecks : ({ schema } : Validator σ).checks .providedRequiredArguments = true := by
    simpa [Validator.checks] using Rule.mem_all _
  rw [if_pos hchecks]
  refine (proceeds_missing hp spot given hboth).bind fun lacking hlacking =>
    proceeds_pure fun hnil => ?_
  obtain ⟨hnil₁, hnil₂⟩ := List.append_eq_nil_iff.mp hnil
  have required : ∀ a ∈ declared ++ act, ∀ s' s'', s.Alike s' →
      a.isRequired schema schema.find s' = .ok true s'' → Entries.has given a.name = true := by
    intro a hmem s' s'' hs hreq
    refine (hlacking hnil₂ a hmem).resolve_right fun hno => ?_
    rw [hno s' hs] at hreq
    cases hreq
  refine ⟨⟨fun a hmem => required a (List.mem_append_left _ hmem), ?_⟩,
    ⟨fun a hmem => required a (List.mem_append_right _ hmem), ?_⟩⟩
  · exact fun name v hmem a hf _ => hwrong hnil₁ name v hmem a (by rw [hf]; rfl)
  · exact fun name v hmem a hf hn => hwrong hnil₁ name v hmem a (by rw [hn, Option.none_or, hf])

/-! ## Queries -/

omit hp

theorem proceeds_noteArtifact (e : Entity σ) (l : Label) :
    Proceeds schema s (fun _ => True) (noteArtifact e l) := by
  unfold noteArtifact
  split
  · exact proceeds_warn _ _
  · exact proceeds_pure trivial

theorem proceeds_attributes (spot : Spot) (e : Entity σ) (names : List String) :
    Proceeds schema s (fun _ => True) (({ schema } : Validator σ).attributes spot e names) := by
  induction names with
  | nil => exact proceeds_pure trivial
  | cons name rest ih =>
    have tail : ∀ fs, Proceeds schema s (fun _ => True)
        (do return fs ++ (← ({ schema } : Validator σ).attributes spot e rest)) :=
      fun fs => ih.bind fun _ _ => proceeds_pure trivial
    rw [Validator.attributes]
    cases e.attribute? name with
    | none => exact tail _
    | some a => exact (proceeds_noteArtifact e a.label).bind fun _ _ => tail []

/-- The arguments that go with the act. -/
theorem proceeds_act (spot : Spot) (e : Entity σ) (name? : Option String) :
    Proceeds schema s (fun r => (∀ a ∈ r.2, ∃ b ∈ e.acts, a ∈ b.arguments) ∧
        ∀ name a, name? = some name → e.act? name = some a → r.2 = a.arguments)
      (({ schema } : Validator σ).act spot e name?) := by
  cases name? with
  | none => exact proceeds_pure ⟨fun _ h => absurd h List.not_mem_nil, fun _ _ h => nomatch h⟩
  | some name =>
    unfold Validator.act
    simp only
    cases ha : e.act? name with
    | none =>
      refine proceeds_pure ⟨fun _ h => absurd h List.not_mem_nil, fun name' b hn hb => ?_⟩
      cases hn
      rw [ha] at hb
      cases hb
    | some a =>
      refine (proceeds_noteArtifact e a.label).bind fun _ _ => proceeds_pure
        ⟨fun b h => ⟨a, List.mem_of_find?_eq_some ha, h⟩, fun name' b hn hb => ?_⟩
      cases hn
      rw [ha] at hb
      cases hb
      rfl

variable (hs : schema.Sound types s)

include hp hs

mutual

/-- **Where validating a query reports nothing, its arguments fit, and so do those of the queries nested
under it.** -/
theorem proceeds_query (spot : Spot) {e : Entity σ} (he : schema.Knows types e)
    {declared : List Argument} (hd : ∀ a ∈ declared, a.type.Fits schema s) :
    (q : Query) → Proceeds schema s
      (fun fs => fs = [] → ∀ e' declared' q', Query.Meets schema s e declared q e' declared' q' →
        schema.Feeds s e' declared' q')
      (({ schema } : Validator σ).query spot e declared q)
  | ⟨typeName, attributes, act?, arguments, links⟩ => by
    have hsettled := hs.settles hp he
    rw [Validator.query]
    refine (proceeds_attributes spot e attributes).bind fun ofAttributes _ => ?_
    refine (proceeds_act spot e act?).bind fun ofAct hact => ?_
    have hfits : ∀ a ∈ ofAct.2, a.type.Fits schema s := fun a ha => by
      obtain ⟨b, hb, hab⟩ := hact.1 a ha
      exact hsettled.acts b hb a hab
    refine (proceeds_arguments hp spot hd hfits arguments).bind fun ofArguments h₁ => ?_
    refine (proceeds_links spot he links).bind fun ofLinks h₂ => proceeds_pure fun hnil => ?_
    obtain ⟨hnil', hlinks⟩ := List.append_eq_nil_iff.mp hnil
    obtain ⟨-, harguments⟩ := List.append_eq_nil_iff.mp hnil'
    intro e' declared' q' hm
    cases hm with
    | here =>
      refine ⟨(h₁ harguments).1, fun name a hq ha => ?_⟩
      rw [← hact.2 name a hq ha]
      exact (h₁ harguments).2
    | nested hq hl ht hm => exact h₂ hlinks _ _ hq _ _ _ hl ht _ _ _ hm

theorem proceeds_links (spot : Spot) {e : Entity σ} (he : schema.Knows types e) :
    (links : List (String × Query)) → Proceeds schema s
      (fun fs => fs = [] → ∀ name nested, (name, nested) ∈ links → ∀ l t target,
        e.link? name = some l → Answers (l.follow schema schema.find e.name) (t, target) s →
        ∀ e' declared' q', Query.Meets schema s target l.arguments nested e' declared' q' →
          schema.Feeds s e' declared' q')
      (({ schema } : Validator σ).links spot e links)
  | [] => by
    rw [Validator.links]
    exact proceeds_pure fun _ _ _ h => absurd h List.not_mem_nil
  | (name, nested) :: rest => by
    have hsettled := hs.settles hp he
    have htail := proceeds_links spot he rest
    rw [Validator.links]
    cases hl : e.link? name with
    | none =>
      refine htail.bind fun fs' h' => proceeds_pure fun hnil name' nested' hmem => ?_
      rcases List.mem_cons.mp hmem with heq | hmem
      · cases heq
        intro l t target hl'
        rw [hl] at hl'
        cases hl'
      · exact h' (List.append_eq_nil_iff.mp hnil).2 name' nested' hmem
    | some l =>
      have hmem : l ∈ e.links := List.mem_of_find?_eq_some hl
      obtain ⟨t, target, hknown, hfollow⟩ := hsettled.links l hmem
      have hquery := proceeds_query (spot.descend name) hknown (hsettled.linked l hmem) nested
      refine (proceeds_noteArtifact e l.label).bind fun _ _ => ?_
      refine hfollow.answers.proceeds_bind (hquery.bind fun fs hfs => ?_)
      refine htail.bind fun fs' h' => proceeds_pure fun hnil name' nested' hmem' => ?_
      obtain ⟨hfirst, hnil'⟩ := List.append_eq_nil_iff.mp hnil
      rcases List.mem_cons.mp hmem' with heq | hmem'
      · cases heq
        intro l' t' target' hl' hf'
        rw [hl] at hl'
        cases hl'
        -- the link leads to the same entity whenever it is followed
        have heq := (hfollow.answers s (.refl s)).symm.trans (hf' s (.refl s))
        cases heq
        exact hfs (List.append_eq_nil_iff.mp hfirst).2
      · exact h' hnil' name' nested' hmem'

end

omit hp hs in
theorem proceeds_root (spot : Spot) {q : Query} {e? : Option (Entity σ)}
    (h : q.Roots schema s e?) :
    Proceeds schema s (fun r => r.toOption = e?)
      (({ schema } : Validator σ).root spot q) := by
  unfold Query.Roots at h
  unfold Validator.root
  cases hn : q.typeName with
  | none =>
    rw [hn] at h
    rw [h]
    exact proceeds_pure rfl
  | some typeName =>
    rw [hn] at h
    obtain ⟨t?, hfind, rfl⟩ := h
    refine hfind.proceeds_bind ?_
    cases t? with
    | none => exact proceeds_pure rfl
    | some t =>
      simp only [Option.bind_some]
      cases schema.entity? t with
      | none => exact proceeds_pure rfl
      | some e =>
        simp only
        split
        · exact (proceeds_warn _ _).bind fun _ _ => proceeds_pure rfl
        · exact proceeds_pure rfl

theorem proceeds_queries {queries : List (String × Query)}
    (hr : Document.Rooted schema types s ⟨queries⟩) :
    Proceeds schema s
      (fun fs => fs = [] → ∀ name q e₀, (name, q) ∈ queries → q.Roots schema s (some e₀) →
        ∀ e declared q', Query.Meets schema s e₀ e₀.arguments q e declared q' →
          schema.Feeds s e declared q')
      (({ schema } : Validator σ).queries queries) := by
  induction queries with
  | nil => exact proceeds_pure fun _ _ _ _ h => absurd h List.not_mem_nil
  | cons nq rest ih =>
    obtain ⟨name, q⟩ := nq
    obtain ⟨e?, hroot, hknown⟩ := hr.exists_root List.mem_cons_self
    have hrest := ih fun name' q' h => hr name' q' (List.mem_cons_of_mem _ h)
    have tail : ∀ fs, (fs = [] → ∀ e₀, e? = some e₀ → ∀ e declared q',
          Query.Meets schema s e₀ e₀.arguments q e declared q' → schema.Feeds s e declared q') →
        Proceeds schema s
          (fun fs => fs = [] → ∀ name' q' e₀, (name', q') ∈ (name, q) :: rest →
            q'.Roots schema s (some e₀) → ∀ e declared q'',
              Query.Meets schema s e₀ e₀.arguments q' e declared q'' → schema.Feeds s e declared q'')
          (do return fs ++ (← ({ schema } : Validator σ).queries rest)) := by
      refine fun fs hfs => hrest.bind fun fs' h' => proceeds_pure fun hnil name' q' e₀ hmem he₀ => ?_
      obtain ⟨hnil₁, hnil₂⟩ := List.append_eq_nil_iff.mp hnil
      rcases List.mem_cons.mp hmem with heq | hmem
      · cases heq
        exact hfs hnil₁ e₀ (hroot.unique he₀)
      · exact h' hnil₂ name' q' e₀ hmem he₀
    rw [Validator.queries]
    refine (proceeds_root { queryName := name } hroot).bind fun r hr => ?_
    cases r with
    | error fs =>
      subst hr
      exact tail fs fun _ _ he => by cases he
    | ok e =>
      subst hr
      have hsettled := hs.settles hp (hknown e rfl)
      refine (proceeds_query hp hs { queryName := name } (hknown e rfl) hsettled.arguments q).bind
        fun fs hfs => tail fs fun hnil e₀ he => ?_
      cases he
      exact hfs hnil

end Validator

/-- **Where a full validation reports nothing, the arguments that are supplied anywhere in the document
fit.** -/
theorem Document.fits_of_accepted {schema : Schema σ} {types : Entries NamedType} {s s' : Session σ}
    (hp : schema.Plain) (hs : schema.Sound types s) {d : Document} (hr : d.Rooted schema types s)
    (h : d.validate { schema } s = .ok [] s') {e : Entity σ} {declared : List Argument} {q : Query}
    (hv : d.Visits schema s e declared q) : schema.Feeds s e declared q := by
  obtain ⟨hq, he, hm⟩ := hv
  have hqueries := Validator.proceeds_queries hp hs hr
  obtain ⟨r, s₁, hx, -, hfs⟩ := hqueries s ⟨.refl s, .refl⟩
  obtain ⟨fs, s₂, h₁, h₂⟩ := bind_eq_ok.mp h
  rw [hx] at h₁
  cases r with
  | error f => cases h₁
  | ok fs' =>
    cases h₁
    have hnil := (List.append_eq_nil_iff.mp (EStateM.Result.ok.inj h₂).1).2
    exact hfs fs rfl hnil _ _ _ hq he _ _ _ hm

namespace Sample

/-- Whether a validation reports nothing. -/
def accepts {ε τ α : Type} : EStateM.Result ε τ (List α) → Bool
  | .ok [] _ => true
  | _ => false

theorem exists_of_accepts {ε τ α : Type} {x : EStateM.Result ε τ (List α)} (h : accepts x = true) :
    ∃ s, x = .ok [] s := by
  unfold accepts at h
  split at h
  · next s => exact ⟨s, rfl⟩
  · cases h

end Sample

end EntityQuery
