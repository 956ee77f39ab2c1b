import EntityQuery.Proofs.Schema.Fitting
import EntityQuery.Validation.Check

/-!
# What a validation reports

On a sound session, a validation comes to a list of violations, or a callback of the application
faults; it never meets a defect. Its violations cover every name that the entities on the way do not
have.

* `Lack`: a name that an entity does not have, and where it was asked for; `Lacks`: the lacks of a
  query.
* **`Validator.yields_query`**: validating a query meets no defect, and reports each of its lacks.
* **`Document.yields_validate`**: the same of documents, and of queries that name no known entity.
-/

namespace EntityQuery

open Lookup Session

variable {σ α β : Type}

/-! ## Lacks -/

/-- A name that was asked for on an entity that does not have it. -/
structure Lack where
  entity : String
  kind : ArtifactKind
  spot : Spot
  name : String

namespace Lack

/-- The violation that a lack is. -/
def violation (v : Validator σ) (x : Lack) : List Failure :=
  v.report .knownArtifacts (Validator.unknownArtifact x.entity x.kind x.name)
    (x.spot.location (some x.name))

end Lack

/-- The names that a query on an entity asks for in vain, at any depth. -/
inductive Lacks (schema : Schema σ) (s : Session σ) : Spot → Entity σ → Query → Lack → Prop
  | field {spot : Spot} {e : Entity σ} {q : Query} {name : String}
      (hq : name ∈ q.attributes) (he : e.attribute? name = none) :
      Lacks schema s spot e q ⟨e.name, .field, spot, name⟩
  | act {spot : Spot} {e : Entity σ} {q : Query} {name : String}
      (hq : q.act = some name) (he : e.act? name = none) :
      Lacks schema s spot e q ⟨e.name, .act, spot, name⟩
  | link {spot : Spot} {e : Entity σ} {q nested : Query} {name : String}
      (hq : (name, nested) ∈ q.links) (he : e.link? name = none) :
      Lacks schema s spot e q ⟨e.name, .link, spot, name⟩
  | nested {spot : Spot} {e target : Entity σ} {q nested : Query} {name : String} {l : Link σ}
      {t : NamedType} {x : Lack} (hq : (name, nested) ∈ q.links) (he : e.link? name = some l)
      (hl : Answers (l.follow schema schema.find e.name) (t, target) s)
      (hx : Lacks schema s (spot.descend name) target nested x) : Lacks schema s spot e q x

/-! ## Computations that come to a value -/

namespace Lookup

variable {s s' s'' : Session σ} {x : Lookup σ α} {f : α → Lookup σ β}

/-- The computation comes to a value that meets `Q`, or a callback faults. -/
def Yields (s : Session σ) (Q : α → Prop) (x : Lookup σ α) : Prop :=
  Comes s (fun r => ∀ a, r = .ok a → Q a) x

theorem Yields.bind {Q : α → Prop} {R : β → Prop} (hx : Yields s Q x)
    (hf : ∀ a, Q a → Yields s R (f a)) : Yields s R (x >>= f) :=
  Comes.bind hx (fun a ha => hf a (ha a rfl)) fun _ _ _ he => by cases he

theorem yields_pure {Q : α → Prop} {a : α} (h : Q a) : Yields s Q (pure a) :=
  (answers_pure a).comes fun _ he => by cases he; exact h

theorem Answers.yields_bind {a : α} {R : β → Prop} (hx : Answers x a s) (hf : Yields s R (f a)) :
    Yields s R (x >>= f) :=
  Yields.bind (Q := fun b => b = a) (hx.comes fun _ he => by cases he; rfl) fun _ h => by
    rw [h]
    exact hf

/-- A failure that is given as an answer. -/
theorem Comes.catchFailure {Q : Except Fault α → Prop} (h : Comes s Q x) :
    Yields s (fun _ => True) x.catchFailure := by
  intro s' hs
  obtain ⟨r, s'', hx, hs'', -⟩ := h s' hs
  unfold Lookup.catchFailure
  rw [hx]
  cases r with
  | ok a => exact ⟨.ok (.ok a), s'', rfl, hs'', fun _ _ => trivial⟩
  | error f =>
    cases f with
    | failure f => exact ⟨.ok (.error f), s'', rfl, hs'', fun _ _ => trivial⟩
    | panic p => exact ⟨.error (.panic p), s'', rfl, hs'', fun _ _ => trivial⟩

theorem yields_warn (t : Topic) (message : String) :
    Yields s (fun _ : PUnit => True) (modify (Session.warn · t message)) :=
  fun s' hs => ⟨.ok ⟨⟩, s'.warn t message, rfl, hs.trans (alike_warn s' t message),
    fun _ _ => trivial⟩

end Lookup

/-! ## Validating a query -/

namespace Validator

variable {v : Validator σ} {types : Entries NamedType} {s : Session σ}

theorem yields_noteArtifact (e : Entity σ) (l : Label) :
    Yields s (fun _ => True) (noteArtifact e l) := by
  unfold noteArtifact
  split
  · exact yields_warn _ _
  · exact yields_pure trivial

theorem yields_attributes (spot : Spot) (e : Entity σ) (names : List String) :
    Yields s (fun fs => ∀ name ∈ names, e.attribute? name = none →
      Lack.violation v ⟨e.name, .field, spot, name⟩ ⊆ fs) (v.attributes spot e names) := by
  induction names with
  | nil => exact yields_pure fun name hn => absurd hn List.not_mem_nil
  | cons name rest ih =>
    have tail : ∀ fs, (e.attribute? name = none →
        Lack.violation v ⟨e.name, .field, spot, name⟩ ⊆ fs) →
        Yields s (fun fs => ∀ name' ∈ name :: rest, e.attribute? name' = none →
          Lack.violation v ⟨e.name, .field, spot, name'⟩ ⊆ fs)
          (do return fs ++ (← v.attributes spot e rest)) := by
      refine fun fs hfs => ih.bind fun fs' hfs' => yields_pure fun name' hn he => ?_
      rcases List.mem_cons.mp hn with rfl | hn
      · exact List.subset_append_of_subset_left _ (hfs he)
      · exact List.subset_append_of_subset_right _ (hfs' name' hn he)
    rw [attributes]
    cases ha : e.attribute? name with
    | none => exact tail _ fun _ _ h => h
    | some a =>
      exact (yields_noteArtifact e a.label).bind fun _ _ => tail [] fun he => by simp [ha] at he

theorem yields_act (spot : Spot) (e : Entity σ) (name? : Option String) :
    Yields s (fun r => (∀ name, name? = some name → e.act? name = none →
        Lack.violation v ⟨e.name, .act, spot, name⟩ ⊆ r.1) ∧
      ∀ a ∈ r.2, ∃ b ∈ e.acts, a ∈ b.arguments) (v.act spot e name?) := by
  cases name? with
  | none => exact yields_pure ⟨fun _ h => (nomatch h), fun _ h => absurd h List.not_mem_nil⟩
  | some name =>
    unfold Validator.act
    simp only
    cases ha : e.act? name with
    | none =>
      refine yields_pure ⟨fun name' hn _ => ?_, fun _ h => absurd h List.not_mem_nil⟩
      cases hn
      exact fun _ h => h
    | some b =>
      refine (yields_noteArtifact e b.label).bind fun _ _ => yields_pure ⟨fun name' hn he => ?_,
        fun a h => ⟨b, List.mem_of_find?_eq_some ha, h⟩⟩
      cases hn
      rw [ha] at he
      cases he

variable (hp : v.schema.Plain)

include hp

theorem yields_suppliedValue (spot : Spot) {a : Argument} (ha : a.type.Fits v.schema s)
    (name : String) (value : Json) :
    Yields s (fun _ => True) (v.suppliedValue spot a name value) := by
  unfold suppliedValue
  split
  · exact yields_pure trivial
  · obtain ⟨t, hr, ht⟩ := ha.resolve hp
    have hparse := ht.parse (K := .safe s) hp (fun sc n v _ => (comes_call _).mono fun _ _ => trivial)
      (Nat.le_refl _) value
    refine hr.answers.yields_bind (Yields.bind (Comes.catchFailure hparse) fun r _ => ?_)
    cases r with
    | ok _ => exact yields_pure trivial
    | error f => exact yields_pure trivial

theorem yields_supplied (spot : Spot) {declared act : List Argument}
    (hd : ∀ a ∈ declared, a.type.Fits v.schema s) (ha : ∀ a ∈ act, a.type.Fits v.schema s)
    (given : Entries Json) : Yields s (fun _ => True) (v.supplied spot declared act given) := by
  induction given with
  | nil => exact yields_pure trivial
  | cons e rest ih =>
    obtain ⟨name, value⟩ := e
    have tail : ∀ fs, Yields s (fun _ => True)
        (do return fs ++ (← v.supplied spot declared act rest)) :=
      fun fs => ih.bind fun _ _ => yields_pure trivial
    rw [supplied]
    cases hf : (Argument.find? declared name).or (Argument.find? act name) with
    | none => exact tail _
    | some a =>
      have fits : a.type.Fits v.schema s := by
        rcases Option.or_eq_some_iff.mp hf with h | ⟨-, h⟩
        · exact hd a (List.mem_of_find?_eq_some h)
        · exact ha a (List.mem_of_find?_eq_some h)
      exact (yields_suppliedValue hp spot fits name value).bind fun fs _ => tail fs

theorem yields_missing (spot : Spot) (given : Entries Json) {declared : List Argument}
    (hd : ∀ a ∈ declared, a.type.Fits v.schema s) :
    Yields s (fun _ => True) (v.missing spot given declared) := by
  induction declared with
  | nil => exact yields_pure trivial
  | cons a rest ih =>
    obtain ⟨ha, hrest⟩ := List.forall_mem_cons.mp hd
    have tail : ∀ fs, Yields s (fun _ => True)
        (do return fs ++ (← v.missing spot given rest)) :=
      fun fs => (ih hrest).bind fun _ _ => yields_pure trivial
    rw [missing]
    split
    · exact tail []
    · obtain ⟨t, hr, -⟩ := ha.resolve hp
      have required : Yields s (fun _ => True) (a.isRequired v.schema v.schema.find) := by
        unfold Argument.isRequired
        split
        · exact yields_pure trivial
        · exact hr.answers.yields_bind (yields_pure trivial)
      refine required.bind fun b _ => ?_
      split
      · exact (answers_refTextOf v.schema a.type).yields_bind (tail _)
      · exact tail []

theorem yields_arguments (spot : Spot) {declared act : List Argument}
    (hd : ∀ a ∈ declared, a.type.Fits v.schema s) (ha : ∀ a ∈ act, a.type.Fits v.schema s)
    (given : Entries Json) : Yields s (fun _ => True) (v.arguments spot declared act given) := by
  refine (yields_supplied hp spot hd ha given).bind fun _ _ => ?_
  split
  · refine (yields_missing hp spot given fun a h => ?_).bind fun _ _ => yields_pure trivial
    rcases List.mem_append.mp h with h | h
    · exact hd a h
    · exact ha a h
  · exact yields_pure trivial

/-! ### Nested queries -/

/-- The violations of links cover the links that the entity does not have, and the lacks of the
queries nested under the others. -/
def CoversLinks (v : Validator σ) (s : Session σ) (spot : Spot) (e : Entity σ)
    (links : List (String × Query)) (fs : List Failure) : Prop :=
  ∀ name nested, (name, nested) ∈ links →
    (e.link? name = none → Lack.violation v ⟨e.name, .link, spot, name⟩ ⊆ fs) ∧
      ∀ l t target x, e.link? name = some l →
        Answers (l.follow v.schema v.schema.find e.name) (t, target) s →
        Lacks v.schema s (spot.descend name) target nested x → x.violation v ⊆ fs

omit hp

theorem CoversLinks.cons {spot : Spot} {e : Entity σ} {name : String} {nested : Query}
    {rest : List (String × Query)} {fs fs' : List Failure}
    (hnone : e.link? name = none → Lack.violation v ⟨e.name, .link, spot, name⟩ ⊆ fs)
    (hsome : ∀ l t target x, e.link? name = some l →
      Answers (l.follow v.schema v.schema.find e.name) (t, target) s →
      Lacks v.schema s (spot.descend name) target nested x → x.violation v ⊆ fs)
    (hrest : v.CoversLinks s spot e rest fs') :
    v.CoversLinks s spot e ((name, nested) :: rest) (fs ++ fs') := by
  intro name' nested' hmem
  rcases List.mem_cons.mp hmem with he | hmem
  · cases he
    exact ⟨fun he => List.subset_append_of_subset_left _ (hnone he), fun l t target x he hl hx =>
      List.subset_append_of_subset_left _ (hsome l t target x he hl hx)⟩
  · obtain ⟨h₁, h₂⟩ := hrest name' nested' hmem
    exact ⟨fun he => List.subset_append_of_subset_right _ (h₁ he), fun l t target x he hl hx =>
      List.subset_append_of_subset_right _ (h₂ l t target x he hl hx)⟩

include hp

variable (hs : v.schema.Sound types s)

include hs

mutual

/-- **Validating a query meets no defect, and its violations cover its lacks.** -/
theorem yields_query (spot : Spot) {e : Entity σ} (he : v.schema.Knows types e)
    {declared : List Argument} (hd : ∀ a ∈ declared, a.type.Fits v.schema s) :
    (q : Query) → Yields s (fun fs => ∀ x, Lacks v.schema s spot e q x → x.violation v ⊆ fs)
      (v.query spot e declared q)
  | ⟨typeName, attributes, act?, arguments, links⟩ => by
    have hsettled := hs.settles hp he
    rw [Validator.query]
    refine (yields_attributes spot e attributes).bind fun ofAttributes h₁ => ?_
    refine (yields_act spot e act?).bind fun ofAct h₂ => ?_
    have hact : ∀ a ∈ ofAct.2, a.type.Fits v.schema s := fun a ha => by
      obtain ⟨b, hb, hab⟩ := h₂.2 a ha
      exact hsettled.acts b hb a hab
    refine (yields_arguments hp spot hd hact arguments).bind fun ofArguments _ => ?_
    refine (yields_links spot he links).bind fun ofLinks h₃ => yields_pure fun x hx => ?_
    have left : ∀ {fs : List Failure}, fs ⊆ ofAttributes ++ ofAct.1 →
        fs ⊆ ofAttributes ++ ofAct.1 ++ ofArguments ++ ofLinks := fun h =>
      List.subset_append_of_subset_left _ (List.subset_append_of_subset_left _ h)
    cases hx with
    | field hq he' => exact left (List.subset_append_of_subset_left _ (h₁ _ hq he'))
    | act hq he' => exact left (List.subset_append_of_subset_right _ (h₂.1 _ hq he'))
    | link hq he' => exact List.subset_append_of_subset_right _ ((h₃ _ _ hq).1 he')
    | nested hq he' hl hx =>
      exact List.subset_append_of_subset_right _ ((h₃ _ _ hq).2 _ _ _ x he' hl hx)

theorem yields_links (spot : Spot) {e : Entity σ} (he : v.schema.Knows types e) :
    (links : List (String × Query)) → Yields s (v.CoversLinks s spot e links)
      (v.links spot e links)
  | [] => by
    rw [Validator.links]
    exact yields_pure fun _ _ h => absurd h List.not_mem_nil
  | (name, nested) :: rest => by
    have hsettled := hs.settles hp he
    have htail := yields_links spot he rest
    rw [Validator.links]
    cases hl : e.link? name with
    | none =>
      refine htail.bind fun fs' h' => yields_pure (.cons (fun _ _ h => h) ?_ h')
      intro l t target x hl' _ _
      rw [hl] at hl'
      cases hl'
    | some l =>
      have hmem : l ∈ e.links := List.mem_of_find?_eq_some hl
      obtain ⟨t, target, hknown, hfollow⟩ := hsettled.links l hmem
      have hquery := yields_query (spot.descend name) hknown (hsettled.linked l hmem) nested
      refine (yields_noteArtifact e l.label).bind fun _ _ => ?_
      refine hfollow.answers.yields_bind (hquery.bind fun fs hfs => ?_)
      refine htail.bind fun fs' h' => yields_pure (.cons (fun he' => ?_) ?_ h')
      · rw [hl] at he'
        cases he'
      · intro l' t' target' x hl' hf' hx
        rw [hl] at hl'
        cases hl'
        -- the link leads to the same entity whenever it is followed
        have heq := (hfollow.answers s (.refl s)).symm.trans (hf' s (.refl s))
        cases heq
        exact List.subset_append_of_subset_right _ (hfs x hx)

end

end Validator

/-! ## Validating a document -/

section

variable {schema : Schema σ} {types : Entries NamedType} {s : Session σ}

/-- The entity that a query of a document names, or none. -/
def Query.Roots (schema : Schema σ) (s : Session σ) (q : Query) (e? : Option (Entity σ)) : Prop :=
  match q.typeName with
  | none => e? = none
  | some name => ∃ t? : Option NamedType, Answers (schema.find name) t? s ∧
      e? = t?.bind schema.entity?

/-- The queries of a document name types that are looked up safely. -/
def Document.Rooted (schema : Schema σ) (types : Entries NamedType) (s : Session σ) (d : Document) :
    Prop :=
  ∀ name q, (name, q) ∈ d.queries → ∀ typeName, q.typeName = some typeName →
    schema.Finds types s typeName

/-- **On a schema that is built without a loader, every document is served.** -/
theorem Schema.serves_of_build (hl : schema.loader? = none) {declared : List Ty} {app : σ}
    (h : schema.build declared false { app } = .ok () s) :
    schema.Plain ∧ ∃ types, schema.Sound types s ∧ ∀ d : Document, d.Rooted schema types s := by
  obtain ⟨types, hs, hfinds⟩ := sound_of_build hl h
  exact ⟨plain_of_eager hl, types, hs, fun _ _ _ _ name _ => hfinds name⟩

theorem Query.Roots.unique {q : Query} {e? e?' : Option (Entity σ)} (h : q.Roots schema s e?)
    (h' : q.Roots schema s e?') : e? = e?' := by
  unfold Roots at h h'
  cases hn : q.typeName with
  | none =>
    rw [hn] at h h'
    rw [h, h']
  | some name =>
    rw [hn] at h h'
    obtain ⟨t?, ht, rfl⟩ := h
    obtain ⟨t?', ht', rfl⟩ := h'
    have he := (ht s (.refl s)).symm.trans (ht' s (.refl s))
    cases he
    rfl

theorem Document.Rooted.exists_root {d : Document} (h : d.Rooted schema types s) {name : String}
    {q : Query} (hq : (name, q) ∈ d.queries) :
    ∃ e?, q.Roots schema s e? ∧ ∀ e, e? = some e → schema.Knows types e := by
  unfold Query.Roots
  cases hn : q.typeName with
  | none => exact ⟨none, rfl, fun _ he => by cases he⟩
  | some typeName =>
    obtain ⟨t?, hholds, hfind⟩ := h name q hq typeName hn
    refine ⟨t?.bind schema.entity?, ⟨t?, hfind, rfl⟩, fun e he => ?_⟩
    obtain ⟨t, ht, he⟩ := Option.bind_eq_some_iff.mp he
    exact ⟨t, hholds t ht, he⟩

end

namespace Validator

variable {v : Validator σ} {types : Entries NamedType} {s : Session σ}

theorem yields_root (spot : Spot) {q : Query} {e? : Option (Entity σ)}
    (h : q.Roots v.schema s e?) :
    Yields s (fun r => match e? with
      | some e => r = .ok e
      | none => ∃ message, r = .error (v.report .knownEntityTypes message (spot.location none)))
      (v.root spot q) := by
  unfold Query.Roots at h
  unfold Validator.root
  cases hn : q.typeName with
  | none =>
    rw [hn] at h
    rw [h]
    exact yields_pure ⟨_, rfl⟩
  | some typeName =>
    rw [hn] at h
    obtain ⟨t?, hfind, rfl⟩ := h
    refine hfind.yields_bind ?_
    cases t? with
    | none => exact yields_pure ⟨_, rfl⟩
    | some t =>
      simp only [Option.bind_some]
      cases v.schema.entity? t with
      | none => exact yields_pure ⟨_, rfl⟩
      | some e =>
        simp only
        split
        · exact (yields_warn _ _).bind fun _ _ => yields_pure rfl
        · exact yields_pure rfl

/-- The violations of a document cover the lacks of its queries, and the queries that name no
entity. -/
def Covers (v : Validator σ) (s : Session σ) (queries : List (String × Query))
    (fs : List Failure) : Prop :=
  ∀ name q, (name, q) ∈ queries →
    (∀ e x, q.Roots v.schema s (some e) → Lacks v.schema s { queryName := name } e q x →
      x.violation v ⊆ fs) ∧
    (q.Roots v.schema s none →
      ∃ message, v.report .knownEntityTypes message (.ofQuery name) ⊆ fs)

theorem yields_queries (hp : v.schema.Plain) (hs : v.schema.Sound types s)
    {queries : List (String × Query)} (hr : Document.Rooted v.schema types s ⟨queries⟩) :
    Yields s (v.Covers s queries) (v.queries queries) := by
  induction queries with
  | nil => exact yields_pure fun _ _ h => absurd h List.not_mem_nil
  | cons nq rest ih =>
    obtain ⟨name, q⟩ := nq
    obtain ⟨e?, hroot, hknown⟩ := hr.exists_root List.mem_cons_self
    have hrest := ih fun name' q' h => hr name' q' (List.mem_cons_of_mem _ h)
    have tail : ∀ fs, (∀ e x, e? = some e → Lacks v.schema s { queryName := name } e q x →
          x.violation v ⊆ fs) →
        (e? = none → ∃ message, v.report .knownEntityTypes message (.ofQuery name) ⊆ fs) →
        Yields s (v.Covers s ((name, q) :: rest)) (do return fs ++ (← v.queries rest)) := by
      refine fun fs h₁ h₂ => hrest.bind fun fs' h' => yields_pure fun name' q' hmem => ?_
      rcases List.mem_cons.mp hmem with he | hmem
      · cases he
        refine ⟨fun e x hroot' hx => ?_, fun hroot' => ?_⟩
        · exact List.subset_append_of_subset_left _ (h₁ e x (hroot.unique hroot') hx)
        · obtain ⟨message, hm⟩ := h₂ (hroot.unique hroot')
          exact ⟨message, List.subset_append_of_subset_left _ hm⟩
      · obtain ⟨h₃, h₄⟩ := h' name' q' hmem
        refine ⟨fun e x hroot' hx => List.subset_append_of_subset_right _ (h₃ e x hroot' hx),
          fun hroot' => ?_⟩
        obtain ⟨message, hm⟩ := h₄ hroot'
        exact ⟨message, List.subset_append_of_subset_right _ hm⟩
    rw [queries]
    refine (yields_root { queryName := name } hroot).bind fun r hr => ?_
    cases e? with
    | none =>
      obtain ⟨message, rfl⟩ := hr
      exact tail _ (fun _ _ he => by cases he) fun _ => ⟨message, fun _ h => h⟩
    | some e =>
      cases hr
      have hsettled := hs.settles hp (hknown e rfl)
      refine (yields_query hp hs { queryName := name } (hknown e rfl) hsettled.arguments q).bind
        fun fs hfs => tail fs (fun e' x he hx => ?_) fun he => by cases he
      cases he
      exact hfs x hx

end Validator

/-- **Validating a document meets no defect, and its violations cover what its queries lack.** -/
theorem Document.yields_validate {v : Validator σ} {types : Entries NamedType} {s : Session σ}
    (hp : v.schema.Plain) (hs : v.schema.Sound types s) {d : Document}
    (hr : d.Rooted v.schema types s) : Yields s (v.Covers s d.queries) (d.validate v) := by
  refine (Validator.yields_queries hp hs hr).bind fun fs hfs => yields_pure fun name q hq => ?_
  obtain ⟨h₁, h₂⟩ := hfs name q hq
  refine ⟨fun e x he hx => List.subset_append_of_subset_right _ (h₁ e x he hx), fun hn => ?_⟩
  obtain ⟨message, hm⟩ := h₂ hn
  exact ⟨message, List.subset_append_of_subset_right _ hm⟩

end EntityQuery
