import EntityQuery.Proofs.Failure.Likeness
import EntityQuery.Proofs.Schema.Fitting
import EntityQuery.Proofs.Schema.Likeness

/-!
# Two schemas in tandem

Two runs use two schemas, each in a session of its own: a schema that was built without a loader, and one that
stands in for it. The sessions go together in some way, and so do the failures that the callbacks of the two
schemas make. Where the first schema has settled what a look-up gives, the second one gives the same, though its
session may change on the way.

* `Pace`: how sessions and failures go together; `Pace.Agrees`: look-ups that agree, `Pace.Calls`: callbacks that
  do. **`Pace.Agrees.bind`**: one after another.
* `Pace.Resolvers`, `Pace.Entities`: resolvers and entities of which one stands in for the other.
* `Tandem`: the two schemas. `Tandem.ofEager`: schemas that both were built without a loader.
* `Tandem.agrees_find`, **`Tandem.agrees_follow`**: looking up names, following links.
* **`Tandem.agrees_serialize`**, **`Tandem.agrees_parse`**: coercing values by a fitting type.
-/

namespace EntityQuery

open Lookup Session

variable {σ α β γ δ : Type}

/-- Lists that are related member by member, with what is known of the members of the first one. -/
theorem forall₂_and_mem {R : α → β → Prop} {as : List α} {bs : List β} (h : List.Forall₂ R as bs) :
    List.Forall₂ (fun a b => R a b ∧ a ∈ as) as bs := by
  induction h with
  | nil => exact .nil
  | cons h _ ih =>
    exact .cons ⟨h, List.mem_cons_self⟩ (ih.imp fun _ _ h => ⟨h.1, List.mem_cons_of_mem _ h.2⟩)

/-- How a callback ends. -/
def Callback.result (r : Except Fault α) (app : σ) : EStateM.Result Fault σ α :=
  match r with
  | .ok a => .ok a app
  | .error f => .error f app

/-- A site as a schema sees it that loads types on demand, or does not. -/
def Site.seen (site : Site) (onDemand : Bool) : Site := { site with onDemand }

/-- How the sessions of two runs go together, and which failures of the first one stand for which of the second
one. -/
structure Pace (σ : Type) where
  /-- Whether the schemas load types on demand. -/
  onDemand : Bool
  onDemand' : Bool
  sessions : Session σ → Session σ → Prop
  failure : Failure → Failure → Prop
  /-- Whether tasks that settle promises may panic, on both sides. -/
  halts : Prop
  warn : ∀ {s s' : Session σ} (t : Topic) (message : String), sessions s s' →
    sessions (s.warn t message) (s'.warn t message)
  failure_refl : ∀ f, failure f f
  failure_located : ∀ {f f' : Failure} (places : List Location), failure f f' →
    failure (f.located places) (f'.located places)

/-- Sessions that go together in some way, where failures stand for themselves only. -/
def Pace.strict (onDemand onDemand' : Bool) (sessions : Session σ → Session σ → Prop) (halts : Prop)
    (warn : ∀ {s s' : Session σ} (t : Topic) (message : String), sessions s s' →
      sessions (s.warn t message) (s'.warn t message)) : Pace σ where
  onDemand := onDemand
  onDemand' := onDemand'
  sessions := sessions
  failure := Eq
  halts := halts
  warn := warn
  failure_refl _ := rfl
  failure_located places h := congrArg (Failure.located · places) h

namespace Pace

variable (P : Pace σ)

/-! ## Look-ups and callbacks -/

/-- Faults of which, as failures, one stands for the other. -/
def Faults (f f' : Fault) : Prop := P.failure f.toFailure f'.toFailure

/-- Both faults are failures, of which one stands for the other, or both are panics. -/
inductive Matched : Fault → Fault → Prop
  | failure {f f' : Failure} (h : P.failure f f') : Matched (.failure f) (.failure f')
  | panic (p p' : Panic) : Matched (.panic p) (.panic p')

/-- The same, where the panics stand for each other as failures. -/
inductive Paired : Fault → Fault → Prop
  | failure {f f' : Failure} (h : P.failure f f') : Paired (.failure f) (.failure f')
  | panic {p p' : Panic} (h : P.failure (.ofPanic p) (.ofPanic p')) : Paired (.panic p) (.panic p')

/-- The same, where the panics may end everything. -/
inductive Final : Fault → Fault → Prop
  | failure {f f' : Failure} (h : P.failure f f') : Final (.failure f) (.failure f')
  | panic {p p' : Panic} (h : P.halts) : Final (.panic p) (.panic p')

/-- In sessions that go together, the look-ups come to values related by `A` or to faults related by `F`, and
leave sessions that go together. -/
def Agrees (F : Fault → Fault → Prop) (A : α → β → Prop) (x : Lookup σ α) (x' : Lookup σ β) : Prop :=
  ∀ s s', P.sessions s s' → ∃ r r' t t', x s = ended r t ∧ x' s' = ended r' t' ∧ P.sessions t t' ∧
    ExceptRel F A r r'

/-- The same of callbacks. -/
def Calls (F : Fault → Fault → Prop) (A : α → β → Prop) (c : Callback σ α) (c' : Callback σ β) :
    Prop :=
  ∀ s s', P.sessions s s' → ∃ r r' app app', c s.app = Callback.result r app ∧
    c' s'.app = Callback.result r' app' ∧ P.sessions { s with app } { s' with app := app' } ∧
    ExceptRel F A r r'

variable {P} {F F' : Fault → Fault → Prop} {A : α → β → Prop} {B : γ → δ → Prop}

theorem agrees_pure {a : α} {b : β} (h : A a b) :
    P.Agrees F A (pure a : Lookup σ α) (pure b) := fun s s' hs =>
  ⟨.ok a, .ok b, s, s', rfl, rfl, hs, .ok h⟩

/-- **One after another.** -/
theorem Agrees.bind {x : Lookup σ α} {x' : Lookup σ β} {k : α → Lookup σ γ} {k' : β → Lookup σ δ}
    (h : P.Agrees F A x x') (hk : ∀ a b, A a b → P.Agrees F B (k a) (k' b)) :
    P.Agrees F B (x >>= k) (x' >>= k') := by
  intro s s' hs
  obtain ⟨r, r', t, t', hx, hx', ht, hr⟩ := h s s' hs
  cases hr with
  | @ok a b hab =>
    obtain ⟨r, r', u, u', hu, hu', hs, hr⟩ := hk a b hab t t' ht
    exact ⟨r, r', u, u', (bind_of_ok hx).trans hu, (bind_of_ok hx').trans hu', hs, hr⟩
  | @error f f' hf =>
    exact ⟨.error f, .error f', t, t', bind_of_error hx, bind_of_error hx', ht, .error hf⟩

theorem Agrees.mono {A' : α → β → Prop} {x : Lookup σ α} {x' : Lookup σ β} (h : P.Agrees F A x x')
    (hA : ∀ a b, A a b → A' a b) : P.Agrees F A' x x' := by
  intro s s' hs
  obtain ⟨r, r', t, t', hx, hx', ht, hr⟩ := h s s' hs
  refine ⟨r, r', t, t', hx, hx', ht, ?_⟩
  cases hr with
  | ok hab => exact .ok (hA _ _ hab)
  | error hf => exact .error hf

theorem agrees_fail (hF : ∀ f, F (.failure f) (.failure f)) (f : Failure) :
    P.Agrees F A (Lookup.fail f) (Lookup.fail f) := fun s s' hs =>
  ⟨.error (.failure f), .error (.failure f), s, s', rfl, rfl, hs, .error (hF f)⟩

theorem agrees_warn (t : Topic) (message : String) :
    P.Agrees F (fun _ _ => True) (modify (Session.warn · t message))
      (modify (Session.warn · t message)) := fun s s' hs =>
  ⟨.ok ⟨⟩, .ok ⟨⟩, s.warn t message, s'.warn t message, rfl, rfl, P.warn t message hs, .ok trivial⟩

theorem agrees_call {c : Callback σ α} {c' : Callback σ β} (h : P.Calls F A c c') :
    P.Agrees F A (Lookup.call c) (Lookup.call c') := by
  intro s s' hs
  obtain ⟨r, r', app, app', hc, hc', hs, hr⟩ := h s s' hs
  refine ⟨r, r', _, _, ?_, ?_, hs, hr⟩
  · unfold Lookup.call
    rw [hc]
    cases r <;> rfl
  · unfold Lookup.call
    rw [hc']
    cases r' <;> rfl

/-- A failure as an answer, where faults are the same. -/
theorem agrees_catchFailure {x : Lookup σ α} {x' : Lookup σ β} (h : P.Agrees Eq A x x') :
    P.Agrees Eq (ExceptRel Eq A) x.catchFailure x'.catchFailure := by
  intro s s' hs
  obtain ⟨r, r', t, t', hx, hx', ht, hr⟩ := h s s' hs
  unfold Lookup.catchFailure
  rw [hx, hx']
  cases hr with
  | @ok a b hab => exact ⟨.ok (.ok a), .ok (.ok b), t, t', rfl, rfl, ht, .ok (.ok hab)⟩
  | @error f _ he =>
    subst he
    cases f with
    | failure f => exact ⟨.ok (.error f), .ok (.error f), t, t', rfl, rfl, ht, .ok (.error rfl)⟩
    | panic p => exact ⟨.error (.panic p), .error (.panic p), t, t', rfl, rfl, ht, .error rfl⟩

theorem faults_failure (P : Pace σ) (f : Failure) : P.Faults (.failure f) (.failure f) :=
  P.failure_refl f

variable (P)

/-! ## Definitions -/

/-- Answers of which one stands in for the other: work that is put off agrees. -/
inductive Answers : Answer σ → Answer σ → Prop
  | ready (v : Json) : Answers (.ready v) (.ready v)
  | deferred {c c' : Callback σ Json} (h : P.Calls P.Faults Eq c c') :
    Answers (.deferred c) (.deferred c')
  | settling (home : Home) (hops : Nat) {c c' : Callback σ Json}
    (now : hops = 0 → P.Calls P.Paired Eq c c') (later : hops ≠ 0 → P.Calls P.Final Eq c c') :
    Answers (.settling home hops c) (.settling home hops c')
  | stuck (home : Home) : Answers (.stuck home) (.stuck home)

/-- How a resolver ends, and one that stands in for it. A panic in settling a promise at once is one in the call,
so that the second resolver may fail where the first one hands out such a promise. -/
inductive Resolved (s s' : Session σ) :
    EStateM.Result Fault σ (Answer σ) → EStateM.Result Fault σ (Answer σ) → Prop
  | answer {a a' : Answer σ} {app app' : σ} (hs : P.sessions { s with app } { s' with app := app' })
    (h : P.Answers a a') : Resolved s s' (.ok a app) (.ok a' app')
  | fault {f f' : Fault} {app app' : σ} (hs : P.sessions { s with app } { s' with app := app' })
    (h : P.Faults f f') : Resolved s s' (.error f app) (.error f' app')
  | lapse {home : Home} {c : Callback σ Json} {p : Panic} {f' : Fault} {app app₁ app' : σ}
    (hc : c app = .error (.panic p) app₁)
    (hs : P.sessions { s with app := app₁ } { s' with app := app' }) (h : P.Faults (.panic p) f') :
    Resolved s s' (.ok (.settling home 0 c) app) (.error f' app')

/-- Resolvers of which one stands in for the other. -/
def Resolvers (c c' : Callback σ (Answer σ)) : Prop :=
  ∀ s s', P.sessions s s' → P.Resolved s s' (c s.app) (c' s'.app)

/-- Attributes of which one stands in for the other. -/
structure Attributes (a a' : Attribute σ) : Prop where
  label : a.label = a'.label
  type? : a.type? = a'.type?
  resolve : ∀ reference (site : Site), P.Resolvers (a.resolve reference (site.seen P.onDemand))
    (a'.resolve reference (site.seen P.onDemand'))
  checkRule : ∀ v, P.Calls P.Faults (fun _ _ => True) (a.checkRule v) (a'.checkRule v)

/-- Acts of which one stands in for the other. -/
structure Acts (a a' : Act σ) : Prop where
  label : a.label = a'.label
  arguments : a.arguments = a'.arguments
  perform : ∀ reference arguments,
    P.Resolvers (a.perform reference arguments) (a'.perform reference arguments)

/-- Links of which one stands in for the other. -/
structure Links (l l' : Link σ) : Prop where
  label : l.label = l'.label
  target : l.target = l'.target
  arguments : l.arguments = l'.arguments
  resolve : ∀ reference (site : Site), P.Resolvers (l.resolve reference (site.seen P.onDemand))
    (l'.resolve reference (site.seen P.onDemand'))

/-- Entities of which one stands in for the other. -/
structure Entities (e e' : Entity σ) : Prop where
  name : e.name = e'.name
  deprecated : e.deprecated = e'.deprecated
  reason : e.reason = e'.reason
  arguments : e.arguments = e'.arguments
  resolve : ∀ arguments context, P.Resolvers (e.resolve arguments context) (e'.resolve arguments context)
  attributes : List.Forall₂ P.Attributes e.attributes e'.attributes
  acts : List.Forall₂ P.Acts e.acts e'.acts
  links : List.Forall₂ P.Links e.links e'.links

/-- Scalars of which one stands in for the other: they read supplied values alike, and fail alike there. -/
structure Scalars (t t' : Scalar σ) : Prop where
  serialize : ∀ v, P.Calls P.Faults Eq (t.serialize v) (t'.serialize v)
  parse : ∀ v, P.Calls Eq Eq (t.parse v) (t'.parse v)

/-- Definitions of which one stands in for the other. -/
inductive Definitions : Definition σ → Definition σ → Prop
  | scalar {t t' : Scalar σ} (h : P.Scalars t t') : Definitions (.scalar t) (.scalar t')
  | entity {e e' : Entity σ} (h : P.Entities e e') : Definitions (.entity e) (.entity e')

variable {P} {e e' : Entity σ}

theorem Entities.attribute? (h : P.Entities e e') (name : String) :
    Option.Rel (fun a a' => P.Attributes a a' ∧ a ∈ e.attributes) (e.attribute? name)
      (e'.attribute? name) :=
  rel_find? (forall₂_and_mem h.attributes) fun _ _ ha => by rw [ha.1.label]

theorem Entities.act? (h : P.Entities e e') (name : String) :
    Option.Rel (fun a a' => P.Acts a a' ∧ a ∈ e.acts) (e.act? name) (e'.act? name) :=
  rel_find? (forall₂_and_mem h.acts) fun _ _ ha => by rw [ha.1.label]

theorem Entities.link? (h : P.Entities e e') (name : String) :
    Option.Rel (fun l l' => P.Links l l' ∧ l ∈ e.links) (e.link? name) (e'.link? name) :=
  rel_find? (forall₂_and_mem h.links) fun _ _ hl => by rw [hl.1.label]

end Pace

/-! ## Two schemas -/

/-- A schema that was built without a loader, and one that stands in for it. -/
structure Tandem (σ : Type) extends Pace σ where
  first : Schema σ
  second : Schema σ
  types : Entries NamedType
  /-- The session that the first schema was built in. -/
  base : Session σ
  eager : first.loader? = none
  sound : first.Sound types base
  finds : ∀ name, first.Finds types base name
  onDemand_eq : first.onDemand = onDemand
  onDemand'_eq : second.onDemand = onDemand'
  nameOf_eq : second.nameOf = first.nameOf
  target_eq : second.target = first.target
  limit_eq : second.limit = first.limit
  definition : ∀ t, toPace.Definitions (first.definition t) (second.definition t)
  alike : ∀ {s s' : Session σ}, sessions s s' → base.Alike s
  forced : ∀ {s s' : Session σ}, sessions s s' → base.forced ⊆ s'.forced
  find : ∀ {s s' : Session σ}, sessions s s' → ∀ name t?, first.find name s = .ok t? s →
    ∃ t', second.find name s' = .ok t? t' ∧ sessions s t'
  resolve : ∀ {s s' : Session σ}, sessions s s' → ∀ (r : TypeRef) t,
    Settled (r.resolve first first.find) t base →
    ∃ t', r.resolve second second.find s' = .ok t t' ∧ sessions s t'

/-- Schemas that differ in their callbacks only. -/
structure Schema.Coincides (S S' : Schema σ) : Prop where
  nameOf : S.nameOf = S'.nameOf
  target : S.target = S'.target
  onForce : S.onForce = S'.onForce
  loader? : S.loader? = S'.loader?
  limit : S.limit = S'.limit

namespace Schema.Coincides

variable {S S' : Schema σ}

theorem refl (S : Schema σ) : S.Coincides S := ⟨rfl, rfl, rfl, rfl, rfl⟩

variable (h : S.Coincides S')

include h

theorem onDemand_eq : S.onDemand = S'.onDemand := congrArg Option.isSome h.loader?

theorem find_eq (hl : S.loader? = none) : S.find = S'.find := by
  rw [find_eq_of_eager hl, find_eq_of_eager (h.loader? ▸ hl)]

theorem resolve_eq (find : Finder σ) (r : TypeRef) : r.resolve S find = r.resolve S' find := by
  have hforce : S.force = S'.force := by
    funext r s
    unfold Schema.force
    rw [h.target, h.onForce]
  unfold TypeRef.resolve
  rw [hforce]

end Schema.Coincides

/-- Two schemas without a loader that differ in their callbacks only, in sessions that are like the one that the
first one was built in. -/
def Tandem.ofEager (P : Pace σ) {schema schema' : Schema σ} (h : schema.Coincides schema') (hl : schema.loader? = none)
    {types : Entries NamedType} {s : Session σ} (hsound : schema.Sound types s)
    (hfinds : ∀ name, schema.Finds types s name)
    (hseen : P.onDemand = schema.onDemand ∧ P.onDemand' = schema.onDemand)
    (hsessions : ∀ {a b : Session σ}, P.sessions a b → s.Alike a ∧ s.Alike b)
    (hdefinition : ∀ t, P.Definitions (schema.definition t) (schema'.definition t)) : Tandem σ where
  toPace := P
  first := schema
  second := schema'
  types := types
  base := s
  eager := hl
  sound := hsound
  finds := hfinds
  onDemand_eq := hseen.1.symm
  onDemand'_eq := h.onDemand_eq.symm.trans hseen.2.symm
  nameOf_eq := h.nameOf.symm
  target_eq := h.target.symm
  limit_eq := h.limit.symm
  definition := hdefinition
  alike hs := (hsessions hs).1
  forced hs := fun _ hid => (hsessions hs).2.later.forced _ hid
  find := by
    intro a b hs name t? hfind
    obtain ⟨ha, hb⟩ := hsessions hs
    obtain ⟨u?, -, hfinds⟩ := hfinds name
    obtain rfl : t? = u? := (EStateM.Result.ok.inj (hfind.symm.trans (hfinds a ha))).1
    exact ⟨b, h.find_eq hl ▸ hfinds b hb, hs⟩
  resolve := by
    intro a b hs r t hr
    refine ⟨b, ?_, hs⟩
    rw [← h.find_eq hl, ← h.resolve_eq]
    exact hr b (hsessions hs).2.later

namespace Tandem

variable {T : Tandem σ} {F : Fault → Fault → Prop} {A : α → β → Prop}

theorem plain (T : Tandem σ) : T.first.Plain := Schema.plain_of_eager T.eager

theorem entity? (T : Tandem σ) (t : NamedType) :
    Option.Rel T.Entities (T.first.entity? t) (T.second.entity? t) := by
  unfold Schema.entity?
  have ht := T.definition t
  revert ht
  generalize T.first.definition t = d
  generalize T.second.definition t = d'
  rintro (h | h)
  · exact .none
  · exact .some h

/-- Looking up a name gives the same type, if any; the first schema knows it. -/
theorem agrees_find (T : Tandem σ) (name : String) :
    T.Agrees F (fun t? t?' => t? = t?' ∧ ∀ t, t? = some t → T.first.Holds T.types t)
      (T.first.find name) (T.second.find name) := by
  intro s s' hs
  obtain ⟨t?, hholds, hfind⟩ := T.finds name
  obtain ⟨t', h, ht⟩ := T.find hs name t? (hfind s (T.alike hs))
  exact ⟨.ok t?, .ok t?, s, t', hfind s (T.alike hs), h, ht, .ok ⟨rfl, hholds⟩⟩

theorem agrees_resolve {r : TypeRef} {t : Ty}
    (h : Settled (r.resolve T.first T.first.find) t T.base) :
    T.Agrees F (fun a b => a = t ∧ b = t) (r.resolve T.first T.first.find)
      (r.resolve T.second T.second.find) := by
  intro s s' hs
  obtain ⟨t', ht, hs'⟩ := T.resolve hs r t h
  exact ⟨.ok t, .ok t, s, t', h s (T.alike hs).later, ht, hs', .ok ⟨rfl, rfl⟩⟩

theorem agrees_resolveBare {r : TypeRef} {b : BareTy}
    (h : Settled (r.resolveBare T.first T.first.find) b T.base) :
    T.Agrees F (fun a a' => a = b ∧ a' = b) (r.resolveBare T.first T.first.find)
      (r.resolveBare T.second T.second.find) := by
  have hr := TypeRef.settled_of_resolveBare (Schema.stable_require T.plain) h
  refine (agrees_resolve hr).bind ?_
  rintro _ _ ⟨rfl, rfl⟩
  cases b <;> exact Pace.agrees_pure ⟨rfl, rfl⟩

/-- **Following a link** of an entity that the first schema knows. -/
theorem agrees_follow {e : Entity σ} (hk : T.first.Knows T.types e) {l l' : Link σ}
    (hl : T.Links l l') (hmem : l ∈ e.links) (name' : String) :
    T.Agrees F (fun p p' => T.Entities p.2 p'.2 ∧ T.first.Knows T.types p.2)
      (l.follow T.first T.first.find e.name) (l'.follow T.second T.second.find name') := by
  obtain ⟨t, target, hknown, hsettled⟩ := (T.sound.settles T.plain hk).links l hmem
  obtain ⟨hgiven, he?⟩ := Schema.follow_eq_ok (hsettled T.base (.refl _))
  have hr : Settled (l.target.resolve T.first T.first.find) (.base t) T.base :=
    (l.target.stable_resolve (Schema.stable_require T.plain) _ _ _ hgiven).2.2
  have hrel := T.entity? t
  rw [he?] at hrel
  obtain ⟨target', he?', htarget⟩ : ∃ target', T.second.entity? t = some target' ∧
      T.Entities target target' := by
    revert hrel
    generalize T.second.entity? t = o
    rintro (h | _)
    exact ⟨_, rfl, h⟩
  unfold Link.follow
  rw [← hl.target]
  refine (agrees_resolve hr).bind ?_
  rintro _ _ ⟨rfl, rfl⟩
  simp only [he?, he?']
  exact Pace.agrees_pure ⟨htarget, hknown⟩

theorem known_eq (T : Tandem σ) (s : Session σ) : T.second.known s = T.first.known s := by
  unfold Schema.known
  rw [T.nameOf_eq, T.target_eq, T.limit_eq]

theorem agrees_textOf {t : Ty} {fuel : Nat} (h : t.Fits T.first T.base fuel) :
    T.Agrees F Eq (T.first.textOf t) (T.second.textOf t) := by
  intro s s' hs
  refine ⟨.ok _, .ok _, s, s', rfl, rfl, hs, .ok ?_⟩
  rw [T.known_eq, h.text_eq T.plain (T.alike hs).later.forced, h.text_eq T.plain (T.forced hs)]

theorem agrees_refTextOf {r : TypeRef} (h : r.Fits T.first T.base) :
    T.Agrees F Eq (T.first.refTextOf r) (T.second.refTextOf r) := by
  intro s s' hs
  refine ⟨.ok _, .ok _, s, s', rfl, rfl, hs, .ok ?_⟩
  rw [T.known_eq, h.text_eq T.plain (T.alike hs).later.forced, h.text_eq T.plain (T.forced hs)]

/-! ## Coercing values -/

section

variable (hF : ∀ f, F (.failure f) (.failure f)) {t : Ty} {fuel : Nat}

include hF

/-- A fitting type without its non-null wrapper. -/
theorem agrees_strip (h : t.Fits T.first T.base fuel) {refusal : String → String} {v : Json}
    {f : BareTy → Lookup σ α} {f' : BareTy → Lookup σ β}
    (hf : ∀ b : BareTy, b.Fits T.first T.base fuel → T.Agrees F A (f b) (f' b)) :
    T.Agrees F A (t.strip T.first T.first.find refusal v >>= f)
      (t.strip T.second T.second.find refusal v >>= f') := by
  have hfind := Schema.stable_require T.plain
  cases t with
  | base n => exact hf (.base n) (Ty.Fits.bare (t := .base n) T.plain h (Nat.le_refl _))
  | listOf id inner =>
    exact hf (.listOf id inner) (Ty.Fits.bare (t := .listOf id inner) T.plain h (Nat.le_refl _))
  | nonNull id inner =>
    simp only [Ty.strip]
    split
    · rw [bind_assoc, bind_assoc]
      refine (agrees_textOf h).bind ?_
      rintro text _ rfl
      refine (Pace.agrees_fail (A := fun _ _ => False) hF _).bind ?_
      exact fun _ _ he => he.elim
    · obtain ⟨n, hs, hn⟩ := h
      cases fuel with
      | zero => cases hs T.base (.refl _)
      | succ below =>
        obtain ⟨b, h₁, h₂⟩ := hs.of_bind (inner.stable_resolveBare hfind)
          fun b => b.type.stable_unwrapWithin hfind below
        have hfits : b.type.Fits T.first T.base below := ⟨n, h₂, hn⟩
        refine (agrees_resolveBare h₁).bind ?_
        rintro _ _ ⟨rfl, rfl⟩
        exact hf _ (hfits.bare T.plain (Nat.le_succ below))

/-- A list for a type that is none. -/
theorem agrees_refuseList {id : PartId} {inner : TypeRef}
    (h : BareTy.Fits T.first T.base fuel (.listOf id inner)) (v : Json) :
    T.Agrees F A
      (do
        let text ← T.first.textOf (.listOf id inner)
        Lookup.fail (.engine ("Expected a list for type " ++ text ++ " but got: " ++ v.render)))
      (do
        let text ← T.second.textOf (.listOf id inner)
        Lookup.fail (.engine ("Expected a list for type " ++ text ++ " but got: " ++ v.render))) := by
  obtain ⟨below, -, item, hr, n, hs, hn⟩ := h
  have hfind := Schema.stable_require T.plain
  have hfits : (Ty.listOf id inner).Fits T.first T.base (below + 1) := by
    refine ⟨n, fun s hs' => ?_, hn⟩
    exact (bind_of_ok (hr s hs')).trans (hs s hs')
  refine (agrees_textOf hfits).bind ?_
  rintro text _ rfl
  exact Pace.agrees_fail hF _

end

/-- Completing a value by a scalar. -/
theorem agrees_serializeNamed (T : Tandem σ) (n : NamedType) (v : Json) :
    T.Agrees T.Faults Eq (T.first.serializeNamed n v) (T.second.serializeNamed n v) := by
  unfold Schema.serializeNamed
  have hn := T.definition n
  revert hn
  generalize T.first.definition n = d
  generalize T.second.definition n = d'
  intro hn
  split
  · exact Pace.agrees_pure rfl
  · cases hn with
    | scalar h => exact Pace.agrees_call (h.serialize v)
    | entity _ => exact Pace.agrees_pure rfl

/-- Completing a value that is no list. -/
theorem agrees_serializeSingle {t : Ty} {fuel : Nat} (h : t.Fits T.first T.base fuel) {v : Json}
    (hv : ∀ items, v = .array items → False) :
    T.Agrees T.Faults Eq (t.serialize T.first T.first.find v)
      (t.serialize T.second T.second.find v) := by
  rw [Ty.serialize.eq_2 T.first _ t v hv, Ty.serialize.eq_2 T.second _ t v hv]
  refine agrees_strip T.faults_failure h fun b hb => ?_
  cases b with
  | base n => exact T.agrees_serializeNamed n v
  | listOf id inner =>
    simp only
    split
    · exact Pace.agrees_pure rfl
    · exact agrees_refuseList T.faults_failure hb v

mutual

/-- **Completing a value by a fitting type.** -/
theorem agrees_serialize {t : Ty} {fuel : Nat} (h : t.Fits T.first T.base fuel) : (v : Json) →
    T.Agrees T.Faults Eq (t.serialize T.first T.first.find v)
      (t.serialize T.second T.second.find v)
  | .array items => by
    rw [Ty.serialize, Ty.serialize]
    refine agrees_strip T.faults_failure h fun b hb => ?_
    cases b with
    | base n => exact T.agrees_serializeNamed n _
    | listOf id inner =>
      obtain ⟨below, -, item, hr, hi⟩ := hb
      refine (agrees_resolve hr).bind ?_
      rintro _ _ ⟨rfl, rfl⟩
      refine (agrees_serializeItems hi items).bind ?_
      rintro vs _ rfl
      exact Pace.agrees_pure rfl
  | .null => agrees_serializeSingle h fun _ he => nomatch he
  | .bool _ => agrees_serializeSingle h fun _ he => nomatch he
  | .number _ => agrees_serializeSingle h fun _ he => nomatch he
  | .string _ => agrees_serializeSingle h fun _ he => nomatch he
  | .object _ => agrees_serializeSingle h fun _ he => nomatch he

theorem agrees_serializeItems {t : Ty} {fuel : Nat} (h : t.Fits T.first T.base fuel) :
    (vs : List Json) → T.Agrees T.Faults Eq (t.serializeItems T.first T.first.find vs)
      (t.serializeItems T.second T.second.find vs)
  | [] => Pace.agrees_pure rfl
  | v :: rest => by
    rw [Ty.serializeItems, Ty.serializeItems]
    refine (agrees_serialize h v).bind ?_
    rintro first _ rfl
    refine (agrees_serializeItems h rest).bind ?_
    rintro others _ rfl
    exact Pace.agrees_pure rfl

end

/-- Reading a supplied value by a scalar. -/
theorem agrees_parseNamed {n : NamedType} (hn : T.first.entity? n = none) (v : Json) :
    T.Agrees Eq Eq (T.first.parseNamed n v) (T.second.parseNamed n v) := by
  unfold Schema.parseNamed
  unfold Schema.entity? at hn
  have hd := T.definition n
  revert hd hn
  generalize T.first.definition n = d
  generalize T.second.definition n = d'
  intro hn hd
  split
  · exact Pace.agrees_pure rfl
  · cases hd with
    | scalar h => exact Pace.agrees_call (h.parse v)
    | entity _ => cases hn

/-- Reading a value that is no list wraps it into no more lists than the type has. -/
theorem agrees_parseSingle {t : Ty} {fuel limit : Nat} (h : t.Fits T.first T.base fuel)
    (hle : fuel ≤ limit) (v : Json) :
    T.Agrees Eq Eq (t.parseSingle T.first T.first.find v limit)
      (t.parseSingle T.second T.second.find v limit) := by
  induction limit generalizing fuel t with
  | zero =>
    unfold Ty.parseSingle
    refine agrees_strip (fun _ => rfl) h fun b hb => ?_
    cases b with
    | base n => exact agrees_parseNamed hb v
    | listOf id inner =>
      obtain ⟨below, hlt, -⟩ := hb
      omega
  | succ limit ih =>
    unfold Ty.parseSingle
    refine agrees_strip (fun _ => rfl) h fun b hb => ?_
    cases b with
    | base n => exact agrees_parseNamed hb v
    | listOf id inner =>
      obtain ⟨below, hlt, item, hr, hi⟩ := hb
      simp only
      split
      · exact Pace.agrees_pure rfl
      · refine (agrees_resolve hr).bind ?_
        rintro _ _ ⟨rfl, rfl⟩
        refine (ih hi (by omega)).bind ?_
        rintro w _ rfl
        exact Pace.agrees_pure rfl

/-- Reading a value that is no list. -/
theorem agrees_parseOther {t : Ty} {fuel : Nat} (h : t.Fits T.first T.base fuel)
    (hle : fuel ≤ T.first.limit) {v : Json} (hv : ∀ items, v = .array items → False) :
    T.Agrees Eq Eq (t.parse T.first T.first.find v) (t.parse T.second T.second.find v) := by
  rw [Ty.parse.eq_2 T.first _ t v hv, Ty.parse.eq_2 T.second _ t v hv, T.limit_eq]
  exact agrees_parseSingle h hle v

mutual

/-- **Reading a supplied value by a fitting type.** -/
theorem agrees_parse {t : Ty} {fuel : Nat} (h : t.Fits T.first T.base fuel)
    (hle : fuel ≤ T.first.limit) : (v : Json) →
    T.Agrees Eq Eq (t.parse T.first T.first.find v) (t.parse T.second T.second.find v)
  | .array items => by
    rw [Ty.parse, Ty.parse]
    refine agrees_strip (fun _ => rfl) h fun b hb => ?_
    cases b with
    | base n => exact agrees_parseNamed hb _
    | listOf id inner =>
      obtain ⟨below, hlt, item, hr, hi⟩ := hb
      refine (agrees_resolve hr).bind ?_
      rintro _ _ ⟨rfl, rfl⟩
      refine (agrees_parseItems hi (by omega) items).bind ?_
      rintro vs _ rfl
      exact Pace.agrees_pure rfl
  | .null => agrees_parseOther h hle fun _ he => nomatch he
  | .bool _ => agrees_parseOther h hle fun _ he => nomatch he
  | .number _ => agrees_parseOther h hle fun _ he => nomatch he
  | .string _ => agrees_parseOther h hle fun _ he => nomatch he
  | .object _ => agrees_parseOther h hle fun _ he => nomatch he

theorem agrees_parseItems {t : Ty} {fuel : Nat} (h : t.Fits T.first T.base fuel)
    (hle : fuel ≤ T.first.limit) : (vs : List Json) →
    T.Agrees Eq Eq (t.parseItems T.first T.first.find vs) (t.parseItems T.second T.second.find vs)
  | [] => Pace.agrees_pure rfl
  | v :: rest => by
    rw [Ty.parseItems, Ty.parseItems]
    refine (agrees_parse h hle v).bind ?_
    rintro first _ rfl
    refine (agrees_parseItems h hle rest).bind ?_
    rintro others _ rfl
    exact Pace.agrees_pure rfl

end

end Tandem

end EntityQuery
