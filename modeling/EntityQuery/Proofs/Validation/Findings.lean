import EntityQuery.Proofs.Execution.Evaluation
import EntityQuery.Proofs.Validation.Acceptance

/-!
# What a validation comes across

On a checked schema, what a validation comes across in a query does not depend on the rules that are
checked: they only say what becomes of it.

* `Schema.Reading`: callbacks that do what the scalars of a schema do when they read values.
* `Finding`: a violation, a use of something deprecated, or a supplied value that has to be read.
* `Finding.check`, `Finding.checkAll`: what becomes of findings, by the rules that are checked.
* `Lookup.Tells`: a check comes to the same findings, whatever rules are checked.
* **`Validator.tells_query`**: so do the checks of a query on an entity, and of the queries under its links.
* **`Validator.tells_block`**: and all checks of one query of a document.
* **`Document.tells_validate`**: a document is validated by its names, then by the findings of its queries.
-/

namespace EntityQuery

open Lookup Session

variable {σ α β : Type}

/-! ## Callbacks that read values -/

namespace Callback

theorem pure_pure (a : α) : Callback.Pure (pure a : Callback σ α) := by
  rintro r r' ⟨app, app', h⟩ ⟨_, _, h'⟩
  cases r <;> cases h
  cases r' <;> cases h'
  rfl

theorem pure_throw (f : Fault) : Callback.Pure (throw f : Callback σ α) := by
  rintro r r' ⟨app, app', h⟩ ⟨_, _, h'⟩
  cases r <;> cases h
  cases r' <;> cases h'
  rfl

theorem bind_of_ok {c : Callback σ α} {d : α → Callback σ β} {a : α} {app app' : σ}
    (h : c app = .ok a app') : (c >>= d) app = d a app' := by
  change EStateM.bind c d app = _
  unfold EStateM.bind
  rw [h]

/-- A sequence comes to what its first part fails with, or to what its second part comes to. -/
theorem gives_bind {c : Callback σ α} {d : α → Callback σ β} {r : Except Fault β}
    (h : (c >>= d).Gives r) :
    (∃ f, c.Gives (.error f) ∧ r = .error f) ∨ ∃ a, c.Gives (.ok a) ∧ (d a).Gives r := by
  obtain ⟨app, app', h⟩ := h
  change EStateM.bind c d app = _ at h
  unfold EStateM.bind at h
  cases hc : c app with
  | ok a app₁ =>
    rw [hc] at h
    exact .inr ⟨a, ⟨app, _, hc⟩, _, app', h⟩
  | error f app₁ =>
    rw [hc] at h
    cases r <;> cases h
    exact .inl ⟨f, ⟨app, _, hc⟩, rfl⟩

theorem Pure.bind {c : Callback σ α} {d : α → Callback σ β} (hc : Callback.Pure c)
    (hd : ∀ a, Callback.Pure (d a)) : Callback.Pure (c >>= d) := by
  intro r r' h h'
  rcases gives_bind h with ⟨f, hf, rfl⟩ | ⟨a, ha, hr⟩ <;>
    rcases gives_bind h' with ⟨f', hf', rfl⟩ | ⟨a', ha', hr'⟩
  · cases hc _ _ hf hf'
    rfl
  · cases hc _ _ hf ha'
  · cases hc _ _ ha hf'
  · cases hc _ _ ha ha'
    exact hd a r r' hr hr'

end Callback

/-! ## Findings -/

/-- Every scalar reads a value alike in all states of the application. -/
def Schema.ReadsPurely (schema : Schema σ) : Prop :=
  ∀ t sc v, schema.definition t = .scalar sc → (sc.parse v).Pure

/-- A scalar panics so when it reads some value. -/
def Schema.PanicsReading (schema : Schema σ) (p : Panic) : Prop :=
  ∃ t sc v, schema.definition t = .scalar sc ∧ (sc.parse v).Gives (.error (.panic p))

/-- A callback that does what the scalars of a schema do when they read values. -/
structure Schema.Reading (schema : Schema σ) (c : Callback σ α) : Prop where
  pure : schema.ReadsPurely → c.Pure
  panics : ∀ p, c.Gives (.error (.panic p)) → schema.PanicsReading p

namespace Schema

variable {schema : Schema σ}

theorem reading_pure (a : α) : schema.Reading (pure a) :=
  ⟨fun _ => Callback.pure_pure a, fun _ ⟨_, _, h⟩ => nomatch h⟩

theorem reading_failure (f : Failure) : schema.Reading (throw (.failure f) : Callback σ α) :=
  ⟨fun _ => Callback.pure_throw _, fun _ ⟨_, _, h⟩ => nomatch h⟩

theorem Reading.bind {c : Callback σ α} {d : α → Callback σ β} (hc : schema.Reading c)
    (hd : ∀ a, schema.Reading (d a)) : schema.Reading (c >>= d) where
  pure h := (hc.pure h).bind fun a => (hd a).pure h
  panics p hp := by
    rcases Callback.gives_bind hp with ⟨f, hf, he⟩ | ⟨a, -, ha⟩
    · cases he
      exact hc.panics p hf
    · exact (hd a).panics p ha

end Schema

/-- What a validation comes across in a query. -/
inductive Finding (schema : Schema σ)
  /-- A violation of a rule that is about queries, not about their names. -/
  | violation (r : Rule) (hr : r ≠ .uniqueQueryNames) (message : String) (place : Location)
  /-- A use of something deprecated. -/
  | use (text : String)
  /-- A supplied value: how it is read, and what is said in front of the reason if it is refused. -/
  | value (read : Callback σ Json) (hread : schema.Reading read) (refusal : String) (place : Location)

namespace Finding

variable {schema : Schema σ}

/-- What becomes of a finding, by the rules that are checked. -/
def check (rules : List Rule) : Finding schema → Lookup σ (List Failure)
  | .violation r _ message place => return (⟨schema, rules⟩ : Validator σ).report r message place
  | .use text => do
    modify (Session.warn · .deprecatedUsage text)
    return []
  | .value read _ refusal place => do
    if rules.contains .argumentsOfCorrectType then
      match ← (Lookup.call read).catchFailure with
      | .ok _ => return []
      | .error f =>
        return (⟨schema, rules⟩ : Validator σ).report .argumentsOfCorrectType (refusal ++ f.message)
          place
    else return []

/-- What becomes of findings, one by one. -/
def checkAll (rules : List Rule) : List (Finding schema) → Lookup σ (List Failure)
  | [] => return []
  | f :: rest => do
    let first ← f.check rules
    return first ++ (← checkAll rules rest)

theorem checkAll_append (rules : List Rule) (fs gs : List (Finding schema)) :
    checkAll rules (fs ++ gs) =
      (do let as ← checkAll rules fs; return as ++ (← checkAll rules gs)) := by
  induction fs with
  | nil => simp [checkAll]
  | cons f rest ih =>
    simp only [List.cons_append, checkAll, ih, bind_assoc, pure_bind, List.append_assoc]

end Finding

namespace Lookup

variable {s s' s'' : Session σ} {x x' : Lookup σ α} {f g : α → Lookup σ β}

/-! ## Callbacks of the application -/

/-- Computations that come to the same go on to the same. -/
theorem bind_congr_of (h : x s = x' s) (hf : ∀ a s', x' s = .ok a s' → f a s' = g a s') :
    (x >>= f) s = (x' >>= g) s := by
  cases hx : x' s with
  | ok a s' => rw [bind_of_ok (h.trans hx), bind_of_ok hx, hf a s' hx]
  | error e s' => rw [bind_of_error (h.trans hx), bind_of_error hx]

theorem Comes.alike {Q : Except Fault α → Prop} {a : α} (h : Comes s Q x) (hx : x s = .ok a s') :
    s.Alike s' := by
  obtain ⟨r, s'', hr, hs, -⟩ := h s (.refl s)
  rw [hx] at hr
  cases r <;> cases hr
  exact hs

/-- In sessions alike, the computation calls back into the application and does nothing else. -/
def Calls (s : Session σ) (x : Lookup σ α) (c : Callback σ α) : Prop :=
  ∀ s', s.Alike s' → x s' = Lookup.call c s'

theorem Answers.calls {a : α} (h : Answers x a s) : Calls s x (pure a) := h

theorem Fails.calls {e : Failure} (h : Fails x e s) : Calls s x (throw (.failure e)) := h

theorem call_bind (c : Callback σ α) (d : α → Callback σ β) (s : Session σ) :
    Lookup.call (c >>= d) s = (Lookup.call c >>= fun a => Lookup.call (d a)) s := by
  unfold Lookup.call
  simp only [Bind.bind, EStateM.bind]
  cases c s.app <;> rfl

/-- The computations that do nothing but what the scalars do when they read values. -/
def Kind.reading (schema : Schema σ) (s : Session σ) : Kind s where
  Has x := ∃ c, Calls s x c ∧ schema.Reading c
  of_answers {_ _ a} h := ⟨_, h.calls, Schema.reading_pure a⟩
  of_fails {_ _ f} h := ⟨_, h.calls, Schema.reading_failure f⟩
  bind := by
    rintro α β x f ⟨c, hx, hc⟩ hf
    obtain ⟨d, hd⟩ := Classical.skolem.mp hf
    refine ⟨c >>= d, fun s' hs => ?_, hc.bind fun a => (hd a).2⟩
    rw [call_bind]
    exact bind_congr_of (hx s' hs) fun a s'' h => (hd a).1 s'' (hs.trans ((comes_call c).alike h))
  answers_bind := by
    rintro α β x f a hx ⟨c, hc, hreading⟩
    exact ⟨c, fun s' hs => (bind_of_ok (hx s' hs)).trans (hc s' hs), hreading⟩

theorem reading_parses (schema : Schema σ) (s : Session σ) :
    (Kind.reading schema s).Parses schema :=
  fun sc n v hd => ⟨sc.parse v, fun _ _ => rfl, fun h => h n sc v hd,
    fun _ hp => ⟨n, sc, v, hd, hp⟩⟩

/-! ## Sessions that findings lead to -/

theorem yields_check {schema : Schema σ} (rules : List Rule) (f : Finding schema) :
    Yields s (fun _ => True) (f.check rules) := by
  cases f with
  | violation r hr message place => exact yields_pure trivial
  | use text => exact (yields_warn _ _).bind fun _ _ => yields_pure trivial
  | value read hread refusal place =>
    simp only [Finding.check]
    split
    · refine (comes_call read).catchFailure.bind fun r _ => ?_
      cases r <;> exact yields_pure trivial
    · exact yields_pure trivial

theorem yields_checkAll {schema : Schema σ} (rules : List Rule) (fs : List (Finding schema)) :
    Yields s (fun _ => True) (Finding.checkAll rules fs) := by
  induction fs with
  | nil => exact yields_pure trivial
  | cons f rest ih =>
    exact (yields_check rules f).bind fun _ _ => ih.bind fun _ _ => yields_pure trivial

/-! ## Checks that tell -/

/-- In sessions alike, the check comes to the findings, whatever rules are checked. -/
def Tells (schema : Schema σ) (s : Session σ) (x : List Rule → Lookup σ (List Failure))
    (fs : List (Finding schema)) : Prop :=
  ∀ rules s', s.Alike s' → x rules s' = Finding.checkAll rules fs s'

section

variable {schema : Schema σ} {fs gs : List (Finding schema)}
  {y z : List Rule → Lookup σ (List Failure)}

theorem tells_nil (schema : Schema σ) (s : Session σ) : Tells schema s (fun _ => pure []) [] :=
  fun _ _ _ => rfl

theorem tells_report {r : Rule} (hr : r ≠ .uniqueQueryNames) (message : String) (place : Location) :
    Tells schema s (fun rules => pure ((⟨schema, rules⟩ : Validator σ).report r message place))
      [.violation r hr message place] := by
  intro rules s' _
  change _ = (do return _ ++ (← pure []) : Lookup σ (List Failure)) s'
  simp

theorem Tells.append (hy : Tells schema s y fs) (hz : Tells schema s z gs) :
    Tells schema s (fun rules => do return (← y rules) ++ (← z rules)) (fs ++ gs) := by
  intro rules s' hs
  rw [Finding.checkAll_append]
  refine bind_congr_of (hy rules s' hs) fun as s₁ h₁ => ?_
  exact bind_congr_of (hz rules s₁ (hs.trans ((yields_checkAll _ fs).alike h₁))) fun _ _ _ => rfl

/-- Warning of something deprecated before a check is one more finding. -/
theorem Tells.warn (hy : Tells schema s y fs) (what : String) (reason : Option String) :
    Tells schema s (fun rules => do Validator.warnDeprecated what reason; y rules)
      (.use (Validator.deprecationText what reason) :: fs) := by
  intro rules s' hs
  change y rules (s'.warn _ _) = (do return _ ++ (← _) : Lookup σ (List Failure)) (s'.warn _ _)
  rw [hy rules _ (hs.trans (alike_warn s' _ _))]
  simp

theorem Tells.note (hy : Tells schema s y fs) (e : Entity σ) (l : Label) :
    ∃ gs, Tells schema s (fun rules => do Validator.noteArtifact e l; y rules) gs := by
  unfold Validator.noteArtifact
  cases l.deprecated with
  | true => exact ⟨_, hy.warn _ _⟩
  | false => exact ⟨fs, hy⟩

end

end Lookup

/-! ## Checks of a query -/

namespace Validator

variable {schema : Schema σ} {types : Entries NamedType} {s : Session σ}

theorem tells_attributes (spot : Spot) (e : Entity σ) (names : List String) :
    ∃ fs, Tells schema s (fun rules => (⟨schema, rules⟩ : Validator σ).attributes spot e names)
      fs := by
  induction names with
  | nil => exact ⟨[], tells_nil schema s⟩
  | cons name rest ih =>
    obtain ⟨fs, hrest⟩ := ih
    simp only [attributes]
    cases e.attribute? name with
    | some a => exact ((tells_nil schema s).append hrest).note e a.label
    | none => exact ⟨_, (tells_report (by decide) _ _).append hrest⟩

/-- The act asked for has the same arguments, whatever rules are checked. -/
theorem tells_act (spot : Spot) (e : Entity σ) (name? : Option String) :
    ∃ (fs : List (Finding schema)) (declared : List Argument),
      (∀ a ∈ declared, ∃ b ∈ e.acts, a ∈ b.arguments) ∧
      ∀ (rules : List Rule) (s' : Session σ), (⟨schema, rules⟩ : Validator σ).act spot e name? s' =
        (do return (← Finding.checkAll rules fs, declared) :
          Lookup σ (List Failure × List Argument)) s' := by
  cases name? with
  | none => exact ⟨[], [], fun a ha => absurd ha List.not_mem_nil, fun _ _ => rfl⟩
  | some name =>
    cases ha : e.act? name with
    | none =>
      refine ⟨[.violation .knownArtifacts (by decide) (unknownArtifact e.name .act name)
        (spot.location (some name))], [], fun a ha => absurd ha List.not_mem_nil,
        fun rules s' => ?_⟩
      simp [Validator.act, ha, Finding.checkAll, Finding.check]
    | some a =>
      have hmem : ∀ b ∈ a.arguments, ∃ c ∈ e.acts, b ∈ c.arguments :=
        fun b hb => ⟨a, List.mem_of_find?_eq_some ha, hb⟩
      cases hd : a.label.deprecated with
      | true =>
        refine ⟨[.use (deprecationText (e.name ++ "." ++ a.label.name) a.label.reason)],
          a.arguments, hmem, fun rules s' => ?_⟩
        simp [Validator.act, ha, Finding.checkAll, Finding.check, noteArtifact, warnDeprecated, hd]
      | false =>
        refine ⟨[], a.arguments, hmem, fun rules s' => ?_⟩
        simp [Validator.act, ha, Finding.checkAll, noteArtifact, hd]

/-- A nested query that names another type than its link leads to. -/
theorem tells_nestedType (spot : Spot) (link target : String) (typeName : Option String) :
    ∃ fs, Tells schema s
      (fun rules => pure ((⟨schema, rules⟩ : Validator σ).nestedType spot link target typeName))
      fs := by
  unfold nestedType
  cases typeName with
  | none => exact ⟨[], tells_nil schema s⟩
  | some typeName =>
    simp only
    split
    · exact ⟨[], tells_nil schema s⟩
    · exact ⟨_, tells_report (by decide) _ _⟩

variable (hp : schema.Plain)

include hp

theorem tells_suppliedValue (spot : Spot) {a : Argument} (ha : a.type.Fits schema s)
    (name : String) (value : Json) :
    ∃ fs, Tells schema s
      (fun rules => (⟨schema, rules⟩ : Validator σ).suppliedValue spot a name value) fs := by
  obtain ⟨t, hr, ht⟩ := ha.resolve hp
  obtain ⟨read, hread, hreading⟩ := ht.parse hp (reading_parses schema s) (Nat.le_refl _) value
  refine ⟨[.value read hreading ("Argument \"" ++ name ++ "\" has invalid value " ++ value.render ++ ": ")
    (spot.location none)], fun rules s' hs => ?_⟩
  have hcatch : (t.parse schema schema.find value).catchFailure s' =
      (Lookup.call read).catchFailure s' := by
    unfold catchFailure
    rw [hread s' hs]
  simp only [suppliedValue, Finding.checkAll, Finding.check]
  change (if (!rules.contains .argumentsOfCorrectType) = true then _ else _ : Lookup σ _) s' = _
  cases rules.contains .argumentsOfCorrectType with
  | false => simp
  | true =>
    simp only [Bool.not_true, Bool.false_eq_true, if_false, if_true, bind_assoc]
    rw [bind_of_ok (hr.answers s' hs)]
    refine bind_congr_of hcatch fun r s'' _ => ?_
    cases r <;> simp

/-- The supplied arguments of a query. -/
theorem tells_supplied (spot : Spot) {declared act : List Argument}
    (hd : ∀ a ∈ declared, a.type.Fits schema s) (ha : ∀ a ∈ act, a.type.Fits schema s)
    (given : Entries Json) :
    ∃ fs, Tells schema s
      (fun rules => (⟨schema, rules⟩ : Validator σ).supplied spot declared act given) fs := by
  induction given with
  | nil => exact ⟨[], tells_nil schema s⟩
  | cons entry rest ih =>
    obtain ⟨name, value⟩ := entry
    obtain ⟨fs, hrest⟩ := ih
    simp only [supplied]
    cases hf : (Argument.find? declared name).or (Argument.find? act name) with
    | none => exact ⟨_, (tells_report (by decide) _ _).append hrest⟩
    | some a =>
      have fits : a.type.Fits schema s := by
        rcases Option.or_eq_some_iff.mp hf with h | ⟨-, h⟩
        · exact hd a (List.mem_of_find?_eq_some h)
        · exact ha a (List.mem_of_find?_eq_some h)
      obtain ⟨gs, hfirst⟩ := tells_suppliedValue hp spot fits name value
      exact ⟨_, hfirst.append hrest⟩

/-- The arguments that a query leaves out. Where that is not checked, nothing would be reported. -/
theorem tells_missing (spot : Spot) (given : Entries Json) {declared : List Argument}
    (hd : ∀ a ∈ declared, a.type.Fits schema s) :
    ∃ fs, Tells schema s (fun rules => do
      if (⟨schema, rules⟩ : Validator σ).checks .providedRequiredArguments then
        (⟨schema, rules⟩ : Validator σ).missing spot given declared
      else return []) fs := by
  induction declared with
  | nil => exact ⟨[], fun rules s' _ => by simp [missing, Finding.checkAll]⟩
  | cons a rest ih =>
    obtain ⟨ha, hd⟩ := List.forall_mem_cons.mp hd
    obtain ⟨fs, hrest⟩ := ih hd
    by_cases hg : Entries.has given a.name = true
    · exact ⟨fs, fun rules s' hs => by simpa [missing, hg] using hrest rules s' hs⟩
    obtain ⟨required, hrequired⟩ := a.answers_isRequired hp ha
    cases required with
    | false =>
      refine ⟨fs, fun rules s' hs => ?_⟩
      have hrest := hrest rules s' hs
      cases hc : (⟨schema, rules⟩ : Validator σ).checks .providedRequiredArguments with
      | false => simpa only [hc, Bool.false_eq_true, if_false] using hrest
      | true =>
        simp only [hc, if_true] at hrest ⊢
        simp only [missing, hg, Bool.false_eq_true, if_false]
        rw [bind_of_ok (hrequired s' hs), ← hrest]
        simp
    | true =>
      refine ⟨.violation .providedRequiredArguments (by decide) ("Argument \"" ++ a.name ++
        "\" of type \"" ++ a.type.text (schema.known s) ++ "\" is required but not provided")
        (spot.location none) :: fs, fun rules s' hs => ?_⟩
      have hrest := hrest rules s' hs
      cases hc : (⟨schema, rules⟩ : Validator σ).checks .providedRequiredArguments with
      | false =>
        simp only [hc, Bool.false_eq_true, if_false] at hrest ⊢
        simpa [Finding.checkAll, Finding.check, report, hc] using hrest
      | true =>
        simp only [hc, if_true] at hrest ⊢
        simp only [missing, hg, Bool.false_eq_true, if_false]
        rw [bind_of_ok (hrequired s' hs)]
        simp only [if_true, pure_bind]
        rw [bind_of_ok (answers_refTextOf schema a.type s' hs)]
        simp only [Finding.checkAll, Finding.check, pure_bind]
        exact bind_congr_of hrest fun _ _ _ => rfl

/-- The arguments of a query. -/
theorem tells_arguments (spot : Spot) {declared act : List Argument}
    (hd : ∀ a ∈ declared, a.type.Fits schema s) (ha : ∀ a ∈ act, a.type.Fits schema s)
    (given : Entries Json) :
    ∃ fs, Tells schema s
      (fun rules => (⟨schema, rules⟩ : Validator σ).arguments spot declared act given) fs := by
  obtain ⟨fs, hsupplied⟩ := tells_supplied hp spot hd ha given
  obtain ⟨gs, hmissing⟩ := tells_missing hp spot given
    (fun a h => (List.mem_append.mp h).elim (hd a) (ha a))
  refine ⟨fs ++ gs, fun rules s' hs => ?_⟩
  rw [← hsupplied.append hmissing rules s' hs]
  refine bind_congr_of rfl fun as s'' _ => ?_
  cases (⟨schema, rules⟩ : Validator σ).checks .providedRequiredArguments <;> simp

omit hp

mutual

/-- **What a validation comes across in a query on an entity does not depend on the rules.** -/
theorem tells_query (hp : schema.Plain) (hs : schema.Sound types s) (spot : Spot) {e : Entity σ}
    (he : schema.Knows types e) {declared : List Argument}
    (hd : ∀ a ∈ declared, a.type.Fits schema s) : (q : Query) →
    ∃ fs, Tells schema s (fun rules => (⟨schema, rules⟩ : Validator σ).query spot e declared q) fs
  | ⟨typeName, attributes, act?, arguments, links⟩ => by
    have hsettled := hs.settles hp he
    obtain ⟨fs₁, h₁⟩ := @tells_attributes _ schema s spot e attributes
    obtain ⟨fs₂, declaredByAct, hmem, h₂⟩ := @tells_act _ schema spot e act?
    have hact : ∀ a ∈ declaredByAct, a.type.Fits schema s := fun a ha => by
      obtain ⟨b, hb, hab⟩ := hmem a ha
      exact hsettled.acts b hb a hab
    obtain ⟨fs₃, h₃⟩ := tells_arguments hp spot hd hact arguments
    obtain ⟨fs₄, h₄⟩ := tells_links hp hs spot he links
    refine ⟨fs₁ ++ (fs₂ ++ (fs₃ ++ fs₄)), fun rules s' hs' => ?_⟩
    simp only [Validator.query, Finding.checkAll_append, bind_assoc, pure_bind]
    refine bind_congr_of (h₁ rules s' hs') fun as s₁ has => ?_
    have hs₁ := hs'.trans ((yields_checkAll _ fs₁).alike has)
    rw [bind_congr_of (h₂ rules s₁) fun _ _ _ => rfl]
    simp only [bind_assoc, pure_bind]
    refine bind_congr_of rfl fun bs s₂ hbs => ?_
    have hs₂ := hs₁.trans ((yields_checkAll _ fs₂).alike hbs)
    refine bind_congr_of (h₃ rules s₂ hs₂) fun cs s₃ hcs => ?_
    have hs₃ := hs₂.trans ((yields_checkAll _ fs₃).alike hcs)
    refine bind_congr_of (h₄ rules s₃ hs₃) fun ds s₄ _ => ?_
    simp only [List.append_assoc]

theorem tells_links (hp : schema.Plain) (hs : schema.Sound types s) (spot : Spot) {e : Entity σ}
    (he : schema.Knows types e) : (links : List (String × Query)) →
    ∃ fs, Tells schema s (fun rules => (⟨schema, rules⟩ : Validator σ).links spot e links) fs
  | [] => ⟨[], fun _ _ _ => by simp only [Validator.links]; rfl⟩
  | (name, nested) :: rest => by
    have hsettled := hs.settles hp he
    obtain ⟨fs, hrest⟩ := tells_links hp hs spot he rest
    simp only [Validator.links]
    cases hl : e.link? name with
    | none => exact ⟨_, (tells_report (by decide) _ _).append hrest⟩
    | some l =>
      have hmem : l ∈ e.links := List.mem_of_find?_eq_some hl
      obtain ⟨t, target, hknown, hfollow⟩ := hsettled.links l hmem
      obtain ⟨gs, hquery⟩ := tells_query hp hs (spot.descend name) hknown (hsettled.linked l hmem)
        nested
      obtain ⟨gs', htype⟩ := @tells_nestedType _ schema s (spot.descend name) name target.name
        nested.typeName
      have hfirst := (htype.append hquery).append hrest
      simp only [pure_bind, bind_assoc] at hfirst
      have hlink : Tells schema s (fun rules => do
          let (_, target) ← l.follow schema schema.find e.name
          let found ← (⟨schema, rules⟩ : Validator σ).query (spot.descend name) target l.arguments
            nested
          let others ← (⟨schema, rules⟩ : Validator σ).links spot e rest
          return (⟨schema, rules⟩ : Validator σ).nestedType (spot.descend name) name target.name
            nested.typeName ++ found ++ others) ((gs' ++ gs) ++ fs) :=
        fun rules s' hs' => (bind_of_ok (hfollow.answers s' hs')).trans (hfirst rules s' hs')
      simpa only [pure_bind, bind_assoc] using hlink.note e l.label

end

/-! ## Checks of a document -/

/-- All checks of a query of a document. -/
def block (v : Validator σ) (name : String) (q : Query) : Lookup σ (List Failure) := do
  match ← v.root { queryName := name } q with
  | .error failures => return failures
  | .ok e => v.query { queryName := name } e e.arguments q

theorem queries_cons (v : Validator σ) (name : String) (q : Query) (rest : List (String × Query)) :
    v.queries ((name, q) :: rest) = (do return (← v.block name q) ++ (← v.queries rest)) := by
  rw [queries, block]
  simp only [bind_assoc]
  refine congrArg _ (funext fun r => ?_)
  cases r <;> simp

/-- A query of a document is refused, or it is on an entity that the scan has found. -/
theorem root_cases (hfinds : ∀ name, schema.Finds types s name) (spot : Spot) (q : Query) :
    (∃ message, ∀ rules, Answers ((⟨schema, rules⟩ : Validator σ).root spot q)
      (.error ((⟨schema, rules⟩ : Validator σ).report .knownEntityTypes message
        (spot.location none))) s) ∨
    ∃ e, schema.Knows types e ∧ ∀ rules s', s.Alike s' →
      (⟨schema, rules⟩ : Validator σ).root spot q s' =
        (do
          if e.deprecated then warnDeprecated e.name e.reason
          return .ok e : Lookup σ (Except (List Failure) (Entity σ))) s' := by
  simp only [root]
  cases q.typeName with
  | none => exact .inl ⟨_, fun _ => answers_pure _⟩
  | some typeName =>
    obtain ⟨t?, hknown, hfind⟩ := hfinds typeName
    cases t? with
    | none => exact .inl ⟨_, fun _ => Answers.bind hfind (answers_pure _)⟩
    | some t =>
      cases he : schema.entity? t with
      | none =>
        refine .inl ⟨"Type \"" ++ schema.nameOf t ++ "\" is not an entity", fun rules =>
          Answers.bind hfind ?_⟩
        simp only [he]
        exact answers_pure _
      | some e =>
        refine .inr ⟨e, ⟨t, hknown t rfl, he⟩, fun rules s' hs' => ?_⟩
        simp only
        rw [bind_of_ok (hfind s' hs')]
        simp only [he]

/-- **What a validation comes across in a query of a document does not depend on the rules**, nor on the
other queries. -/
theorem tells_block (hp : schema.Plain) (hs : schema.Sound types s)
    (hfinds : ∀ name, schema.Finds types s name) (name : String) (q : Query) :
    ∃ fs, Tells schema s (fun rules => (⟨schema, rules⟩ : Validator σ).block name q) fs := by
  rcases root_cases hfinds { queryName := name } q with ⟨message, hroot⟩ | ⟨e, he, hroot⟩
  · exact ⟨_, fun rules s' hs' => (bind_of_ok (hroot rules s' hs')).trans
      (tells_report (r := .knownEntityTypes) (by decide) message _ rules s' hs')⟩
  · obtain ⟨fs, hquery⟩ := tells_query hp hs { queryName := name } he (hs.settles hp he).arguments q
    have hblock : ∃ gs, Tells schema s (fun rules => do
        if e.deprecated then warnDeprecated e.name e.reason
        (⟨schema, rules⟩ : Validator σ).query { queryName := name } e e.arguments q) gs := by
      cases e.deprecated with
      | true => exact ⟨_, hquery.warn _ _⟩
      | false => exact ⟨fs, hquery⟩
    refine hblock.imp fun gs h rules s' hs' => ?_
    rw [← h rules s' hs']
    refine (bind_congr_of (hroot rules s' hs') fun _ _ _ => rfl).trans ?_
    cases e.deprecated <;> rfl

theorem tells_queries (findings : String → Query → List (Finding schema))
    (h : ∀ name q, Tells schema s (fun rules => (⟨schema, rules⟩ : Validator σ).block name q)
      (findings name q)) (queries : List (String × Query)) :
    Tells schema s (fun rules => (⟨schema, rules⟩ : Validator σ).queries queries)
      (queries.flatMap fun p => findings p.1 p.2) := by
  induction queries with
  | nil => exact tells_nil schema s
  | cons p rest ih =>
    obtain ⟨name, q⟩ := p
    simp only [queries_cons, List.flatMap_cons]
    exact (h name q).append ih

end Validator

/-- **A document is validated by its names, then by the findings of its queries, one after another.** -/
theorem Document.tells_validate {schema : Schema σ} {types : Entries NamedType} {s : Session σ}
    (hp : schema.Plain) (hs : schema.Sound types s) (hfinds : ∀ name, schema.Finds types s name) :
    ∃ findings : String → Query → List (Finding schema), ∀ (d : Document) (rules : List Rule)
      (s' : Session σ), s.Alike s' → d.validate ⟨schema, rules⟩ s' =
        (do return (⟨schema, rules⟩ : Validator σ).names d ++ (← Finding.checkAll rules
          (d.queries.flatMap fun p => findings p.1 p.2)) : Lookup σ (List Failure)) s' := by
  obtain ⟨findings, h⟩ := Classical.skolem.mp fun name =>
    Classical.skolem.mp (Validator.tells_block hp hs hfinds name)
  exact ⟨findings, fun d rules s' hs' => bind_congr_of
    (Validator.tells_queries findings h d.queries rules s' hs') fun _ _ _ => rfl⟩

end EntityQuery
