import EntityQuery.Proofs.Validation.Findings

/-!
# Rules and queries are independent

Leaving rules out leaves out their violations and nothing else, and what is said of a query is not changed
by the other queries of the document.

* `Failure.rule?`: the rule that a violation says it breaks. `Names.Repeated`: the names that are used twice.
* `Finding.failures`: the violations of findings, where all rules are checked.
* **`Finding.checkAll_of_subset`**: fewer rules give fewer violations of the same findings.
* **`Finding.checkAll_cases`**: what is said of the use of deprecated things does not depend on the rules.
* **`rules_are_independent`**: so it is with documents, on a schema that is built without a loader.
-/

namespace EntityQuery

open Lookup Session

variable {σ : Type}

/-! ## Rules of violations -/

/-- The rule that a violation says it breaks. -/
def Failure.rule? (f : Failure) : Option Rule :=
  match Entries.find? f.info "rule" with
  | some (.string name) => Rule.ofName? name
  | _ => none

/-- Whether a violation breaks one of the rules. -/
def Failure.breaks (rules : List Rule) (f : Failure) : Bool := f.rule?.any rules.contains

/-- A violation of a rule. -/
def Rule.violated (r : Rule) (message : String) (place : Location) : Failure :=
  ((Failure.engine message).withLocations [place]).withInfo "rule" (.string r.name)

@[simp] theorem Rule.rule?_violated (r : Rule) (message : String) (place : Location) :
    (r.violated message place).rule? = some r := by
  change Rule.ofName? r.name = some r
  cases r <;> decide

namespace Validator

variable {schema : Schema σ} {rules rules' : List Rule}

theorem report_eq (rules : List Rule) (r : Rule) (message : String) (place : Location) :
    (⟨schema, rules⟩ : Validator σ).report r message place =
      if r ∈ rules then [r.violated message place] else [] := by
  unfold report checks Rule.violated
  simp only [List.contains_iff_mem]

theorem report_all (r : Rule) (message : String) (place : Location) :
    (⟨schema, Rule.all⟩ : Validator σ).report r message place = [r.violated message place] := by
  rw [report_eq, if_pos (Rule.mem_all r)]

/-- With fewer rules, a violation is reported if its rule is still there. -/
theorem filter_report (h : rules ⊆ rules') (r : Rule) (message : String) (place : Location) :
    ((⟨schema, rules'⟩ : Validator σ).report r message place).filter (Failure.breaks rules) =
      (⟨schema, rules⟩ : Validator σ).report r message place := by
  simp only [report_eq]
  by_cases hr : r ∈ rules
  · simp [h hr, hr, Failure.breaks]
  · by_cases hr' : r ∈ rules' <;> simp [hr, hr', Failure.breaks]

/-! ## Names that are used twice -/

/-- What is said of a query name that is used twice. -/
def repetition (name : String) : Failure :=
  Rule.uniqueQueryNames.violated ("There can be only one query named \"" ++ name ++ "\"")
    (.ofQuery name)

/-- The list has each name once that is used twice, in the order in which they are used first. -/
structure Repeats (names twice : List String) : Prop where
  once : twice.Nodup
  mem : ∀ name, name ∈ twice ↔ 1 < names.count name
  first : twice.Pairwise fun a b => names.idxOf a < names.idxOf b

theorem pairwise_idxOf_eraseDups (p : String → Bool) (names : List String) :
    (names.filter p).eraseDups.Pairwise fun a b => names.idxOf a < names.idxOf b := by
  induction names generalizing p with
  | nil => simp
  | cons name rest ih =>
    have later : ∀ q : String → Bool, q name = false →
        (rest.filter q).eraseDups.Pairwise fun a b =>
          (name :: rest).idxOf a < (name :: rest).idxOf b := by
      intro q hq
      have other : ∀ a ∈ (rest.filter q).eraseDups, a ≠ name := by
        rintro a ha rfl
        rw [List.mem_eraseDups, List.mem_filter, hq] at ha
        exact absurd ha.2 (by simp)
      refine List.Pairwise.imp_of_mem (fun ha hb h => ?_) (ih q)
      rw [List.idxOf_cons_ne _ (other _ ha).symm, List.idxOf_cons_ne _ (other _ hb).symm]
      exact Nat.succ_lt_succ h
    cases hp : p name with
    | false =>
      rw [List.filter_cons_of_neg (by simp [hp])]
      exact later p hp
    | true =>
      rw [List.filter_cons_of_pos hp, List.eraseDups_cons, List.filter_filter]
      refine List.pairwise_cons.mpr ⟨fun b hb => ?_, later _ (by simp)⟩
      have hne : name ≠ b := by
        rintro rfl
        simp [List.mem_eraseDups] at hb
      rw [List.idxOf_cons_self, List.idxOf_cons_ne _ hne]
      exact Nat.succ_pos _

theorem nodup_eraseDups (names : List String) : names.eraseDups.Nodup := by
  have h := pairwise_idxOf_eraseDups (fun _ => true) names
  rw [List.filter_true] at h
  exact h.imp fun hab he => absurd (he ▸ hab) (Nat.lt_irrefl _)

theorem repeats_repeatedNames (names : List String) : Repeats names (repeatedNames names) where
  once := nodup_eraseDups _
  mem name := by
    simp only [repeatedNames, List.mem_eraseDups, List.mem_filter, decide_eq_true_eq,
      and_iff_right_iff_imp]
    exact fun h => List.count_pos_iff.mp (Nat.lt_of_succ_lt h)
  first := pairwise_idxOf_eraseDups _ names

theorem names_all (d : Document) :
    (⟨schema, Rule.all⟩ : Validator σ).names d = (repeatedNames d.names).map repetition := by
  simp only [names, report_all]
  exact List.map_eq_flatMap.symm

theorem filter_names (h : rules ⊆ rules') (d : Document) :
    ((⟨schema, rules'⟩ : Validator σ).names d).filter (Failure.breaks rules) =
      (⟨schema, rules⟩ : Validator σ).names d := by
  simp only [names, List.filter_flatMap, filter_report h]

end Validator

/-! ## Fewer rules -/

namespace Finding

variable {schema : Schema σ} {rules rules' : List Rule} {s₁ s₂ s₁' s₂' s s' : Session σ}

/-- Sessions that differ in the state of the application at most, and not there either where values are
checked. -/
structure Keeps (rules : List Rule) (s s' : Session σ) : Prop where
  warnings : s'.warnings = s.warnings
  app : .argumentsOfCorrectType ∈ rules → s'.app = s.app

theorem Keeps.warn (h : Keeps rules s s') (t : Topic) (message : String) :
    Keeps rules (s.warn t message) (s'.warn t message) where
  warnings := by simp only [Session.warn, h.warnings]
  app hr := h.app hr

/-- What reading a supplied value comes to: nothing, a violation, or a panic. -/
theorem check_value (rules : List Rule) (read : Callback σ Json) (hread : schema.Reading read)
    (refusal : String) (place : Location) (s : Session σ) :
    (value read hread refusal place).check rules s =
      if .argumentsOfCorrectType ∈ rules then
        match read s.app with
        | .ok _ app => .ok [] { s with app }
        | .error (.failure f) app =>
          .ok [Rule.argumentsOfCorrectType.violated (refusal ++ f.message) place] { s with app }
        | .error (.panic p) app => .error (.fault (.panic p)) { s with app }
      else .ok [] s := by
  by_cases hr : Rule.argumentsOfCorrectType ∈ rules
  · simp only [check, List.contains_iff_mem, hr, if_true, Validator.report_eq]
    have hcatch : (Lookup.call read).catchFailure s = match read s.app with
        | .ok w app => .ok (.ok w) { s with app }
        | .error (.failure f) app => .ok (.error f) { s with app }
        | .error (.panic p) app => .error (.fault (.panic p)) { s with app } := by
      unfold catchFailure Lookup.call
      cases read s.app with
      | ok w app => rfl
      | error f app => cases f <;> rfl
    cases hc : read s.app with
    | ok w app => 
      rw [hc] at hcatch
      exact bind_of_ok hcatch
    | error f app =>
      rw [hc] at hcatch
      cases f with
      | failure f => exact bind_of_ok hcatch
      | panic p => exact bind_of_error hcatch
  · simp only [check, List.contains_iff_mem, hr, if_false]
    rfl

/-- **Fewer rules give fewer violations** of the same finding. -/
theorem check_of_subset (h : rules ⊆ rules') {f : Finding schema} {fs : List Failure}
    (hs : Keeps rules s₁ s₂) (hrun : f.check rules' s₁ = .ok fs s₁') :
    ∃ s₂', f.check rules s₂ = .ok (fs.filter (Failure.breaks rules)) s₂' ∧
      Keeps rules s₁' s₂' := by
  cases f with
  | violation r hr message place =>
    cases hrun
    exact ⟨s₂, congrArg (fun fs => EStateM.Result.ok fs s₂) (Validator.filter_report h r message place).symm, hs⟩
  | use text =>
    cases hrun
    exact ⟨_, rfl, hs.warn _ _⟩
  | value read hread refusal place =>
    rw [check_value] at hrun ⊢
    by_cases hr : Rule.argumentsOfCorrectType ∈ rules
    · rw [if_pos (h hr)] at hrun
      rw [if_pos hr, hs.app hr]
      cases hc : read s₁.app with
      | ok w app =>
        rw [hc] at hrun
        cases hrun
        exact ⟨_, rfl, hs.warnings, fun _ => rfl⟩
      | error f app =>
        rw [hc] at hrun
        cases f with
        | panic p => cases hrun
        | failure f =>
          cases hrun
          exact ⟨{ s₂ with app }, by simp [Failure.breaks, hr], hs.warnings, fun _ => rfl⟩
    · -- the value is not read, so the state of the application may differ from here on
      rw [if_neg hr]
      have silent : fs.filter (Failure.breaks rules) = [] ∧ s₁'.warnings = s₁.warnings := by
        split at hrun
        · split at hrun <;> cases hrun
          · exact ⟨rfl, rfl⟩
          · exact ⟨by simp [Failure.breaks, hr], rfl⟩
        · cases hrun
          exact ⟨rfl, rfl⟩
      rw [silent.1]
      exact ⟨s₂, rfl, hs.warnings.trans silent.2.symm, fun h' => absurd h' hr⟩

/-- **Fewer rules give fewer violations** of the same findings, in the same order. -/
theorem checkAll_of_subset (h : rules ⊆ rules') {fs : List (Finding schema)} {as : List Failure}
    (hs : Keeps rules s₁ s₂) (hrun : checkAll rules' fs s₁ = .ok as s₁') :
    ∃ s₂', checkAll rules fs s₂ = .ok (as.filter (Failure.breaks rules)) s₂' ∧
      Keeps rules s₁' s₂' := by
  induction fs generalizing s₁ s₂ as with
  | nil =>
    cases hrun
    exact ⟨s₂, rfl, hs⟩
  | cons f rest ih =>
    obtain ⟨first, t₁, hfirst, hrun⟩ := bind_eq_ok.mp hrun
    obtain ⟨others, t₂, hothers, hrun⟩ := bind_eq_ok.mp hrun
    cases hrun
    obtain ⟨u₁, hfirst', hs₁⟩ := check_of_subset h hs hfirst
    obtain ⟨u₂, hothers', hs₂⟩ := ih hs₁ hothers
    refine ⟨u₂, ?_, hs₂⟩
    rw [checkAll, bind_of_ok hfirst', bind_of_ok hothers', List.filter_append]
    rfl

/-! ## What does not depend on the rules -/

/-- What is said of something deprecated that a finding is a use of. -/
def use? : Finding schema → Option String
  | .use text => some text
  | _ => none

/-- Whatever rules are checked, a finding is dealt with, and the warnings are the same, unless a value is
read and a scalar panics. -/
theorem check_cases (rules : List Rule) (f : Finding schema) (s : Session σ) :
    (∃ as s', f.check rules s = .ok as s' ∧
      s'.warnings = f.use?.toList.foldl (·.warn ⟨.single .deprecatedUsage, ·⟩) s.warnings) ∨
    .argumentsOfCorrectType ∈ rules ∧ ∃ p s', schema.PanicsReading p ∧
      f.check rules s = .error (.fault (.panic p)) s' := by
  cases f with
  | violation r hr message place => exact .inl ⟨_, s, rfl, rfl⟩
  | use text => exact .inl ⟨_, _, rfl, rfl⟩
  | value read hread refusal place =>
    rw [check_value]
    by_cases hr : Rule.argumentsOfCorrectType ∈ rules
    · rw [if_pos hr]
      cases hc : read s.app with
      | ok w app => exact .inl ⟨_, _, rfl, rfl⟩
      | error f app =>
        cases f with
        | failure f => exact .inl ⟨_, _, rfl, rfl⟩
        | panic p => exact .inr ⟨hr, p, _, hread.panics p ⟨s.app, app, hc⟩, rfl⟩
    · rw [if_neg hr]
      exact .inl ⟨_, s, rfl, rfl⟩

theorem checkAll_cases (rules : List Rule) (fs : List (Finding schema)) (s : Session σ) :
    (∃ as s', checkAll rules fs s = .ok as s' ∧
      s'.warnings =
        (fs.filterMap use?).foldl (·.warn ⟨.single .deprecatedUsage, ·⟩) s.warnings) ∨
    .argumentsOfCorrectType ∈ rules ∧ ∃ p s', schema.PanicsReading p ∧
      checkAll rules fs s = .error (.fault (.panic p)) s' := by
  induction fs generalizing s with
  | nil => exact .inl ⟨[], s, rfl, rfl⟩
  | cons f rest ih =>
    rw [checkAll]
    rcases check_cases rules f s with ⟨as, s₁, hf, hw⟩ | ⟨hr, p, s₁, hp, hf⟩
    · rw [bind_of_ok hf]
      rcases ih s₁ with ⟨bs, s₂, hrest, hw'⟩ | ⟨hr, p, s₂, hp, hrest⟩
      · refine .inl ⟨as ++ bs, s₂, bind_of_ok hrest, ?_⟩
        rw [hw', hw]
        cases hu : f.use? <;> simp [hu]
      · exact .inr ⟨hr, p, s₂, hp, bind_of_error hrest⟩
    · exact .inr ⟨hr, p, s₁, hp, bind_of_error hf⟩

/-! ## Violations of all rules -/

/-- The violations of a finding, where all rules are checked. -/
def failures : Finding schema → Callback σ (List Failure)
  | .violation r _ message place => pure [r.violated message place]
  | .use _ => pure []
  | .value read _ refusal place => fun app =>
    match read app with
    | .ok _ app => .ok [] app
    | .error (.failure f) app =>
      .ok [Rule.argumentsOfCorrectType.violated (refusal ++ f.message) place] app
    | .error (.panic p) app => .error (.panic p) app

/-- The violations of findings, one by one. -/
def allFailures : List (Finding schema) → Callback σ (List Failure)
  | [] => pure []
  | f :: rest => do
    let first ← f.failures
    return first ++ (← allFailures rest)

theorem pure_failures (h : schema.ReadsPurely) (f : Finding schema) : f.failures.Pure := by
  cases f with
  | violation r hr message place => exact Callback.pure_pure _
  | use text => exact Callback.pure_pure _
  | value read hread refusal place =>
    rintro r r' ⟨app, app₁, hr⟩ ⟨app', app₁', hr'⟩
    have same := hread.pure h _ _ (Callback.gives_value read app) (Callback.gives_value read app')
    simp only [failures] at hr hr'
    unfold Callback.value at same
    cases hc : read app <;> cases hc' : read app' <;> rw [hc, hc'] at same <;> cases same <;>
      rw [hc] at hr <;> rw [hc'] at hr'
    · cases r <;> cases hr
      cases r' <;> cases hr'
      rfl
    · next f _ _ =>
      cases f <;> cases r <;> cases hr <;> cases r' <;> cases hr' <;> rfl

theorem pure_allFailures (h : schema.ReadsPurely) (fs : List (Finding schema)) :
    (allFailures fs).Pure := by
  induction fs with
  | nil => exact Callback.pure_pure _
  | cons f rest ih =>
    exact (pure_failures h f).bind fun _ => ih.bind fun _ => Callback.pure_pure _

/-- What is said of a query is not said of the names. -/
theorem rule?_of_failures {f : Finding schema} {fs : List Failure} {app app' : σ}
    (h : f.failures app = .ok fs app') : ∀ g ∈ fs, g.rule? ≠ some .uniqueQueryNames := by
  cases f with
  | violation r hr message place =>
    cases h
    simpa using hr
  | use text =>
    cases h
    simp
  | value read hread refusal place =>
    simp only [failures] at h
    split at h <;> cases h <;> simp

theorem rule?_of_allFailures {fs : List (Finding schema)} {as : List Failure}
    (h : (allFailures fs).Gives (.ok as)) : ∀ g ∈ as, g.rule? ≠ some .uniqueQueryNames := by
  induction fs generalizing as with
  | nil =>
    obtain ⟨app, app', h⟩ := h
    cases h
    simp
  | cons f rest ih =>
    rcases Callback.gives_bind h with ⟨_, -, he⟩ | ⟨first, ⟨_, _, hfirst⟩, h⟩
    · cases he
    rcases Callback.gives_bind h with ⟨_, -, he⟩ | ⟨others, hothers, ⟨_, _, h⟩⟩
    · cases he
    cases h
    intro g hg
    rcases List.mem_append.mp hg with hg | hg
    · exact rule?_of_failures hfirst g hg
    · exact ih hothers g hg

theorem check_all {f : Finding schema} {fs : List Failure} (h : f.check Rule.all s = .ok fs s') :
    f.failures s.app = .ok fs s'.app := by
  cases f with
  | violation r hr message place =>
    rw [check, Validator.report_all] at h
    cases h
    rfl
  | use text =>
    cases h
    rfl
  | value read hread refusal place =>
    rw [check_value, if_pos (Rule.mem_all _)] at h
    simp only [failures]
    split at h <;> cases h <;> simp [*]

theorem checkAll_all {fs : List (Finding schema)} {as : List Failure}
    (h : checkAll Rule.all fs s = .ok as s') : allFailures fs s.app = .ok as s'.app := by
  induction fs generalizing s as with
  | nil =>
    cases h
    rfl
  | cons f rest ih =>
    obtain ⟨first, s₁, hfirst, h⟩ := bind_eq_ok.mp h
    obtain ⟨others, s₂, hothers, h⟩ := bind_eq_ok.mp h
    cases h
    exact (Callback.bind_of_ok (check_all hfirst)).trans (Callback.bind_of_ok (ih hothers))

/-- The violations of many queries are those of each query, one after another. -/
theorem checkAll_flatMap {β : Type} {findings : β → List (Finding schema)} {qs : List β}
    {as : List Failure} (h : checkAll Rule.all (qs.flatMap findings) s = .ok as s') :
    ∃ blocks, (qs.mapM fun q => allFailures (findings q)) s.app = .ok blocks s'.app ∧
      as = blocks.flatten := by
  induction qs generalizing s as with
  | nil =>
    cases h
    exact ⟨[], rfl, rfl⟩
  | cons q rest ih =>
    rw [List.flatMap_cons, checkAll_append] at h
    obtain ⟨first, s₁, hfirst, h⟩ := bind_eq_ok.mp h
    obtain ⟨others, s₂, hothers, h⟩ := bind_eq_ok.mp h
    cases h
    obtain ⟨blocks, hblocks, rfl⟩ := ih hothers
    refine ⟨first :: blocks, ?_, rfl⟩
    rw [List.mapM_cons]
    exact (Callback.bind_of_ok (checkAll_all hfirst)).trans (Callback.bind_of_ok hblocks)

end Finding

/-! ## Documents -/

/-- **Rules and queries are independent.** On a schema that is built without a loader, what is said of a query
of a document is a matter of its name and content, and of the state in which scalars read its values, if they
look at it. A document that is validated by all rules is told the names that it uses twice, then what is said of
its queries, in order. By fewer rules, it is told the violations of these, in the same order. What is deprecated
is warned of whatever rules are checked. A validation comes to an end unless it reads a value and a scalar
panics. -/
theorem rules_are_independent {schema : Schema σ} (hl : schema.loader? = none) {declared : List Ty}
    {app : σ} {s₀ : Session σ} (hbuild : schema.build declared false { app } = .ok () s₀) :
    ∃ (block : String → Query → Callback σ (List Failure)) (uses : String → Query → List String),
      (schema.ReadsPurely → ∀ name q, (block name q).Pure) ∧
      (∀ name q fs, (block name q).Gives (.ok fs) → ∀ f ∈ fs, f.rule? ≠ some .uniqueQueryNames) ∧
      ∀ (d : Document) (s : Session σ), s₀.Alike s →
        (∀ fs s', d.validate ⟨schema, Rule.all⟩ s = .ok fs s' → ∃ twice blocks,
          Validator.Repeats d.names twice ∧
          (d.queries.mapM fun p => block p.1 p.2) s.app = .ok blocks s'.app ∧
          fs = twice.map Validator.repetition ++ blocks.flatten) ∧
        (∀ rules rules' fs s', rules ⊆ rules' → d.validate ⟨schema, rules'⟩ s = .ok fs s' →
          ∃ s'', d.validate ⟨schema, rules⟩ s = .ok (fs.filter (Failure.breaks rules)) s'') ∧
        ∀ rules,
          (∃ fs s', d.validate ⟨schema, rules⟩ s = .ok fs s' ∧
            s'.warnings = (d.queries.flatMap fun p => uses p.1 p.2).foldl
              (·.warn ⟨.single .deprecatedUsage, ·⟩) s.warnings) ∨
          .argumentsOfCorrectType ∈ rules ∧ ∃ p s', schema.PanicsReading p ∧
            d.validate ⟨schema, rules⟩ s = .error (.fault (.panic p)) s' := by
  obtain ⟨types, hs, hfinds⟩ := Schema.sound_of_build hl hbuild
  obtain ⟨findings, hvalidate⟩ := Document.tells_validate (Schema.plain_of_eager hl) hs hfinds
  refine ⟨fun name q => Finding.allFailures (findings name q),
    fun name q => (findings name q).filterMap Finding.use?,
    fun h name q => Finding.pure_allFailures h _, fun name q fs => Finding.rule?_of_allFailures,
    fun d s hs' => ⟨fun fs s' h => ?_, fun rules rules' fs s' hsub h => ?_, fun rules => ?_⟩⟩
  · rw [hvalidate d _ s hs', Validator.names_all] at h
    obtain ⟨found, s₁, hfound, h⟩ := bind_eq_ok.mp h
    cases h
    obtain ⟨blocks, hblocks, rfl⟩ := Finding.checkAll_flatMap hfound
    exact ⟨_, blocks, Validator.repeats_repeatedNames _, hblocks, rfl⟩
  · rw [hvalidate d _ s hs'] at h ⊢
    obtain ⟨found, s₁, hfound, h⟩ := bind_eq_ok.mp h
    cases h
    obtain ⟨s₂, hfound', -⟩ := Finding.checkAll_of_subset hsub ⟨rfl, fun _ => rfl⟩ hfound
    rw [bind_of_ok hfound', List.filter_append, Validator.filter_names hsub]
    exact ⟨s₂, rfl⟩
  · rw [hvalidate d _ s hs']
    rcases Finding.checkAll_cases rules (d.queries.flatMap fun p => findings p.1 p.2) s with
      ⟨fs, s', h, hw⟩ | ⟨hr, p, s', hp, h⟩
    · rw [bind_of_ok h]
      exact .inl ⟨_, s', rfl, by rw [hw, List.filterMap_flatMap]⟩
    · exact .inr ⟨hr, p, s', hp, bind_of_error h⟩

namespace Sample

/-- A schema of one entity, which is deprecated, with an argument that is refused each time for another
reason. -/
def fickle : Schema Nat where
  define id :=
    if id.serial = 0 then .entity {
      name := "User"
      resolve _ _ := pure (.ready .null)
      deprecated := true
      reason := some "use Person"
      arguments := [{ name := "key", type := .direct (.base (.defined ⟨1, 0⟩)) }] }
    else .scalar ((Scalar.custom "Key" fun v => pure v).withParse fun _ n =>
      .error (.failure (.user (toString n))) (n + 1))
  target _ := .base (.standard .string)
  limit := 30

/-- The session that the schema starts with. -/
def fickleSession : Session Nat where
  registry := [("String", .ready (.standard .string)), ("Int", .ready (.standard .int)),
    ("Float", .ready (.standard .float)), ("Boolean", .ready (.standard .boolean)),
    ("ID", .ready (.standard .id)), ("User", .ready (.defined ⟨0, 0⟩)),
    ("Key", .ready (.defined ⟨1, 0⟩))]
  complete := true
  app := 0

theorem fickle_built :
    fickle.build [.base (.defined ⟨0, 0⟩)] false { app := 0 } = .ok () fickleSession := by
  unfold Schema.build Schema.check Schema.checkFound Schema.scan
  rw [Schema.find_eq_of_eager rfl]
  rfl

/-- A query that breaks three rules. -/
def broken : Query where
  typeName := some "User"
  attributes := ["age"]
  act := none
  arguments := [("key", .bool true), ("size", .null)]
  links := []

/-- A document that breaks them twice, under one name. -/
def brokenTwice : Document where
  queries := [("q", broken), ("q", broken)]

/-- The violations that a validation reports, with their rules and messages. -/
def complaints (rules : List Rule) : Option (List (Option Rule × String)) :=
  match brokenTwice.validate ⟨fickle, rules⟩ fickleSession with
  | .ok fs _ => some (fs.map fun f => (f.rule?, f.message))
  | .error _ _ => none

end Sample

theorem rules_are_independent_sample :
    ∃ fs s' s'', Sample.brokenTwice.validate ⟨Sample.fickle, Rule.all⟩ Sample.fickleSession =
        .ok fs s' ∧ fs.length = 7 ∧
      Sample.brokenTwice.validate ⟨Sample.fickle, [.argumentsOfCorrectType, .uniqueQueryNames]⟩
          Sample.fickleSession =
        .ok (fs.filter (Failure.breaks [.argumentsOfCorrectType, .uniqueQueryNames])) s'' := by
  obtain ⟨block, uses, -, -, h⟩ := @rules_are_independent _ Sample.fickle rfl _ _ _
    Sample.fickle_built
  obtain ⟨-, hfewer, -⟩ := h Sample.brokenTwice Sample.fickleSession (.refl _)
  have hlength : (Sample.complaints Rule.all).map List.length = some 7 := by decide +kernel
  unfold Sample.complaints at hlength
  cases hv : Sample.brokenTwice.validate ⟨Sample.fickle, Rule.all⟩ Sample.fickleSession with
  | error e s' => simp [hv] at hlength
  | ok fs s' =>
    obtain ⟨s'', h''⟩ := hfewer _ _ fs s' (fun r _ => Rule.mem_all r) hv
    exact ⟨fs, s', s'', rfl, by simpa [hv] using hlength, h''⟩

end EntityQuery
