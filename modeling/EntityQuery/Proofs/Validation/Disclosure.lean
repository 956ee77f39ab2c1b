import EntityQuery.Proofs.Schema.Reading
import EntityQuery.Validation.Check

/-!
# What violations say of refused values

A supplied value that a scalar cannot read is a violation, and the violation repeats the message of the
scalar's failure; it is shown to the client, whether or not the failure may be. Nothing else in the
violations of a document depends on such messages.

* `Validator.refusal`: the violation of a refused value; `Validator.Discloses`: violations that are the same,
  but for the message that a refusal repeats.
* **`Document.checksAlike_validate`**: on schemas whose scalars read values alike, a document has such violations.
* **`violations_disclose_refusals_only`**: so masked violations are the same, but for such messages.
* `refusal_discloses`: they need not be the same.
-/

namespace EntityQuery

open Lookup

variable {σ : Type}

namespace Lookup

theorem alike_catchFailure {α β : Type} {A : α → β → Prop} {x : Lookup σ α} {x' : Lookup σ β}
    (h : Lookup.Alike A x x') :
    Lookup.Alike (ExceptRel Failure.Alike A) x.catchFailure x'.catchFailure := by
  intro s
  have hx := h s
  unfold catchFailure
  revert hx
  generalize x s = r
  generalize x' s = r'
  rintro (⟨hab, s⟩ | ⟨he, s⟩)
  · exact .ok (.ok hab) s
  · cases he with
    | defect d => exact .error (.defect d) s
    | exhausted => exact .error .exhausted s
    | fault hf =>
      cases hf with
      | failure hf => exact .ok (.error hf) s
      | panic p p' => exact .error (.fault (.panic p p')) s

end Lookup

namespace Validator

/-- The violation of a supplied value that is refused with a failure: its message is repeated. -/
def refusal (text : String) (place : Location) (f : Failure) : Failure :=
  ((Failure.engine (text ++ f.message)).withLocations [place]).withInfo "rule"
    (.string Rule.argumentsOfCorrectType.name)

/-- Violations that are the same, but for the messages of unsafe failures that refusals repeat. -/
inductive Discloses (rules : List Rule) : Failure → Failure → Prop
  | same (f : Failure) : Discloses rules f f
  | refused (hr : Rule.argumentsOfCorrectType ∈ rules) (text : String) (place : Location)
    {f g : Failure} (h : f.Alike g) (hs : f.safe = false) :
    Discloses rules (refusal text place f) (refusal text place g)

theorem forall₂_discloses_refl (rules : List Rule) (fs : List Failure) :
    List.Forall₂ (Discloses rules) fs fs :=
  List.forall₂_same.mpr fun f _ => .same f

/-! ## Validating -/

section

variable {S S' : Schema σ} (h : S.ReadsAlike S') (rules : List Rule)

/-- Likeness of checks: they find violations that are the same, but for what refusals repeat. -/
abbrev ChecksAlike (rules : List Rule) (x x' : Lookup σ (List Failure)) : Prop :=
  Lookup.Alike (List.Forall₂ (Discloses rules)) x x'

theorem checksAlike_self (x : Lookup σ (List Failure)) : ChecksAlike rules x x := by
  intro s
  cases x s with
  | ok fs s => exact .ok (forall₂_discloses_refl rules fs) s
  | error e s => exact .error (.refl e) s

theorem ChecksAlike.append {x x' y y' : Lookup σ (List Failure)} (hx : ChecksAlike rules x x')
    (hy : ChecksAlike rules y y') :
    ChecksAlike rules (do return (← x) ++ (← y)) (do return (← x') ++ (← y')) :=
  hx.bind fun _ _ hfg => hy.bind fun _ _ hfg' => .pure (List.rel_append hfg hfg')

include h

/-- **A refused value.** If the failure that it is refused with is safe, the refusals are the same. -/
theorem checksAlike_suppliedValue (spot : Spot) (a : Argument) (name : String) (value : Json) :
    ChecksAlike rules (suppliedValue ⟨S, rules⟩ spot a name value)
      (suppliedValue ⟨S', rules⟩ spot a name value) := by
  by_cases hr : Rule.argumentsOfCorrectType ∈ rules
  · have hc : ∀ S : Schema σ, (⟨S, rules⟩ : Validator σ).checks .argumentsOfCorrectType = true :=
      fun _ => List.contains_iff_mem.mpr hr
    unfold suppliedValue
    simp only [hc, Bool.not_true, Bool.false_eq_true, if_false, h.find_eq, h.resolve_eq]
    refine (alike_self _).bind ?_
    rintro t _ rfl
    refine (alike_catchFailure (h.parse S'.find t value)).bind ?_
    rintro r r' (hv | @⟨f, g, hfg⟩)
    · exact .pure .nil
    · refine .pure ?_
      simp only [report, hc, if_true]
      refine .cons ?_ .nil
      by_cases hs : f.safe = true
      · rw [hfg.message hs]
        exact .same _
      · exact .refused hr _ _ hfg (by simpa using hs)
  · have hc : ∀ S : Schema σ, (⟨S, rules⟩ : Validator σ).checks .argumentsOfCorrectType = false :=
      fun _ => by simpa [checks] using hr
    unfold suppliedValue
    simp only [hc, Bool.not_false, if_true]
    exact checksAlike_self rules _

theorem checksAlike_supplied (spot : Spot) (declared act : List Argument) (given : Entries Json) :
    ChecksAlike rules (supplied ⟨S, rules⟩ spot declared act given)
      (supplied ⟨S', rules⟩ spot declared act given) := by
  induction given with
  | nil => exact checksAlike_self rules _
  | cons p rest ih =>
    obtain ⟨name, value⟩ := p
    unfold supplied
    cases (Argument.find? declared name).or (Argument.find? act name) with
    | some a => exact (checksAlike_suppliedValue h rules spot a name value).append rules ih
    | none => exact (checksAlike_self rules (pure _)).append rules ih

theorem missing_eq (spot : Spot) (given : Entries Json) (declared : List Argument) :
    missing ⟨S, rules⟩ spot given declared = missing ⟨S', rules⟩ spot given declared := by
  induction declared with
  | nil => rfl
  | cons a rest ih =>
    unfold missing
    simp only [h.find_eq, h.isRequired_eq, h.refTextOf_eq, ih]
    rfl

theorem checksAlike_arguments (spot : Spot) (declared act : List Argument) (given : Entries Json) :
    ChecksAlike rules (arguments ⟨S, rules⟩ spot declared act given)
      (arguments ⟨S', rules⟩ spot declared act given) := by
  have hc : (⟨S, rules⟩ : Validator σ).checks .providedRequiredArguments =
      (⟨S', rules⟩ : Validator σ).checks .providedRequiredArguments := rfl
  unfold arguments
  refine (checksAlike_supplied h rules spot declared act given).bind fun fs gs hfg => ?_
  rw [missing_eq h, hc]
  split
  · exact (checksAlike_self rules _).bind fun _ _ h' => .pure (List.rel_append hfg h')
  · exact .pure hfg

omit h in
theorem attributes_eq (S S' : Schema σ) (spot : Spot) (e : Entity σ) (names : List String) :
    attributes ⟨S, rules⟩ spot e names = attributes ⟨S', rules⟩ spot e names := by
  induction names with
  | nil => rfl
  | cons name rest ih =>
    unfold attributes
    rw [ih]
    rfl

omit h in
theorem act_eq (S S' : Schema σ) (spot : Spot) (e : Entity σ) (name? : Option String) :
    act ⟨S, rules⟩ spot e name? = act ⟨S', rules⟩ spot e name? := by
  cases name? <;> rfl

omit h

mutual

/-- **The violations of a query**, and of the queries under its links. -/
theorem checksAlike_query (h : S.ReadsAlike S') (spot : Spot) (e : Entity σ)
    (declared : List Argument) : (q : Query) →
    ChecksAlike rules (query ⟨S, rules⟩ spot e declared q) (query ⟨S', rules⟩ spot e declared q)
  | ⟨typeName, names, act, given, links⟩ => by
    unfold query
    rw [attributes_eq rules S S', act_eq rules S S']
    refine (checksAlike_self rules _).bind fun as as' ha => ?_
    refine (alike_self _).bind ?_
    rintro ⟨ofAct, declaredByAct⟩ _ rfl
    refine (checksAlike_arguments h rules spot declared declaredByAct given).bind
      fun bs bs' hb => ?_
    refine (checksAlike_links h spot e links).bind fun cs cs' hc => .pure ?_
    exact List.rel_append (List.rel_append (List.rel_append ha (forall₂_discloses_refl rules _)) hb) hc

theorem checksAlike_links (h : S.ReadsAlike S') (spot : Spot) (e : Entity σ) :
    (ls : List (String × Query)) →
    ChecksAlike rules (links ⟨S, rules⟩ spot e ls) (links ⟨S', rules⟩ spot e ls)
  | [] => checksAlike_self rules _
  | (name, nested) :: rest => by
    have hrest := checksAlike_links h spot e rest
    unfold links
    cases e.link? name with
    | none => exact (checksAlike_self rules (pure _)).append rules hrest
    | some link =>
      simp only [h.find_eq, h.follow_eq]
      refine (alike_self _).bind ?_
      rintro ⟨⟩ _ rfl
      refine (alike_self _).bind ?_
      rintro ⟨t, target⟩ _ rfl
      refine (checksAlike_query h (spot.descend name) target link.arguments nested).bind
        fun fs gs hfg => ?_
      exact ChecksAlike.append rules
        (.pure (List.rel_append (forall₂_discloses_refl rules _) hfg)) hrest

end

include h

theorem root_eq (spot : Spot) (q : Query) :
    root ⟨S, rules⟩ spot q = root ⟨S', rules⟩ spot q := by
  unfold root
  simp only [h.find_eq, h.entity?_eq, h.nameOf_eq]
  rfl

theorem checksAlike_queries (qs : List (String × Query)) :
    ChecksAlike rules (queries ⟨S, rules⟩ qs) (queries ⟨S', rules⟩ qs) := by
  induction qs with
  | nil => exact checksAlike_self rules _
  | cons p rest ih =>
    obtain ⟨name, q⟩ := p
    unfold queries
    simp only [root_eq h rules]
    refine (alike_self _).bind ?_
    rintro r _ rfl
    cases r with
    | error failures => exact ChecksAlike.append rules (checksAlike_self rules (pure failures)) ih
    | ok e => exact ChecksAlike.append rules (checksAlike_query rules h _ e e.arguments q) ih

end

end Validator

open Validator

/-- **The violations of a document**, on schemas whose scalars read values alike. -/
theorem Document.checksAlike_validate {S S' : Schema σ} (h : S.ReadsAlike S') (rules : List Rule)
    (d : Document) : ChecksAlike rules (d.validate ⟨S, rules⟩) (d.validate ⟨S', rules⟩) :=
  (checksAlike_queries h rules d.queries).bind fun _ _ hfg =>
    .pure (List.rel_append (forall₂_discloses_refl rules _) hfg)

/-! ## What a client is shown -/

/-- Violations of which a client is shown the same, but for the messages of unsafe failures that refusals
repeat. -/
def ShownAlike (m : Masking) (mask : String) (rules : List Rule) (fs gs : List Failure) : Prop :=
  ∃ shown shown', m.formatAll mask fs = .ok shown ∧ m.formatAll mask gs = .ok shown' ∧
    List.Forall₂ (fun j j' => j = j' ∨ Rule.argumentsOfCorrectType ∈ rules ∧
      ∃ text place f g, f.Alike g ∧ f.safe = false ∧ j = m.shown mask (refusal text place f) ∧
        j' = m.shown mask (refusal text place g)) shown shown'

section

variable {m : Masking} (hm : m.flags.Discreet) (mask : String)

include hm

theorem formatAll_of_discreet (fs : List Failure) :
    m.formatAll mask fs = .ok (fs.map (m.shown mask)) := by
  induction fs with
  | nil => rfl
  | cons f rest ih =>
    have hf : m.format mask f = .ok (m.shown mask f) := by
      unfold Masking.format
      rw [Masking.rethrows_eq_false hm]
      rfl
    rw [Masking.formatAll, hf, ih]
    rfl

/-- **What masked violations disclose.** On schemas that differ only in what scalars say where they cannot
read a value, a document is validated alike, and what a client is shown is the same, but for the messages
that the refusals of values repeat. Where values are not checked, it is the same. -/
theorem violations_disclose_refusals_only {S S' : Schema σ} (h : S.ReadsAlike S')
    (rules : List Rule) (d : Document) :
    Lookup.Alike (ShownAlike m mask rules) (d.validate ⟨S, rules⟩) (d.validate ⟨S', rules⟩) ∧
    (Rule.argumentsOfCorrectType ∉ rules →
      Lookup.Alike (fun fs gs => m.formatAll mask fs = m.formatAll mask gs)
        (d.validate ⟨S, rules⟩) (d.validate ⟨S', rules⟩)) := by
  have hv := Document.checksAlike_validate h rules d
  refine ⟨hv.mono fun fs gs hfg => ?_, fun hr => hv.mono fun fs gs hfg => ?_⟩
  · refine ⟨_, _, formatAll_of_discreet hm mask fs, formatAll_of_discreet hm mask gs, ?_⟩
    refine List.forall₂_map_left_iff.mpr (List.forall₂_map_right_iff.mpr (hfg.imp ?_))
    rintro f g (- | ⟨hr, text, place, hfg, hs⟩)
    · exact .inl rfl
    · exact .inr ⟨hr, text, place, _, _, hfg, hs, rfl, rfl⟩
  · have same : List.Forall₂ Eq fs gs := hfg.imp fun f g hd => by
      cases hd with
      | same => rfl
      | refused hr' => exact absurd hr' hr
    rw [List.forall₂_eq_eq_eq] at same
    rw [same]

end

/-! ## The message of a refused value is shown -/

namespace Sample

/-- A schema of one entity, with an argument that cannot be read; why, no client may know. -/
def guarded (secret : String) : Schema Unit where
  define id :=
    if id.serial = 0 then .entity {
      name := "Vault"
      resolve _ _ := pure (.ready .null)
      arguments := [{ name := "key", type := .direct (.base (.defined ⟨1, 0⟩)) }] }
    else .scalar ((Scalar.custom "Key" fun v => pure v).withParse fun _ =>
      throw (.failure (.internal (.other secret))))
  target _ := .base (.standard .string)
  limit := 30

/-- The session that the schema starts with. -/
def guardedSession : Session Unit where
  registry := [("Vault", .ready (.defined ⟨0, 0⟩)), ("Key", .ready (.defined ⟨1, 0⟩))]
  complete := true
  app := ()

/-- A document that supplies the argument. -/
def opening : Document where
  queries := [("open", {
    typeName := some "Vault"
    attributes := []
    act := none
    arguments := [("key", .bool true)]
    links := [] })]

theorem readsAlike_guarded (secret secret' : String) :
    (guarded secret).ReadsAlike (guarded secret') where
  define id := by
    unfold guarded
    simp only
    split
    · exact .entity _
    · exact .scalar rfl fun v s => .error (.failure (Failure.alike_internal _ _)) s
  target := rfl
  onForce := rfl
  loader? := rfl
  limit := rfl

/-- What a client is shown of the violations of the document. -/
def disclosed (secret : String) : Option (List String) := do
  let violations ← (opening.validate ⟨guarded secret, Rule.all⟩).answer? guardedSession
  let shown ← (Masking.formatAll {} Masking.standardMask violations).toOption
  return shown.map Json.render

end Sample

theorem violations_disclose_refusals_only_sample :
    Lookup.Alike (ShownAlike {} Masking.standardMask Rule.all)
      (Sample.opening.validate ⟨Sample.guarded "ada", Rule.all⟩)
      (Sample.opening.validate ⟨Sample.guarded "bob", Rule.all⟩) :=
  (violations_disclose_refusals_only DebugFlags.Discreet.none Masking.standardMask
    (Sample.readsAlike_guarded "ada" "bob") Rule.all Sample.opening).1

/-- **A refusal discloses an unsafe message**: two schemas that differ only in what a scalar says to the
application are told apart by a client. -/
theorem refusal_discloses :
    (Sample.guarded "ada").ReadsAlike (Sample.guarded "bob") ∧
    (Sample.disclosed "ada").isSome ∧ (Sample.disclosed "bob").isSome ∧
    Sample.disclosed "ada" ≠ Sample.disclosed "bob" :=
  ⟨Sample.readsAlike_guarded "ada" "bob", by decide +kernel, by decide +kernel, by decide +kernel⟩

end EntityQuery
