import EntityQuery.Proofs.Schema.Tandem
import EntityQuery.Validation.Check

/-!
# Validations in tandem

A document is validated alike on a schema that was built without a loader and on one that stands in for it: the
violations are the same, in the same order.

* `Tandem.Declared`: arguments of fitting types. **`Tandem.agrees_arguments`**: the arguments of a query.
* **`Tandem.agrees_violations`**: a query on an entity, and the queries under its links.
* **`Tandem.agrees_validate`**: a document.
-/

namespace EntityQuery

open Lookup Validator

variable {σ : Type}

namespace Tandem

variable {T : Tandem σ} (rules : List Rule)

/-- Checks that agree: they find the same violations. -/
abbrev ChecksAgree (T : Tandem σ) (x x' : Lookup σ (List Failure)) : Prop := T.Agrees Eq Eq x x'

theorem ChecksAgree.append {x x' y y' : Lookup σ (List Failure)} (hx : T.ChecksAgree x x')
    (hy : T.ChecksAgree y y') :
    T.ChecksAgree (do return (← x) ++ (← y)) (do return (← x') ++ (← y')) := by
  refine hx.bind ?_
  rintro fs _ rfl
  refine hy.bind ?_
  rintro gs _ rfl
  exact Pace.agrees_pure rfl

/-- Declared arguments of fitting types. -/
def Declared (T : Tandem σ) (declared : List Argument) : Prop :=
  ∀ a ∈ declared, a.type.Fits T.first T.base

/-! ## Arguments -/

/-- The violation of a supplied value. -/
theorem agrees_suppliedValue {a : Argument} (ha : a.type.Fits T.first T.base) (spot : Spot)
    (name : String) (value : Json) :
    T.ChecksAgree (suppliedValue ⟨T.first, rules⟩ spot a name value)
      (suppliedValue ⟨T.second, rules⟩ spot a name value) := by
  unfold suppliedValue
  by_cases hr : rules.contains Rule.argumentsOfCorrectType = true
  · simp only [checks, hr, Bool.not_true, Bool.false_eq_true, if_false]
    obtain ⟨t, ht, hfits⟩ := ha.resolve T.plain
    refine (agrees_resolve ht).bind ?_
    rintro _ _ ⟨rfl, rfl⟩
    refine (Pace.agrees_catchFailure (agrees_parse hfits (Nat.le_refl _) value)).bind ?_
    rintro _ _ (h | h)
    · exact Pace.agrees_pure rfl
    · subst h
      exact Pace.agrees_pure rfl
  · simp only [checks, hr, Bool.not_false, if_true]
    exact Pace.agrees_pure rfl

theorem agrees_supplied {declared act : List Argument} (hd : T.Declared declared)
    (ha : T.Declared act) (spot : Spot) (given : Entries Json) :
    T.ChecksAgree (supplied ⟨T.first, rules⟩ spot declared act given)
      (supplied ⟨T.second, rules⟩ spot declared act given) := by
  induction given with
  | nil => exact Pace.agrees_pure rfl
  | cons p rest ih =>
    obtain ⟨name, value⟩ := p
    unfold supplied
    cases hf : (Argument.find? declared name).or (Argument.find? act name) with
    | some a =>
      have hfits : a.type.Fits T.first T.base := by
        rcases Option.or_eq_some_iff.mp hf with h | ⟨-, h⟩
        · exact hd a (List.mem_of_find?_eq_some h)
        · exact ha a (List.mem_of_find?_eq_some h)
      exact (agrees_suppliedValue rules hfits spot name value).append ih
    | none => exact ChecksAgree.append (Pace.agrees_pure rfl) ih

theorem agrees_isRequired {a : Argument} (ha : a.type.Fits T.first T.base) :
    T.Agrees Eq Eq (a.isRequired T.first T.first.find) (a.isRequired T.second T.second.find) := by
  unfold Argument.isRequired
  split
  · exact Pace.agrees_pure rfl
  · obtain ⟨t, ht, -⟩ := ha.resolve T.plain
    refine (agrees_resolve ht).bind ?_
    rintro _ _ ⟨rfl, rfl⟩
    exact Pace.agrees_pure rfl

/-- The violation of an argument that was left out. -/
theorem agrees_missing {declared : List Argument} (hd : T.Declared declared) (spot : Spot)
    (given : Entries Json) :
    T.ChecksAgree (missing ⟨T.first, rules⟩ spot given declared)
      (missing ⟨T.second, rules⟩ spot given declared) := by
  induction declared with
  | nil => exact Pace.agrees_pure rfl
  | cons a rest ih =>
    have ha := hd a List.mem_cons_self
    have hrest := ih fun b hb => hd b (List.mem_cons_of_mem _ hb)
    unfold missing
    by_cases hg : Entries.has given a.name = true
    · simp only [hg, if_true]
      exact ChecksAgree.append (Pace.agrees_pure rfl) hrest
    · simp only [hg]
      refine (agrees_isRequired ha).bind ?_
      rintro required _ rfl
      by_cases hr : required = true
      · simp only [hr, if_true]
        refine (agrees_refTextOf ha).bind ?_
        rintro text _ rfl
        exact ChecksAgree.append (Pace.agrees_pure rfl) hrest
      · simp only [hr]
        exact ChecksAgree.append (Pace.agrees_pure rfl) hrest

/-- **The violations of the arguments of a query.** -/
theorem agrees_arguments {declared act : List Argument} (hd : T.Declared declared)
    (ha : T.Declared act) (spot : Spot) (given : Entries Json) :
    T.ChecksAgree (arguments ⟨T.first, rules⟩ spot declared act given)
      (arguments ⟨T.second, rules⟩ spot declared act given) := by
  unfold arguments
  refine (agrees_supplied rules hd ha spot given).bind ?_
  rintro wrong _ rfl
  by_cases hr : rules.contains Rule.providedRequiredArguments = true
  · simp only [checks, hr, if_true]
    refine (agrees_missing rules (fun a h => ?_) spot given).bind ?_
    · exact (List.mem_append.mp h).elim (hd a) (ha a)
    · rintro left _ rfl
      exact Pace.agrees_pure rfl
  · simp only [checks, hr]
    exact Pace.agrees_pure rfl

/-! ## Queries -/

theorem agrees_warnDeprecated (what : String) (reason : Option String) :
    T.Agrees Eq (fun _ _ => True) (warnDeprecated what reason) (warnDeprecated what reason) :=
  Pace.agrees_warn _ _

section

variable {e e' : Entity σ} (he : T.Entities e e')

include he

theorem agrees_noteArtifact {label label' : Label} (hl : label = label') :
    T.Agrees Eq (fun _ _ => True) (noteArtifact e label) (noteArtifact e' label') := by
  subst hl
  unfold noteArtifact
  rw [← he.name]
  split
  · exact agrees_warnDeprecated _ _
  · exact Pace.agrees_pure trivial

theorem agrees_attributes (spot : Spot) (names : List String) :
    T.ChecksAgree (attributes ⟨T.first, rules⟩ spot e names)
      (attributes ⟨T.second, rules⟩ spot e' names) := by
  induction names with
  | nil => exact Pace.agrees_pure rfl
  | cons name rest ih =>
    unfold attributes
    rcases rel_cases (he.attribute? name) with ⟨ha, ha'⟩ | ⟨a, a', ha, ha', h, -⟩
    · rw [ha, ha', he.name]
      exact ChecksAgree.append (Pace.agrees_pure rfl) ih
    · rw [ha, ha']
      exact (agrees_noteArtifact he h.label).bind fun _ _ _ =>
        ChecksAgree.append (Pace.agrees_pure rfl) ih

theorem agrees_act (hk : T.first.Knows T.types e) (spot : Spot) (name? : Option String) :
    T.Agrees Eq (fun x x' => x = x' ∧ T.Declared x.2) (act ⟨T.first, rules⟩ spot e name?)
      (act ⟨T.second, rules⟩ spot e' name?) := by
  cases name? with
  | none => exact Pace.agrees_pure ⟨rfl, nofun⟩
  | some name =>
    unfold act
    rcases rel_cases (he.act? name) with ⟨ha, ha'⟩ | ⟨a, a', ha, ha', h, hmem⟩
    · simp only [ha, ha', he.name]
      exact Pace.agrees_pure ⟨rfl, nofun⟩
    · simp only [ha, ha']
      refine (agrees_noteArtifact he h.label).bind fun _ _ _ => Pace.agrees_pure ?_
      exact ⟨by rw [h.arguments], (T.sound.settles T.plain hk).acts a hmem⟩

end

mutual

/-- **The violations of a query**, and of the queries under its links. -/
theorem agrees_violations {e e' : Entity σ} (he : T.Entities e e') (hk : T.first.Knows T.types e)
    {declared : List Argument} (hd : T.Declared declared) (spot : Spot) : (q : Query) →
    T.ChecksAgree (Validator.query ⟨T.first, rules⟩ spot e declared q)
      (Validator.query ⟨T.second, rules⟩ spot e' declared q)
  | ⟨typeName, names, act, given, links⟩ => by
    unfold Validator.query
    refine (agrees_attributes rules he spot names).bind ?_
    rintro ofAttributes _ rfl
    refine (agrees_act rules he hk spot act).bind ?_
    rintro ⟨ofAct, declaredByAct⟩ _ ⟨rfl, ha⟩
    refine (agrees_arguments rules hd ha spot given).bind ?_
    rintro ofArguments _ rfl
    refine (agrees_violationsOfLinks he hk spot links).bind ?_
    rintro ofLinks _ rfl
    exact Pace.agrees_pure rfl

theorem agrees_violationsOfLinks {e e' : Entity σ} (he : T.Entities e e')
    (hk : T.first.Knows T.types e) (spot : Spot) : (ls : List (String × Query)) →
    T.ChecksAgree (Validator.links ⟨T.first, rules⟩ spot e ls)
      (Validator.links ⟨T.second, rules⟩ spot e' ls)
  | [] => Pace.agrees_pure rfl
  | (name, nested) :: rest => by
    have hrest := agrees_violationsOfLinks he hk spot rest
    unfold Validator.links
    rcases rel_cases (he.link? name) with ⟨hl, hl'⟩ | ⟨l, l', hl, hl', h, hmem⟩
    · rw [hl, hl', he.name]
      exact ChecksAgree.append (Pace.agrees_pure rfl) hrest
    · rw [hl, hl']
      refine (agrees_noteArtifact he h.label).bind fun _ _ _ => ?_
      refine (agrees_follow hk h hmem e'.name).bind ?_
      rintro ⟨t, target⟩ ⟨t', target'⟩ ⟨ht, hkt⟩
      have hargs : T.Declared l.arguments := (T.sound.settles T.plain hk).linked l hmem
      have hname : nestedType ⟨T.first, rules⟩ (spot.descend name) name target.name nested.typeName =
          nestedType ⟨T.second, rules⟩ (spot.descend name) name target'.name nested.typeName := by
        rw [ht.name]
        rfl
      simp only [← h.arguments, hname]
      refine (agrees_violations ht hkt hargs (spot.descend name) nested).bind ?_
      rintro ofNested _ rfl
      exact ChecksAgree.append (Pace.agrees_pure rfl) hrest

end

/-- The entity that a query names. -/
theorem agrees_rootOf (T : Tandem σ) (spot : Spot) (q : Query) :
    T.Agrees Eq (ExceptRel Eq fun e e' => T.Entities e e' ∧ T.first.Knows T.types e)
      (Validator.root ⟨T.first, rules⟩ spot q) (Validator.root ⟨T.second, rules⟩ spot q) := by
  unfold Validator.root
  cases q.typeName with
  | none => exact Pace.agrees_pure (.error rfl)
  | some typeName =>
    refine (T.agrees_find typeName).bind ?_
    rintro t? _ ⟨rfl, hholds⟩
    cases t? with
    | none => exact Pace.agrees_pure (.error rfl)
    | some t =>
      rcases rel_cases (T.entity? t) with ⟨he, he'⟩ | ⟨e, e', he, he', h⟩
      · simp only [he, he', T.nameOf_eq]
        exact Pace.agrees_pure (.error rfl)
      · have hk : T.first.Knows T.types e := ⟨t, hholds t rfl, he⟩
        simp only [he, he', ← h.deprecated, ← h.name, ← h.reason]
        split
        · exact (agrees_warnDeprecated _ _).bind fun _ _ _ => Pace.agrees_pure (.ok ⟨h, hk⟩)
        · exact Pace.agrees_pure (.ok ⟨h, hk⟩)

theorem agrees_queries (T : Tandem σ) (qs : List (String × Query)) :
    T.ChecksAgree (Validator.queries ⟨T.first, rules⟩ qs) (Validator.queries ⟨T.second, rules⟩ qs) := by
  induction qs with
  | nil => exact Pace.agrees_pure rfl
  | cons p rest ih =>
    obtain ⟨name, q⟩ := p
    unfold Validator.queries
    refine (T.agrees_rootOf rules _ q).bind ?_
    rintro _ _ (⟨he, hk⟩ | h)
    · have hd := (T.sound.settles T.plain hk).arguments
      simp only [← he.arguments]
      exact ChecksAgree.append (agrees_violations rules he hk hd _ q) ih
    · subst h
      exact ChecksAgree.append (Pace.agrees_pure rfl) ih

/-- **The violations of a document.** -/
theorem agrees_validate (T : Tandem σ) (d : Document) :
    T.Agrees Eq Eq (d.validate ⟨T.first, rules⟩) (d.validate ⟨T.second, rules⟩) := by
  refine (T.agrees_queries rules d.queries).bind ?_
  rintro fs _ rfl
  exact Pace.agrees_pure rfl

end Tandem

end EntityQuery
