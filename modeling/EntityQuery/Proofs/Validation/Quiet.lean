import EntityQuery.Proofs.Schema.Quiet
import EntityQuery.Validation.Check

/-!
# Validations leave the log alone

Validating a document calls no resolver, whatever the schema and the document are, and whichever rules
are checked.

* `Validator.quiet_query`: validating a query; the recursion is that of the query.
* **`Document.quiet_validate`**: validating a document.
-/

namespace EntityQuery

open Lookup

variable {σ : Type}

namespace Validator

variable {v : Validator (Recorded σ)}

theorem quiet_noteArtifact (e : Entity (Recorded σ)) (l : Label) : (noteArtifact e l).Quiet := by
  unfold noteArtifact
  split
  · exact quiet_warn _ _
  · exact quiet_pure _

theorem quiet_attributes (spot : Spot) (e : Entity (Recorded σ)) (names : List String) :
    (v.attributes spot e names).Quiet := by
  induction names with
  | nil => exact quiet_pure _
  | cons name rest ih =>
    have tail : ∀ fs, Quiet (do return fs ++ (← v.attributes spot e rest) :
        Lookup (Recorded σ) (List Failure)) := fun fs => ih.bind fun _ => quiet_pure _
    rw [attributes]
    cases e.attribute? name with
    | none => exact tail _
    | some a => exact (quiet_noteArtifact e a.label).bind fun _ => tail []

theorem quiet_act (spot : Spot) (e : Entity (Recorded σ)) (name? : Option String) :
    (v.act spot e name?).Quiet := by
  cases name? with
  | none => exact quiet_pure _
  | some name =>
    unfold Validator.act
    simp only
    cases e.act? name with
    | none => exact quiet_pure _
    | some a => exact (quiet_noteArtifact e a.label).bind fun _ => quiet_pure _

variable (h : v.schema.Records)

include h

theorem quiet_suppliedValue (spot : Spot) (a : Argument) (name : String) (value : Json) :
    (v.suppliedValue spot a name value).Quiet := by
  unfold suppliedValue
  split
  · exact quiet_pure _
  · refine (h.resolve a.type).bind fun t => (h.parse t value).catchFailure.bind fun r => ?_
    cases r <;> exact quiet_pure _

theorem quiet_supplied (spot : Spot) (declared act : List Argument) (given : Entries Json) :
    (v.supplied spot declared act given).Quiet := by
  induction given with
  | nil => exact quiet_pure _
  | cons e rest ih =>
    obtain ⟨name, value⟩ := e
    have tail : ∀ fs, Quiet (do return fs ++ (← v.supplied spot declared act rest) :
        Lookup (Recorded σ) (List Failure)) := fun fs => ih.bind fun _ => quiet_pure _
    rw [supplied]
    cases (Argument.find? declared name).or (Argument.find? act name) with
    | none => exact tail _
    | some a => exact (quiet_suppliedValue h spot a name value).bind tail

theorem quiet_missing (spot : Spot) (given : Entries Json) (declared : List Argument) :
    (v.missing spot given declared).Quiet := by
  induction declared with
  | nil => exact quiet_pure _
  | cons a rest ih =>
    have tail : ∀ fs, Quiet (do return fs ++ (← v.missing spot given rest) :
        Lookup (Recorded σ) (List Failure)) := fun fs => ih.bind fun _ => quiet_pure _
    rw [missing]
    split
    · exact tail []
    · have required : (a.isRequired v.schema v.schema.find).Quiet := by
        unfold Argument.isRequired
        split
        · exact quiet_pure _
        · exact (h.resolve a.type).bind fun _ => quiet_pure _
      refine required.bind fun b => ?_
      split
      · exact Quiet.bind (x := v.schema.refTextOf a.type) (fun _ => rfl) fun _ => tail _
      · exact tail []

theorem quiet_arguments (spot : Spot) (declared act : List Argument) (given : Entries Json) :
    (v.arguments spot declared act given).Quiet := by
  refine (quiet_supplied h spot declared act given).bind fun _ => ?_
  split
  · exact (quiet_missing h spot given _).bind fun _ => quiet_pure _
  · exact quiet_pure _

omit h

mutual

theorem quiet_query (h : v.schema.Records) (spot : Spot) (e : Entity (Recorded σ))
    (declared : List Argument) : (q : Query) → (v.query spot e declared q).Quiet
  | ⟨typeName, attributes, act?, arguments, links⟩ => by
    rw [Validator.query]
    refine (quiet_attributes spot e attributes).bind fun _ => ?_
    refine (quiet_act spot e act?).bind fun _ => ?_
    refine (quiet_arguments h spot declared _ arguments).bind fun _ => ?_
    exact (quiet_links h spot e links).bind fun _ => quiet_pure _

theorem quiet_links (h : v.schema.Records) (spot : Spot) (e : Entity (Recorded σ)) :
    (links : List (String × Query)) → (v.links spot e links).Quiet
  | [] => by
    rw [Validator.links]
    exact quiet_pure _
  | (name, nested) :: rest => by
    have tail : ∀ fs, Quiet (do return fs ++ (← v.links spot e rest) :
        Lookup (Recorded σ) (List Failure)) :=
      fun fs => (quiet_links h spot e rest).bind fun _ => quiet_pure _
    rw [Validator.links]
    cases e.link? name with
    | none => exact tail _
    | some l =>
      refine (quiet_noteArtifact e l.label).bind fun _ => ?_
      refine (h.follow e.name l).bind fun target => ?_
      exact (quiet_query h _ target.2 l.arguments nested).bind fun _ => tail _

end

include h

theorem quiet_root (spot : Spot) (q : Query) : (v.root spot q).Quiet := by
  unfold Validator.root
  cases q.typeName with
  | none => exact quiet_pure _
  | some typeName =>
    refine (h.find typeName).bind fun t? => ?_
    cases t? with
    | none => exact quiet_pure _
    | some t =>
      simp only
      cases v.schema.entity? t with
      | none => exact quiet_pure _
      | some e =>
        simp only
        split
        · exact (quiet_warn _ _).bind fun _ => quiet_pure _
        · exact quiet_pure _

theorem quiet_queries (queries : List (String × Query)) : (v.queries queries).Quiet := by
  induction queries with
  | nil => exact quiet_pure _
  | cons nq rest ih =>
    obtain ⟨name, q⟩ := nq
    have tail : ∀ fs, Quiet (do return fs ++ (← v.queries rest) :
        Lookup (Recorded σ) (List Failure)) := fun fs => ih.bind fun _ => quiet_pure _
    rw [queries]
    refine (quiet_root h _ q).bind fun r => ?_
    cases r with
    | error fs => exact tail fs
    | ok e => exact (quiet_query h _ e e.arguments q).bind tail

end Validator

/-- **Validating a document calls no resolver.** -/
theorem Document.quiet_validate {v : Validator (Recorded σ)} (h : v.schema.Records) (d : Document) :
    (d.validate v).Quiet :=
  (Validator.quiet_queries h d.queries).bind fun _ => quiet_pure _

end EntityQuery
