import EntityQuery.Schema.Loading
import Mathlib.Data.List.Forall2
import Mathlib.Data.Option.Basic

/-!
# Relations that traversals respect

Resolving, checking and collecting ask for names and go on with what they get; they call nothing of the
application but lazy references. So where two schemas declare the same, and two ways to look up names are
related, what is built on them is related, by any relation that respects sequencing.

* `Schema.Congruent`: schemas that declare the same; the loader and all other callbacks may differ.
* `Lookup.Respects`: relations between computations on sessions that respect sequencing.
* **`Lookup.Respects.check`**: checking an entity; `Lookup.Respects.collect` and
  `Lookup.Respects.collectPending`: collecting types.
-/

namespace EntityQuery

variable {σ : Type}

/-! ## Schemas that declare the same -/

/-- Entities that declare the same. -/
structure Entity.Congruent (e e' : Entity σ) : Prop where
  name : e.name = e'.name
  arguments : e.arguments = e'.arguments
  attributes : List.Forall₂ (fun a a' => a.label = a'.label ∧ a.type? = a'.type?)
    e.attributes e'.attributes
  acts : List.Forall₂ (fun a a' => a.label = a'.label ∧ a.arguments = a'.arguments) e.acts e'.acts
  links : List.Forall₂ (fun l l' => l.label = l'.label ∧ l.target = l'.target ∧
    l.arguments = l'.arguments) e.links e'.links

/-- Schemas that declare the same. -/
structure Schema.Congruent (S S' : Schema σ) : Prop where
  limit : S.limit = S'.limit
  force : S.force = S'.force
  nameOf : S.nameOf = S'.nameOf
  textOf : S.textOf = S'.textOf
  entity? : ∀ t, Option.Rel Entity.Congruent (S.entity? t) (S'.entity? t)

namespace Entity.Congruent

theorem refl (e : Entity σ) : e.Congruent e :=
  ⟨rfl, rfl, List.forall₂_same.mpr fun _ _ => ⟨rfl, rfl⟩, List.forall₂_same.mpr fun _ _ => ⟨rfl, rfl⟩,
    List.forall₂_same.mpr fun _ _ => ⟨rfl, rfl, rfl⟩⟩

/-- Entities that declare the same refer to the same. -/
theorem references_eq {e e' : Entity σ} (h : e.Congruent e') : e.references = e'.references := by
  have attributes : e.attributes.filterMap Attribute.type? =
      e'.attributes.filterMap Attribute.type? := by
    have ha := h.attributes
    revert ha
    generalize e.attributes = as
    generalize e'.attributes = as'
    intro ha
    induction ha with
    | nil => rfl
    | cons hab _ ih => simp only [List.filterMap_cons, hab.2, ih]
  have acts : e.acts.flatMap (fun a => a.arguments.map Argument.type) =
      e'.acts.flatMap (fun a => a.arguments.map Argument.type) := by
    have ha := h.acts
    revert ha
    generalize e.acts = as
    generalize e'.acts = as'
    intro ha
    induction ha with
    | nil => rfl
    | cons hab _ ih => simp only [List.flatMap_cons, hab.2, ih]
  have links : e.links.flatMap (fun l => l.target :: l.arguments.map Argument.type) =
      e'.links.flatMap (fun l => l.target :: l.arguments.map Argument.type) := by
    have ha := h.links
    revert ha
    generalize e.links = as
    generalize e'.links = as'
    intro ha
    induction ha with
    | nil => rfl
    | cons hab _ ih => simp only [List.flatMap_cons, hab.2.1, hab.2.2, ih]
  unfold references
  rw [h.arguments, attributes, acts, links]

end Entity.Congruent

namespace Schema

/-- The same definitions with another loader, or with none. -/
def withLoader (schema : Schema σ) (loader? : Option (String → Loading σ)) : Schema σ :=
  { schema with loader? }

section

variable (schema : Schema σ) (loader? : Option (String → Loading σ))

@[simp] theorem limit_withLoader : (schema.withLoader loader?).limit = schema.limit := rfl

@[simp] theorem nameOf_withLoader : (schema.withLoader loader?).nameOf = schema.nameOf := rfl

@[simp] theorem entity?_withLoader : (schema.withLoader loader?).entity? = schema.entity? := rfl

end

theorem rel_congruent_refl (e? : Option (Entity σ)) : Option.Rel Entity.Congruent e? e? := by
  cases e? with
  | none => exact .none
  | some e => exact .some (.refl e)

theorem congruent_refl (schema : Schema σ) : schema.Congruent schema :=
  ⟨rfl, rfl, rfl, rfl, fun _ => rel_congruent_refl _⟩

theorem congruent_withLoader (schema : Schema σ) (loader? : Option (String → Loading σ)) :
    schema.Congruent (schema.withLoader loader?) :=
  ⟨rfl, rfl, rfl, rfl, fun _ => rel_congruent_refl _⟩

end Schema

namespace Lookup

/-! ## What a computation comes to -/

section

variable {α : Type} {x : Lookup σ α} {s s' : Session σ} {a : α}

/-- What a computation answers, if it does. -/
def answer? (x : Lookup σ α) (s : Session σ) : Option α :=
  match x s with
  | .ok a _ => some a
  | .error _ _ => none

/-- The panic that ends a computation, if one does. -/
def panic? (x : Lookup σ α) (s : Session σ) : Option Panic :=
  match x s with
  | .error (.fault (.panic p)) _ => some p
  | _ => none

/-- The defect that stops a computation, if one does. -/
def defect? (x : Lookup σ α) (s : Session σ) : Option Defect :=
  match x s with
  | .error (.defect d) _ => some d
  | _ => none

/-- The session that a computation leaves, however it ends. -/
def after (x : Lookup σ α) (s : Session σ) : Session σ :=
  match x s with
  | .ok _ s' => s'
  | .error _ s' => s'

theorem answer?_eq_some : x.answer? s = some a ↔ ∃ s', x s = .ok a s' := by
  unfold answer?
  cases x s with
  | ok a' s' => simp
  | error e s' => simp

theorem panic?_eq_some {p : Panic} :
    x.panic? s = some p ↔ x s = .error (.fault (.panic p)) (x.after s) := by
  unfold panic? after
  obtain ⟨a, s'⟩ | ⟨d | (f | p') | _, s'⟩ := x s <;> simp

theorem defect?_eq_some {d : Defect} :
    x.defect? s = some d ↔ x s = .error (.defect d) (x.after s) := by
  unfold defect? after
  obtain ⟨a, s'⟩ | ⟨d' | f | _, s'⟩ := x s <;> simp

theorem after_of_ok (h : x s = .ok a s') : x.after s = s' := by
  simp only [after, h]

theorem after_of_error {e : Stop} (h : x s = .error e s') : x.after s = s' := by
  simp only [after, h]

end

/-! ## Relations that respect sequencing -/

/-- A relation between computations on sessions of one schema that respects sequencing, and that holds of
each request beside itself. A traversal does not stop at a fault of its own. -/
structure Respects (schema : Schema σ) (R : ∀ {α : Type}, Lookup σ α → Lookup σ α → Prop) :
    Prop where
  pure : ∀ {α : Type} (a : α), R (Pure.pure a) (Pure.pure a)
  stop : ∀ {α : Type} (e : Stop), (∀ f, e ≠ .fault f) → R (throw e : Lookup σ α) (throw e)
  force : ∀ r, R (schema.force r) (schema.force r)
  refuse : ∀ {α : Type} (t : Ty) (d : String → Defect),
    R (do Lookup.defect (d (← schema.textOf t)) : Lookup σ α)
      (do Lookup.defect (d (← schema.textOf t)))
  bind : ∀ {α β : Type} {x x' : Lookup σ α} {f f' : α → Lookup σ β}, R x x' →
    (∀ a, R (f a) (f' a)) → R (x >>= f) (x' >>= f')

namespace Respects

variable {S S' : Schema σ} {R : ∀ {α : Type}, Lookup σ α → Lookup σ α → Prop}
  (hR : Respects S R) (hS : S.Congruent S')

include hR

theorem forM {α : Type} {A : α → α → Prop} {xs ys : List α} (h : List.Forall₂ A xs ys)
    {g g' : α → Lookup σ PUnit} (hg : ∀ a b, A a b → R (g a) (g' b)) :
    R (xs.forM g) (ys.forM g') := by
  induction h with
  | nil => exact hR.pure _
  | cons hab _ ih => exact hR.bind (hg _ _ hab) fun _ => ih

theorem forM_same {α : Type} {xs : List α} {g g' : α → Lookup σ PUnit}
    (hg : ∀ a, R (g a) (g' a)) : R (xs.forM g) (xs.forM g') :=
  hR.forM (List.forall₂_same.mpr fun _ _ => rfl) fun a _ hab => hab ▸ hg a

theorem foldlM {α β : Type} (xs : List α) {g g' : β → α → Lookup σ β}
    (hg : ∀ b a, R (g b a) (g' b a)) (b : β) : R (xs.foldlM g b) (xs.foldlM g' b) := by
  induction xs generalizing b with
  | nil => exact hR.pure b
  | cons a rest ih => exact hR.bind (hg b a) ih

include hS

/-! ## Resolving and checking -/

section

variable {find find' : Finder σ} (hfind : ∀ name, R (find.require name) (find'.require name))

include hfind

theorem resolve (r : TypeRef) : R (r.resolve S find) (r.resolve S' find') := by
  cases r with
  | direct t => exact hR.pure t
  | named name => exact hR.bind (hfind name) fun _ => hR.pure _
  | lazy r =>
    change R (S.force r) (S'.force r)
    rw [← hS.force]
    exact hR.force r

theorem resolveBare (r : TypeRef) : R (r.resolveBare S find) (r.resolveBare S' find') := by
  refine hR.bind (hR.resolve hS hfind r) fun t => ?_
  rw [← hS.textOf]
  cases t with
  | base t => exact hR.pure _
  | listOf id inner => exact hR.pure _
  | nonNull id inner => exact hR.refuse _ _

theorem unwrapWithin (fuel : Nat) (t : Ty) :
    R (t.unwrapWithin S find fuel) (t.unwrapWithin S' find' fuel) := by
  induction fuel generalizing t with
  | zero =>
    cases t with
    | base t => exact hR.pure t
    | nonNull id inner => exact hR.stop _ nofun
    | listOf id inner => exact hR.stop _ nofun
  | succ fuel ih =>
    cases t with
    | base t => exact hR.pure t
    | nonNull id inner => exact hR.bind (hR.resolveBare hS hfind inner) fun t => ih t.type
    | listOf id inner => exact hR.bind (hR.resolve hS hfind inner) ih

theorem nonScalar? (r : TypeRef) : R (r.nonScalar? S find) (r.nonScalar? S' find') := by
  unfold TypeRef.nonScalar? Ty.unwrap
  rw [← hS.limit]
  refine hR.bind (hR.resolve hS hfind r) fun t => ?_
  refine hR.bind (hR.unwrapWithin hS hfind S.limit t) fun n => ?_
  have he : (S.entity? n).isSome = (S'.entity? n).isSome := by
    have hn := hS.entity? n
    revert hn
    generalize S.entity? n = e?
    generalize S'.entity? n = e?'
    rintro (- | -) <;> rfl
  rw [he]
  exact hR.pure _

theorem checkArgument (owner : String) (a : Argument) :
    R (a.check S find owner) (a.check S' find' owner) := by
  refine hR.bind (hR.nonScalar? hS hfind a.type) fun t? => ?_
  rw [← hS.nameOf]
  cases t? with
  | none => exact hR.pure _
  | some t => exact hR.stop _ nofun

theorem checkAttribute (entity : String) {a a' : Attribute σ} (hl : a.label = a'.label)
    (ht : a.type? = a'.type?) : R (a.check S find entity) (a'.check S' find' entity) := by
  unfold Attribute.check
  rw [← hl, ← ht, ← hS.nameOf]
  cases a.type? with
  | none => exact hR.pure _
  | some r =>
    refine hR.bind (hR.nonScalar? hS hfind r) fun t? => ?_
    cases t? with
    | none => exact hR.pure _
    | some t => exact hR.stop _ nofun

/-- Following a link, where what it leads to makes no difference. -/
theorem follow (entity : String) {l l' : Link σ} (hl : l.label = l'.label)
    (ht : l.target = l'.target) {β : Type} {x x' : Lookup σ β} (hx : R x x') :
    R (l.follow S find entity >>= fun _ => x) (l'.follow S' find' entity >>= fun _ => x') := by
  unfold Link.follow
  rw [← hl, ← ht, ← hS.textOf, bind_assoc, bind_assoc]
  refine hR.bind (hR.resolve hS hfind l.target) fun target => ?_
  cases target with
  | base t =>
    have he := hS.entity? t
    revert he
    simp only
    generalize S.entity? t = e?
    generalize S'.entity? t = e?'
    rintro (he | -)
    · simp only [pure_bind]
      exact hx
    · exact hR.bind (hR.refuse _ _) fun _ => hx
  | nonNull id inner => exact hR.bind (hR.refuse _ _) fun _ => hx
  | listOf id inner => exact hR.bind (hR.refuse _ _) fun _ => hx

/-- **Checking an entity asks for names only.** -/
theorem check {e e' : Entity σ} (he : e.Congruent e') :
    R (e.check S find) (e'.check S' find') := by
  unfold Entity.check
  rw [← he.name, ← he.arguments]
  refine hR.bind (hR.forM_same fun a => hR.checkArgument hS hfind _ a) fun _ => ?_
  refine hR.bind (hR.forM he.attributes fun a a' ha => hR.checkAttribute hS hfind _ ha.1 ha.2)
    fun _ => ?_
  refine hR.bind (hR.forM he.acts fun a a' ha => ?_) fun _ => hR.forM he.links fun l l' hl => ?_
  · rw [← ha.1, ← ha.2]
    exact hR.forM_same fun b => hR.checkArgument hS hfind _ b
  · rw [← hl.1, ← hl.2.2]
    exact hR.follow hS hfind _ hl.1 hl.2.1 (hR.forM_same fun a => hR.checkArgument hS hfind _ a)

end

omit hS in
/-- Checking an entity on one schema, with one finder. -/
theorem check_same {find : Finder σ} (hfind : ∀ name, R (find.require name) (find.require name))
    (e : Entity σ) : R (e.check S find) (e.check S find) :=
  hR.check S.congruent_refl hfind (.refl e)

/-! ## Collecting -/

theorem tipWithin (fuel : Nat) (r : TypeRef) :
    R (r.tipWithin S fuel) (r.tipWithin S' fuel) := by
  induction fuel generalizing r with
  | zero =>
    cases r with
    | named name => exact hR.pure _
    | direct t => exact hR.stop _ nofun
    | lazy r => exact hR.stop _ nofun
  | succ fuel ih =>
    have ofType : ∀ t : Ty, R (t.tipWith (TypeRef.tipWithin S fuel))
        (t.tipWith (TypeRef.tipWithin S' fuel)) := by
      intro t
      cases t with
      | base t => exact hR.pure _
      | nonNull id inner => exact ih inner
      | listOf id inner => exact ih inner
    cases r with
    | named name => exact hR.pure _
    | direct t => exact ofType t
    | lazy r =>
      unfold TypeRef.tipWithin
      rw [← hS.force]
      exact hR.bind (hR.force r) ofType

/-- Collecting types asks for nothing. -/
theorem collect (fuel : Nat) (t : NamedType) (found : Found) :
    R (S.collect fuel t found) (S'.collect fuel t found) := by
  induction fuel generalizing t found with
  | zero => exact hR.stop _ nofun
  | succ fuel ih =>
    unfold Schema.collect TypeRef.tip
    rw [← hS.nameOf, ← hS.limit]
    simp only
    cases Entries.find? found.types (S.nameOf t) with
    | some other =>
      by_cases ho : other = t
      · simp only [ho, if_true]
        exact hR.pure _
      · simp only [ho, if_false]
        exact hR.stop _ nofun
    | none =>
      have ht := hS.entity? t
      revert ht
      unfold Schema.entity?
      cases S.definition t with
      | scalar s =>
        cases S'.definition t with
        | scalar s' => exact fun _ => hR.pure _
        | entity e' => rintro ⟨⟩
      | entity e =>
        cases S'.definition t with
        | scalar s' => rintro ⟨⟩
        | entity e' =>
          rintro (he | -)
          simp only [← he.references_eq]
          refine hR.foldlM _ (fun found r => hR.bind (hR.tipWithin hS _ r) fun tip => ?_) _
          cases tip with
          | inl name => exact hR.pure _
          | inr t => exact ih t found

/-- Looking up the names that are left asks for names only. -/
theorem collectPending {find find' : Finder σ}
    (hfind : ∀ name, R (find.require name) (find'.require name)) (fuel : Nat) (found : Found) :
    R (S.collectPending find fuel found) (S'.collectPending find' fuel found) := by
  induction fuel generalizing found with
  | zero => exact hR.stop _ nofun
  | succ fuel ih =>
    obtain ⟨types, pending⟩ := found
    unfold Schema.collectPending
    rw [← hS.limit]
    cases pending with
    | nil => exact hR.pure _
    | cons name pending =>
      simp only
      split
      · exact ih _
      · refine hR.bind (hfind name) fun t => ?_
        exact hR.bind (hR.collect hS _ t _) ih

end Respects

end Lookup

end EntityQuery
