import EntityQuery.Proofs.Schema.Likeness
import EntityQuery.Proofs.Schema.Traversal

/-!
# Schemas whose scalars read values alike

Two schemas may differ in how their scalars read supplied values, and there only in what they say where they
fail. Everything else that a schema is asked for does not depend on it.

* `Schema.ReadsAlike`: such schemas.
* **`Schema.ReadsAlike.find_eq`**: they find the same types, also where types are loaded on demand.
* **`Schema.ReadsAlike.parse`**: they read supplied values alike, inside lists and non-null wrappers.
-/

namespace EntityQuery

open Lookup

variable {σ : Type}

/-- Definitions that are the same, but for what a scalar says where it cannot read a value. -/
inductive Definition.ReadsAlike : Definition σ → Definition σ → Prop
  | scalar {t t' : Scalar σ} (hn : t.name = t'.name)
    (hp : ∀ v, Callback.Alike Eq (t.parse v) (t'.parse v)) : ReadsAlike (.scalar t) (.scalar t')
  | entity (e : Entity σ) : ReadsAlike (.entity e) (.entity e)

/-- Schemas that are the same, but for what a scalar says where it cannot read a value. -/
structure Schema.ReadsAlike (S S' : Schema σ) : Prop where
  define : ∀ id, (S.define id).ReadsAlike (S'.define id)
  target : S.target = S'.target
  onForce : S.onForce = S'.onForce
  loader? : S.loader? = S'.loader?
  limit : S.limit = S'.limit

/-- Being the same respects sequencing. -/
theorem Lookup.respects_eq (schema : Schema σ) : Respects schema fun x x' => x = x' where
  pure _ := rfl
  stop _ _ := rfl
  force _ := rfl
  refuse _ _ := rfl
  bind hx hf := by rw [hx, funext hf]

namespace Schema.ReadsAlike

variable {S S' : Schema σ} (h : S.ReadsAlike S')

include h

theorem definition : (t : NamedType) → (S.definition t).ReadsAlike (S'.definition t)
  | .standard _ => .scalar rfl fun _ => .rfl' Fault.Alike.refl _
  | .defined id => h.define id

theorem nameOf_eq : S.nameOf = S'.nameOf := by
  funext t
  unfold Schema.nameOf
  have ht := h.definition t
  revert ht
  generalize S.definition t = d
  generalize S'.definition t = d'
  rintro (⟨hn, -⟩ | -)
  · exact hn
  · rfl

theorem entity?_eq : S.entity? = S'.entity? := by
  funext t
  unfold Schema.entity?
  have ht := h.definition t
  revert ht
  generalize S.definition t = d
  generalize S'.definition t = d'
  rintro (- | -) <;> rfl

theorem textOf_eq : S.textOf = S'.textOf := by
  funext t s
  unfold Schema.textOf Schema.known
  rw [h.nameOf_eq, h.target, h.limit]

theorem refTextOf_eq : S.refTextOf = S'.refTextOf := by
  funext r s
  unfold Schema.refTextOf Schema.known
  rw [h.nameOf_eq, h.target, h.limit]

theorem force_eq : S.force = S'.force := by
  funext r s
  unfold Schema.force
  rw [h.target, h.onForce]

theorem congruent : S.Congruent S' :=
  ⟨h.limit, h.force_eq, h.nameOf_eq, h.textOf_eq, fun t => by
    rw [h.entity?_eq]
    exact Schema.rel_congruent_refl _⟩

/-! ## Looking up names -/

theorem check_eq (find : Finder σ) (e : Entity σ) : e.check S find = e.check S' find :=
  (respects_eq S).check h.congruent (fun _ => rfl) (.refl e)

theorem scanWith_eq (find : Finder σ) : S.scanWith find = S'.scanWith find := by
  have hd : S.onDemand = S'.onDemand := by
    unfold Schema.onDemand
    rw [h.loader?]
  have hcollect : S.collect = S'.collect := by
    funext fuel t found
    exact (respects_eq S).collect h.congruent fuel t found
  have hpending : S.collectPending find = S'.collectPending find := by
    funext fuel found
    exact (respects_eq S).collectPending h.congruent (fun _ => rfl) fuel found
  unfold Schema.scanWith
  rw [hd, hcollect, hpending, h.limit]

theorem loadName_eq (find : Finder σ) (loader : String → Loading σ) (name : String) :
    S.loadName find loader name = S'.loadName find loader name := by
  unfold Schema.loadName Schema.loadMarked Schema.load
  simp only [h.scanWith_eq, h.nameOf_eq, h.textOf_eq, h.entity?_eq, h.check_eq]

theorem findWithin_eq_findWithin (fuel : Nat) : S.findWithin fuel = S'.findWithin fuel := by
  induction fuel with
  | zero =>
    funext name s
    rw [Schema.findWithin_eq, Schema.findWithin_eq, h.loader?]
    cases S'.loader? <;> rfl
  | succ fuel ih =>
    funext name s
    rw [Schema.findWithin_eq, Schema.findWithin_eq, h.loader?]
    cases S'.loader? with
    | none => rfl
    | some loader => simp only [ih, h.loadName_eq]

/-- **Names are looked up the same.** -/
theorem find_eq : S.find = S'.find := by
  unfold Schema.find
  rw [h.limit, h.findWithin_eq_findWithin]

/-! ## Resolving -/

theorem resolve_eq (find : Finder σ) (r : TypeRef) : r.resolve S find = r.resolve S' find :=
  (respects_eq S).resolve h.congruent (fun _ => rfl) r

theorem follow_eq (find : Finder σ) (l : Link σ) (entity : String) :
    l.follow S find entity = l.follow S' find entity := by
  unfold Link.follow
  simp only [h.resolve_eq, h.entity?_eq, h.textOf_eq]

theorem isRequired_eq (find : Finder σ) (a : Argument) :
    a.isRequired S find = a.isRequired S' find := by
  unfold Argument.isRequired
  rw [h.resolve_eq]

theorem strip_eq (find : Finder σ) (refusal : String → String) (v : Json) (t : Ty) :
    t.strip S find refusal v = t.strip S' find refusal v := by
  unfold Ty.strip TypeRef.resolveBare
  simp only [h.resolve_eq, h.textOf_eq]

/-! ## Reading supplied values -/

theorem parseNamed (t : NamedType) (v : Json) :
    Lookup.Alike Eq (S.parseNamed t v) (S'.parseNamed t v) := by
  unfold Schema.parseNamed
  have ht := h.definition t
  revert ht
  generalize S.definition t = d
  generalize S'.definition t = d'
  intro ht
  split
  · exact .pure rfl
  · cases ht with
    | scalar _ hp => exact alike_call (hp v)
    | entity e => exact alike_self _

theorem parseSingle (find : Finder σ) (v : Json) (fuel : Nat) (t : Ty) :
    Lookup.Alike Eq (t.parseSingle S find v fuel) (t.parseSingle S' find v fuel) := by
  induction fuel generalizing t with
  | zero =>
    unfold Ty.parseSingle
    rw [h.strip_eq]
    refine (alike_self _).bind ?_
    rintro b _ rfl
    cases b with
    | base n => exact h.parseNamed n v
    | listOf id inner => exact alike_self _
  | succ fuel ih =>
    unfold Ty.parseSingle
    rw [h.strip_eq]
    refine (alike_self _).bind ?_
    rintro b _ rfl
    cases b with
    | base n => exact h.parseNamed n v
    | listOf id inner =>
      simp only
      split
      · exact .pure rfl
      · rw [h.resolve_eq]
        refine (alike_self _).bind ?_
        rintro item _ rfl
        refine (ih item).bind ?_
        rintro w _ rfl
        exact .pure rfl

theorem parseOther (find : Finder σ) (t : Ty) {v : Json} (hv : ∀ items, v = .array items → False) :
    Lookup.Alike Eq (t.parse S find v) (t.parse S' find v) := by
  rw [Ty.parse.eq_2 S find t v hv, Ty.parse.eq_2 S' find t v hv, ← h.limit]
  exact h.parseSingle find v S.limit t

omit h

mutual

/-- **Supplied values are read alike.** -/
theorem parse (h : S.ReadsAlike S') (find : Finder σ) (t : Ty) :
    (v : Json) → Lookup.Alike Eq (t.parse S find v) (t.parse S' find v)
  | .array items => by
    rw [Ty.parse, Ty.parse, h.strip_eq]
    refine (alike_self _).bind ?_
    rintro b _ rfl
    cases b with
    | base n => exact h.parseNamed n _
    | listOf id inner =>
      simp only [h.resolve_eq]
      refine (alike_self _).bind ?_
      rintro item _ rfl
      refine (h.parseItems find item items).bind ?_
      rintro vs _ rfl
      exact .pure rfl
  | .null => h.parseOther find t fun _ he => nomatch he
  | .bool _ => h.parseOther find t fun _ he => nomatch he
  | .number _ => h.parseOther find t fun _ he => nomatch he
  | .string _ => h.parseOther find t fun _ he => nomatch he
  | .object _ => h.parseOther find t fun _ he => nomatch he

theorem parseItems (h : S.ReadsAlike S') (find : Finder σ) (t : Ty) : (vs : List Json) →
    Lookup.Alike Eq (t.parseItems S find vs) (t.parseItems S' find vs)
  | [] => .pure rfl
  | v :: rest => by
    rw [Ty.parseItems, Ty.parseItems]
    refine (h.parse find t v).bind ?_
    rintro first _ rfl
    refine (h.parseItems find t rest).bind ?_
    rintro others _ rfl
    exact .pure rfl

end

end Schema.ReadsAlike

end EntityQuery
