import EntityQuery.Proofs.Schema.Exploring
import EntityQuery.Proofs.Schema.Soundness

/-!
# What building a schema accepts

Once all types of a graph are registered, checking an entity asks whether all that it refers to is fit for
its place. So a schema that is built without a loader accepts the well-formed graphs only, and it stops at
a defect only where the graph is not well-formed.

* `Lookup.Solves`: a computation that searches for an answer.
* **`Schema.solves_resolve`**, **`Schema.solves_unwrapWithin`**: resolving and unwrapping.
* **`Schema.solves_check`**: checking an entity. **`Schema.meets_build`**: building a schema.
-/

namespace EntityQuery

open Lookup Session

variable {σ α β : Type}

namespace Lookup

/-- A computation that keeps `I` and searches for an answer of which `R` holds. It stops at a defect only
if there is none. -/
def Solves (x : Lookup σ α) (I : Session σ → Prop) (R : α → Prop) : Prop :=
  ∀ s, I s → x.Meets s (fun a s' => I s' ∧ R a) (∀ a, ¬R a)

variable {x : Lookup σ α} {f : α → Lookup σ β} {I : Session σ → Prop} {R : α → Prop}
  {S : α → β → Prop}

theorem solves_pure {a : α} (h : R a) : (pure a : Lookup σ α).Solves I R :=
  fun _ hs => meets_pure ⟨hs, h⟩

theorem solves_defect {d : Defect} (h : ∀ a, ¬R a) : (Lookup.defect d : Lookup σ α).Solves I R :=
  fun _ _ => meets_defect h

theorem Solves.congr {R' : α → Prop} (h : x.Solves I R) (hR : ∀ a, R a ↔ R' a) : x.Solves I R' := by
  rwa [← funext fun a => propext (hR a)]

/-- Searching on, where there is only one answer to go on with. -/
theorem Solves.bind (hx : x.Solves I R) (hR : ∀ a a', R a → R a' → a = a')
    (hf : ∀ a, R a → (f a).Solves I (S a)) : (x >>= f).Solves I fun b => ∃ a, R a ∧ S a b := by
  intro s hs
  refine ((hx s hs).mono (fun a s' h => h) fun h b hb => ?_).bind fun a s' ⟨hs', ha⟩ =>
    (hf a ha s' hs').mono (fun b _ h => ⟨h.1, a, ha, h.2⟩) fun h b hb => ?_
  · obtain ⟨a, ha, -⟩ := hb
    exact h a ha
  · obtain ⟨a', ha', hb⟩ := hb
    rw [hR a' a ha' ha] at hb
    exact h b hb

/-- Checking two things, one after the other. -/
theorem Solves.and {x y : Lookup σ PUnit} {p q : Prop} (hx : x.Solves I fun _ => p)
    (hy : y.Solves I fun _ => q) : (x >>= fun _ => y).Solves I fun _ => p ∧ q :=
  (hx.bind (fun _ _ _ _ => rfl) fun _ _ => hy).congr fun _ => by simp

theorem Solves.forM {xs : List β} {g : β → Lookup σ PUnit} {p : β → Prop}
    (hg : ∀ b ∈ xs, (g b).Solves I fun _ => p b) : (xs.forM g).Solves I fun _ => ∀ b ∈ xs, p b := by
  induction xs with
  | nil => exact solves_pure fun _ hb => by cases hb
  | cons b rest ih =>
    exact ((hg b List.mem_cons_self).and (ih fun b' hb => hg b' (List.mem_cons_of_mem _ hb))).congr
      fun _ => List.forall_mem_cons.symm

end Lookup

theorem BareTy.type_injective : Function.Injective BareTy.type := by
  intro b b' h
  cases b <;> cases b' <;> cases h <;> rfl

namespace Schema

variable {schema : Schema σ} {declared : List Ty}

/-! ## Resolving and unwrapping -/

theorem solves_require (hl : schema.loader? = none) (declared : List Ty) (name : String) :
    (schema.find.require name).Solves (schema.graph declared).Registered
      ((schema.graph declared).Denotes name) := by
  intro s hs
  cases hr : Entries.find? s.registry name with
  | none =>
    refine ⟨fun _ _ he => ?_, fun _ _ _ t ht => ?_⟩
    · rw [require_of_none hl hr] at he
      cases he
    · have hsome := (hs.find?_iff name _).mpr ⟨t, ht.1, ht.2, rfl⟩
      rw [hr] at hsome
      cases hsome
  | some slot =>
    obtain ⟨t, ht, hname, rfl⟩ := (hs.find?_iff _ _).mp hr
    refine ⟨fun _ _ he => ?_, fun _ _ he => ?_⟩ <;> rw [require_of_ready hr] at he <;> cases he
    exact ⟨hs, ht, hname⟩

theorem solves_refuse {R : α → Prop} (h : ∀ a, ¬R a) (t : Ty) (d : String → Defect) :
    (do Lookup.defect (d (← schema.textOf t)) : Lookup σ α).Solves
      (schema.graph declared).Registered R :=
  fun _ _ => ⟨fun _ _ he => (by cases he), fun _ _ _ => h⟩

variable (hl : schema.loader? = none) (hu : (schema.graph declared).Unique)

include hl hu

/-- **Resolving a reference** finds the type behind it. -/
theorem solves_resolve (r : TypeRef) : (r.resolve schema schema.find).Solves
    (schema.graph declared).Registered ((schema.graph declared).Resolves r) := by
  cases r with
  | direct t => exact solves_pure (.direct t)
  | named name =>
    refine ((solves_require hl declared name).bind (hu name) fun t _ =>
      solves_pure (R := fun d : Ty => d = .base t) rfl).congr fun d => ⟨?_, fun h => ?_⟩
    · rintro ⟨t, ht, rfl⟩
      exact .named ht
    · cases h with
      | named ht => exact ⟨_, ht, rfl⟩
  | lazy r =>
    intro s hs
    refine ⟨fun t s' he => ?_, fun d s' he => ?_⟩ <;>
      (change schema.force r s = _ at he; unfold force at he; split at he <;> cases he) <;>
      exact ⟨hs, .lazy r⟩

theorem solves_resolveBare (r : TypeRef) : (r.resolveBare schema schema.find).Solves
    (schema.graph declared).Registered fun b => (schema.graph declared).Resolves r b.type := by
  refine ((solves_resolve hl hu r).bind (S := fun t (b : BareTy) => b.type = t)
    (fun _ _ h h' => h.unique hu h') fun t _ => ?_).congr fun b => ?_
  · cases t with
    | base t => exact solves_pure rfl
    | listOf id inner => exact solves_pure rfl
    | nonNull id inner => exact solves_refuse (fun b hb => by cases b <;> cases hb) _ _
  · exact ⟨fun ⟨t, ht, hb⟩ => hb ▸ ht, fun h => ⟨_, h, rfl⟩⟩

/-- **Unwrapping a type** finds the definition inside all wrappers. -/
theorem solves_unwrapWithin (fuel : Nat) (t : Ty) :
    (t.unwrapWithin schema schema.find fuel).Solves (schema.graph declared).Registered
      ((schema.graph declared).Unwraps t) := by
  induction fuel generalizing t with
  | zero =>
    cases t with
    | base n => exact solves_pure (.base n)
    | nonNull id inner => exact fun _ _ => meets_exhausted
    | listOf id inner => exact fun _ _ => meets_exhausted
  | succ fuel ih =>
    cases t with
    | base n => exact solves_pure (.base n)
    | nonNull id inner =>
      refine ((solves_resolveBare hl hu inner).bind
        (fun b b' h h' => BareTy.type_injective (h.unique hu h')) fun b _ => ih b.type).congr
        fun n => ⟨?_, fun h => ?_⟩
      · rintro ⟨b, hb, hn⟩
        exact .nonNull hb (by cases b <;> rfl) hn
      · cases h with
        | nonNull hr hn hu =>
          rename_i t
          cases t with
          | base t => exact ⟨.base t, hr, hu⟩
          | listOf id inner => exact ⟨.listOf id inner, hr, hu⟩
          | nonNull id inner => cases hn
    | listOf id inner =>
      refine ((solves_resolve hl hu inner).bind (fun _ _ h h' => h.unique hu h') fun t _ => ih t).congr
        fun n => ⟨?_, fun h => ?_⟩
      · rintro ⟨t, ht, hn⟩
        exact .listOf ht hn
      · cases h with
        | listOf hr hn => exact ⟨_, hr, hn⟩

/-! ## Checking entities -/

theorem solves_nonScalar? (r : TypeRef) : (r.nonScalar? schema schema.find).Solves
    (schema.graph declared).Registered fun n? => ∃ t n, (schema.graph declared).Resolves r t ∧
      (schema.graph declared).Unwraps t n ∧ n? = if (schema.entity? n).isSome then some n else none := by
  refine ((solves_resolve hl hu r).bind (fun _ _ h h' => h.unique hu h') fun t _ =>
    (solves_unwrapWithin hl hu schema.limit t).bind (fun _ _ h h' => h.unique hu h') fun n _ =>
      solves_pure (R := fun n? => n? = if (schema.entity? n).isSome then some n else none) rfl).congr
    fun n? => ?_
  simp only [exists_and_left]

/-- Refusing what a reference unwraps to, unless that is a scalar. -/
theorem solves_fits (r : TypeRef) (d : NamedType → Defect) {f : Option NamedType → Lookup σ Unit}
    (hnone : f none = pure ()) (hsome : ∀ n, f (some n) = Lookup.defect (d n)) :
    (r.nonScalar? schema schema.find >>= f).Solves (schema.graph declared).Registered
      fun _ => (schema.graph declared).Fits r := by
  refine ((solves_nonScalar? hl hu r).bind (S := fun n? _ => n? = none) ?_ fun n? _ => ?_).congr
    fun _ => ⟨?_, ?_⟩
  · rintro _ _ ⟨t, n, ht, hn, rfl⟩ ⟨t', n', ht', hn', rfl⟩
    obtain rfl := ht.unique hu ht'
    rw [hn.unique hu hn']
  · cases n? with
    | none => rw [hnone]; exact solves_pure rfl
    | some n => rw [hsome]; exact solves_defect fun _ h => by cases h
  · rintro ⟨_, ⟨t, n, ht, hn, rfl⟩, hnone⟩
    refine ⟨t, n, ht, hn, ?_⟩
    by_contra he
    have hsome : (schema.entity? n).isSome = true := Option.isSome_iff_ne_none.mpr he
    rw [if_pos hsome] at hnone
    cases hnone
  · rintro ⟨t, n, ht, hn, he⟩
    refine ⟨none, ⟨t, n, ht, hn, ?_⟩, rfl⟩
    change schema.entity? n = none at he
    simp [he]

theorem solves_checkArgument (owner : String) (a : Argument) :
    (a.check schema schema.find owner).Solves (schema.graph declared).Registered
      fun _ => (schema.graph declared).Fits a.type :=
  solves_fits hl hu a.type (fun t => .invalidArgumentType owner a.name (schema.nameOf t)) rfl
    fun _ => rfl

theorem solves_checkAttribute (entity : String) (a : Attribute σ) :
    (a.check schema schema.find entity).Solves (schema.graph declared).Registered
      fun _ => ∀ r, a.type? = some r → (schema.graph declared).Fits r := by
  unfold Attribute.check
  cases a.type? with
  | none => exact solves_pure fun _ hr => by cases hr
  | some r =>
    refine (solves_fits hl hu r
      (fun t => .invalidAttributeType entity a.label.name (schema.nameOf t)) rfl fun _ => rfl).congr
      fun _ => by simp

theorem solves_follow (entity : String) (l : Link σ) :
    (l.follow schema schema.find entity).Solves (schema.graph declared).Registered
      fun p => (schema.graph declared).Resolves l.target (.base p.1) ∧
        schema.entity? p.1 = some p.2 := by
  refine ((solves_resolve hl hu l.target).bind
    (S := fun t (p : NamedType × Entity σ) => t = .base p.1 ∧ schema.entity? p.1 = some p.2)
    (fun _ _ h h' => h.unique hu h') fun t _ => ?_).congr fun p => ⟨?_, ?_⟩
  · cases t with
    | base n =>
      simp only
      cases he : schema.entity? n with
      | none =>
        refine solves_refuse (fun p hp => ?_) _ _
        cases hp.1
        rw [he] at hp
        cases hp.2
      | some e => exact solves_pure ⟨rfl, he⟩
    | nonNull id inner => exact solves_refuse (fun p hp => by cases hp.1) _ _
    | listOf id inner => exact solves_refuse (fun p hp => by cases hp.1) _ _
  · rintro ⟨t, ht, rfl, he⟩
    exact ⟨ht, he⟩
  · exact fun ⟨ht, he⟩ => ⟨_, ht, rfl, he⟩

/-- **Checking an entity** asks whether all that it refers to is fit for its place. -/
theorem solves_check (e : Entity σ) : (e.check schema schema.find).Solves
    (schema.graph declared).Registered fun _ => (schema.graph declared).Admits e := by
  have harguments : ∀ owner (as : List Argument), (as.forM (Argument.check schema schema.find owner)).Solves
      (schema.graph declared).Registered fun _ => ∀ a ∈ as, (schema.graph declared).Fits a.type :=
    fun owner as => .forM fun a _ => solves_checkArgument hl hu owner a
  have hlink : ∀ l : Link σ, (do
      let _ ← l.follow schema schema.find e.name
      l.arguments.forM (Argument.check schema schema.find (e.name ++ "." ++ l.label.name)) :
        Lookup σ Unit).Solves (schema.graph declared).Registered fun _ =>
      (schema.graph declared).Links l.target ∧
        ∀ a ∈ l.arguments, (schema.graph declared).Fits a.type := by
    intro l
    refine ((solves_follow hl hu e.name l).bind ?_ fun _ _ => harguments _ l.arguments).congr
      fun _ => ?_
    · rintro ⟨n, e⟩ ⟨n', e'⟩ ⟨hn, he⟩ ⟨hn', he'⟩
      cases hn.unique hu hn'
      rw [he] at he'
      cases he'
      rfl
    · simp only [TypeGraph.Links, Prod.exists, Option.isSome_iff_exists, exists_and_right,
        exists_and_left]
      rfl
  refine ((harguments _ e.arguments).and ((Solves.forM fun a _ =>
    solves_checkAttribute hl hu e.name a).and ((Solves.forM fun a _ => harguments _ a.arguments).and
      (Solves.forM fun l _ => hlink l)))).congr fun _ => ?_
  exact ⟨fun ⟨h₁, h₂, h₃, h₄⟩ => ⟨h₁, h₂, h₃, h₄⟩, fun ⟨h₁, h₂, h₃, h₄⟩ => ⟨h₁, h₂, h₃, h₄⟩⟩

theorem solves_checkFound (name : String) (t : NamedType) :
    (schema.checkFound name t).Solves (schema.graph declared).Registered
      fun _ => ∀ e, schema.entity? t = some e → (schema.graph declared).Admits e := by
  rw [checkFound_eq]
  have hentity : (schema.checkRegistered t).Solves (schema.graph declared).Registered
      fun _ => ∀ e, schema.entity? t = some e → (schema.graph declared).Admits e := by
    unfold checkRegistered
    cases schema.entity? t with
    | none => exact solves_pure fun _ he => by cases he
    | some e => exact (solves_check hl hu e).congr fun _ => by simp
  have hsource : (schema.checkSource name t).Solves (schema.graph declared).Registered
      fun _ => True := by
    unfold checkSource
    rw [hl]
    exact solves_pure trivial
  exact (hentity.and hsource).congr fun _ => by simp

omit hl hu

/-- The standard scalars, under their names. -/
theorem eq_standard_of_ofName? (hu : (schema.graph declared).Unique) {name : String}
    (hname : (Standard.ofName? name).isSome = true) {t : NamedType}
    (ht : (schema.graph declared).Denotes name t) : schema.entity? t = none := by
  obtain ⟨k, hk⟩ := Option.isSome_iff_exists.mp hname
  have hkname : k.name = name := by simpa using List.find?_some hk
  rw [hu name t (.standard k) ht ⟨.root (.inl ⟨k, rfl⟩), hkname⟩]
  rfl

/-! ## Building -/

theorem meets_register (declared : List Ty) {types : List Ty} {registered : Set NamedType} (s : Session σ)
    (htypes : ∀ t ∈ types, t ∈ declared ∨ ∃ k, t = .base (.standard k))
    (hregistered : ∀ t ∈ registered, (schema.graph declared).Reaches t)
    (hs : (schema.graph declared).Holds registered Slot.ready s.registry) :
    (schema.register types).Meets s
      (fun _ s' => (schema.graph declared).Holds {t | t ∈ registered ∨ .base t ∈ types} Slot.ready
        s'.registry ∧ ∀ t ∈ types, ∃ n, t = .base n)
      (¬(schema.graph declared).WellFormed) := by
  induction types generalizing s registered with
  | nil => exact meets_pure ⟨hs.congr fun t => by simp, fun _ h => by cases h⟩
  | cons d rest ih =>
    obtain ⟨hd, hrest⟩ := List.forall_mem_cons.mp htypes
    -- a wrapper is refused; it is declared, so that the graph is not well-formed
    have hwrapper : (∀ n, d ≠ .base n) → ¬(schema.graph declared).WellFormed := by
      intro hne hwf
      rcases hd with hd | ⟨k, hk⟩
      · obtain ⟨n, hn⟩ := hwf.declared d hd
        exact hne n hn
      · exact hne _ hk
    cases d with
    | nonNull id inner =>
      exact ⟨fun _ _ he => (by cases he), fun _ _ _ => hwrapper fun _ h => by cases h⟩
    | listOf id inner =>
      exact ⟨fun _ _ he => (by cases he), fun _ _ _ => hwrapper fun _ h => by cases h⟩
    | base t =>
      have ht : (schema.graph declared).Reaches t := by
        rcases hd with hd | ⟨k, hk⟩
        · exact .root (.inr hd)
        · cases hk
          exact .root (.inl ⟨k, rfl⟩)
      unfold register
      refine meets_get.bind fun a s' h => ?_
      rw [h.1, h.2]
      cases hr : Entries.find? s.registry (schema.nameOf t) with
      | none =>
        refine meets_modify.bind fun _ s₁ hs₁ => ?_
        subst hs₁
        refine (ih (s.setSlot (schema.nameOf t) (.ready t)) hrest ?_
          (TypeGraph.Holds.insert hs hr)).mono (fun _ _ h => ⟨h.1.congr fun t' => ?_,
            List.forall_mem_cons.mpr ⟨⟨t, rfl⟩, h.2⟩⟩) id
        · rintro t' (rfl | ht')
          · exact ht
          · exact hregistered t' ht'
        · simp only [Set.mem_ofPred_eq, Set.mem_insert_iff, List.mem_cons, Ty.base.injEq]
          tauto
      | some slot =>
        obtain ⟨other, hother, hname, rfl⟩ := (hs.find?_iff _ _).mp hr
        simp only
        split
        · next he =>
          cases he
          refine (ih s hrest hregistered hs).mono (fun _ _ h => ⟨h.1.congr fun t' => ?_,
            List.forall_mem_cons.mpr ⟨⟨t, rfl⟩, h.2⟩⟩) id
          have hmem : t' = t → t' ∈ registered := fun he => he ▸ hother
          simp only [Set.mem_ofPred_eq, List.mem_cons, Ty.base.injEq]
          tauto
        · next hne =>
          refine meets_defect fun hwf => hne ?_
          rw [hwf.unique _ _ _ ⟨hregistered other hother, hname⟩ ⟨ht, rfl⟩]

/-- **Checking a schema** whose roots are registered accepts well-formed graphs only, and refuses no
others. -/
theorem meets_check (hl : schema.loader? = none) {registered : Set NamedType} {s : Session σ}
    (hdeclared : ∀ t ∈ declared, ∃ n, t = .base n)
    (hroots : ∀ t, (schema.graph declared).Root t → t ∈ registered)
    (hregistered : ∀ t ∈ registered, (schema.graph declared).Reaches t)
    (hs : (schema.graph declared).Holds registered Slot.ready s.registry) :
    schema.check.Meets s
      (fun _ s' => (schema.graph declared).Registered s' ∧ (schema.graph declared).WellFormed)
      (¬(schema.graph declared).WellFormed) := by
  refine ((meets_scan hl hroots hregistered hs).mono (fun _ _ h => h)
    fun h hwf => h ⟨hwf.unique, hwf.known⟩).bind fun types s₁ h => ?_
  obtain ⟨htypes, hs₁, hknown⟩ := h
  have hu := hs₁.unique
  have hmem : ∀ {e}, e ∈ types ↔ (schema.graph declared).Denotes e.1 e.2 := by
    rintro ⟨name, t⟩
    rw [← Entries.find?_eq_some_iff htypes.nodup, htypes.find?_iff]
    refine ⟨?_, fun ht => ⟨t, ht.1, ht.2, rfl⟩⟩
    rintro ⟨t', ht', hname, he⟩
    exact he ▸ ⟨ht', hname⟩
  have hchecks : (types.forM fun e =>
      if (Standard.ofName? e.1).isSome then pure () else schema.checkFound e.1 e.2 :
        Lookup σ Unit).Solves (schema.graph declared).Registered fun _ =>
      ∀ e ∈ types, ∀ entity, schema.entity? e.2 = some entity →
        (schema.graph declared).Admits entity := by
    refine .forM fun e he => ?_
    obtain ⟨name, t⟩ := e
    split
    · next hname =>
      refine solves_pure fun entity hentity => ?_
      rw [eq_standard_of_ofName? hu hname (hmem.mp he)] at hentity
      cases hentity
    · exact solves_checkFound hl hu name t
  refine (hchecks s₁ hs₁).mono (fun _ s' h => ⟨h.1, hdeclared, hu, hknown, fun t e ht he =>
    h.2 (schema.nameOf t, t) (hmem.mpr ⟨ht, rfl⟩) e he⟩) fun h hwf => h () ?_
  exact fun e he entity hentity => hwf.admits e.2 entity (hmem.mp he).1 hentity

/-- Registering the standard scalars and the declared types registers the roots of the graph. -/
theorem meets_registerRoots (schema : Schema σ) (declared : List Ty) (app : σ) :
    (schema.register (Standard.all.map (fun k => .base (.standard k)) ++ declared)).Meets { app }
      (fun _ s' => (schema.graph declared).Holds {t | (schema.graph declared).Root t} Slot.ready
        s'.registry ∧ ∀ t ∈ declared, ∃ n, t = .base n)
      (¬(schema.graph declared).WellFormed) := by
  refine (meets_register declared { app } (fun t ht => ?_) (fun _ h => by cases h)
    TypeGraph.Holds.nil).mono (fun _ s₁ ⟨hs₁, hbase⟩ => ⟨hs₁.congr fun t => ?_,
      fun t ht => hbase t (List.mem_append_right _ ht)⟩) id
  · rcases List.mem_append.mp ht with ht | ht
    · obtain ⟨k, -, rfl⟩ := List.mem_map.mp ht
      exact .inr ⟨k, rfl⟩
    · exact .inl ht
  · have hstandard : ∀ k : Standard, k ∈ Standard.all := fun k => by cases k <;> decide
    simp [TypeGraph.Root, Schema.graph, hstandard, eq_comm]

/-- **Building a schema without a loader** accepts well-formed graphs only, and refuses no others. -/
theorem meets_build (hl : schema.loader? = none) (declared : List Ty) (app : σ) :
    (schema.build declared false).Meets { app }
      (fun _ s' => (schema.graph declared).Registered s' ∧ (schema.graph declared).WellFormed)
      (¬(schema.graph declared).WellFormed) := by
  have hd : schema.onDemand = false := by simp [onDemand, hl]
  unfold build
  rw [hd]
  exact (schema.meets_registerRoots declared app).bind fun _ s₁ h =>
    meets_check hl h.2 (fun _ ht => ht) (fun _ ht => .root ht) h.1

end Schema

end EntityQuery
