import EntityQuery.Schema.Loading
import Mathlib.Data.Set.Finite.Basic

/-!
# Graphs of types

The types that an application declares form a graph: a type refers to others inside wrappers, directly,
by lazy references and by name. Which graphs are well-formed is said here without any traversal.

* `TypeGraph`: definitions, lazy references and the types that are declared up front.
* `TypeGraph.Ends`: what a reference ends in inside its wrappers; `TypeGraph.Reaches`: the types that can
  be reached by direct and lazy references; `TypeGraph.Denotes`: what a name stands for.
* `TypeGraph.Resolves`, `TypeGraph.Unwraps`: the type behind a reference, and the definition inside all
  wrappers, where no non-null wrapper stands directly inside another one.
* **`TypeGraph.WellFormed`**: the graphs that a schema is to accept.
-/

namespace EntityQuery

variable {σ : Type}

/-- The types of an application: how definitions are named, which ones are entities, where lazy
references lead, and the types that are declared up front. -/
structure TypeGraph (σ : Type) where
  name : NamedType → String
  entity? : NamedType → Option (Entity σ)
  target : LazyRef → Ty
  declared : List Ty

/-- The types of a schema, some of them declared up front. -/
def Schema.graph (schema : Schema σ) (declared : List Ty) : TypeGraph σ :=
  ⟨schema.nameOf, schema.entity?, schema.target, declared⟩

namespace TypeGraph

variable (G : TypeGraph σ)

/-- What a reference ends in inside its wrappers: a name, or a definition. -/
inductive Ends : TypeRef → String ⊕ NamedType → Prop
  | named (name : String) : Ends (.named name) (.inl name)
  | base (t : NamedType) : Ends (.direct (.base t)) (.inr t)
  | nonNull {id : PartId} {inner : TypeRef} {tip : String ⊕ NamedType} :
      Ends inner tip → Ends (.direct (.nonNull id inner)) tip
  | listOf {id : PartId} {inner : TypeRef} {tip : String ⊕ NamedType} :
      Ends inner tip → Ends (.direct (.listOf id inner)) tip
  | lazy {r : LazyRef} {tip : String ⊕ NamedType} :
      Ends (.direct (G.target r)) tip → Ends (.lazy r) tip

/-- A standard scalar, or a definition that is declared up front. -/
def Root (t : NamedType) : Prop := (∃ k, t = .standard k) ∨ .base t ∈ G.declared

/-- The standard scalars, the types declared up front, and all that can be reached from them by direct
and lazy references. -/
inductive Reaches : NamedType → Prop
  | root {t : NamedType} : G.Root t → Reaches t
  | step {t t' : NamedType} {e : Entity σ} {r : TypeRef} : Reaches t → G.entity? t = some e →
      r ∈ e.references → G.Ends r (.inr t') → Reaches t'

/-- A name stands for a type that can be reached. -/
def Denotes (name : String) (t : NamedType) : Prop := G.Reaches t ∧ G.name t = name

/-- The wrappers of every reference come to an end. -/
def Chained : Prop :=
  ∀ t e, G.Reaches t → G.entity? t = some e → ∀ r ∈ e.references, ∃ tip, G.Ends r tip

/-- No two types that can be reached have one name. -/
def Unique : Prop := ∀ name t t', G.Denotes name t → G.Denotes name t' → t = t'

/-- Every name that is referred to stands for a type that can be reached. -/
def Known : Prop :=
  ∀ t e, G.Reaches t → G.entity? t = some e → ∀ r ∈ e.references, ∀ name, G.Ends r (.inl name) →
    ∃ t', G.Denotes name t'

/-- The type behind a reference. -/
inductive Resolves : TypeRef → Ty → Prop
  | direct (t : Ty) : Resolves (.direct t) t
  | named {name : String} {t : NamedType} : G.Denotes name t → Resolves (.named name) (.base t)
  | lazy (r : LazyRef) : Resolves (.lazy r) (G.target r)

/-- The definition inside all wrappers, where no non-null wrapper is directly inside another one. -/
inductive Unwraps : Ty → NamedType → Prop
  | base (n : NamedType) : Unwraps (.base n) n
  | nonNull {id : PartId} {inner : TypeRef} {t : Ty} {n : NamedType} :
      G.Resolves inner t → t.isNonNull = false → Unwraps t n → Unwraps (.nonNull id inner) n
  | listOf {id : PartId} {inner : TypeRef} {t : Ty} {n : NamedType} :
      G.Resolves inner t → Unwraps t n → Unwraps (.listOf id inner) n

/-- A type that a reference resolves to, if it resolves at all. -/
inductive Leads : TypeRef → Ty → Prop
  | direct (t : Ty) : Leads (.direct t) t
  | named (name : String) (n : NamedType) : Leads (.named name) (.base n)
  | lazy (r : LazyRef) : Leads (.lazy r) (G.target r)

/-- A reference unwraps to a scalar. -/
def Fits (r : TypeRef) : Prop :=
  ∃ t n, G.Resolves r t ∧ G.Unwraps t n ∧ G.entity? n = none

/-- A reference leads to an entity itself. -/
def Links (r : TypeRef) : Prop := ∃ n, G.Resolves r (.base n) ∧ (G.entity? n).isSome = true

/-- Every type that an entity refers to is fit for its place. -/
structure Admits (e : Entity σ) : Prop where
  arguments : ∀ a ∈ e.arguments, G.Fits a.type
  attributes : ∀ a ∈ e.attributes, ∀ r, a.type? = some r → G.Fits r
  acts : ∀ a ∈ e.acts, ∀ b ∈ a.arguments, G.Fits b.type
  links : ∀ l ∈ e.links, G.Links l.target ∧ ∀ b ∈ l.arguments, G.Fits b.type

/-- **A well-formed graph**: only definitions are declared up front, each type that can be reached has a
name of its own, every name that is referred to stands for one of these types, and all that entities
refer to is fit for its place. -/
structure WellFormed : Prop where
  declared : ∀ t ∈ G.declared, ∃ n, t = .base n
  unique : G.Unique
  known : G.Known
  admits : ∀ t e, G.Reaches t → G.entity? t = some e → G.Admits e

/-- Named values are those of a set of types, each under its own name and nowhere else. -/
structure Holds (types : Set NamedType) {α : Type} (value : NamedType → α) (es : Entries α) :
    Prop where
  find?_iff : ∀ name v, Entries.find? es name = some v ↔
    ∃ t ∈ types, G.name t = name ∧ v = value t
  nodup : (Entries.keys es).Nodup

/-- The session has registered all types that can be reached, each under its own name, and nothing
else. -/
def Registered (s : Session σ) : Prop := G.Holds {t | G.Reaches t} Slot.ready s.registry

variable {G} {r : TypeRef} {t t' : Ty} {n n' : NamedType}

theorem Ends.unique {tip tip' : String ⊕ NamedType} (h : G.Ends r tip) (h' : G.Ends r tip') :
    tip = tip' := by
  induction h with
  | named name => cases h'; rfl
  | base t => cases h'; rfl
  | nonNull _ ih => cases h' with | nonNull h' => exact ih h'
  | listOf _ ih => cases h' with | listOf h' => exact ih h'
  | lazy _ ih => cases h' with | lazy h' => exact ih h'

theorem Resolves.unique (hu : G.Unique) (h : G.Resolves r t) (h' : G.Resolves r t') : t = t' := by
  cases h with
  | direct t => cases h'; rfl
  | named h => cases h' with | named h' => rw [hu _ _ _ h h']
  | lazy r => cases h'; rfl

theorem Unwraps.unique (hu : G.Unique) (h : G.Unwraps t n) (h' : G.Unwraps t n') : n = n' := by
  induction h with
  | base n => cases h'; rfl
  | nonNull hr _ _ ih =>
    cases h' with | nonNull hr' _ h' => exact ih (hr.unique hu hr' ▸ h')
  | listOf hr _ ih => cases h' with | listOf hr' h' => exact ih (hr.unique hu hr' ▸ h')

theorem Unique.name_injOn (hu : G.Unique) : Set.InjOn G.name {t | G.Reaches t} :=
  fun _ ht _ ht' he => hu _ _ _ ⟨ht, he⟩ ⟨ht', rfl⟩

/-! ## Registries -/

theorem Registered.unique {s : Session σ} (h : G.Registered s) : G.Unique := fun name t t' ht ht' =>
  Slot.ready.inj <| Option.some.inj <|
    ((h.find?_iff name _).mpr ⟨t, ht.1, ht.2, rfl⟩).symm.trans
      ((h.find?_iff name _).mpr ⟨t', ht'.1, ht'.2, rfl⟩)

variable {α : Type} {types types' : Set NamedType} {value : NamedType → α} {es : Entries α}

theorem Holds.nil : G.Holds ∅ value [] := ⟨by simp, List.nodup_nil⟩

theorem Holds.congr (h : G.Holds types value es) (ht : ∀ t, t ∈ types ↔ t ∈ types') :
    G.Holds types' value es := (Set.ext ht : types = types') ▸ h

/-- Only finitely many types are held. -/
theorem Holds.finite (h : G.Holds types value es) (hn : Set.InjOn G.name types) : types.Finite := by
  refine Set.Finite.of_finite_image ((List.finite_toSet (Entries.keys es)).subset ?_) hn
  rintro _ ⟨t, ht, rfl⟩
  refine (Entries.mem_keys_iff es _).mpr (Option.isSome_iff_exists.mpr ⟨value t, ?_⟩)
  exact (h.find?_iff _ _).mpr ⟨t, ht, rfl, rfl⟩

/-- Adding a type under its own name, where that stands for nothing yet. -/
theorem Holds.insert (h : G.Holds types value es) {n : NamedType}
    (hn : Entries.find? es (G.name n) = none) :
    G.Holds (insert n types) value (Entries.insert es (G.name n) (value n)) := by
  refine ⟨fun name v => ?_, Entries.nodup_keys_insert h.nodup _ _⟩
  rw [Entries.find?_insert]
  split
  · next he =>
    subst he
    refine ⟨fun hv => ⟨n, Set.mem_insert n types, rfl, (Option.some.inj hv).symm⟩, ?_⟩
    rintro ⟨t, ht | ht, hname, rfl⟩
    · rw [ht]
    · have hsome := (h.find?_iff _ _).mpr ⟨t, ht, hname, rfl⟩
      rw [hn] at hsome
      cases hsome
  · next he =>
    rw [h.find?_iff]
    refine ⟨fun ⟨t, ht, hv⟩ => ⟨t, .inr ht, hv⟩, ?_⟩
    rintro ⟨t, ht | ht, hname, rfl⟩
    · exact absurd (ht ▸ hname) he
    · exact ⟨t, ht, hname, rfl⟩

end TypeGraph

end EntityQuery
