import EntityQuery.Proofs.Schema.Registry
import Mathlib.Data.Finset.Card

/-!
# Look-ups and what was looked up before

A loader that always gives the same type for a name may still be asked in any order. A type is registered
before it is checked, so that types may refer to each other, and it is removed again where it does not pass;
what was checked in between, against the type that is removed, stays.

* `Supply`: a loader that always gives the same for a name, and for finitely many names only.
* `Schema.Certified`: every registered entity passes its check, from now on; `Schema.CertifiedSince`: each one
  that has been registered since a session does.
* **`Supply.finds_of_certified`**: what is registered in a session whose entities pass is found from
  every session of the same schema.
* **`Schema.answers_after_finds`**: what a fresh schema finds is found after any look-ups, and the answers are
  those of the fresh schema where no look-up that failed has left a type behind.
* `answers_change_after_failed_find`: where one has, they are not.
-/

namespace EntityQuery

open Lookup Session

variable {σ α β : Type}

namespace Schema

/-- The session after some look-ups, however each of them has ended. -/
def afterFinds (schema : Schema σ) (asked : List String) (s : Session σ) : Session σ :=
  asked.foldl (fun s name => (schema.find name).after s) s

/-- A loader that always gives the same for a name, for finitely many names, and a limit on nested
look-ups that allows to load all of them. -/
structure Supply (schema : Schema σ) (given : String → Option Ty) (names : Finset String) : Prop where
  loads : schema.loader? = some fun name => .done (given name)
  finite : ∀ name t, given name = some t → name ∈ names
  bound : names.card < schema.limit

/-- Every registered entity passes its check, from now on. -/
def Certified (schema : Schema σ) (s : Session σ) : Prop :=
  ∀ name t e, Entries.find? s.registry name = some (.ready t) → schema.entity? t = some e →
    Settled (e.check schema schema.find) ⟨⟩ s

/-- Every entity that has been registered since a session passes its check, from now on. -/
def CertifiedSince (schema : Schema σ) (base s : Session σ) : Prop :=
  ∀ name t e, Entries.find? s.registry name = some (.ready t) → schema.entity? t = some e →
    Entries.find? base.registry name = some (.ready t) ∨ Settled (e.check schema schema.find) ⟨⟩ s

/-- The registry is tidy, and what is registered was so to start with, or is what the loader gives. -/
structure Loyal (schema : Schema σ) (given : String → Option Ty) (base s : Session σ) : Prop where
  tidy : s.Tidy schema
  loyal : ∀ name t, Entries.find? s.registry name = some (.ready t) →
    Entries.find? base.registry name = some (.ready t) ∨ given name = some (.base t)

/-- A session between look-ups. -/
structure Honest (schema : Schema σ) (given : String → Option Ty) (base s : Session σ) : Prop
    extends Loyal schema given base s where
  later : base.Later s
  unmarked : ∀ name cyclic, Entries.find? s.registry name ≠ some (.loading cyclic)

end Schema

/-! ## What one look-up does -/

namespace Entries

variable {es : Entries α} {key : String}

theorem erase_insert_of_none (h : find? es key = none) (v : α) :
    erase (insert es key v) key = es := by
  induction es with
  | nil => simp [insert, erase]
  | cons e rest ih =>
    obtain ⟨k, w⟩ := e
    by_cases hk : k = key
    · simp [find?, hk] at h
    · simp only [find?, hk, if_false] at h
      simp [insert, erase, hk, ih h]

theorem insert_insert (es : Entries α) (key : String) (v w : α) :
    insert (insert es key v) key w = insert es key w := by
  induction es with
  | nil => simp [insert]
  | cons e rest ih =>
    obtain ⟨k, u⟩ := e
    by_cases hk : k = key
    · simp [insert, hk]
    · simp [insert, hk, ih]

end Entries

namespace Schema

variable {schema : Schema σ} {given : String → Option Ty} {names : Finset String} {find : Finder σ}
  {s s' base : Session σ} {name : String} {t : NamedType}

/-- The loader that always gives the same. -/
abbrev supplier (given : String → Option Ty) (name : String) : Loading σ := .done (given name)

theorem clearLoading_mark (hn : Entries.find? s.registry name = none) :
    clearLoading name (s.setSlot name (.loading false)) = s := by
  have hm : Entries.find? (s.setSlot name (.loading false)).registry name = some (.loading false) := by
    simp [setSlot, Entries.find?_insert]
  unfold clearLoading
  rw [hm]
  simp only [setSlot, Entries.erase_insert_of_none hn]

theorem loadMarked_of_load {loaded : Option NamedType}
    (h : schema.load find (supplier given) name s = .ok loaded s)
    (hm : Entries.find? s.registry name = some (.loading false)) :
    schema.loadMarked find (supplier given) name s =
      match loaded with
      | none => .ok (none, false) s
      | some t => .ok (some t, true) (s.setSlot name (.ready t)) := by
  unfold loadMarked
  refine (bind_of_ok h).trans ((bind_of_ok (x := get) rfl).trans ?_)
  rw [hm]
  cases loaded <;> rfl

/-- What is loaded: nothing, or what the loader gives if that is a definition of the name. -/
theorem load_supplier (schema : Schema σ) (given : String → Option Ty) (find : Finder σ)
    (name : String) (s : Session σ) :
    (given name = none ∧ schema.load find (supplier given) name s = .ok none s) ∨
    (∃ t, given name = some (.base t) ∧ schema.nameOf t = name ∧
      schema.load find (supplier given) name s = .ok (some t) s) ∨
    (∃ t, given name = some t ∧ ∀ n, t = .base n → schema.nameOf n ≠ name) ∧
      ∃ d, schema.load find (supplier given) name s = .error (.defect d) s := by
  unfold load supplier
  cases hg : given name with
  | none => exact .inl ⟨rfl, rfl⟩
  | some t =>
    refine .inr ?_
    cases t with
    | nonNull id inner => exact .inr ⟨⟨_, rfl, fun _ => nofun⟩, .notANamedType name _, rfl⟩
    | listOf id inner => exact .inr ⟨⟨_, rfl, fun _ => nofun⟩, .notANamedType name _, rfl⟩
    | base t =>
      by_cases ht : schema.nameOf t = name
      · refine .inl ⟨t, rfl, ht, (bind_of_ok (x := pure _) rfl).trans ?_⟩
        simp only [ht, if_true]
        rfl
      · refine .inr ⟨⟨_, rfl, fun n he => by cases he; exact ht⟩,
          .typeNameMismatch name (schema.nameOf t), (bind_of_ok (x := pure _) rfl).trans ?_⟩
        simp only [ht, if_false]
        rfl

/-- **What looking up an unknown name does**: nothing is registered, or what the loader gives is registered
and checked. -/
theorem loadName_supplier (schema : Schema σ) (given : String → Option Ty) (find : Finder σ)
    (hn : Entries.find? s.registry name = none) :
    (given name = none ∧ schema.loadName find (supplier given) name s = .ok none s) ∨
    (∃ t, given name = some (.base t) ∧ schema.nameOf t = name ∧
      schema.loadName find (supplier given) name s =
        schema.checkLoaded find name (some t, true) (s.setSlot name (.ready t))) ∨
    (∃ t, given name = some t ∧ ∀ n, t = .base n → schema.nameOf n ≠ name) ∧
      ∃ d, schema.loadName find (supplier given) name s = .error (.defect d) s := by
  have hm : Entries.find? (s.setSlot name (.loading false)).registry name = some (.loading false) := by
    simp [setSlot, Entries.find?_insert]
  rcases load_supplier schema given find name (s.setSlot name (.loading false)) with
    ⟨hg, h⟩ | ⟨t, hg, ht, h⟩ | ⟨hne, d, h⟩
  · refine .inl ⟨hg, ?_⟩
    rw [loadName_of_ok (loadMarked_of_load h hm), clearLoading_mark hn]
    rfl
  · refine .inr (.inl ⟨t, hg, ht, ?_⟩)
    have hr : (s.setSlot name (.loading false)).setSlot name (.ready t) =
        s.setSlot name (.ready t) := by
      simp only [setSlot, Entries.insert_insert]
    have hc : clearLoading name (s.setSlot name (.ready t)) = s.setSlot name (.ready t) := by
      simp [clearLoading, setSlot, Entries.find?_insert]
    rw [loadName_of_ok (loadMarked_of_load h hm), hr, hc]
  · refine .inr (.inr ⟨hne, d, ?_⟩)
    rw [loadName_of_error (bind_of_error h), clearLoading_mark hn]

/-- A type that was registered passes its check, if it is an entity. -/
theorem checkLoaded_eq_ok {found : Option NamedType} :
    schema.checkLoaded find name (some t, true) s = .ok found s' ↔
      found = some t ∧ ((schema.entity? t = none ∧ s' = s) ∨
        ∃ e, schema.entity? t = some e ∧ e.check schema find s = .ok ⟨⟩ s') := by
  unfold checkLoaded
  simp only
  cases he : schema.entity? t with
  | none =>
    refine ⟨fun h => ?_, ?_⟩
    · cases h
      exact ⟨rfl, .inl ⟨rfl, rfl⟩⟩
    · rintro ⟨rfl, ⟨-, rfl⟩ | ⟨e, he', -⟩⟩
      · rfl
      · cases he'
  | some e =>
    have passes : ∀ {s₁}, Lookup.onDefect (e.check schema find) (Session.evict · name t) s =
        .ok ⟨⟩ s₁ ↔ e.check schema find s = .ok ⟨⟩ s₁ := by
      intro s₁
      unfold Lookup.onDefect
      cases h : e.check schema find s with
      | ok a s₂ => simp
      | error stop s₂ => cases stop <;> simp
    refine ⟨fun h => ?_, ?_⟩
    · obtain ⟨⟨⟩, s₁, h₁, h₂⟩ := bind_eq_ok.mp h
      cases h₂
      exact ⟨rfl, .inr ⟨e, rfl, passes.mp h₁⟩⟩
    · rintro ⟨rfl, ⟨hn, -⟩ | ⟨e', he', h⟩⟩
      · cases hn
      · cases he'
        exact bind_of_ok (passes.mpr h)

/-- A known name is answered from the registry. -/
theorem eq_of_findWithin_known {fuel : Nat} {slot : Slot} {found : Option NamedType}
    (hr : Entries.find? s.registry name = some slot)
    (h : schema.findWithin fuel name s = .ok found s') :
    s' = s ∧ ∃ t, found = some t ∧ slot = .ready t := by
  rw [findWithin_eq, hr] at h
  cases slot with
  | ready t =>
    cases h
    exact ⟨rfl, t, rfl, rfl⟩
  | loading cyclic => cases h

theorem Supply.findWithin_of_unknown (hg : schema.Supply given names)
    (hn : Entries.find? s.registry name = none) (fuel : Nat) :
    schema.findWithin (fuel + 1) name s =
      schema.loadName (schema.findWithin fuel) (supplier given) name s := by
  rw [findWithin_eq, hn, hg.loads]

theorem Supply.plain (hg : schema.Supply given names) : schema.Plain := by
  intro loader hl name
  rw [hg.loads] at hl
  cases hl
  trivial

/-! ## Sessions stay honest -/

/-- A computation keeps a property of sessions, however it ends. -/
def Preserves (I : Session σ → Prop) (x : Lookup σ α) : Prop := ∀ s, I s → I (x.after s)

theorem Preserves.bind {I : Session σ → Prop} {x : Lookup σ α} {f : α → Lookup σ β}
    (hx : Preserves I x) (hf : ∀ a, Preserves I (f a)) : Preserves I (x >>= f) := by
  intro s hs
  have hs₁ := hx s hs
  cases h : x s with
  | ok a s₁ =>
    have hb : (x >>= f) s = f a s₁ := bind_of_ok h
    unfold Lookup.after
    rw [hb]
    exact hf a s₁ (after_of_ok h ▸ hs₁)
  | error e s₁ =>
    rw [after_of_error (bind_of_error h)]
    exact after_of_error h ▸ hs₁

theorem respects_preserves (schema : Schema σ) (given : String → Option Ty) (base : Session σ) :
    Respects schema fun x _ => Preserves (schema.Loyal given base) x where
  pure _ _ hs := hs
  stop _ _ _ hs := hs
  force r s hs := by
    unfold after Schema.force
    split
    · next h => split at h <;> cases h <;> exact ⟨⟨hs.tidy.nodup, hs.tidy.named⟩, hs.loyal⟩
    · next h => split at h <;> cases h
  refuse _ _ _ hs := hs
  bind := Preserves.bind

theorem Loyal.setSlot (h : schema.Loyal given base s) {slot : Slot}
    (hs : ∀ t, slot = .ready t → schema.nameOf t = name ∧ given name = some (.base t)) :
    schema.Loyal given base (s.setSlot name slot) := by
  refine ⟨h.tidy.setSlot fun t ht => (hs t ht).1, fun other t ht => ?_⟩
  simp only [Session.setSlot, Entries.find?_insert] at ht
  split at ht
  · next he => exact .inr (he ▸ (hs t (Option.some_inj.mp ht)).2)
  · exact h.loyal other t ht

theorem Loyal.evict (h : schema.Loyal given base s) (name : String) (t : NamedType) :
    schema.Loyal given base (s.evict name t) := by
  unfold Session.evict
  split
  · refine ⟨⟨Entries.nodup_keys_erase h.tidy.nodup name, fun other t' ht => ?_⟩,
      fun other t' ht => ?_⟩
    all_goals
      rw [Entries.find?_erase h.tidy.nodup] at ht
      split at ht
      · cases ht
    · exact h.tidy.named other t' ht
    · exact h.loyal other t' ht
  · exact h

theorem Preserves.onDefect_evict {x : Lookup σ α} (hx : Preserves (schema.Loyal given base) x)
    (name : String) (t : NamedType) :
    Preserves (schema.Loyal given base) (Lookup.onDefect x (Session.evict · name t)) := by
  intro s hs
  have h' := hx s hs
  unfold Lookup.onDefect Lookup.after at *
  simp only
  cases h : x s with
  | ok a s₁ =>
    rw [h] at h'
    exact h'
  | error e s₁ =>
    rw [h] at h'
    cases e with
    | defect d => exact Loyal.evict h' name t
    | fault f => exact h'
    | exhausted => exact h'

section

variable {find : Finder σ} (hfind : ∀ name, Preserves (schema.Loyal given base) (find name))

include hfind

theorem preserves_require (name : String) :
    Preserves (schema.Loyal given base) (find.require name) := by
  refine (hfind name).bind fun t? => ?_
  cases t? <;> exact fun _ hs => hs

theorem preserves_check (e : Entity σ) :
    Preserves (schema.Loyal given base) (e.check schema find) :=
  (respects_preserves schema given base).check_same (preserves_require hfind) e

theorem preserves_checkLoaded (name : String) (loaded : Option NamedType × Bool) :
    Preserves (schema.Loyal given base) (schema.checkLoaded find name loaded) := by
  obtain ⟨found, new⟩ := loaded
  cases found with
  | none => exact fun _ hs => hs
  | some t =>
    cases new with
    | false => exact fun _ hs => hs
    | true =>
      unfold checkLoaded
      simp only
      cases he : schema.entity? t with
      | none => exact fun _ hs => hs
      | some e =>
        exact ((preserves_check hfind e).onDefect_evict name t).bind fun _ _ hs => hs

end

theorem Supply.preserves_findWithin (hg : schema.Supply given names) (fuel : Nat) (name : String) :
    Preserves (schema.Loyal given base) (schema.findWithin fuel name) := by
  induction fuel generalizing name with
  | zero =>
    intro s hs
    unfold Lookup.after
    rw [findWithin_eq]
    cases hr : Entries.find? s.registry name with
    | none =>
      rw [hg.loads]
      exact hs
    | some slot =>
      cases slot with
      | ready t => exact hs
      | loading cyclic => exact hs.setSlot fun _ => nofun
  | succ fuel ih =>
    intro s hs
    cases hr : Entries.find? s.registry name with
    | none =>
      unfold Lookup.after
      rw [hg.findWithin_of_unknown hr]
      rcases loadName_supplier schema given (schema.findWithin fuel) hr with
        ⟨-, h⟩ | ⟨t, hgiven, ht, h⟩ | ⟨-, d, h⟩
      · rw [h]
        exact hs
      · rw [h]
        exact preserves_checkLoaded ih name (some t, true) _
          (hs.setSlot fun t' he => by cases he; exact ⟨ht, hgiven⟩)
      · rw [h]
        exact hs
    | some slot =>
      unfold Lookup.after
      rw [findWithin_eq, hr]
      cases slot with
      | ready t => exact hs
      | loading cyclic => exact hs.setSlot fun _ => nofun

theorem Supply.honest_findWithin (hg : schema.Supply given names) (hs : schema.Honest given base s)
    (fuel : Nat) (name : String) :
    schema.Honest given base ((schema.findWithin fuel name).after s) ∧
      s.Later ((schema.findWithin fuel name).after s) := by
  have ho := (beside_findWithin hg.loads (fun _ _ => rfl) fuel name s hs.tidy
    (Session.Later.refl s)).onward
  exact ⟨⟨hg.preserves_findWithin fuel name s hs.toLoyal, hs.later.trans ho.later,
    ho.unmarked hs.unmarked⟩, ho.later⟩

/-! ## What a look-up that succeeds adds passes its check -/

/-- Two finders that answer alike where names are registered: what is settled with one is settled with the
other one. -/
def Carries (x x' : Lookup σ α) : Prop :=
  Stable False x ∧ Stable False x' ∧ ∀ s a, Settled x a s → Settled x' a s

theorem respects_carries (schema : Schema σ) : Respects schema fun x x' => Carries x x' where
  pure a := ⟨stable_pure a, stable_pure a, fun _ _ h => h⟩
  stop e _ := ⟨stable_throw e, stable_throw e, fun _ _ h => h⟩
  force r := ⟨schema.stable_force r, schema.stable_force r, fun _ _ h => h⟩
  refuse {α} t d := by
    have h : Stable False (do Lookup.defect (d (← schema.textOf t)) : Lookup σ α) :=
      stable_of_never fun _ _ _ h => by cases h
    exact ⟨h, h, fun _ _ h => h⟩
  bind hx hf := by
    refine ⟨hx.1.bind fun a => (hf a).1, hx.2.1.bind fun a => (hf a).2.1, fun s b h => ?_⟩
    obtain ⟨a, h₁, h₂⟩ := h.of_bind hx.1 fun a => (hf a).1
    exact (hx.2.2 s a h₁).bind ((hf a).2.2 s b h₂)

theorem stable_requireWithin (hp : schema.Plain) (fuel : Nat) (name : String) :
    Stable False (Finder.require (schema.findWithin fuel) name) :=
  Finder.stable_require (findWithin_of_ready fuel)
    (fun h => ⟨(findWithin_of_plain hp h).1, nofun, (findWithin_of_plain hp h).2.2⟩) name

theorem ready_of_settled (hp : schema.Plain) {fuel : Nat}
    (h : Settled (Finder.require (schema.findWithin fuel) name) t s) :
    Entries.find? s.registry name = some (.ready t) := by
  obtain ⟨t?, s₁, h₁, h₂⟩ := bind_eq_ok.mp (h s (.refl s))
  cases t? with
  | none => cases h₂
  | some t' =>
    cases h₂
    exact (findWithin_of_plain hp h₁).2.2 _ rfl

theorem settled_check (hp : schema.Plain) {fuel : Nat} (fuel' : Nat) {e : Entity σ}
    (h : Settled (e.check schema (schema.findWithin fuel)) ⟨⟩ s) :
    Settled (e.check schema (schema.findWithin fuel')) ⟨⟩ s := by
  refine ((respects_carries schema).check schema.congruent_refl (fun name => ?_) (.refl e)).2.2 s _ h
  refine ⟨stable_requireWithin hp fuel name, stable_requireWithin hp fuel' name,
    fun s t h s' hs => ?_⟩
  exact bind_of_ok (findWithin_of_ready fuel' (hs.ready _ _ (ready_of_settled hp h)))

/-- If it succeeds, a computation registers only entities that pass their check. -/
def Gains (schema : Schema σ) (x : Lookup σ α) : Prop :=
  ∀ s a s', x s = .ok a s' → s.Later s' ∧ ∀ name t e,
    Entries.find? s'.registry name = some (.ready t) → schema.entity? t = some e →
      Entries.find? s.registry name = some (.ready t) ∨ Settled (e.check schema schema.find) ⟨⟩ s'

theorem gains_of_same {x : Lookup σ α}
    (h : ∀ s a s', x s = .ok a s' → s.Later s' ∧ s'.registry = s.registry) : Gains schema x := by
  intro s a s' hx
  obtain ⟨hl, hr⟩ := h s a s' hx
  exact ⟨hl, fun name t e ht _ => .inl (hr ▸ ht)⟩

theorem gains_of_never {x : Lookup σ α} (h : ∀ s a s', x s ≠ .ok a s') : Gains schema x :=
  fun s a s' hx => absurd hx (h s a s')

theorem Gains.bind {x : Lookup σ α} {f : α → Lookup σ β} (hx : Gains schema x)
    (hf : ∀ a, Gains schema (f a)) : Gains schema (x >>= f) := by
  intro s b s' h
  obtain ⟨a, s₁, h₁, h₂⟩ := bind_eq_ok.mp h
  obtain ⟨hl₁, hg₁⟩ := hx s a s₁ h₁
  obtain ⟨hl₂, hg₂⟩ := hf a s₁ b s' h₂
  refine ⟨hl₁.trans hl₂, fun name t e ht he => ?_⟩
  rcases hg₂ name t e ht he with ht₁ | hc
  · exact (hg₁ name t e ht₁ he).imp_right fun hc => hc.later hl₂
  · exact .inr hc

theorem respects_gains (schema : Schema σ) : Respects schema fun x _ => Gains schema x where
  pure a := gains_of_same fun s b s' h => by cases h; exact ⟨.refl s, rfl⟩
  stop e _ := gains_of_never fun _ _ _ h => by cases h
  force r := gains_of_same fun s a s' h => by
    have hforce : Stable True (schema.force r) := schema.stable_force r
    obtain ⟨hl, hr, -⟩ := hforce s a s' h
    exact ⟨hl, hr trivial⟩
  refuse t d := gains_of_never fun _ _ _ h => by cases h
  bind := Gains.bind

theorem Gains.check {fuel : Nat} (h : ∀ name, Gains schema (schema.findWithin fuel name))
    (e : Entity σ) : Gains schema (e.check schema (schema.findWithin fuel)) := by
  have hrequire : ∀ name, Gains schema (Finder.require (schema.findWithin fuel) name) := by
    intro name
    refine (h name).bind fun t? => ?_
    cases t? with
    | none => exact gains_of_never fun _ _ _ h => by cases h
    | some t => exact (respects_gains schema).pure t
  exact (respects_gains schema).check_same hrequire e

theorem Supply.gains_findWithin (hg : schema.Supply given names) (fuel : Nat) (name : String) :
    Gains schema (schema.findWithin fuel name) := by
  have same : ∀ s, s.Later s ∧ ∀ name t e,
      Entries.find? s.registry name = some (.ready t) → schema.entity? t = some e →
        Entries.find? s.registry name = some (.ready t) ∨
          Settled (e.check schema schema.find) ⟨⟩ s := fun s =>
    ⟨.refl s, fun _ _ _ ht _ => .inl ht⟩
  induction fuel generalizing name with
  | zero =>
    intro s a s' h
    cases hr : Entries.find? s.registry name with
    | some slot =>
      obtain ⟨rfl, -⟩ := eq_of_findWithin_known hr h
      exact same s'
    | none =>
      rw [findWithin_eq, hr, hg.loads] at h
      cases h
  | succ fuel ih =>
    intro s a s' h
    cases hr : Entries.find? s.registry name with
    | some slot =>
      obtain ⟨rfl, -⟩ := eq_of_findWithin_known hr h
      exact same s'
    | none =>
      rw [hg.findWithin_of_unknown hr] at h
      rcases loadName_supplier schema given (schema.findWithin fuel) hr with
        ⟨-, h'⟩ | ⟨t, -, -, h'⟩ | ⟨-, d, h'⟩
      · rw [h'] at h
        cases h
        exact same s
      · rw [h'] at h
        have hl : s.Later (s.setSlot name (.ready t)) :=
          later_setSlot fun t' ht' => by rw [hr] at ht'; cases ht'
        -- what is registered with the type is the type, or was registered before
        have new : ∀ {name' t'}, Entries.find? (s.setSlot name (.ready t)).registry name' =
            some (.ready t') → t' = t ∨ Entries.find? s.registry name' = some (.ready t') := by
          intro name' t' ht'
          simp only [setSlot, Entries.find?_insert] at ht'
          split at ht'
          · cases ht'
            exact .inl rfl
          · exact .inr ht'
        obtain ⟨-, ⟨hn, rfl⟩ | ⟨e, he, hc⟩⟩ := checkLoaded_eq_ok.mp h
        · refine ⟨hl, fun name' t' e ht' he => ?_⟩
          rcases new ht' with rfl | ht'
          · rw [hn] at he
            cases he
          · exact .inl ht'
        · obtain ⟨hl', hc'⟩ := Gains.check ih e _ _ _ hc
          have hs := settled_check hg.plain schema.limit
            (e.stable_check (stable_requireWithin hg.plain fuel) _ _ _ hc).2.2
          refine ⟨hl.trans hl', fun name' t' e' ht' he' => ?_⟩
          rcases hc' name' t' e' ht' he' with ht' | hs'
          · rcases new ht' with rfl | ht'
            · rw [he] at he'
              cases he'
              exact .inr hs
            · exact .inl ht'
          · exact .inr hs'
      · rw [h'] at h
        cases h

theorem Certified.since (h : schema.Certified s) (base : Session σ) : schema.CertifiedSince base s :=
  fun name t e ht he => .inr (h name t e ht he)

theorem CertifiedSince.refl (s : Session σ) : schema.CertifiedSince s s := fun _ _ _ ht _ => .inl ht

theorem CertifiedSince.trans (h : schema.CertifiedSince base s) (hl : s.Later s')
    (h' : schema.CertifiedSince s s') : schema.CertifiedSince base s' := by
  intro name t e ht he
  rcases h' name t e ht he with ht | hs
  · exact (h name t e ht he).imp_right fun hs => hs.later hl
  · exact .inr hs

theorem Supply.certifiedSince_find (hg : schema.Supply given names)
    (hc : schema.CertifiedSince base s) {found : Option NamedType}
    (h : schema.find name s = .ok found s') : schema.CertifiedSince base s' := by
  obtain ⟨hl, hn⟩ := hg.gains_findWithin schema.limit name s found s' h
  exact hc.trans hl hn

theorem Supply.certified_find (hg : schema.Supply given names) (hc : schema.Certified s)
    {found : Option NamedType} (h : schema.find name s = .ok found s') : schema.Certified s' := by
  obtain ⟨hl, hn⟩ := hg.gains_findWithin schema.limit name s found s' h
  intro name' t e ht he
  rcases hn name' t e ht he with ht | hs
  · exact (hc name' t e ht he).later hl
  · exact hs

/-! ## What passes in one session is found from every other one -/

/-- The names that the loader knows and the registry does not. -/
def missing (names : Finset String) (s : Session σ) : Finset String :=
  names.filter fun name => Entries.find? s.registry name = none

/-- A session from which so much fuel is enough. -/
structure Apt (schema : Schema σ) (given : String → Option Ty) (names : Finset String)
    (base : Session σ) (fuel : Nat) (s : Session σ) : Prop extends Honest schema given base s where
  enough : (missing names s).card ≤ fuel

theorem Honest.setReady (hs : schema.Honest given base s)
    (hn : Entries.find? s.registry name = none) (ht : schema.nameOf t = name)
    (hgiven : given name = some (.base t)) :
    schema.Honest given base (s.setSlot name (.ready t)) := by
  refine ⟨hs.toLoyal.setSlot fun t' he => by cases he; exact ⟨ht, hgiven⟩,
    hs.later.trans (later_setSlot fun t' ht' => by rw [hn] at ht'; cases ht'),
    fun other cyclic hc => ?_⟩
  simp only [setSlot, Entries.find?_insert] at hc
  split at hc
  · cases hc
  · exact hs.unmarked other cyclic hc

theorem card_missing_setReady (hn : Entries.find? s.registry name = none) (hm : name ∈ names) :
    (missing names (s.setSlot name (.ready t))).card < (missing names s).card := by
  refine Finset.card_lt_card ⟨fun other ho => ?_, fun h => ?_⟩
  · simp only [missing, Finset.mem_filter, setSlot, Entries.find?_insert] at ho ⊢
    refine ⟨ho.1, ?_⟩
    have h₂ := ho.2
    split at h₂
    · cases h₂
    · exact h₂
  · have h' := h (Finset.mem_filter.mpr ⟨hm, hn⟩)
    simp [missing, setSlot, Entries.find?_insert] at h'

/-- What is settled in one session succeeds, with a finder of so much fuel, from all apt ones. -/
def Transfers (schema : Schema σ) (given : String → Option Ty) (names : Finset String)
    (base c : Session σ) (fuel : Nat) (x x' : Lookup σ α) : Prop :=
  Stable False x ∧ ∀ a, Settled x a c → ∀ s, schema.Apt given names base fuel s →
    ∃ s', x' s = .ok a s' ∧ schema.Apt given names base fuel s'

theorem respects_transfers (schema : Schema σ) (given : String → Option Ty) (names : Finset String)
    (base c : Session σ) (fuel : Nat) :
    Respects schema fun x x' => schema.Transfers given names base c fuel x x' where
  pure a := ⟨stable_pure a, fun b h s hs => ⟨s, by cases h c (.refl c); rfl, hs⟩⟩
  stop e _ := ⟨stable_throw e, fun b h => by cases h c (.refl c)⟩
  force r := by
    refine ⟨schema.stable_force r, fun t h s hs => ?_⟩
    have ht : t = schema.target r := by
      have h' := h c (.refl c)
      unfold force at h'
      split at h' <;> exact (EStateM.Result.ok.inj h').1.symm
    subst ht
    unfold force
    split
    · exact ⟨s, rfl, hs⟩
    · exact ⟨_, rfl, ⟨⟨⟨⟨hs.tidy.nodup, hs.tidy.named⟩, hs.loyal⟩,
        ⟨hs.later.ready, fun id hid => List.mem_cons_of_mem _ (hs.later.forced id hid)⟩,
        hs.unmarked⟩, hs.enough⟩⟩
  refuse {α} t d := by
    have never : ∀ s a s', (do Lookup.defect (d (← schema.textOf t)) : Lookup σ α) s ≠ .ok a s' :=
      fun _ _ _ h => by cases h
    exact ⟨stable_of_never never, fun a h => absurd (h c (.refl c)) (never c a c)⟩
  bind hx hf := by
    refine ⟨hx.1.bind fun a => (hf a).1, fun b h s hs => ?_⟩
    obtain ⟨a, h₁, h₂⟩ := h.of_bind hx.1 fun a => (hf a).1
    obtain ⟨s₁, hr₁, hs₁⟩ := hx.2 a h₁ s hs
    obtain ⟨s₂, hr₂, hs₂⟩ := (hf a).2 b h₂ s₁ hs₁
    exact ⟨s₂, bind_eq_ok.mpr ⟨a, s₁, hr₁, hr₂⟩, hs₂⟩

section

variable {c : Session σ}

/-- What a name stands for is the same in all honest sessions. -/
theorem Honest.agree (hc : schema.Honest given base c) (hs : schema.Honest given base s)
    {t' : NamedType} (h : Entries.find? c.registry name = some (.ready t))
    (h' : Entries.find? s.registry name = some (.ready t')) : t = t' := by
  rcases hc.loyal name t h with hb | hg
  · rw [hs.later.ready name t hb] at h'
    cases h'
    rfl
  · rcases hs.loyal name t' h' with hb | hg'
    · rw [hc.later.ready name t' hb] at h
      cases h
      rfl
    · rw [hg] at hg'
      cases hg'
      rfl

theorem Supply.transfers_check (hg : schema.Supply given names) {fuel : Nat}
    (hfinds : ∀ name t, Entries.find? c.registry name = some (.ready t) →
      ∀ s, schema.Apt given names base fuel s →
        ∃ s', schema.findWithin fuel name s = .ok (some t) s' ∧ schema.Apt given names base fuel s')
    (e : Entity σ) : schema.Transfers given names base c fuel (e.check schema schema.find)
      (e.check schema (schema.findWithin fuel)) := by
  refine (respects_transfers schema given names base c fuel).check schema.congruent_refl
    (fun name => ?_) (.refl e)
  refine ⟨stable_requireWithin hg.plain schema.limit name, fun t h s hs => ?_⟩
  obtain ⟨s', hr, hs'⟩ := hfinds name t (ready_of_settled hg.plain h) s hs
  exact ⟨s', bind_of_ok hr, hs'⟩

/-- A name that is registered elsewhere is registered here as well, or is what the loader gives. -/
theorem Honest.known_or_given (hc : schema.Honest given base c) (hs : schema.Honest given base s)
    (ht : Entries.find? c.registry name = some (.ready t)) :
    Entries.find? s.registry name = some (.ready t) ∨
      Entries.find? s.registry name = none ∧ schema.nameOf t = name ∧
        given name = some (.base t) := by
  cases hr : Entries.find? s.registry name with
  | some slot =>
    cases slot with
    | ready t' => exact .inl (hc.agree hs ht hr ▸ rfl)
    | loading cyclic => exact absurd hr (hs.unmarked name cyclic)
  | none =>
    refine .inr ⟨rfl, hc.tidy.named name t ht, ?_⟩
    rcases hc.loyal name t ht with hb | hg
    · rw [hs.later.ready name t hb] at hr
      cases hr
    · exact hg

/-- **What is registered in a session whose new entities pass is found from every session.** -/
theorem Supply.finds_of_certified (hg : schema.Supply given names)
    (hc : schema.Honest given base c) (hp : schema.CertifiedSince base c) (fuel : Nat) :
    ∀ name t, Entries.find? c.registry name = some (.ready t) →
      ∀ s, schema.Apt given names base fuel s →
        ∃ s', schema.findWithin fuel name s = .ok (some t) s' ∧
          schema.Apt given names base fuel s' := by
  induction fuel with
  | zero =>
    intro name t ht s hs
    rcases hc.known_or_given hs.toHonest ht with hr | ⟨hn, -, hgiven⟩
    · exact ⟨s, findWithin_of_ready 0 hr, hs⟩
    · have hm : name ∈ missing names s := Finset.mem_filter.mpr ⟨hg.finite name _ hgiven, hn⟩
      exact absurd (Finset.card_pos.mpr ⟨name, hm⟩) (Nat.not_lt.mpr hs.enough)
  | succ fuel ih =>
    intro name t ht s hs
    rcases hc.known_or_given hs.toHonest ht with hr | ⟨hn, hname, hgiven⟩
    · exact ⟨s, findWithin_of_ready _ hr, hs⟩
    · have hcard := card_missing_setReady (t := t) hn (hg.finite name _ hgiven)
      have hs₁ : schema.Apt given names base fuel (s.setSlot name (.ready t)) :=
        ⟨hs.setReady hn hname hgiven, Nat.le_of_lt_succ (hcard.trans_le hs.enough)⟩
      have loaded : schema.findWithin (fuel + 1) name s =
          schema.checkLoaded (schema.findWithin fuel) name (some t, true)
            (s.setSlot name (.ready t)) := by
        rw [hg.findWithin_of_unknown hn]
        rcases loadName_supplier schema given (schema.findWithin fuel) hn with
          ⟨hnone, -⟩ | ⟨t', hgiven', -, h⟩ | ⟨⟨t', hgiven', hne⟩, -⟩
        · rw [hgiven] at hnone
          cases hnone
        · rw [hgiven] at hgiven'
          cases hgiven'
          exact h
        · rw [hgiven] at hgiven'
          cases hgiven'
          exact absurd hname (hne t rfl)
      rw [loaded]
      cases he : schema.entity? t with
      | none =>
        exact ⟨_, checkLoaded_eq_ok.mpr ⟨rfl, .inl ⟨he, rfl⟩⟩, hs₁.toHonest,
          hs₁.enough.trans (Nat.le_succ fuel)⟩
      | some e =>
        have hsettled : Settled (e.check schema schema.find) ⟨⟩ c := by
          refine (hp name t e ht he).resolve_left fun hb => ?_
          rw [hs.later.ready name t hb] at hn
          cases hn
        obtain ⟨s₂, hr₂, hs₂⟩ := (hg.transfers_check ih e).2 ⟨⟩ hsettled _ hs₁
        exact ⟨s₂, checkLoaded_eq_ok.mpr ⟨rfl, .inr ⟨e, he, hr₂⟩⟩, hs₂.toHonest,
          hs₂.enough.trans (Nat.le_succ fuel)⟩

end

/-! ## Looking up names one after the other -/

theorem Supply.apt (hg : schema.Supply given names) (hs : schema.Honest given base s) :
    schema.Apt given names base schema.limit s :=
  ⟨hs, (Finset.card_filter_le _ _).trans hg.bound.le⟩

/-- A name that is answered with nothing is unknown to the loader. -/
theorem Supply.unknown_of_find (hg : schema.Supply given names)
    (h : schema.find name s = .ok none s') :
    given name = none ∧ Entries.find? s.registry name = none := by
  obtain ⟨fuel, hf⟩ := Nat.exists_eq_succ_of_ne_zero (Nat.ne_zero_of_lt hg.bound)
  unfold find at h
  rw [hf] at h
  cases hr : Entries.find? s.registry name with
  | some slot =>
    obtain ⟨-, t, ht, -⟩ := eq_of_findWithin_known hr h
    cases ht
  | none =>
    rw [Nat.succ_eq_add_one, hg.findWithin_of_unknown hr] at h
    rcases loadName_supplier schema given (schema.findWithin fuel) hr with
      ⟨hgiven, -⟩ | ⟨t, -, -, h'⟩ | ⟨-, d, h'⟩
    · exact ⟨hgiven, rfl⟩
    · rw [h'] at h
      cases (checkLoaded_eq_ok.mp h).1
    · rw [h'] at h
      cases h

theorem Supply.find_of_unknown (hg : schema.Supply given names) (hgiven : given name = none)
    (hr : Entries.find? s.registry name = none) : schema.find name s = .ok none s := by
  obtain ⟨fuel, hf⟩ := Nat.exists_eq_succ_of_ne_zero (Nat.ne_zero_of_lt hg.bound)
  unfold find
  rw [hf, Nat.succ_eq_add_one, hg.findWithin_of_unknown hr]
  rcases loadName_supplier schema given (schema.findWithin fuel) hr with
    ⟨-, h⟩ | ⟨t, ht, -⟩ | ⟨⟨t, ht, -⟩, -⟩
  · exact h
  · rw [hgiven] at ht
    cases ht
  · rw [hgiven] at ht
    cases ht

/-- **An answer of a session whose new entities pass is the answer of every session.** -/
theorem Supply.answer?_of_certifiedSince (hg : schema.Supply given names)
    (hs : schema.Honest given base s) (hp : schema.CertifiedSince base s) {found : Option NamedType}
    (h : (schema.find name).answer? s = some found) {r : Session σ}
    (hr : schema.Honest given base r) : (schema.find name).answer? r = some found := by
  obtain ⟨s', h⟩ := answer?_eq_some.mp h
  cases found with
  | none =>
    obtain ⟨hgiven, hn⟩ := hg.unknown_of_find h
    have hn' : Entries.find? r.registry name = none := by
      cases hk : Entries.find? r.registry name with
      | none => rfl
      | some slot =>
        cases slot with
        | loading cyclic => exact absurd hk (hr.unmarked name cyclic)
        | ready t =>
          rcases hr.loyal name t hk with hb | hgiven'
          · rw [hs.later.ready name t hb] at hn
            cases hn
          · rw [hgiven] at hgiven'
            cases hgiven'
    exact answer?_eq_some.mpr ⟨r, hg.find_of_unknown hgiven hn'⟩
  | some t =>
    have hs' : schema.Honest given base s' :=
      after_of_ok h ▸ (hg.honest_findWithin hs schema.limit name).1
    have ht := (findWithin_of_plain hg.plain h).2.2 t rfl
    obtain ⟨r', hf, -⟩ := hg.finds_of_certified hs' (hg.certifiedSince_find hp h) schema.limit name t ht r
      (hg.apt hr)
    exact answer?_eq_some.mpr ⟨r', hf⟩

/-- **An answer of a session whose entities pass is the answer of every session**, and there an entity that
is found passes its check. -/
theorem Supply.answer?_of_certified (hg : schema.Supply given names)
    (hs : schema.Honest given base s) (hp : schema.Certified s) {found : Option NamedType}
    (h : (schema.find name).answer? s = some found) {r : Session σ}
    (hr : schema.Honest given base r) :
    (schema.find name).answer? r = some found ∧ ∀ t e, found = some t → schema.entity? t = some e →
      (e.check schema schema.find).answer? ((schema.find name).after r) = some ⟨⟩ := by
  have hanswer := hg.answer?_of_certifiedSince hs (hp.since base) h hr
  refine ⟨hanswer, fun t e htfound he => ?_⟩
  subst htfound
  obtain ⟨s', h⟩ := answer?_eq_some.mp h
  obtain ⟨r', hr'⟩ := answer?_eq_some.mp hanswer
  have hs' : schema.Honest given base s' :=
    after_of_ok h ▸ (hg.honest_findWithin hs schema.limit name).1
  have hp' := hg.certified_find hp h
  have ht := (findWithin_of_plain hg.plain h).2.2 t rfl
  rw [after_of_ok hr']
  obtain ⟨r'', hc, -⟩ := (hg.transfers_check
    (hg.finds_of_certified hs' (hp'.since base) schema.limit) e).2 ⟨⟩ (hp' name t e ht he) r'
    (hg.apt (after_of_ok hr' ▸ (hg.honest_findWithin hr schema.limit name).1))
  exact answer?_eq_some.mpr ⟨r'', hc⟩

/-- Each look-up, one after the other, succeeds or leaves behind no type that was not there before. -/
def LeavesNothing (schema : Schema σ) : List String → Session σ → Prop
  | [], _ => True
  | name :: rest, s =>
    (((schema.find name).answer? s).isSome ∨ ∀ other t,
      Entries.find? ((schema.find name).after s).registry other = some (.ready t) →
        Entries.find? s.registry other = some (.ready t)) ∧
    schema.LeavesNothing rest ((schema.find name).after s)

theorem Supply.honest_afterFinds (hg : schema.Supply given names) (asked : List String)
    (hs : schema.Honest given base s) : schema.Honest given base (schema.afterFinds asked s) := by
  induction asked generalizing s with
  | nil => exact hs
  | cons name rest ih => exact ih (hg.honest_findWithin hs schema.limit name).1

theorem Supply.certified_afterFinds (hg : schema.Supply given names) {asked : List String}
    (hs : schema.Honest given base s) (hp : schema.Certified s)
    (hn : schema.LeavesNothing asked s) : schema.Certified (schema.afterFinds asked s) := by
  induction asked generalizing s with
  | nil => exact hp
  | cons name rest ih =>
    obtain ⟨hs', hl⟩ := hg.honest_findWithin hs schema.limit name
    refine ih hs' ?_ hn.2
    rcases hn.1 with hsome | hsame
    · obtain ⟨found, hfound⟩ := Option.isSome_iff_exists.mp hsome
      obtain ⟨s', h⟩ := answer?_eq_some.mp hfound
      have ha : (schema.find name).after s = s' := after_of_ok h
      simp only [ha]
      exact hg.certified_find hp h
    · exact fun other t e ht he => (hp other t e (hsame other t ht) he).later hl

/-- A schema that starts with the standard scalars has no entity that could fail. -/
theorem certified_of_build (hd : schema.onDemand = true) {assumeValid : Bool} {start : Session σ}
    (hstart : start.registry = []) (h : schema.build [] assumeValid start = .ok () s) :
    schema.Certified s := by
  have hs : s.registry = Standard.all.map (fun k => (k.name, .ready (.standard k))) := by
    obtain ⟨registry, complete, forced, warnings, app⟩ := start
    cases hstart
    unfold build at h
    rw [hd] at h
    cases h
    rfl
  intro name t e ht he
  have hmem := Entries.mem_of_find? ht
  rw [hs] at hmem
  obtain ⟨k, -, hk⟩ := List.mem_map.mp hmem
  cases hk
  cases he

/-- **Looking up names in any order.** What a fresh schema answers, it answers after any look-ups, and the
entities that are found pass their checks. Where no look-up that failed has left a type behind, all
answers are those of the fresh schema. -/
theorem answers_after_finds (hg : schema.Supply given names) {assumeValid : Bool}
    {start : Session σ} (hstart : start.registry = [])
    (hbuild : schema.build [] assumeValid start = .ok () s) (asked : List String) :
    (∀ name found, (schema.find name).answer? s = some found →
      (schema.find name).answer? (schema.afterFinds asked s) = some found ∧
        ∀ t e, found = some t → schema.entity? t = some e →
          (e.check schema schema.find).answer?
            ((schema.find name).after (schema.afterFinds asked s)) = some ⟨⟩) ∧
    (schema.LeavesNothing asked s → ∀ name,
      (schema.find name).answer? (schema.afterFinds asked s) = (schema.find name).answer? s) := by
  have hd : schema.onDemand = true := by simp [onDemand, hg.loads]
  obtain ⟨ht, hm⟩ := tidy_of_build hd hstart hbuild
  have hs : schema.Honest given s s := ⟨⟨ht, fun _ _ h => .inl h⟩, .refl s, hm⟩
  have hp := certified_of_build hd hstart hbuild
  have hs' := hg.honest_afterFinds asked hs
  refine ⟨fun name found h => hg.answer?_of_certified hs hp h hs', fun hn name => ?_⟩
  have hp' := hg.certified_afterFinds hs hp hn
  exact Option.ext fun found => ⟨fun h => (hg.answer?_of_certified hs' hp' h hs).1,
    fun h => (hg.answer?_of_certified hs hp h hs').1⟩

end Schema

/-! ## Where a look-up that failed changes the answers -/

namespace Sample

/-- An entity that links to another one by name, and then to a name that stands for a scalar. -/
def tangled (serial : Nat) : Entity Unit where
  name := if serial = 0 then "Root" else "Leaf"
  resolve _ _ := pure (.ready .null)
  links :=
    let link (name target : String) : Link Unit :=
      { label := { name }, target := .named target, resolve := fun _ _ => pure (.ready .null) }
    if serial = 0 then [link "leaf" "Leaf", link "size" "Int"] else [link "root" "Root"]

/-- What the loader gives. -/
def givenTangled (name : String) : Option Ty :=
  if name = "Root" then some (.base (.defined ⟨0, 0⟩))
  else if name = "Leaf" then some (.base (.defined ⟨1, 0⟩))
  else none

/-- A schema of two entities that link to each other, one of which does not pass its check. -/
def tangledSchema : Schema Unit where
  define id := .entity (tangled id.serial)
  target _ := .base (.standard .string)
  loader? := some fun name => .done (givenTangled name)
  limit := 30

/-- The session that the schema starts with. -/
def tangledSession : Session Unit where
  registry := Standard.all.map fun k => (k.name, .ready (.standard k))
  app := ()

theorem supply_tangled : tangledSchema.Supply givenTangled {"Root", "Leaf"} where
  loads := rfl
  finite name t h := by
    unfold givenTangled at h
    split at h
    · simp_all
    · split at h
      · simp_all
      · cases h
  bound := by decide

end Sample

/-- **A failed look-up changes an answer.** The leaf is not found at first, since the root that it links to
does not pass its check. Looking up the root checks the leaf against the root, removes the root, and leaves
the leaf: from then on it is found, and it does not pass its check. -/
theorem answers_change_after_failed_find :
    (Sample.tangledSchema.find "Leaf").answer? Sample.tangledSession = none ∧
    (Sample.tangledSchema.find "Leaf").answer?
        (Sample.tangledSchema.afterFinds ["Root"] Sample.tangledSession) =
      some (some (.defined ⟨1, 0⟩)) ∧
    ((Sample.tangled 1).check Sample.tangledSchema Sample.tangledSchema.find).answer?
        (Sample.tangledSchema.afterFinds ["Root", "Leaf"] Sample.tangledSession) = none := by
  decide +kernel

theorem answers_after_finds_sample :
    Sample.tangledSchema.build [] false { app := () } = .ok () Sample.tangledSession ∧
    ∀ name, (Sample.tangledSchema.find name).answer?
        (Sample.tangledSchema.afterFinds ["Leaf", "Int"] Sample.tangledSession) =
      (Sample.tangledSchema.find name).answer? Sample.tangledSession := by
  have same : ((Sample.tangledSchema.find "Leaf").after Sample.tangledSession).registry =
      Sample.tangledSession.registry := by
    decide +kernel
  have hn : Sample.tangledSchema.LeavesNothing ["Leaf", "Int"] Sample.tangledSession :=
    ⟨.inr fun _ _ h => same ▸ h, .inl (by decide +kernel), trivial⟩
  have hbuild : Sample.tangledSchema.build [] false { app := () } =
      .ok () Sample.tangledSession := rfl
  exact ⟨hbuild, (Schema.answers_after_finds Sample.supply_tangled (by rfl) hbuild
    ["Leaf", "Int"]).2 hn⟩

end EntityQuery
