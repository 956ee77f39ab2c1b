import EntityQuery.Proofs.Schema.Admission
import EntityQuery.Proofs.Schema.Fitting
import EntityQuery.Proofs.Schema.History

/-!
# A schema and its lazy counterpart

A schema that was built without a loader has all its types registered. Its counterpart starts with the
standard scalars, and its loader gives the same types, one by one, as they are asked for. Whatever it has
loaded so far, it finds the types of the first schema, and it meets no defect on the way.

* `Counterpart`: a schema that was built, and what its counterpart needs; `Counterpart.lazily`: the
  counterpart.
* `Counterpart.Partial`: a session of the counterpart, which has loaded part of the types and has asked for
  none of them twice.
* `Lookup.Conveys`: what is settled for one computation is given by another one, in all such sessions.
* **`Counterpart.find_ok`**: looking up a name gives the type of the first schema.
* `Counterpart.ofScan`: the counterpart whose loader gives what a scan of the schema gives.
* `Counterpart.build_lazily`: the session that the counterpart starts with.
-/

namespace EntityQuery

open Lookup Session

variable {σ α β : Type}

/-- The same definitions, loaded on demand: the loader takes note of the name, and gives what the types hold. -/
def Schema.lazily (schema : Schema σ) (types : Entries NamedType) (note : String → σ → σ) : Schema σ :=
  schema.withLoader (some fun name => .step (note name) fun _ => .done ((Entries.find? types name).map .base))

/-- A schema that was built without a loader, and what its lazy counterpart needs. -/
structure Counterpart (σ : Type) where
  schema : Schema σ
  /-- The session that the schema was built in. -/
  session : Session σ
  /-- The types of the schema. -/
  types : Entries NamedType
  /-- What asking the loader of the counterpart for a name does to the state of the application. -/
  note : String → σ → σ
  /-- The state of the application before the counterpart is used. -/
  app : σ
  eager : schema.loader? = none
  sound : schema.Sound types session
  find_eq : ∀ name s, session.Alike s → schema.find name s = .ok (Entries.find? types name) s
  standards : ∀ k : Standard, Entries.find? types k.name = some (.standard k)
  /-- Look-ups may nest deep enough to load all types inside each other. -/
  bound : types.length < schema.limit

/-! ## What is settled for one computation -/

/-- What is settled in a session for the first computation, the second one gives in all good sessions. -/
def Lookup.Conveys (base : Session σ) (Good : Session σ → Prop) (x x' : Lookup σ α) : Prop :=
  Stable False x ∧ ∀ a, Settled x a base → ∀ s, Good s → ∃ s', x' s = .ok a s' ∧ Good s'

theorem Lookup.respects_conveys (schema : Schema σ) {base : Session σ} {Good : Session σ → Prop}
    (hforced : ∀ s, Good s → base.forced ⊆ s.forced) :
    Respects schema fun x x' => Conveys base Good x x' where
  pure a := ⟨stable_pure a, fun b h s hs => ⟨s, by cases h base (.refl base); rfl, hs⟩⟩
  stop e _ := ⟨stable_throw e, fun b h => by cases h base (.refl base)⟩
  force r := by
    refine ⟨schema.stable_force r, fun t h s hs => ⟨s, ?_, hs⟩⟩
    obtain ⟨rfl, hr⟩ := Schema.isForced_of_settled h
    simp only [Session.isForced, List.contains_iff_mem] at hr
    have hr' : s.isForced r = true := by
      simp only [Session.isForced, List.contains_iff_mem]
      exact hforced s hs hr
    simp only [Schema.force, hr', if_true]
  refuse {α} t d := by
    have never : ∀ s a s', (do Lookup.defect (d (← schema.textOf t)) : Lookup σ α) s ≠ .ok a s' :=
      fun _ _ _ h => by cases h
    exact ⟨stable_of_never never, fun a h => absurd (h base (.refl base)) (never base a base)⟩
  bind hx hf := by
    refine ⟨hx.1.bind fun a => (hf a).1, fun b h s hs => ?_⟩
    obtain ⟨a, h₁, h₂⟩ := h.of_bind hx.1 fun a => (hf a).1
    obtain ⟨s₁, hr₁, hs₁⟩ := hx.2 a h₁ s hs
    obtain ⟨s₂, hr₂, hs₂⟩ := (hf a).2 b h₂ s₁ hs₁
    exact ⟨s₂, bind_eq_ok.mpr ⟨a, s₁, hr₁, hr₂⟩, hs₂⟩

namespace Counterpart

variable (P : Counterpart σ)

theorem plain : P.schema.Plain := Schema.plain_of_eager P.eager

/-- What the loader gives for a name. -/
def given (name : String) : Option Ty := (Entries.find? P.types name).map .base

/-- The loader. -/
def load (name : String) : Loading σ := .step (P.note name) fun _ => .done (P.given name)

/-- The counterpart. -/
def lazily : Schema σ := P.schema.lazily P.types P.note

/-- A session after the loader has been asked for a name. -/
def noted (name : String) (s : Session σ) : Session σ := { s with app := P.note name s.app }

/-- Of these names, each one that stands for a type occurs once, and is registered. -/
structure Once (asked : List String) (s : Session σ) : Prop where
  nodup : (asked.filter (Entries.has P.types)).Nodup
  registered : ∀ name ∈ asked, Entries.has P.types name = true →
    Entries.find? s.registry name ≠ none

/-- A session of the counterpart: what it has registered are types of the first schema, all that the first
schema has forced is forced, and the loader has been asked for each of the types at most once. -/
structure Partial (s : Session σ) : Prop where
  ready : ∀ name slot, Entries.find? s.registry name = some slot →
    ∃ t, slot = .ready t ∧ Entries.find? P.types name = some t
  forced : P.session.forced ⊆ s.forced
  asked : ∃ asked : List String,
    s.app = asked.foldl (fun app name => P.note name app) P.app ∧ P.Once asked s

/-- A session of the counterpart that lacks so many types at most. -/
structure Lacks (fuel : Nat) (s : Session σ) : Prop extends P.Partial s where
  enough : (Schema.missing (Entries.keys P.types).toFinset s).card ≤ fuel

variable {P} {name : String} {t : NamedType} {s s' : Session σ} {find : Finder σ} {fuel : Nat}

theorem mem_keys (ht : Entries.find? P.types name = some t) :
    name ∈ (Entries.keys P.types).toFinset := by
  rw [List.mem_toFinset, Entries.mem_keys_iff]
  exact Option.isSome_iff_exists.mpr ⟨t, ht⟩

/-! ## Sessions -/

/-- Warnings, and which lazy references have been forced, make no difference. -/
theorem Partial.congr (hs : P.Partial s) (hr : s'.registry = s.registry)
    (hf : s.forced ⊆ s'.forced) (ha : s'.app = s.app) : P.Partial s' := by
  obtain ⟨asked, happ, honce⟩ := hs.asked
  refine ⟨fun other slot h => hs.ready other slot (hr ▸ h), fun _ hid => hf (hs.forced hid), asked,
    ha ▸ happ,
    honce.nodup, fun other ho hh => ?_⟩
  rw [hr]
  exact honce.registered other ho hh

theorem Partial.warn (hs : P.Partial s) (topic : Topic) (message : String) :
    P.Partial (s.warn topic message) := hs.congr rfl (List.Subset.refl _) rfl

/-- Asking the loader for a name that stands for nothing. -/
theorem Partial.noted (hs : P.Partial s) (ht : Entries.find? P.types name = none) :
    P.Partial (P.noted name s) := by
  obtain ⟨asked, happ, honce⟩ := hs.asked
  have hhas : Entries.has P.types name = false := by simp [Entries.has, ht]
  refine ⟨hs.ready, hs.forced, asked ++ [name], ?_, ?_, fun other ho hh => ?_⟩
  · rw [List.foldl_append, ← happ]
    rfl
  · simpa [List.filter_append, hhas] using honce.nodup
  · rcases List.mem_append.mp ho with ho | ho
    · exact honce.registered other ho hh
    · rw [List.mem_singleton.mp ho, hhas] at hh
      cases hh

/-- Asking the loader for a name that stands for a type, and registering the type. -/
theorem Partial.setReady (hs : P.Partial s) (hn : Entries.find? s.registry name = none)
    (ht : Entries.find? P.types name = some t) :
    P.Partial ((P.noted name s).setSlot name (.ready t)) := by
  obtain ⟨asked, happ, honce⟩ := hs.asked
  have hhas : Entries.has P.types name = true := by simp [Entries.has, ht]
  refine ⟨fun other slot h => ?_, hs.forced, asked ++ [name], ?_, ?_, fun other ho hh => ?_⟩
  · simp only [setSlot, Entries.find?_insert] at h
    split at h
    · next he => exact ⟨t, (Option.some.inj h).symm, he ▸ ht⟩
    · exact hs.ready other slot h
  · rw [List.foldl_append, ← happ]
    rfl
  · -- a name that is not registered has not been asked for
    rw [List.filter_append, List.nodup_append]
    refine ⟨honce.nodup, by simp [hhas], fun other ho other' ho' he => ?_⟩
    have ho' := List.mem_singleton.mp (List.mem_of_mem_filter ho')
    obtain ⟨ho, hh⟩ := List.mem_filter.mp ho
    rw [he, ho'] at ho hh
    exact honce.registered name ho hh hn
  · simp only [setSlot, Entries.find?_insert]
    split
    · exact Option.some_ne_none _
    · next hne =>
      rcases List.mem_append.mp ho with ho | ho
      · exact honce.registered other ho hh
      · exact absurd (List.mem_singleton.mp ho).symm hne

theorem Lacks.setReady (hs : P.Lacks (fuel + 1) s) (hn : Entries.find? s.registry name = none)
    (ht : Entries.find? P.types name = some t) :
    P.Lacks fuel ((P.noted name s).setSlot name (.ready t)) := by
  refine ⟨hs.toPartial.setReady hn ht, Nat.le_of_lt_succ (lt_of_lt_of_le ?_ hs.enough)⟩
  exact Schema.card_missing_setReady (s := P.noted name s) hn (mem_keys ht)

theorem Partial.lacks (hs : P.Partial s) : P.Lacks P.schema.limit s := by
  refine ⟨hs, (Finset.card_filter_le _ _).trans ((List.toFinset_card_le _).trans ?_)⟩
  exact (by simp [Entries.keys] : (Entries.keys P.types).length = P.types.length).trans_le P.bound.le

/-! ## Loading -/

theorem given_eq_base (ht : Entries.find? P.types name = some t) : P.given name = some (.base t) := by
  simp [given, ht]

/-- Loading a name goes on as if the loader had only given the type, once it has taken note. -/
theorem loadName_eq (find : Finder σ) (name : String) (s : Session σ) :
    P.lazily.loadName find P.load name s =
      P.lazily.loadName find (Schema.supplier P.given) name (P.noted name s) := rfl

theorem loadName_of_unknown (find : Finder σ) (hn : Entries.find? s.registry name = none)
    (ht : Entries.find? P.types name = none) :
    P.lazily.loadName find P.load name s = .ok none (P.noted name s) := by
  have hgiven : P.given name = none := by simp [given, ht]
  rw [loadName_eq]
  rcases P.lazily.loadName_supplier P.given find (s := P.noted name s) hn with
    ⟨-, h⟩ | ⟨t, h, -⟩ | ⟨⟨t, h, -⟩, -⟩
  · exact h
  · rw [hgiven] at h
    cases h
  · rw [hgiven] at h
    cases h

theorem loadName_of_known (find : Finder σ) (hn : Entries.find? s.registry name = none)
    (ht : Entries.find? P.types name = some t) :
    P.lazily.loadName find P.load name s =
      P.lazily.checkLoaded find name (some t, true) ((P.noted name s).setSlot name (.ready t)) := by
  rw [loadName_eq]
  rcases P.lazily.loadName_supplier P.given find (s := P.noted name s) hn with
    ⟨h, -⟩ | ⟨t', h, -, h'⟩ | ⟨⟨t', h, hne⟩, -⟩
  · rw [given_eq_base ht] at h
    cases h
  · rw [given_eq_base ht] at h
    cases h
    exact h'
  · rw [given_eq_base ht] at h
    cases h
    exact absurd (P.sound.named name t ht) (hne t rfl)

/-- A name that has to be known, looked up in the session of the first schema. -/
theorem find?_of_settled (h : Settled (P.schema.find.require name) t P.session) :
    Entries.find? P.types name = some t := by
  obtain ⟨t?, s', h₁, h₂⟩ := bind_eq_ok.mp (h P.session (.refl _))
  rw [P.find_eq name _ (.refl _)] at h₁
  cases h₁
  cases ht : Entries.find? P.types name with
  | none =>
    rw [ht] at h₂
    cases h₂
  | some t' =>
    rw [ht] at h₂
    cases h₂
    rfl

theorem conveys_require {Good : Session σ → Prop}
    (hfind : ∀ name t, Entries.find? P.types name = some t → ∀ s, Good s →
      ∃ s', find name s = .ok (some t) s' ∧ Good s') (name : String) :
    Conveys P.session Good (P.schema.find.require name) (find.require name) := by
  refine ⟨Schema.stable_requireWithin P.plain _ name, fun t h s hs => ?_⟩
  obtain ⟨s', hr, hs'⟩ := hfind name t (find?_of_settled h) s hs
  exact ⟨s', bind_of_ok hr, hs'⟩

/-- Checking an entity of the first schema, with a finder that finds its types. -/
theorem check_ok {e : Entity σ} (hk : P.schema.Knows P.types e)
    (hfind : ∀ name t, Entries.find? P.types name = some t → ∀ s, P.Lacks fuel s →
      ∃ s', find name s = .ok (some t) s' ∧ P.Lacks fuel s') (hs : P.Lacks fuel s) :
    ∃ s', e.check P.lazily find s = .ok ⟨⟩ s' ∧ P.Lacks fuel s' := by
  obtain ⟨t, ht, he⟩ := hk
  have hR := respects_conveys P.schema fun s (hs : P.Lacks fuel s) => hs.forced
  exact (hR.check (P.schema.congruent_withLoader _) (conveys_require hfind) (.refl e)).2 ⟨⟩
    (P.sound.passes t e ht he) s hs

/-- **A type that the first schema has is found**, however much of the others has been loaded. The induction
is on the fuel, which the types that are left to load do not exceed. -/
theorem findWithin_ok (fuel : Nat) :
    ∀ name t, Entries.find? P.types name = some t → ∀ s, P.Lacks fuel s →
      ∃ s', P.lazily.findWithin fuel name s = .ok (some t) s' ∧ P.Lacks fuel s' := by
  induction fuel with
  | zero =>
    intro name t ht s hs
    cases hr : Entries.find? s.registry name with
    | some slot =>
      obtain ⟨t', rfl, ht'⟩ := hs.ready name slot hr
      cases ht.symm.trans ht'
      exact ⟨s, Schema.findWithin_of_ready 0 hr, hs⟩
    | none =>
      have hm : name ∈ Schema.missing (Entries.keys P.types).toFinset s :=
        Finset.mem_filter.mpr ⟨mem_keys ht, hr⟩
      exact absurd (Finset.card_pos.mpr ⟨name, hm⟩) (Nat.not_lt.mpr hs.enough)
  | succ fuel ih =>
    intro name t ht s hs
    cases hr : Entries.find? s.registry name with
    | some slot =>
      obtain ⟨t', rfl, ht'⟩ := hs.ready name slot hr
      cases ht.symm.trans ht'
      exact ⟨s, Schema.findWithin_of_ready _ hr, hs⟩
    | none =>
      have hs₁ := hs.setReady hr ht
      have loaded : P.lazily.findWithin (fuel + 1) name s =
          P.lazily.checkLoaded (P.lazily.findWithin fuel) name (some t, true)
            ((P.noted name s).setSlot name (.ready t)) := by
        rw [Schema.findWithin_eq, hr]
        exact loadName_of_known _ hr ht
      rw [loaded]
      cases he : P.schema.entity? t with
      | none =>
        exact ⟨_, Schema.checkLoaded_eq_ok.mpr ⟨rfl, .inl ⟨he, rfl⟩⟩, hs₁.toPartial,
          hs₁.enough.trans (Nat.le_succ fuel)⟩
      | some e =>
        have hk : P.schema.Knows P.types e :=
          ⟨t, by unfold Schema.Holds; rw [P.sound.named name t ht]; exact ht, he⟩
        obtain ⟨s₂, hr₂, hs₂⟩ := check_ok hk ih hs₁
        exact ⟨s₂, Schema.checkLoaded_eq_ok.mpr ⟨rfl, .inr ⟨e, he, hr₂⟩⟩, hs₂.toPartial,
          hs₂.enough.trans (Nat.le_succ fuel)⟩

/-- **Looking up a name on the counterpart gives the type of the first schema**, if there is one. -/
theorem find_ok (hs : P.Partial s) (name : String) :
    ∃ s', P.lazily.find name s = .ok (Entries.find? P.types name) s' ∧ P.Partial s' := by
  cases ht : Entries.find? P.types name with
  | some t =>
    obtain ⟨s', h, hs'⟩ := findWithin_ok _ name t ht s hs.lacks
    exact ⟨s', h, hs'.toPartial⟩
  | none =>
    refine ⟨P.noted name s, ?_, hs.noted ht⟩
    have hr : Entries.find? s.registry name = none := by
      cases hr : Entries.find? s.registry name with
      | none => rfl
      | some slot =>
        obtain ⟨t, -, ht'⟩ := hs.ready name slot hr
        cases ht.symm.trans ht'
    obtain ⟨fuel, hf⟩ := Nat.exists_eq_succ_of_ne_zero (Nat.ne_zero_of_lt P.bound)
    have hlimit : P.lazily.limit = fuel + 1 := hf
    unfold Schema.find
    rw [hlimit, Schema.findWithin_eq, hr]
    exact loadName_of_unknown _ hr ht

/-- What the first schema has settled, the counterpart gives. -/
theorem conveys_find (name : String) :
    Conveys P.session P.Partial (P.schema.find.require name) (P.lazily.find.require name) := by
  refine conveys_require (fun name t ht s hs => ?_) name
  obtain ⟨s', h, hs'⟩ := find_ok hs name
  exact ⟨s', ht ▸ h, hs'⟩

theorem respects (P : Counterpart σ) :
    Respects P.schema fun x x' => Conveys P.session P.Partial x x' :=
  respects_conveys P.schema fun _ hs => hs.forced

end Counterpart

/-! ## A schema that was built, and scanned -/

section

variable {schema : Schema σ} {declared : List Ty} {app : σ} {s t : Session σ} {types : Entries NamedType}
  (hl : schema.loader? = none) (hbuild : schema.build declared false { app } = .ok () s)

include hl hbuild

namespace Schema

/-- What is registered is ready, each type under its own name. -/
theorem eq_ready_of_build {name : String} {slot : Slot}
    (hr : Entries.find? s.registry name = some slot) : ∃ u, slot = .ready u ∧ schema.nameOf u = name := by
  obtain ⟨hregistered, -⟩ := (meets_build hl declared app).ok () s hbuild
  obtain ⟨u, -, hname, rfl⟩ := (hregistered.find?_iff name slot).mp hr
  exact ⟨u, rfl, hname⟩

variable (hscan : schema.scan s = .ok types t)

include hscan

/-- A scan gives what is registered. -/
theorem find?_scan_iff (name : String) (u : NamedType) :
    Entries.find? types name = some u ↔ Entries.find? s.registry name = some (.ready u) := by
  obtain ⟨hregistered, -⟩ := (meets_build hl declared app).ok () s hbuild
  obtain ⟨htypes, -, -⟩ :=
    (meets_scan hl (fun _ ht => .root ht) (fun _ ht => ht) hregistered).ok types t hscan
  rw [htypes.find?_iff, hregistered.find?_iff]
  simp

/-- Looking up a name gives what the scan gives. -/
theorem find_of_scan (name : String) {s' : Session σ} (hs : s.Alike s') :
    schema.find name s' = .ok (Entries.find? types name) s' := by
  cases hr : Entries.find? s.registry name with
  | none =>
    have hnone : Entries.find? types name = none := by
      cases ht : Entries.find? types name with
      | none => rfl
      | some u =>
        rw [(find?_scan_iff hl hbuild hscan name u).mp ht] at hr
        cases hr
    unfold find
    rw [findWithin_eq, hs.registry, hr, hl, hnone]
    rfl
  | some slot =>
    obtain ⟨u, rfl, -⟩ := eq_ready_of_build hl hbuild hr
    rw [(find?_scan_iff hl hbuild hscan name u).mpr hr]
    exact findWithin_of_ready _ (hs.later.ready _ _ hr)

/-- The session is sound with what the scan gives. -/
theorem sound_of_scan : schema.Sound types s := by
  obtain ⟨types₀, hsound, hfinds⟩ := sound_of_build hl hbuild
  have holds : ∀ {u}, schema.Holds types u → schema.Holds types₀ u := by
    intro u hu
    obtain ⟨u?, hholds, hfind⟩ := hfinds (schema.nameOf u)
    have hscanned := find_of_scan hl hbuild hscan (schema.nameOf u) (.refl s)
    rw [hfind s (.refl s), hu] at hscanned
    exact hholds u (EStateM.Result.ok.inj hscanned).1
  have hgrows : Grows types₀ types := fun name u hu =>
    (find?_scan_iff hl hbuild hscan name u).mpr (hsound.ready name u hu)
  refine ⟨⟨fun name u hu => ?_, fun name u hu => (find?_scan_iff hl hbuild hscan name u).mp hu, fun u hu =>
    (hsound.closed u (holds hu)).mono (.refl s) (fun _ hn => (List.not_mem_nil hn).elim) hgrows⟩,
    fun u e hu he => hsound.passes u e (holds hu) he⟩
  obtain ⟨u', he, hname⟩ := eq_ready_of_build hl hbuild ((find?_scan_iff hl hbuild hscan name u).mp hu)
  cases he
  exact hname

end Schema

/-- The counterpart whose loader gives what a scan of the schema gives. -/
def Counterpart.ofScan (hscan : schema.scan s = .ok types t) (hbound : types.length < schema.limit)
    (note : String → σ → σ) (start : σ) : Counterpart σ where
  schema := schema
  session := s
  types := types
  note := note
  app := start
  eager := hl
  sound := Schema.sound_of_scan hl hbuild hscan
  find_eq name _ hs := Schema.find_of_scan hl hbuild hscan name hs
  standards k := by
    obtain ⟨hregistered, -⟩ := (Schema.meets_build hl declared app).ok () s hbuild
    rw [Schema.find?_scan_iff hl hbuild hscan]
    exact (hregistered.find?_iff _ _).mpr ⟨.standard k, .root (.inl ⟨k, rfl⟩), rfl, rfl⟩
  bound := hbound

end

namespace Counterpart

variable (P : Counterpart σ) {forced : List PartId} (hforced : P.session.forced ⊆ forced)

include hforced

/-- **Building the counterpart**, without any types, leaves a session that has loaded none of them. -/
theorem build_lazily (assumeValid : Bool) :
    ∃ s, P.lazily.build [] assumeValid { app := P.app, forced } = .ok () s ∧ P.Partial s := by
  refine ⟨{ registry := Standard.all.map fun k => (k.name, .ready (.standard k)), app := P.app, forced }, rfl,
    fun name slot hr => ?_, hforced, [], rfl, by simp, by simp⟩
  obtain ⟨k, -, hk⟩ := List.mem_map.mp (Entries.mem_of_find? hr)
  cases hk
  exact ⟨.standard k, rfl, P.standards k⟩

end Counterpart

end EntityQuery
