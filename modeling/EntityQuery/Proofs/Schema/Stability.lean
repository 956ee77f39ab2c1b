import EntityQuery.Schema.Coercion

/-!
# Lookups that stay as they are

What a schema has found once, it finds again: types stay registered and references stay forced. So a
lookup that has succeeded answers the same in every later session, and does not change it.

* `Session.Later`: what is registered and forced stays so.
* `Lookup.Settled`: from a session on, a lookup has an answer. `Lookup.Stable`: it is settled once it
  has succeeded.
* `Loading.Plain`: a loader that does not come back to the schema.
* **`Schema.stable_require`**: looking up a name that has to be known is stable, also where types are
  loaded on demand; so are resolving, following and checking.
-/

namespace EntityQuery

variable {σ α β : Type}

namespace Session

/-- What is registered and forced in one session is so in another one. -/
structure Later (s s' : Session σ) : Prop where
  ready : ∀ name t, Entries.find? s.registry name = some (.ready t) →
    Entries.find? s'.registry name = some (.ready t)
  forced : ∀ id ∈ s.forced, id ∈ s'.forced

theorem Later.refl (s : Session σ) : s.Later s := ⟨fun _ _ h => h, fun _ h => h⟩

theorem Later.trans {s s' s'' : Session σ} (h : s.Later s') (h' : s'.Later s'') : s.Later s'' :=
  ⟨fun name t ht => h'.ready name t (h.ready name t ht), fun id hid => h'.forced id (h.forced id hid)⟩

theorem later_setApp (s : Session σ) (app : σ) : s.Later { s with app } :=
  ⟨fun _ _ h => h, fun _ h => h⟩

theorem later_warn (s : Session σ) (t : Topic) (message : String) : s.Later (s.warn t message) :=
  ⟨fun _ _ h => h, fun _ h => h⟩

/-- Setting a name that stands for no type yet. -/
theorem later_setSlot {s : Session σ} {name : String} {slot : Slot}
    (h : ∀ t, Entries.find? s.registry name = some (.ready t) → slot = .ready t) :
    s.Later (s.setSlot name slot) := by
  refine ⟨fun other t ht => ?_, fun _ h => h⟩
  simp only [setSlot, Entries.find?_insert]
  split
  · next he =>
    subst he
    rw [h t ht]
  · exact ht

theorem later_clearLoading (s : Session σ) (name : String) : s.Later (clearLoading name s) := by
  unfold clearLoading
  split
  · next cyclic hc =>
    refine ⟨fun other t ht => ?_, fun _ h => h⟩
    have hne : name ≠ other := by
      rintro rfl
      rw [hc] at ht
      cases ht
    rw [Entries.find?_erase_of_ne _ hne]
    exact ht
  · exact .refl s

theorem Later.isForced {s s' : Session σ} (h : s.Later s') {r : LazyRef}
    (hr : s.isForced r = true) : s'.isForced r = true := by
  simp only [Session.isForced, List.contains_iff_mem] at hr ⊢
  exact h.forced _ hr

end Session

open Session

namespace Lookup

/-- From a session on, the lookup has this answer and changes nothing. -/
def Settled (x : Lookup σ α) (a : α) (s : Session σ) : Prop :=
  ∀ s', s.Later s' → x s' = .ok a s'

/-- Once it has succeeded, the lookup is settled. If `fixed`, it registers nothing. -/
def Stable (fixed : Prop) (x : Lookup σ α) : Prop :=
  ∀ s a s', x s = .ok a s' →
    s.Later s' ∧ (fixed → s'.registry = s.registry) ∧ Settled x a s'

variable {fixed : Prop} {x : Lookup σ α} {f : α → Lookup σ β} {s s' : Session σ} {a : α} {b : β}

theorem bind_eq_ok : (x >>= f) s = .ok b s' ↔ ∃ a s₁, x s = .ok a s₁ ∧ f a s₁ = .ok b s' := by
  change EStateM.bind x f s = _ ↔ _
  unfold EStateM.bind
  cases h : x s with
  | ok a s₁ =>
    refine ⟨fun h' => ⟨a, s₁, rfl, h'⟩, ?_⟩
    rintro ⟨_, _, h', h''⟩
    cases h'
    exact h''
  | error e s₁ => simp

theorem bind_of_ok {s₁ : Session σ} (h : x s = .ok a s₁) : (x >>= f) s = f a s₁ := by
  change EStateM.bind x f s = _
  unfold EStateM.bind
  rw [h]

theorem bind_of_error {e : Stop} {s₁ : Session σ} (h : x s = .error e s₁) :
    (x >>= f) s = .error e s₁ := by
  change EStateM.bind x f s = _
  unfold EStateM.bind
  rw [h]

theorem bind_eq_error {e : Stop} : (x >>= f) s = .error e s' ↔
    x s = .error e s' ∨ ∃ a s₁, x s = .ok a s₁ ∧ f a s₁ = .error e s' := by
  cases h : x s with
  | ok a s₁ =>
    rw [bind_of_ok h]
    refine ⟨fun h' => .inr ⟨a, s₁, rfl, h'⟩, ?_⟩
    rintro (h' | ⟨_, _, h', h''⟩) <;> cases h'
    exact h''
  | error e' s₁ =>
    rw [bind_of_error h]
    refine ⟨fun h' => ?_, ?_⟩
    · cases h'
      exact .inl rfl
    · rintro (h' | ⟨_, _, h', -⟩) <;> cases h'
      rfl

theorem Settled.later (h : Settled x a s) (hs : s.Later s') : Settled x a s' :=
  fun s'' hs' => h s'' (hs.trans hs')

theorem Settled.bind (hx : Settled x a s) (hf : Settled (f a) b s) : Settled (x >>= f) b s :=
  fun s' hs => bind_eq_ok.mpr ⟨a, s', hx s' hs, hf s' hs⟩

theorem settled_pure (a : α) (s : Session σ) : Settled (pure a) a s := fun _ _ => rfl

/-- A settled lookup is made of settled lookups. -/
theorem Settled.of_bind (h : Settled (x >>= f) b s) (hx : Stable fixed x)
    (hf : ∀ a, Stable fixed (f a)) :
    ∃ a, Settled x a s ∧ Settled (f a) b s := by
  obtain ⟨a, s₁, h₁, h₂⟩ := bind_eq_ok.mp (h s (.refl s))
  obtain ⟨-, -, hxa⟩ := hx s a s₁ h₁
  obtain ⟨hl, -, hfb⟩ := hf a s₁ b s h₂
  exact ⟨a, hxa.later hl, hfb⟩

theorem stable_pure (a : α) : Stable fixed (pure a : Lookup σ α) := by
  intro s b s' h
  cases h
  exact ⟨.refl s, fun _ => rfl, settled_pure a s⟩

theorem stable_throw (e : Stop) : Stable fixed (throw e : Lookup σ α) := fun _ _ _ h => by cases h

theorem stable_defect (d : Defect) : Stable fixed (Lookup.defect d : Lookup σ α) :=
  stable_throw _

theorem Stable.bind (hx : Stable fixed x) (hf : ∀ a, Stable fixed (f a)) :
    Stable fixed (x >>= f) := by
  intro s b s' h
  obtain ⟨a, s₁, h₁, h₂⟩ := bind_eq_ok.mp h
  obtain ⟨hl₁, hr₁, hxa⟩ := hx s a s₁ h₁
  obtain ⟨hl₂, hr₂, hfb⟩ := hf a s₁ b s' h₂
  exact ⟨hl₁.trans hl₂, fun hf => (hr₂ hf).trans (hr₁ hf), (hxa.later hl₂).bind hfb⟩

/-- A computation that never succeeds. -/
theorem stable_of_never (h : ∀ s a s', x s ≠ .ok a s') : Stable fixed x :=
  fun s a s' hx => absurd hx (h s a s')

theorem stable_forM {xs : List β} {g : β → Lookup σ PUnit} (hg : ∀ b ∈ xs, Stable fixed (g b)) :
    Stable fixed (xs.forM g) := by
  induction xs with
  | nil => exact stable_pure _
  | cons b rest ih =>
    exact (hg b List.mem_cons_self).bind fun _ => ih fun b' hb => hg b' (List.mem_cons_of_mem _ hb)

/-- What is settled for all is settled for each. -/
theorem Settled.of_forM {xs : List β} {g : β → Lookup σ PUnit} (hg : ∀ b ∈ xs, Stable fixed (g b))
    (h : Settled (xs.forM g) ⟨⟩ s) : ∀ b ∈ xs, Settled (g b) ⟨⟩ s := by
  induction xs with
  | nil => exact fun b hb => absurd hb List.not_mem_nil
  | cons b rest ih =>
    have hrest : ∀ b' ∈ rest, Stable fixed (g b') := fun b' hb => hg b' (List.mem_cons_of_mem _ hb)
    obtain ⟨⟨⟩, h₁, h₂⟩ := h.of_bind (hg b List.mem_cons_self) fun _ => stable_forM hrest
    exact List.forall_mem_cons.mpr ⟨h₁, ih hrest h₂⟩

end Lookup

open Lookup

/-! ## Resolving, following and checking -/

theorem Schema.stable_force (schema : Schema σ) (r : LazyRef) : Stable fixed (schema.force r) := by
  intro s t s' h
  unfold Schema.force at h
  split at h
  · next hr =>
    cases h
    refine ⟨.refl s, fun _ => rfl, fun s' hs => ?_⟩
    simp only [Schema.force, hs.isForced hr, if_true]
  · cases h
    refine ⟨⟨fun _ _ h => h, fun id hid => List.mem_cons_of_mem _ hid⟩, fun _ => rfl,
      fun s' hs => ?_⟩
    have hr : s'.isForced r = true := by
      simp only [Session.isForced, List.contains_iff_mem]
      exact hs.forced _ List.mem_cons_self
    simp only [Schema.force, hr, if_true]

section

variable {schema : Schema σ} {find : Finder σ}
  (hfind : ∀ name, Stable fixed (find.require name))

include hfind

theorem TypeRef.stable_resolve (r : TypeRef) : Stable fixed (r.resolve schema find) := by
  cases r with
  | direct t => exact stable_pure t
  | named name => exact (hfind name).bind fun _ => stable_pure _
  | lazy r => exact schema.stable_force r

theorem TypeRef.stable_resolveBare (r : TypeRef) : Stable fixed (r.resolveBare schema find) := by
  refine (r.stable_resolve hfind).bind fun t => ?_
  cases t with
  | base t => exact stable_pure _
  | listOf id inner => exact stable_pure _
  | nonNull id inner => exact stable_of_never fun _ _ _ h => by cases h

theorem Ty.stable_unwrapWithin (fuel : Nat) (t : Ty) :
    Stable fixed (t.unwrapWithin schema find fuel) := by
  induction fuel generalizing t with
  | zero =>
    cases t with
    | base t => exact stable_pure t
    | nonNull id inner => exact stable_throw _
    | listOf id inner => exact stable_throw _
  | succ fuel ih =>
    cases t with
    | base t => exact stable_pure t
    | nonNull id inner => exact (inner.stable_resolveBare hfind).bind fun t => ih t.type
    | listOf id inner => exact (inner.stable_resolve hfind).bind fun t => ih t

theorem TypeRef.stable_nonScalar? (r : TypeRef) : Stable fixed (r.nonScalar? schema find) :=
  (r.stable_resolve hfind).bind fun t =>
    (t.stable_unwrapWithin hfind schema.limit).bind fun _ => stable_pure _

theorem Argument.stable_check (owner : String) (a : Argument) :
    Stable fixed (a.check schema find owner) := by
  refine (a.type.stable_nonScalar? hfind).bind fun t? => ?_
  cases t? with
  | none => exact stable_pure _
  | some t => exact stable_defect _

theorem Attribute.stable_check (entity : String) (a : Attribute σ) :
    Stable fixed (a.check schema find entity) := by
  unfold Attribute.check
  cases a.type? with
  | none => exact stable_pure _
  | some r =>
    refine (r.stable_nonScalar? hfind).bind fun t? => ?_
    cases t? with
    | none => exact stable_pure _
    | some t => exact stable_defect _

theorem Link.stable_follow (entity : String) (l : Link σ) :
    Stable fixed (l.follow schema find entity) := by
  refine (l.target.stable_resolve hfind).bind fun target => ?_
  have refused : Stable fixed (do
      Lookup.defect (.invalidLinkType entity l.label.name (← schema.textOf target)) :
        Lookup σ (NamedType × Entity σ)) := stable_of_never fun _ _ _ h => by cases h
  cases target with
  | base t =>
    cases he : schema.entity? t with
    | none => simpa only [he] using refused
    | some e => simpa only [he] using stable_pure (t, e)
  | nonNull id inner => exact refused
  | listOf id inner => exact refused

theorem Entity.stable_check (e : Entity σ) : Stable fixed (e.check schema find) := by
  refine (stable_forM fun a _ => a.stable_check hfind _).bind fun _ => ?_
  refine (stable_forM fun a _ => a.stable_check hfind _).bind fun _ => ?_
  refine (stable_forM fun a _ => stable_forM fun b _ => b.stable_check hfind _).bind fun _ => ?_
  refine stable_forM fun l _ => (l.stable_follow hfind _).bind fun _ => ?_
  exact stable_forM fun a _ => a.stable_check hfind _

end

/-! ## Looking up names -/

/-- A name that has to be known is looked up stably where what is found is registered. -/
theorem Finder.stable_require {find : Finder σ}
    (hready : ∀ {s : Session σ} {name t}, Entries.find? s.registry name = some (.ready t) →
      find name s = .ok (some t) s)
    (hfound : ∀ {s s' : Session σ} {name t?}, find name s = .ok t? s' →
      s.Later s' ∧ (fixed → s'.registry = s.registry) ∧
        ∀ t, t? = some t → Entries.find? s'.registry name = some (.ready t))
    (name : String) : Stable fixed (find.require name) := by
  intro s t s' h
  obtain ⟨t?, s₁, h₁, h₂⟩ := bind_eq_ok.mp h
  obtain ⟨hl, hsame, hr⟩ := hfound h₁
  cases t? with
  | none => cases h₂
  | some t₁ =>
    cases h₂
    refine ⟨hl, hsame, fun s'' hs => bind_eq_ok.mpr ⟨some t, s'', ?_, rfl⟩⟩
    exact hready (hs.ready _ _ (hr t rfl))

/-- A loader's answer that does not come back to the schema. -/
def Loading.Plain : Loading σ → Prop
  | .done _ => True
  | .panic _ => True
  | .step _ next => ∀ app, (next app).Plain
  | .find .. => False
  | .scan .. => False

/-- A schema whose loader, if it has one, does not come back to it. -/
def Schema.Plain (schema : Schema σ) : Prop :=
  ∀ loader, schema.loader? = some loader → ∀ name, (loader name).Plain

theorem Schema.plain_of_eager {schema : Schema σ} (hl : schema.loader? = none) : schema.Plain := by
  intro loader h
  rw [hl] at h
  cases h

theorem Loading.run_of_plain {find : Finder σ} {scan : Lookup σ (Entries NamedType)}
    {l : Loading σ} (hl : l.Plain) {s s' : Session σ} {t? : Option Ty}
    (h : l.run find scan s = .ok t? s') : ∃ app, s' = { s with app } := by
  induction l generalizing s with
  | done found =>
    cases h
    exact ⟨_, rfl⟩
  | panic p => cases h
  | step change next ih =>
    obtain ⟨app, rfl⟩ := ih (change s.app) (hl (change s.app)) h
    exact ⟨app, rfl⟩
  | find name next => exact hl.elim
  | scan next => exact hl.elim

namespace Schema

variable {schema : Schema σ} {find : Finder σ} {loader : String → Loading σ} {name : String}
  {s s' : Session σ}

theorem load_of_plain (hl : (loader name).Plain) {t? : Option NamedType}
    (h : schema.load find loader name s = .ok t? s') :
    (∃ app, s' = { s with app }) ∧ ∀ t, t? = some t → schema.nameOf t = name := by
  obtain ⟨found, s₁, h₁, h₂⟩ := bind_eq_ok.mp h
  obtain ⟨app, rfl⟩ := (loader name).run_of_plain hl h₁
  cases found with
  | none =>
    cases h₂
    exact ⟨⟨app, rfl⟩, fun t ht => by cases ht⟩
  | some found =>
    cases found with
    | base t =>
      simp only at h₂
      split at h₂
      · next hn =>
        cases h₂
        exact ⟨⟨app, rfl⟩, fun t' ht => by cases ht; exact hn⟩
      · cases h₂
    | nonNull id inner => cases h₂
    | listOf id inner => cases h₂

/-- What a loaded name stands for is registered. -/
theorem loadMarked_of_plain (hl : (loader name).Plain) {found : Option NamedType} {new : Bool}
    (h : schema.loadMarked find loader name s = .ok (found, new) s') :
    s.Later s' ∧ ∀ t, found = some t → Entries.find? s'.registry name = some (.ready t) := by
  obtain ⟨loaded, s₁, h₁, h₂⟩ := bind_eq_ok.mp h
  obtain ⟨⟨app, rfl⟩, -⟩ := load_of_plain hl h₁
  have registered : ∀ t, (∀ t', Entries.find? s.registry name ≠ some (.ready t')) →
      s.Later ({ s with app }.setSlot name (.ready t)) ∧
        Entries.find? ({ s with app }.setSlot name (.ready t)).registry name = some (.ready t) := by
    intro t hn
    refine ⟨(s.later_setApp app).trans (later_setSlot fun t' ht' => absurd ht' (hn t')), ?_⟩
    simp [Session.setSlot, Entries.find?_insert]
  obtain ⟨_, _, ⟨⟩, h₃⟩ := bind_eq_ok.mp h₂
  have unknown : ∀ app, s.Later { s with app } ∧ ∀ t, none = some t →
      Entries.find? { s with app }.registry name = some (.ready t) := fun app =>
    ⟨s.later_setApp app, fun t ht => by cases ht⟩
  cases hr : Entries.find? s.registry name with
  | none =>
    rw [hr] at h₃
    cases loaded with
    | none =>
      cases h₃
      exact unknown app
    | some t =>
      cases h₃
      obtain ⟨hl', hn⟩ := registered t (by simp [hr])
      exact ⟨hl', fun t' ht' => by cases ht'; exact hn⟩
  | some slot =>
    rw [hr] at h₃
    cases slot with
    | ready existing =>
      cases loaded with
      | none =>
        cases h₃
        exact unknown app
      | some t =>
        cases h₃
        exact ⟨s.later_setApp app, fun t' ht' => by cases ht'; exact hr⟩
    | loading cyclic =>
      cases cyclic with
      | true => cases h₃
      | false =>
        cases loaded with
        | none =>
          cases h₃
          exact unknown app
        | some t =>
          cases h₃
          obtain ⟨hl', hn⟩ := registered t (by simp [hr])
          exact ⟨hl', fun t' ht' => by cases ht'; exact hn⟩

theorem loadName_of_plain (hfind : ∀ name, Stable fixed (find.require name))
    (hl : (loader name).Plain) (hn : Entries.find? s.registry name = none) {t? : Option NamedType}
    (h : schema.loadName find loader name s = .ok t? s') :
    s.Later s' ∧ ∀ t, t? = some t → Entries.find? s'.registry name = some (.ready t) := by
  obtain ⟨⟨⟩, s₁, h₁, h₂⟩ := bind_eq_ok.mp h
  obtain ⟨⟨found, new⟩, s₂, h₃, h₄⟩ := bind_eq_ok.mp h₂
  cases h₁
  have hl₁ : s.Later (s.setSlot name (.loading false)) :=
    later_setSlot fun t ht => by rw [hn] at ht; cases ht
  obtain ⟨hl₂, hreg⟩ : s.Later s₂ ∧
      ∀ t, found = some t → Entries.find? s₂.registry name = some (.ready t) := by
    unfold Lookup.ensuring at h₃
    cases hm : schema.loadMarked find loader name (s.setSlot name (.loading false)) with
    | error e s₃ =>
      rw [hm] at h₃
      cases h₃
    | ok r s₃ =>
      rw [hm] at h₃
      cases h₃
      obtain ⟨hl₃, hr₃⟩ := loadMarked_of_plain hl hm
      have hc := s₃.later_clearLoading name
      exact ⟨(hl₁.trans hl₃).trans hc, fun t ht => hc.ready _ _ (hr₃ t ht)⟩
  cases found with
  | none =>
    cases h₄
    exact ⟨hl₂, hreg⟩
  | some t =>
    cases new with
    | false =>
      cases h₄
      exact ⟨hl₂, hreg⟩
    | true =>
      simp only at h₄
      cases he : schema.entity? t with
      | none =>
        rw [he] at h₄
        cases h₄
        exact ⟨hl₂, hreg⟩
      | some e =>
        rw [he] at h₄
        obtain ⟨⟨⟩, s₃, h₅, h₆⟩ := bind_eq_ok.mp h₄
        cases h₆
        have hc : e.check schema find s₂ = .ok ⟨⟩ s' := by
          unfold Lookup.onDefect at h₅
          split at h₅
          · cases h₅
          · exact h₅
        have hl₃ := (e.stable_check hfind s₂ _ s' hc).1
        exact ⟨hl₂.trans hl₃, fun t' ht' => hl₃.ready _ _ (hreg t' ht')⟩

/-- What a look-up does, by what stands under the name. -/
theorem findWithin_eq (schema : Schema σ) (fuel : Nat) (name : String) (s : Session σ) :
    schema.findWithin fuel name s =
      (match Entries.find? s.registry name with
      | some (.ready t) => return some t
      | some (.loading _) => do
        modify (Session.setSlot · name (.loading true))
        Lookup.defect (.cyclicLoad name)
      | none =>
        match schema.loader?, fuel with
        | none, _ => return none
        | some _, 0 => throw .exhausted
        | some loader, fuel + 1 => schema.loadName (schema.findWithin fuel) loader name :
          Lookup σ (Option NamedType)) s := by
  rw [findWithin.eq_def]
  rfl

/-- Looking up a name without a loader. -/
theorem find_eq_of_eager (hl : schema.loader? = none) :
    schema.find = fun name => (do
      match Entries.find? (← get).registry name with
      | some (.ready t) => return some t
      | some (.loading _) =>
        modify (Session.setSlot · name (.loading true))
        Lookup.defect (.cyclicLoad name)
      | none => return none : Lookup σ (Option NamedType)) := by
  funext name s
  rw [find, findWithin_eq, hl]
  rfl

theorem findWithin_of_ready (fuel : Nat) {t : NamedType}
    (h : Entries.find? s.registry name = some (.ready t)) :
    schema.findWithin fuel name s = .ok (some t) s := by
  rw [findWithin_eq, h]
  rfl

/-- **What a look-up finds is registered.** -/
theorem findWithin_of_plain (hp : schema.Plain) {fuel : Nat} {t? : Option NamedType}
    (h : schema.findWithin fuel name s = .ok t? s') :
    s.Later s' ∧ (schema.loader? = none → s'.registry = s.registry) ∧
      ∀ t, t? = some t → Entries.find? s'.registry name = some (.ready t) := by
  induction fuel generalizing name s t? s' with
  | zero =>
    rw [findWithin_eq] at h
    cases hr : Entries.find? s.registry name with
    | some slot =>
      rw [hr] at h
      cases slot with
      | ready t =>
        cases h
        exact ⟨.refl s, fun _ => rfl, fun t' ht' => by cases ht'; exact hr⟩
      | loading cyclic => cases h
    | none =>
      rw [hr] at h
      cases hl : schema.loader? with
      | none =>
        rw [hl] at h
        cases h
        exact ⟨.refl s, fun _ => rfl, fun t ht => by cases ht⟩
      | some loader =>
        rw [hl] at h
        cases h
  | succ fuel ih =>
    rw [findWithin_eq] at h
    cases hr : Entries.find? s.registry name with
    | some slot =>
      rw [hr] at h
      cases slot with
      | ready t =>
        cases h
        exact ⟨.refl s, fun _ => rfl, fun t' ht' => by cases ht'; exact hr⟩
      | loading cyclic => cases h
    | none =>
      rw [hr] at h
      cases hl : schema.loader? with
      | none =>
        rw [hl] at h
        cases h
        exact ⟨.refl s, fun _ => rfl, fun t ht => by cases ht⟩
      | some loader =>
        rw [hl] at h
        obtain ⟨hl', hr'⟩ := loadName_of_plain
          (Finder.stable_require (findWithin_of_ready fuel) ih) (hp loader hl name) hr h
        exact ⟨hl', fun hn => (nomatch hn), hr'⟩

/-- **A name that has been found stays found.** -/
theorem stable_require (hp : schema.Plain) (name : String) :
    Stable (schema.loader? = none) (schema.find.require name) :=
  Finder.stable_require (findWithin_of_ready schema.limit) (findWithin_of_plain hp) name

/-- A name that has to be known is registered once it has been looked up. -/
theorem ready_of_require (hp : schema.Plain) {name : String} {t : NamedType} {s s' : Session σ}
    (h : schema.find.require name s = .ok t s') :
    Entries.find? s'.registry name = some (.ready t) := by
  obtain ⟨t?, s₁, h₁, h₂⟩ := bind_eq_ok.mp h
  obtain ⟨-, -, hready⟩ := findWithin_of_plain hp h₁
  cases t? with
  | none => cases h₂
  | some t =>
    cases h₂
    exact hready _ rfl

end Schema

end EntityQuery
