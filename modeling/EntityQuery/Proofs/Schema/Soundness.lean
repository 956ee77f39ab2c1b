import EntityQuery.Proofs.Schema.Scanning

/-!
# Schemas that have been checked

After a check, what an execution needs of the schema is settled: every entity that the scan found
passes its check in all later sessions, and its links lead to entities that the scan found.

* `Schema.Sound`: a session of a checked schema. `Schema.Finds`: a name that is looked up safely.
* **`Schema.sound_of_check`**, **`Schema.sound_of_build`**: checking makes a session sound, and so does
  building a schema without a loader; then every name is looked up safely.
* **`Schema.Sound.settles`**: what is settled of an entity then.
-/

namespace EntityQuery

open Lookup Session

variable {σ α β : Type}

namespace Session

/-- The sessions know the same names and have forced the same references. -/
structure Alike (s s' : Session σ) : Prop where
  registry : s'.registry = s.registry
  forced : s'.forced = s.forced

variable {s s' s'' : Session σ}

theorem Alike.refl (s : Session σ) : s.Alike s := ⟨rfl, rfl⟩

theorem Alike.symm (h : s.Alike s') : s'.Alike s := ⟨h.registry.symm, h.forced.symm⟩

theorem Alike.trans (h : s.Alike s') (h' : s'.Alike s'') : s.Alike s'' :=
  ⟨h'.registry.trans h.registry, h'.forced.trans h.forced⟩

theorem alike_setApp (s : Session σ) (app : σ) : s.Alike { s with app } := ⟨rfl, rfl⟩

theorem alike_warn (s : Session σ) (t : Topic) (message : String) : s.Alike (s.warn t message) :=
  ⟨rfl, rfl⟩

theorem Alike.later (h : s.Alike s') : s.Later s' :=
  ⟨fun name t ht => by rw [h.registry]; exact ht, fun id hid => by rw [h.forced]; exact hid⟩

end Session

/-- A reference that unwraps to a scalar for good. -/
def TypeRef.Fits (schema : Schema σ) (s : Session σ) (r : TypeRef) : Prop :=
  Settled (r.nonScalar? schema schema.find) none s

namespace Schema

variable {schema : Schema σ} {types : Entries NamedType} {s s₀ s₁ s' : Session σ}

/-- A session of a checked schema: what the scan found is registered, closed under references, and
fit for its places. -/
structure Sound (schema : Schema σ) (types : Entries NamedType) (s : Session σ) : Prop
    extends schema.Scanned types s where
  passes : ∀ t e, schema.Holds types t → schema.entity? t = some e →
    Settled (e.check schema schema.find) ⟨⟩ s

/-- The name is looked up without any effect; what it stands for has been found by the scan. -/
def Finds (schema : Schema σ) (types : Entries NamedType) (s : Session σ) (name : String) : Prop :=
  ∃ t? : Option NamedType, (∀ t, t? = some t → schema.Holds types t) ∧
    ∀ s', s.Alike s' → schema.find name s' = .ok t? s'

theorem Scanned.later (h : schema.Scanned types s) (hs : s.Later s') : schema.Scanned types s' :=
  ⟨h.named, fun name t ht => hs.ready _ _ (h.ready name t ht), fun t ht =>
    (h.closed t ht).mono hs (fun _ hn => (List.not_mem_nil hn).elim) (.refl _)⟩

/-! ## Checking -/

/-- Checks what a name is registered with. -/
def checkRegistered (schema : Schema σ) (t : NamedType) : Lookup σ Unit :=
  match schema.entity? t with
  | some e => e.check schema schema.find
  | none => pure ()

/-- Checks that the loader gives what a name is registered with. -/
def checkSource (schema : Schema σ) (name : String) (t : NamedType) : Lookup σ Unit :=
  match schema.loader? with
  | some loader => do
    let given ← schema.load schema.find loader name
    if given ≠ some t then Lookup.defect (.loaderInstanceMismatch name)
  | none => pure ()

theorem checkFound_eq (name : String) (t : NamedType) :
    schema.checkFound name t = schema.checkRegistered t >>= fun _ => schema.checkSource name t := by
  unfold checkFound checkRegistered
  cases schema.entity? t <;> rfl

theorem checkFound_ok (hp : schema.Plain) {name : String} {t : NamedType}
    (h : schema.checkFound name t s = .ok () s') :
    s.Later s' ∧ (schema.loader? = none → s'.registry = s.registry) ∧
      ∀ e, schema.entity? t = some e → Settled (e.check schema schema.find) ⟨⟩ s' := by
  rw [checkFound_eq] at h
  obtain ⟨⟨⟩, s₁, h₁, h₂⟩ := bind_eq_ok.mp h
  unfold checkRegistered at h₁
  unfold checkSource at h₂
  have hentity : s.Later s₁ ∧ (schema.loader? = none → s₁.registry = s.registry) ∧
      ∀ e, schema.entity? t = some e → Settled (e.check schema schema.find) ⟨⟩ s₁ := by
    cases he : schema.entity? t with
    | none =>
      rw [he] at h₁
      cases h₁
      exact ⟨.refl s, fun _ => rfl, fun e he' => by cases he'⟩
    | some e =>
      rw [he] at h₁
      obtain ⟨hl, hs, hc⟩ := e.stable_check (stable_require hp) s _ s₁ h₁
      exact ⟨hl, hs, fun e' he' => by cases he'; exact hc⟩
  cases hl : schema.loader? with
  | none =>
    rw [hl] at h₂
    cases h₂
    exact ⟨hentity.1, fun _ => hentity.2.1 hl, hentity.2.2⟩
  | some loader =>
    rw [hl] at h₂
    obtain ⟨given, s₂, h₃, h₄⟩ := bind_eq_ok.mp h₂
    obtain ⟨⟨app, rfl⟩, -⟩ := load_of_plain (hp loader hl name) h₃
    split at h₄
    · cases h₄
    · cases h₄
      have hs := s₁.later_setApp app
      exact ⟨hentity.1.trans hs, fun hn => (nomatch hn), fun e he => (hentity.2.2 e he).later hs⟩

theorem checkAll_ok (hp : schema.Plain) {found : List (String × NamedType)}
    (h : (found.forM fun (name, t) =>
      if (Standard.ofName? name).isSome then pure () else schema.checkFound name t :
        Lookup σ Unit) s = .ok () s') :
    s.Later s' ∧ (schema.loader? = none → s'.registry = s.registry) ∧
      ∀ e ∈ found, (Standard.ofName? e.1).isSome = false → ∀ entity,
        schema.entity? e.2 = some entity → Settled (entity.check schema schema.find) ⟨⟩ s' := by
  induction found generalizing s with
  | nil =>
    cases h
    exact ⟨.refl s', fun _ => rfl, fun e he => absurd he List.not_mem_nil⟩
  | cons e rest ih =>
    obtain ⟨⟨⟩, s₁, h₁, h₂⟩ := bind_eq_ok.mp h
    obtain ⟨hl₂, hs₂, hrest⟩ := ih h₂
    simp only at h₁
    split at h₁
    · next hstd =>
      cases h₁
      refine ⟨hl₂, hs₂, List.forall_mem_cons.mpr ⟨fun hn => ?_, hrest⟩⟩
      rw [hstd] at hn
      cases hn
    · obtain ⟨hl₁, hs₁, hc⟩ := checkFound_ok hp h₁
      exact ⟨hl₁.trans hl₂, fun hn => (hs₂ hn).trans (hs₁ hn),
        List.forall_mem_cons.mpr ⟨fun _ entity he => (hc entity he).later hl₂, hrest⟩⟩

/-- The standard scalars are registered. -/
def Standards (s : Session σ) : Prop :=
  ∀ k : Standard, Entries.find? s.registry k.name = some (.ready (.standard k))

/-- **A check that succeeds leaves a sound session.** -/
theorem sound_of_check (hp : schema.Plain) (hstd : Standards s₀)
    (h : schema.check s₀ = .ok () s) :
    ∃ types s₁, schema.scan s₀ = .ok types s₁ ∧ s₁.Later s ∧ schema.Sound types s ∧
      (∀ t ∈ s₀.readyTypes, schema.Holds types t) ∧
      (schema.loader? = none → ∀ name slot, Entries.find? s.registry name = some slot →
        Entries.find? s₀.registry name = some slot ∨
          ∃ t, slot = .ready t ∧ Entries.find? types name = some t) := by
  obtain ⟨types, s₁, hscan, hchecks⟩ := bind_eq_ok.mp h
  obtain ⟨hl₁, hscanned, hseeds, hnew⟩ := scanWith_ok (stable_require hp) (ready_of_require hp) hscan
  obtain ⟨hl₂, hs₂, hpass⟩ := checkAll_ok hp hchecks
  refine ⟨types, s₁, hscan, hl₂, ⟨hscanned.later hl₂, fun t e ht he => ?_⟩, hseeds,
    fun hn name slot hs => hnew hn name slot (by rw [← hs₂ hn]; exact hs)⟩
  refine hpass (schema.nameOf t, t) (Entries.mem_of_find? ht) ?_ e he
  -- an entity does not bear a standard name, since that stands for the standard scalar
  cases hk : Standard.ofName? (schema.nameOf t) with
  | none => rfl
  | some k =>
    have hname : k.name = schema.nameOf t := by
      simpa using List.find?_some hk
    have hreg := hl₁.ready _ _ (hstd k)
    rw [hname, hscanned.ready _ _ ht] at hreg
    cases hreg
    simp [entity?, definition] at he

/-! ## Building -/

/-- What registering types leaves. -/
theorem register_ok {declared : List Ty} (h : schema.register declared s = .ok () s') :
    s.Later s' ∧
      (∀ t, Ty.base t ∈ declared →
        Entries.find? s'.registry (schema.nameOf t) = some (.ready t)) ∧
      ∀ name slot, Entries.find? s'.registry name = some slot →
        Entries.find? s.registry name = some slot ∨ ∃ t, slot = .ready t := by
  induction declared generalizing s with
  | nil =>
    cases h
    exact ⟨.refl s', fun t ht => absurd ht List.not_mem_nil, fun _ _ hs => .inl hs⟩
  | cons d rest ih =>
    cases d with
    | nonNull id inner => cases h
    | listOf id inner => cases h
    | base t =>
      unfold register at h
      obtain ⟨_, _, ⟨⟩, h⟩ := bind_eq_ok.mp h
      cases hr : Entries.find? s.registry (schema.nameOf t) with
      | none =>
        rw [hr] at h
        have h' : schema.register rest (s.setSlot (schema.nameOf t) (.ready t)) = .ok () s' := h
        obtain ⟨hl, hrest, hnew⟩ := ih h'
        have hself : Entries.find? (s.setSlot (schema.nameOf t) (.ready t)).registry
            (schema.nameOf t) = some (.ready t) := by
          simp [Session.setSlot, Entries.find?_insert]
        refine ⟨(later_setSlot fun t' ht' => by rw [hr] at ht'; cases ht').trans hl,
          fun t' ht' => ?_, fun name slot hs => ?_⟩
        · rcases List.mem_cons.mp ht' with he | ht'
          · cases he
            exact hl.ready _ _ hself
          · exact hrest t' ht'
        · rcases hnew name slot hs with hs' | hs'
          · simp only [Session.setSlot, Entries.find?_insert] at hs'
            split at hs'
            · exact .inr ⟨t, (Option.some_inj.mp hs').symm⟩
            · exact .inl hs'
          · exact .inr hs'
      | some slot =>
        rw [hr] at h
        simp only at h
        split at h
        · next he =>
          subst he
          obtain ⟨hl, hrest, hnew⟩ := ih h
          refine ⟨hl, fun t' ht' => ?_, hnew⟩
          rcases List.mem_cons.mp ht' with he | ht'
          · cases he
            exact hl.ready _ _ hr
          · exact hrest t' ht'
        · cases h

theorem standards_of_register {declared : List Ty}
    (h : schema.register (Standard.all.map (fun k => .base (.standard k)) ++ declared) s =
      .ok () s') : Standards s' := by
  intro k
  have hk : k ∈ Standard.all := by cases k <;> decide
  exact (register_ok h).2.1 (.standard k)
    (List.mem_append_left _ (List.mem_map_of_mem hk))

/-- Building a schema that loads types on demand registers the standard scalars. -/
theorem standards_of_build (hl : schema.onDemand = true) {declared : List Ty} {assumeValid : Bool}
    (h : schema.build declared assumeValid s₀ = .ok () s) : Standards s := by
  unfold build at h
  rw [hl] at h
  obtain ⟨⟨⟩, s₁, h₁, h₂⟩ := bind_eq_ok.mp h
  cases h₂
  exact standards_of_register h₁

/-- **A schema that is built without a loader is sound, and every name is looked up safely.** -/
theorem sound_of_build (hl : schema.loader? = none) {declared : List Ty} {app : σ}
    (h : schema.build declared false { app } = .ok () s) :
    ∃ types, schema.Sound types s ∧ ∀ name, schema.Finds types s name := by
  have hp : schema.Plain := plain_of_eager hl
  have hd : schema.onDemand = false := by simp [onDemand, hl]
  unfold build at h
  rw [hd] at h
  obtain ⟨⟨⟩, s₁, h₁, h₂⟩ := bind_eq_ok.mp h
  obtain ⟨-, -, hregister⟩ := register_ok h₁
  obtain ⟨types, -, -, -, hsound, hseeds, hnew⟩ := sound_of_check hp (standards_of_register h₁) h₂
  have holds : ∀ name slot, Entries.find? s.registry name = some slot →
      ∃ t, slot = .ready t ∧ schema.Holds types t := by
    intro name slot hs
    rcases hnew hl name slot hs with hs₁ | ⟨t, rfl, ht⟩
    · rcases hregister name slot hs₁ with hs₀ | ⟨t, rfl⟩
      · cases hs₀
      · refine ⟨t, rfl, hseeds t ?_⟩
        exact List.mem_filterMap.mpr ⟨_, Entries.mem_of_find? hs₁, rfl⟩
    · refine ⟨t, rfl, ?_⟩
      unfold Holds
      rw [hsound.named name t ht]
      exact ht
  refine ⟨types, hsound, fun name => ?_⟩
  cases hr : Entries.find? s.registry name with
  | none =>
    refine ⟨none, fun t ht => (nomatch ht), fun s' hs => ?_⟩
    unfold find
    rw [findWithin_eq, hs.registry, hr, hl]
    rfl
  | some slot =>
    obtain ⟨t, rfl, ht⟩ := holds name slot hr
    refine ⟨some t, fun t' ht' => by cases ht'; exact ht, fun s' hs => ?_⟩
    exact findWithin_of_ready _ (hs.later.ready _ _ hr)

/-- A name that a scan has found is looked up safely. -/
theorem Scanned.finds (h : schema.Scanned types s) {name : String}
    (hn : Entries.has types name = true) : schema.Finds types s name := by
  obtain ⟨t, ht⟩ := Option.isSome_iff_exists.mp hn
  refine ⟨some t, fun t' ht' => ?_, fun s' hs => ?_⟩
  · cases ht'
    unfold Holds
    rw [h.named name t ht]
    exact ht
  · exact findWithin_of_ready _ (hs.later.ready _ _ (h.ready name t ht))

/-! ## What is settled -/

/-- An entity that the scan has found. -/
def Knows (schema : Schema σ) (types : Entries NamedType) (e : Entity σ) : Prop :=
  ∃ t, schema.Holds types t ∧ schema.entity? t = some e

/-- What the check of an entity settles: its arguments and attributes fit, and its links lead to
entities that the scan has found. -/
structure Settles (schema : Schema σ) (types : Entries NamedType) (s : Session σ) (e : Entity σ) :
    Prop where
  arguments : ∀ a ∈ e.arguments, a.type.Fits schema s
  attributes : ∀ a ∈ e.attributes, ∀ r, a.type? = some r → r.Fits schema s
  acts : ∀ a ∈ e.acts, ∀ b ∈ a.arguments, b.type.Fits schema s
  linked : ∀ l ∈ e.links, ∀ b ∈ l.arguments, b.type.Fits schema s
  links : ∀ l ∈ e.links, ∃ t' e', schema.Knows types e' ∧
    Settled (l.follow schema schema.find e.name) (t', e') s

theorem fits_of_check (hp : schema.Plain) {owner : String} {a : Argument}
    (h : Settled (a.check schema schema.find owner) ⟨⟩ s) : a.type.Fits schema s := by
  have hfind := stable_require hp
  obtain ⟨t?, h₁, h₂⟩ := h.of_bind (a.type.stable_nonScalar? hfind) fun t? => by
    cases t? with
    | none => exact stable_pure _
    | some t => exact stable_defect _
  cases t? with
  | none => exact h₁
  | some t => cases h₂ s (.refl s)

/-- What a link leads to is an entity that its reference resolves to. -/
theorem follow_eq_ok {l : Link σ} {name : String} {t' : NamedType} {e' : Entity σ}
    (h : l.follow schema schema.find name s = .ok (t', e') s') :
    l.target.resolve schema schema.find s = .ok (.base t') s' ∧ schema.entity? t' = some e' := by
  obtain ⟨target, s₁, h₁, h₂⟩ := bind_eq_ok.mp h
  cases target with
  | nonNull id inner => cases h₂
  | listOf id inner => cases h₂
  | base t =>
    simp only at h₂
    cases he : schema.entity? t with
    | none =>
      rw [he] at h₂
      cases h₂
    | some e =>
      rw [he] at h₂
      cases h₂
      exact ⟨h₁, he⟩

/-- A reference that leads somewhere, and resolves to a definition, leads to that. -/
theorem holds_of_resolve (h : schema.Scanned types s) {r : TypeRef}
    (hr : schema.Leads s [] types r) {t : NamedType}
    (ht : r.resolve schema schema.find s = .ok (.base t) s') :
    schema.Holds types t := by
  cases r with
  | direct d =>
    cases ht
    exact hr t rfl
  | lazy r =>
    refine hr t ?_
    change schema.force r s = .ok (.base t) s' at ht
    unfold force at ht
    split at ht <;> exact (EStateM.Result.ok.inj ht).1
  | named name =>
    obtain ⟨t₁, hready, hholds⟩ : ∃ t₁, Entries.find? s.registry name = some (.ready t₁) ∧
        schema.Holds types t₁ := by
      rcases hr with hr | hr | hr
      · exact absurd hr List.not_mem_nil
      · obtain ⟨t₁, ht₁⟩ := Option.isSome_iff_exists.mp hr
        refine ⟨t₁, h.ready name t₁ ht₁, ?_⟩
        unfold Holds
        rw [h.named name t₁ ht₁]
        exact ht₁
      · exact hr
    obtain ⟨t₂, s₁, h₁, h₂⟩ := bind_eq_ok.mp ht
    obtain ⟨t?, s₂, h₃, h₄⟩ := bind_eq_ok.mp h₁
    rw [show schema.find name s = .ok (some t₁) s from findWithin_of_ready _ hready] at h₃
    cases h₃
    cases h₄
    cases h₂
    exact hholds

/-- **The entities of a sound session are settled.** -/
theorem Sound.settles (hp : schema.Plain) (h : schema.Sound types s) {e : Entity σ}
    (hk : schema.Knows types e) : schema.Settles types s e := by
  obtain ⟨t, ht, he⟩ := hk
  have hfind := stable_require hp
  have hargument : ∀ owner (a : Argument), Stable (schema.loader? = none)
      (a.check schema schema.find owner) := fun owner a => a.stable_check hfind owner
  have hlink : ∀ l : Link σ, Stable (schema.loader? = none) (do
      let _ ← l.follow schema schema.find e.name
      l.arguments.forM (Argument.check schema schema.find (e.name ++ "." ++ l.label.name))) :=
    fun l => (l.stable_follow hfind _).bind fun _ => stable_forM fun a _ => hargument _ a
  have hacts : ∀ a : Act σ, Stable (schema.loader? = none)
      (a.arguments.forM (Argument.check schema schema.find (e.name ++ "." ++ a.label.name))) :=
    fun a => stable_forM fun b _ => hargument _ b
  obtain ⟨⟨⟩, h₁, h₂⟩ := (h.passes t e ht he).of_bind (stable_forM fun a _ => hargument _ a)
    fun _ => (stable_forM fun a _ => a.stable_check hfind _).bind fun _ =>
      (stable_forM fun a _ => hacts a).bind fun _ => stable_forM fun l _ => hlink l
  obtain ⟨⟨⟩, h₂, h₃⟩ := h₂.of_bind (stable_forM fun a _ => a.stable_check hfind _)
    fun _ => (stable_forM fun a _ => hacts a).bind fun _ => stable_forM fun l _ => hlink l
  obtain ⟨⟨⟩, h₃, h₄⟩ := h₃.of_bind (stable_forM fun a _ => hacts a)
    fun _ => stable_forM fun l _ => hlink l
  have hlinks := fun l hl => (h₄.of_forM (fun l _ => hlink l) l hl).of_bind
    (l.stable_follow hfind _) fun _ => stable_forM fun a _ => hargument _ a
  refine ⟨fun a ha => ?_, fun a ha r hr => ?_, fun a ha b hb => ?_, fun l hl b hb => ?_,
    fun l hl => ?_⟩
  · exact fits_of_check hp (h₁.of_forM (fun a _ => hargument _ a) a ha)
  · have hc := h₂.of_forM (fun a _ => a.stable_check hfind _) a ha
    unfold Attribute.check at hc
    rw [hr] at hc
    obtain ⟨t?, h₁, h₂⟩ := hc.of_bind (r.stable_nonScalar? hfind) fun t? => by
      cases t? with
      | none => exact stable_pure _
      | some t => exact stable_defect _
    cases t? with
    | none => exact h₁
    | some t => cases h₂ s (.refl s)
  · have hc := h₃.of_forM (fun a _ => hacts a) a ha
    exact fits_of_check hp (hc.of_forM (fun b _ => hargument _ b) b hb)
  · obtain ⟨-, -, hargs⟩ := hlinks l hl
    exact fits_of_check hp (hargs.of_forM (fun b _ => hargument _ b) b hb)
  · obtain ⟨⟨t', e'⟩, hf, -⟩ := hlinks l hl
    obtain ⟨hr, he'⟩ := follow_eq_ok (hf s (.refl s))
    refine ⟨t', e', ⟨t', holds_of_resolve h.toScanned ?_ hr, he'⟩, hf⟩
    refine h.closed t ht e he l.target ?_
    exact List.mem_append_right _ (List.mem_flatMap.mpr ⟨l, hl, List.mem_cons_self⟩)

end Schema

/-! ## A schema that builds -/

namespace Sample

/-- An entity with a name, with a key that cannot be read, and with two friends, one of whom has no
name. -/
def user (secret : String) : Entity Unit where
  name := "User"
  resolve _ _ := pure (.ready (.string "ada"))
  attributes := [{
    label := { name := "name" }
    type? := some (.direct (.nonNull ⟨⟨0, 0⟩, [0]⟩ (.named "String")))
    resolve := fun reference _ => pure (.settling .own 1 (pure reference)) }, {
    label := { name := "key" }
    resolve := fun _ _ =>
      pure (.deferred (throw (.failure (.causedBy secret (.internal (.other secret)))))) }]
  links := [{
    label := { name := "friends" }
    target := .named "User"
    resolve := fun _ _ => pure (.settling .foreign 2 (pure (.array [.string "bob", .null]))) }]

/-- A schema of one entity that links to itself by name. -/
def schema (secret : String) : Schema Unit where
  define _ := .entity (user secret)
  target _ := .base (.standard .string)
  limit := 30

/-- The session that the schema starts with. -/
def session : Session Unit where
  registry := [("String", .ready (.standard .string)), ("Int", .ready (.standard .int)),
    ("Float", .ready (.standard .float)), ("Boolean", .ready (.standard .boolean)),
    ("ID", .ready (.standard .id)), ("User", .ready (.defined ⟨0, 0⟩))]
  complete := true
  app := ()

/-- A document that asks for what the entity has, and for a name that it does not have. -/
def document : Document where
  queries := [("people", {
    typeName := some "User"
    attributes := ["name", "key", "age"]
    act := none
    arguments := []
    links := [("friends", {
      typeName := none
      attributes := ["name"]
      act := none
      arguments := []
      links := [] })] })]

set_option maxRecDepth 10000 in
theorem built (secret : String) :
    (schema secret).build [.base (.defined ⟨0, 0⟩)] false { app := () } = .ok () session := by
  unfold Schema.build Schema.check Schema.checkFound Schema.scan
  rw [Schema.find_eq_of_eager rfl]
  rfl

theorem eq_of_entity? {secret : String} {t : NamedType} {e : Entity Unit}
    (h : (schema secret).entity? t = some e) : e = user secret := by
  cases t with
  | standard k => cases h
  | defined id =>
    cases h
    rfl

end Sample

end EntityQuery
