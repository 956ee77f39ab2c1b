import EntityQuery.Proofs.Schema.Stability

/-!
# What a scan finds

A scan goes through the references of every entity that it finds, so what it has found is closed under
references: where one leads to a definition, that is found as well.

* `Schema.Leads`: where a reference leads, among some names that are left and some types.
* `Schema.collect_ok`, `Schema.collectPending_ok`: what the traversal keeps.
* `Schema.explore`: all that a scan does before it registers something. `Schema.explore_ok`.
* **`Schema.scanWith_ok`**: after a scan, the found types are registered under their own names, and
  every reference of a found entity that leads to a definition leads to a found one.
-/

namespace EntityQuery

open Lookup Session

variable {σ : Type}

theorem Entries.mem_of_find? {α : Type} {es : Entries α} {key : String} {v : α}
    (h : Entries.find? es key = some v) : (key, v) ∈ es := by
  induction es with
  | nil => cases h
  | cons e rest ih =>
    obtain ⟨k, v'⟩ := e
    by_cases hk : k = key
    · simp only [find?, hk, if_true, Option.some_inj] at h
      rw [hk, h]
      exact List.mem_cons_self
    · simp only [find?, hk, if_false] at h
      exact List.mem_cons_of_mem _ (ih h)

namespace Schema

variable {schema : Schema σ} {find : Finder σ} {fixed : Prop} {s s' : Session σ}

/-- Types hold a definition under its own name. -/
def Holds (schema : Schema σ) (types : Entries NamedType) (t : NamedType) : Prop :=
  Entries.find? types (schema.nameOf t) = some t

/-- Where a reference leads: a definition is among the types, a name is left, is among the types, or
is registered for one of them. -/
def Leads (schema : Schema σ) (s : Session σ) (names : List String) (types : Entries NamedType) :
    TypeRef → Prop
  | .direct t => ∀ n, t = .base n → schema.Holds types n
  | .lazy r => ∀ n, schema.target r = .base n → schema.Holds types n
  | .named name => name ∈ names ∨ Entries.has types name = true ∨
      ∃ t, Entries.find? s.registry name = some (.ready t) ∧ schema.Holds types t

/-- Some types become more. -/
def Grows (types types' : Entries NamedType) : Prop :=
  ∀ name t, Entries.find? types name = some t → Entries.find? types' name = some t

/-- All references of an entity lead somewhere. -/
def Closes (schema : Schema σ) (s : Session σ) (names : List String) (types : Entries NamedType)
    (t : NamedType) : Prop :=
  ∀ e, schema.entity? t = some e → ∀ r ∈ e.references, schema.Leads s names types r

theorem Grows.refl (types : Entries NamedType) : Grows types types := fun _ _ h => h

theorem Grows.trans {types types' types'' : Entries NamedType} (h : Grows types types')
    (h' : Grows types' types'') : Grows types types'' := fun name t ht => h' name t (h name t ht)

theorem Grows.holds {types types' : Entries NamedType} (h : Grows types types') {t : NamedType}
    (ht : schema.Holds types t) : schema.Holds types' t := h _ _ ht

theorem Leads.mono {names names' : List String} {types types' : Entries NamedType} {r : TypeRef}
    (h : schema.Leads s names types r) (hs : s.Later s')
    (hn : ∀ name ∈ names, schema.Leads s' names' types' (.named name))
    (ht : Grows types types') : schema.Leads s' names' types' r := by
  cases r with
  | direct t => exact fun n he => ht.holds (h n he)
  | lazy r => exact fun n he => ht.holds (h n he)
  | named name =>
    rcases h with h | h | ⟨t, h₁, h₂⟩
    · exact hn name h
    · obtain ⟨t, he⟩ := Option.isSome_iff_exists.mp h
      exact .inr (.inl (Option.isSome_iff_exists.mpr ⟨t, ht _ _ he⟩))
    · exact .inr (.inr ⟨t, hs.ready _ _ h₁, ht.holds h₂⟩)

theorem Closes.mono {names names' : List String} {types types' : Entries NamedType} {t : NamedType}
    (h : schema.Closes s names types t) (hs : s.Later s')
    (hn : ∀ name ∈ names, schema.Leads s' names' types' (.named name))
    (ht : Grows types types') : schema.Closes s' names' types' t :=
  fun e he r hr => (h e he r hr).mono hs hn ht

/-! ## Collecting -/

theorem stable_tip (schema : Schema σ) (fuel : Nat) (r : TypeRef) :
    Stable fixed (r.tipWithin schema fuel) := by
  induction fuel generalizing r with
  | zero =>
    cases r with
    | named name => exact stable_pure _
    | direct t => exact stable_throw _
    | lazy r => exact stable_throw _
  | succ fuel ih =>
    have ofType : ∀ t : Ty, Stable fixed (t.tipWith (TypeRef.tipWithin schema fuel)) := by
      intro t
      cases t with
      | base t => exact stable_pure _
      | nonNull id inner => exact ih inner
      | listOf id inner => exact ih inner
    cases r with
    | named name => exact stable_pure _
    | direct t => exact ofType t
    | lazy r => exact (schema.stable_force r).bind ofType

/-- What a reference ends in tells where it leads. -/
theorem leads_of_tip {r : TypeRef} {tip : String ⊕ NamedType} (h : r.tip schema s = .ok tip s')
    {names : List String} {types : Entries NamedType}
    (hname : ∀ name, tip = .inl name → name ∈ names)
    (htype : ∀ t, tip = .inr t → schema.Holds types t) : schema.Leads s' names types r := by
  unfold TypeRef.tip at h
  cases r with
  | named name =>
    have h' : (EStateM.Result.ok (.inl name) s :
        EStateM.Result Stop (Session σ) (String ⊕ NamedType)) = .ok tip s' := by
      cases hl : schema.limit <;> rw [hl] at h <;> exact h
    cases h'
    exact .inl (hname name rfl)
  | direct t =>
    rintro n rfl
    cases hl : schema.limit with
    | zero =>
      rw [hl] at h
      cases h
    | succ fuel =>
      rw [hl] at h
      cases h
      exact htype n rfl
  | lazy r =>
    intro n hn
    cases hl : schema.limit with
    | zero =>
      rw [hl] at h
      cases h
    | succ fuel =>
      rw [hl] at h
      obtain ⟨t, s₁, h₁, h₂⟩ := bind_eq_ok.mp h
      have ht : t = schema.target r := by
        unfold force at h₁
        split at h₁ <;> (cases h₁; rfl)
      rw [ht, hn] at h₂
      cases h₂
      exact htype n rfl

/-- What has been found has become more, and what is new is closed under references. If `fixed`,
nothing has been registered. -/
structure Collects (schema : Schema σ) (fixed : Prop) (s s' : Session σ) (found found' : Found) :
    Prop where
  later : s.Later s'
  same : fixed → s'.registry = s.registry
  pending : ∀ name ∈ found.pending, schema.Leads s' found'.pending found'.types (.named name)
  grows : Grows found.types found'.types
  named : (∀ name t, Entries.find? found.types name = some t → schema.nameOf t = name) →
    ∀ name t, Entries.find? found'.types name = some t → schema.nameOf t = name
  closes : ∀ t, schema.Holds found'.types t →
    schema.Holds found.types t ∨ schema.Closes s' found'.pending found'.types t

theorem Collects.refl (s : Session σ) (found : Found) : schema.Collects fixed s s found found :=
  ⟨.refl s, fun _ => rfl, fun _ h => .inl h, .refl _, fun h => h, fun _ h => .inl h⟩

theorem Collects.trans {s'' : Session σ} {found found' found'' : Found}
    (h : schema.Collects fixed s s' found found') (h' : schema.Collects fixed s' s'' found' found'') :
    schema.Collects fixed s s'' found found'' := by
  refine ⟨h.later.trans h'.later, fun hf => (h'.same hf).trans (h.same hf),
    fun name hn => (h.pending name hn).mono h'.later h'.pending h'.grows,
    h.grows.trans h'.grows, fun hn => h'.named (h.named hn), fun t ht => ?_⟩
  rcases h'.closes t ht with ht' | ht'
  · exact (h.closes t ht').imp_right fun hc => hc.mono h'.later h'.pending h'.grows
  · exact .inr ht'

/-! ### Adding a definition -/

section

variable {types : Entries NamedType} {t t' : NamedType}

theorem grows_insert (hf : Entries.find? types (schema.nameOf t) = none) :
    Grows types (Entries.insert types (schema.nameOf t) t) := by
  intro name t' ht'
  rw [Entries.find?_insert, if_neg]
  · exact ht'
  · rintro rfl
    rw [hf] at ht'
    cases ht'

theorem named_insert
    (hn : ∀ name t, Entries.find? types name = some t → schema.nameOf t = name) (name : String)
    (ht' : Entries.find? (Entries.insert types (schema.nameOf t) t) name = some t') :
    schema.nameOf t' = name := by
  rw [Entries.find?_insert] at ht'
  split at ht'
  · next he =>
    cases ht'
    exact he
  · exact hn name t' ht'

theorem holds_insert_self : schema.Holds (Entries.insert types (schema.nameOf t) t) t := by
  simp [Holds, Entries.find?_insert]

theorem holds_insert (ht' : schema.Holds (Entries.insert types (schema.nameOf t) t) t') :
    t' = t ∨ schema.Holds types t' := by
  rw [Holds, Entries.find?_insert] at ht'
  split at ht'
  · cases ht'
    exact .inl rfl
  · exact .inr ht'

end

/-! ### Collecting -/

/-- Collects what a reference leads to, or leaves its name for later. -/
def collectReference (schema : Schema σ) (fuel : Nat) (found : Found) (r : TypeRef) :
    Lookup σ Found := do
  match ← r.tip schema with
  | .inl name => return { found with pending := name :: found.pending }
  | .inr t => schema.collect fuel t found

/-- What collecting a definition does, with so much fuel. -/
def CollectsAll (schema : Schema σ) (fixed : Prop) (fuel : Nat) : Prop :=
  ∀ {t : NamedType} {found found' : Found} {s s' : Session σ},
    schema.collect fuel t found s = .ok found' s' →
      schema.Collects fixed s s' found found' ∧ schema.Holds found'.types t

theorem collectReference_ok {fuel : Nat} (hcollect : schema.CollectsAll fixed fuel) {r : TypeRef}
    {found found' : Found} (h : schema.collectReference fuel found r s = .ok found' s') :
    schema.Collects fixed s s' found found' ∧ schema.Leads s' found'.pending found'.types r := by
  obtain ⟨tip, s₀, h₀, h₁⟩ := bind_eq_ok.mp h
  have htip : Stable fixed (r.tip schema) := stable_tip schema schema.limit r
  obtain ⟨hl₀, hs₀, -⟩ := htip s tip s₀ h₀
  cases tip with
  | inl name =>
    cases h₁
    refine ⟨⟨hl₀, hs₀, fun _ hn => .inl (List.mem_cons_of_mem _ hn), .refl _, fun h => h,
      fun _ h => .inl h⟩, ?_⟩
    refine leads_of_tip h₀ (fun name' he => ?_) fun t he => by cases he
    cases he
    exact List.mem_cons_self
  | inr t =>
    obtain ⟨hc, ht⟩ := hcollect h₁
    refine ⟨⟨hl₀.trans hc.later, fun hf => (hc.same hf).trans (hs₀ hf), hc.pending, hc.grows,
      hc.named, hc.closes⟩, ?_⟩
    refine (leads_of_tip h₀ (fun name he => by cases he) fun t' he => ?_).mono
      hc.later (fun _ h => .inl h) (.refl _)
    cases he
    exact ht

theorem collectReferences_ok {fuel : Nat} (hcollect : schema.CollectsAll fixed fuel)
    {refs : List TypeRef} {found found' : Found}
    (h : refs.foldlM (schema.collectReference fuel) found s = .ok found' s') :
    schema.Collects fixed s s' found found' ∧
      ∀ r ∈ refs, schema.Leads s' found'.pending found'.types r := by
  induction refs generalizing found s with
  | nil =>
    cases h
    exact ⟨.refl _ _, fun r hr => absurd hr List.not_mem_nil⟩
  | cons r refs ih =>
    obtain ⟨found₁, s₁, h₁, h₂⟩ := bind_eq_ok.mp h
    obtain ⟨hc₁, hr₁⟩ := collectReference_ok hcollect h₁
    obtain ⟨hc₂, hr₂⟩ := ih h₂
    refine ⟨hc₁.trans hc₂, List.forall_mem_cons.mpr ⟨?_, hr₂⟩⟩
    exact hr₁.mono hc₂.later hc₂.pending hc₂.grows

/-- **Collecting a definition finds it and all that it refers to.** -/
theorem collect_ok (fuel : Nat) : schema.CollectsAll fixed fuel := by
  induction fuel with
  | zero =>
    intro t found found' s s' h
    cases h
  | succ fuel ih =>
    intro t found found' s s' h
    unfold collect at h
    simp only at h
    cases hf : Entries.find? found.types (schema.nameOf t) with
    | some other =>
      rw [hf] at h
      simp only at h
      split at h
      · next he =>
        cases h
        subst he
        exact ⟨.refl s found, hf⟩
      · cases h
    | none =>
      rw [hf] at h
      simp only at h
      cases hd : schema.definition t with
      | scalar sc =>
        rw [hd] at h
        cases h
        refine ⟨⟨.refl s, fun _ => rfl, fun _ h => .inl h, grows_insert hf,
          fun hn name _ => named_insert hn name, fun t' ht' => ?_⟩, holds_insert_self⟩
        rcases holds_insert ht' with rfl | ht'
        · refine .inr fun e he => ?_
          simp [Schema.entity?, hd] at he
        · exact .inl ht'
      | entity e =>
        rw [hd] at h
        obtain ⟨hc, hr⟩ := collectReferences_ok ih h
        refine ⟨⟨hc.later, hc.same, hc.pending, (grows_insert hf).trans hc.grows,
          fun hn => hc.named fun name _ => named_insert hn name, fun t' ht' => ?_⟩,
          hc.grows.holds holds_insert_self⟩
        rcases hc.closes t' ht' with ht' | ht'
        · rcases holds_insert ht' with rfl | ht'
          · refine .inr fun e' he' r hr' => ?_
            simp only [Schema.entity?, hd, Option.some_inj] at he'
            subst he'
            exact hr r hr'
          · exact .inl ht'
        · exact .inr ht'

/-- **Looking up the names that are left leaves none.** -/
theorem collectPending_ok (hfind : ∀ name, Stable fixed (find.require name))
    (hready : ∀ {s s' : Session σ} {name t}, find.require name s = .ok t s' →
      Entries.find? s'.registry name = some (.ready t))
    {fuel : Nat} {found found' : Found}
    (h : schema.collectPending find fuel found s = .ok found' s') :
    schema.Collects fixed s s' found found' ∧ found'.pending = [] := by
  induction fuel generalizing found s with
  | zero => cases h
  | succ fuel ih =>
    obtain ⟨types, pending⟩ := found
    cases pending with
    | nil =>
      cases h
      exact ⟨.refl s' _, rfl⟩
    | cons name pending =>
      -- what is left after one name, where that leads somewhere
      have popped : ∀ {s₁ : Session σ} {found₁ : Found},
          schema.Collects fixed s s₁ ⟨types, pending⟩ found₁ →
          schema.Leads s₁ found₁.pending found₁.types (.named name) →
          schema.Collects fixed s s₁ ⟨types, name :: pending⟩ found₁ := fun hc hn =>
        ⟨hc.later, hc.same, List.forall_mem_cons.mpr ⟨hn, hc.pending⟩, hc.grows, hc.named, hc.closes⟩
      unfold collectPending at h
      simp only at h
      split at h
      · next hh =>
        obtain ⟨hc, hp⟩ := ih h
        refine ⟨popped hc ?_, hp⟩
        obtain ⟨t, ht⟩ := Option.isSome_iff_exists.mp hh
        exact .inr (.inl (Option.isSome_iff_exists.mpr ⟨t, hc.grows _ _ ht⟩))
      · obtain ⟨t, s₁, h₁, h₂⟩ := bind_eq_ok.mp h
        obtain ⟨found₁, s₂, h₂, h₃⟩ := bind_eq_ok.mp h₂
        obtain ⟨hc₁, ht⟩ := collect_ok _ h₂
        obtain ⟨hc₂, hp⟩ := ih h₃
        obtain ⟨hl, hs, -⟩ := hfind name s t s₁ h₁
        have hc : schema.Collects fixed s s' ⟨types, pending⟩ found' :=
          Collects.trans ⟨hl.trans hc₁.later, fun hf => (hc₁.same hf).trans (hs hf), hc₁.pending,
            hc₁.grows, hc₁.named, hc₁.closes⟩ hc₂
        refine ⟨popped hc (.inr (.inr ⟨t, ?_, hc₂.grows.holds ht⟩)), hp⟩
        exact (hc₁.later.trans hc₂.later).ready _ _ (hready h₁)

/-! ## Scanning -/

/-- Looks for all types that can be reached: from some types, and from the names on the way. -/
def explore (schema : Schema σ) (find : Finder σ) (seeds : List NamedType) : Lookup σ Found := do
  let found ← seeds.foldlM (fun found t => schema.collect schema.limit t found) {}
  schema.collectPending find schema.limit found

/-- The session in which a scan has sent its warning. -/
def warned (schema : Schema σ) (s : Session σ) : Session σ :=
  if schema.onDemand then s.warn .fullSchemaScan scanWarning else s

@[simp] theorem registry_warned (schema : Schema σ) (s : Session σ) :
    (schema.warned s).registry = s.registry := by
  unfold warned
  split <;> rfl

@[simp] theorem complete_warned (schema : Schema σ) (s : Session σ) :
    (schema.warned s).complete = s.complete := by
  unfold warned
  split <;> rfl

@[simp] theorem forced_warned (schema : Schema σ) (s : Session σ) :
    (schema.warned s).forced = s.forced := by
  unfold warned
  split <;> rfl

theorem later_warned (schema : Schema σ) (s : Session σ) : s.Later (schema.warned s) := by
  unfold warned
  split
  · exact s.later_warn _ _
  · exact .refl s

/-- What a scan does in the end: it registers what it has found. -/
def publishAll (found : Found) : Lookup σ (Entries NamedType) := do
  publish found.types
  modify fun s => { s with complete := true }
  return found.types

/-- **A scan looks for everything first**, and registers what it has found in the end. -/
theorem scanWith_eq_explore (schema : Schema σ) (find : Finder σ) (s : Session σ) :
    schema.scanWith find s = (schema.explore find s.readyTypes >>= publishAll) (schema.warned s) := by
  unfold scanWith explore warned
  simp only [bind_assoc]
  split <;> rfl

/-- Between the sessions, the types have been registered, and nothing else has. -/
structure Publishes (types : Entries NamedType) (s s' : Session σ) : Prop where
  later : s.Later s'
  ready : ∀ e ∈ types, Entries.find? s'.registry e.1 = some (.ready e.2)
  new : ∀ name slot, Entries.find? s'.registry name = some slot →
    Entries.find? s.registry name = some slot ∨ ∃ t, slot = .ready t ∧ (name, t) ∈ types

section

variable {types : Entries NamedType} {name : String} {t : NamedType}

theorem Publishes.cons_of_ready (hr : Entries.find? s.registry name = some (.ready t))
    (h : Publishes types s s') : Publishes ((name, t) :: types) s s' := by
  refine ⟨h.later, List.forall_mem_cons.mpr ⟨h.later.ready _ _ hr, h.ready⟩, fun name' slot hs => ?_⟩
  refine (h.new name' slot hs).imp_right ?_
  rintro ⟨t', rfl, ht'⟩
  exact ⟨t', rfl, List.mem_cons_of_mem _ ht'⟩

theorem Publishes.cons_of_set (hr : ∀ t', Entries.find? s.registry name ≠ some (.ready t'))
    (h : Publishes types (s.setSlot name (.ready t)) s') : Publishes ((name, t) :: types) s s' := by
  refine ⟨(later_setSlot fun t' ht' => absurd ht' (hr t')).trans h.later,
    List.forall_mem_cons.mpr ⟨h.later.ready _ _ ?_, h.ready⟩, fun name' slot hs => ?_⟩
  · simp [Session.setSlot, Entries.find?_insert]
  · rcases h.new name' slot hs with hs' | ⟨t', rfl, ht'⟩
    · simp only [Session.setSlot, Entries.find?_insert] at hs'
      split at hs'
      · next he =>
        rw [← he, ← Option.some_inj.mp hs']
        exact .inr ⟨t, rfl, List.mem_cons_self⟩
      · exact .inl hs'
    · exact .inr ⟨t', rfl, List.mem_cons_of_mem _ ht'⟩

end

/-- Publishing types registers them. -/
theorem publish_ok {types : Entries NamedType} (h : publish types s = .ok () s') :
    Publishes types s s' := by
  induction types generalizing s with
  | nil =>
    cases h
    exact ⟨.refl s', fun e he => absurd he List.not_mem_nil, fun _ _ h => .inl h⟩
  | cons e rest ih =>
    obtain ⟨name, t⟩ := e
    unfold publish at h
    obtain ⟨_, _, ⟨⟩, hs⟩ := bind_eq_ok.mp h
    cases hr : Entries.find? s.registry name with
    | none =>
      rw [hr] at hs
      exact .cons_of_set (by simp [hr]) (ih hs)
    | some slot =>
      rw [hr] at hs
      cases slot with
      | loading cyclic => exact .cons_of_set (by simp [hr]) (ih hs)
      | ready other =>
        simp only at hs
        split at hs
        · next he =>
          subst he
          exact .cons_of_ready hr (ih hs)
        · cases hs

theorem collectAll_ok {seeds : List NamedType} {found found' : Found}
    (h : (seeds.foldlM (fun found t => schema.collect schema.limit t found) found :
      Lookup σ Found) s = .ok found' s') :
    schema.Collects fixed s s' found found' ∧ ∀ t ∈ seeds, schema.Holds found'.types t := by
  induction seeds generalizing found s with
  | nil =>
    cases h
    exact ⟨.refl s' _, fun t ht => absurd ht List.not_mem_nil⟩
  | cons t rest ih =>
    obtain ⟨found₁, s₁, h₁, h₂⟩ := bind_eq_ok.mp h
    obtain ⟨hc₁, ht⟩ := collect_ok _ h₁
    obtain ⟨hc₂, hrest⟩ := ih h₂
    exact ⟨hc₁.trans hc₂, List.forall_mem_cons.mpr ⟨hc₂.grows.holds ht, hrest⟩⟩

/-- **What a scan has looked for is closed under references**, with the types that it has started from. -/
theorem explore_ok (hfind : ∀ name, Stable fixed (find.require name))
    (hready : ∀ {s s' : Session σ} {name t}, find.require name s = .ok t s' →
      Entries.find? s'.registry name = some (.ready t))
    {seeds : List NamedType} {found : Found} (h : schema.explore find seeds s = .ok found s') :
    schema.Collects fixed s s' {} found ∧ (∀ t ∈ seeds, schema.Holds found.types t) ∧
      found.pending = [] := by
  obtain ⟨found₁, s₁, hfold, hpending⟩ := bind_eq_ok.mp h
  obtain ⟨hc₁, hseeds⟩ := collectAll_ok hfold
  obtain ⟨hc₂, hp⟩ := collectPending_ok hfind hready hpending
  exact ⟨hc₁.trans hc₂, fun t ht => hc₂.grows.holds (hseeds t ht), hp⟩

/-- A session in which everything that was found is registered under its own name, and the found
types are closed under references. -/
structure Scanned (schema : Schema σ) (types : Entries NamedType) (s : Session σ) : Prop where
  named : ∀ name t, Entries.find? types name = some t → schema.nameOf t = name
  ready : ∀ name t, Entries.find? types name = some t →
    Entries.find? s.registry name = some (.ready t)
  closed : ∀ t, schema.Holds types t → schema.Closes s [] types t

/-- **What a scan finds is registered and closed under references**; it has found all that was
registered before. If looking up names registers nothing, the scan registers only what it finds. -/
theorem scanWith_ok (hfind : ∀ name, Stable fixed (find.require name))
    (hready : ∀ {s s' : Session σ} {name t}, find.require name s = .ok t s' →
      Entries.find? s'.registry name = some (.ready t))
    {types : Entries NamedType} (h : schema.scanWith find s = .ok types s') :
    s.Later s' ∧ schema.Scanned types s' ∧ (∀ t ∈ s.readyTypes, schema.Holds types t) ∧
      (fixed → ∀ name slot, Entries.find? s'.registry name = some slot →
        Entries.find? s.registry name = some slot ∨
          ∃ t, slot = .ready t ∧ Entries.find? types name = some t) := by
  rw [scanWith_eq_explore] at h
  obtain ⟨found, s₁, hexplore, h₁⟩ := bind_eq_ok.mp h
  obtain ⟨⟨⟩, s₂, hpublish, h₂⟩ := bind_eq_ok.mp h₁
  cases h₂
  obtain ⟨hc, hseeds, hp⟩ := explore_ok hfind hready hexplore
  obtain ⟨hl, hr, hnew⟩ := publish_ok hpublish
  have hl' : s₁.Later { s₂ with complete := true } := ⟨hl.ready, hl.forced⟩
  refine ⟨(schema.later_warned s).trans (hc.later.trans hl'), ⟨hc.named fun _ _ he => ?_,
    fun name t ht => hr _ (Entries.mem_of_find? ht), fun t ht => ?_⟩, hseeds,
    fun hf name slot hs => ?_⟩
  · cases he
  · rcases hc.closes t ht with he | hc'
    · cases he
    · refine hc'.mono hl' (fun name hn => ?_) (.refl _)
      rw [hp] at hn
      cases hn
  · rcases hnew name slot hs with hs | ⟨t, rfl, ht⟩
    · rw [hc.same hf, registry_warned] at hs
      exact .inl hs
    · -- one name does not stand for two types, so the pair is the one that is looked up
      have hk : Entries.has found.types name = true :=
        (Entries.mem_keys_iff _ _).mp (List.mem_map_of_mem ht)
      obtain ⟨t', ht'⟩ := Option.isSome_iff_exists.mp hk
      have he := (hr (name, t) ht).symm.trans (hr (name, t') (Entries.mem_of_find? ht'))
      cases he
      exact .inr ⟨t, rfl, ht'⟩

end Schema

end EntityQuery
