import EntityQuery.Proofs.Schema.Scanning
import EntityQuery.Proofs.Schema.Traversal

/-!
# What a name stands for

Types that are loaded on demand are registered while the loader runs, which may come back to the schema, and
removed again where they do not pass their check. Seen from outside, a name that stands for a type keeps it.

* `Session.Tidy`: every name occurs once and stands for a type of that name.
* `Session.Onward`: what is registered stays, and nothing is left marked that was not marked before.
* `Lookup.Beside`: a computation goes onward, and does the same with another loader.
* **`Schema.besideAt_loadName`**: loading a name, whatever the loader does, and so **`Schema.beside_find`**
  and `Schema.beside_scan`.
* **`Schema.registered_once`**: after whatever has been asked of a schema, no name is left marked, and what
  a name stands for it stands for ever after, without asking the loader for it.
-/

namespace EntityQuery

open Lookup Session

variable {σ α β : Type}

namespace Session

/-- Every name occurs once and stands for a type of that name. -/
structure Tidy (schema : Schema σ) (s : Session σ) : Prop where
  nodup : (Entries.keys s.registry).Nodup
  named : ∀ name t, Entries.find? s.registry name = some (.ready t) → schema.nameOf t = name

/-- From one session to another one, what is registered and forced stays so, and a name that is marked in
the end was marked before. -/
structure Onward (schema : Schema σ) (s s' : Session σ) : Prop where
  tidy : s.Tidy schema → s'.Tidy schema
  later : s.Later s'
  marked : ∀ name cyclic, Entries.find? s'.registry name = some (.loading cyclic) →
    ∃ cyclic, Entries.find? s.registry name = some (.loading cyclic)

section

variable {schema : Schema σ} {s s' s'' : Session σ} {name : String}

theorem Onward.refl (s : Session σ) : s.Onward schema s :=
  ⟨fun h => h, .refl s, fun _ cyclic h => ⟨cyclic, h⟩⟩

theorem Onward.trans (h : s.Onward schema s') (h' : s'.Onward schema s'') : s.Onward schema s'' := by
  refine ⟨fun ht => h'.tidy (h.tidy ht), h.later.trans h'.later, fun name cyclic hc => ?_⟩
  obtain ⟨cyclic', hc'⟩ := h'.marked name cyclic hc
  exact h.marked name cyclic' hc'

theorem Onward.unmarked (h : s.Onward schema s')
    (hm : ∀ name cyclic, Entries.find? s.registry name ≠ some (.loading cyclic)) (name : String)
    (cyclic : Bool) : Entries.find? s'.registry name ≠ some (.loading cyclic) := by
  intro hc
  obtain ⟨cyclic', hc'⟩ := h.marked name cyclic hc
  exact hm name cyclic' hc'

theorem onward_of_same (h : s'.registry = s.registry) (hf : s.forced ⊆ s'.forced) :
    s.Onward schema s' := by
  refine ⟨fun ht => ⟨by rw [h]; exact ht.nodup, by rw [h]; exact ht.named⟩, ⟨?_, hf⟩, ?_⟩
  · rw [h]
    exact fun _ _ ht => ht
  · rw [h]
    exact fun _ cyclic hc => ⟨cyclic, hc⟩

theorem Tidy.setSlot (h : s.Tidy schema) {slot : Slot}
    (hn : ∀ t, slot = .ready t → schema.nameOf t = name) : (s.setSlot name slot).Tidy schema := by
  refine ⟨Entries.nodup_keys_insert h.nodup _ _, fun other t ht => ?_⟩
  simp only [Session.setSlot, Entries.find?_insert] at ht
  split at ht
  · next he => exact he ▸ hn t (Option.some_inj.mp ht)
  · exact h.named other t ht

theorem onward_setReady {t : NamedType}
    (hn : ∀ t', Entries.find? s.registry name ≠ some (.ready t')) (ht : schema.nameOf t = name) :
    s.Onward schema (s.setSlot name (.ready t)) := by
  refine ⟨fun h => h.setSlot fun t' he => by cases he; exact ht,
    later_setSlot fun t' ht' => absurd ht' (hn t'), fun other cyclic hc => ?_⟩
  simp only [setSlot, Entries.find?_insert] at hc
  split at hc
  · cases hc
  · exact ⟨cyclic, hc⟩

/-- Marking a marked name anew. -/
theorem onward_remark {before after : Bool}
    (h : Entries.find? s.registry name = some (.loading before)) :
    s.Onward schema (s.setSlot name (.loading after)) := by
  refine ⟨fun ht => ht.setSlot fun _ => nofun,
    later_setSlot fun t ht => by simp [h] at ht, fun other cyclic hc => ?_⟩
  simp only [setSlot, Entries.find?_insert] at hc
  split at hc
  · next he => exact ⟨before, he ▸ h⟩
  · exact ⟨cyclic, hc⟩

/-- Removing a name that was unknown before. -/
theorem onward_erase (hn : Entries.find? s.registry name = none) (ht : s'.Tidy schema)
    (hk : s.Later s') (hm : ∀ other ≠ name, ∀ cyclic,
      Entries.find? s'.registry other = some (.loading cyclic) →
        ∃ cyclic, Entries.find? s.registry other = some (.loading cyclic)) :
    s.Onward schema { s' with registry := Entries.erase s'.registry name } := by
  refine ⟨fun _ => ⟨Entries.nodup_keys_erase ht.nodup name, fun other t ho => ?_⟩,
    ⟨fun other t ho => ?_, hk.forced⟩, fun other cyclic ho => ?_⟩
  · rw [Entries.find?_erase ht.nodup] at ho
    split at ho
    · cases ho
    · exact ht.named other t ho
  · have hne : name ≠ other := by
      rintro rfl
      rw [hn] at ho
      cases ho
    rw [Entries.find?_erase_of_ne _ hne]
    exact hk.ready other t ho
  · rw [Entries.find?_erase ht.nodup] at ho
    split at ho
    · cases ho
    · next hne => exact hm other (Ne.symm hne) cyclic ho

/-- Marking an unknown name and, in the end, removing the mark. -/
theorem onward_of_marked (hn : Entries.find? s.registry name = none) (ht : s.Tidy schema)
    (h : (s.setSlot name (.loading false)).Onward schema s') :
    s.Onward schema (clearLoading name s') := by
  have tidy : s'.Tidy schema := h.tidy (ht.setSlot fun _ => nofun)
  have later : s.Later s' :=
    (later_setSlot fun t ht => by rw [hn] at ht; cases ht).trans h.later
  have marked : ∀ other ≠ name, ∀ cyclic,
      Entries.find? s'.registry other = some (.loading cyclic) →
        ∃ cyclic, Entries.find? s.registry other = some (.loading cyclic) := by
    intro other ho cyclic hc
    obtain ⟨cyclic', hc'⟩ := h.marked other cyclic hc
    rw [setSlot, Entries.find?_insert, if_neg ho.symm] at hc'
    exact ⟨cyclic', hc'⟩
  unfold clearLoading
  split
  · exact onward_erase hn tidy later marked
  · next hc =>
    refine ⟨fun _ => tidy, later, fun other cyclic ho => ?_⟩
    by_cases he : other = name
    · exact absurd (he ▸ ho) (hc cyclic)
    · exact marked other he cyclic ho

/-- Removing a type under a name that was unknown before. -/
theorem onward_evict (hn : Entries.find? s.registry name = none) (ht : s.Tidy schema)
    (h : s.Onward schema s') (t : NamedType) : s.Onward schema (s'.evict name t) := by
  unfold evict
  split
  · exact onward_erase hn (h.tidy ht) h.later fun other _ => h.marked other
  · exact h

end

end Session

namespace Lookup

/-- From a session, a computation goes onward, and another one does the same. -/
structure BesideAt (schema : Schema σ) (x x' : Lookup σ α) (s : Session σ) : Prop where
  same : x' s = x s
  onward : s.Onward schema (x.after s)

/-- From every tidy session that has kept what was registered, a computation goes onward, and another
one does the same. -/
def Beside (schema : Schema σ) (base : Session σ) (x x' : Lookup σ α) : Prop :=
  ∀ s, s.Tidy schema → base.Later s → BesideAt schema x x' s

section

variable {schema : Schema σ} {base s : Session σ} {x x' : Lookup σ α} {f f' : α → Lookup σ β}

theorem BesideAt.of_unchanged (h : x.after s = s) : BesideAt schema x x s :=
  ⟨rfl, by rw [h]; exact .refl s⟩

/-- Where a computation goes on as another one does from a later session. -/
theorem BesideAt.step {y y' : Lookup σ α} {s₁ : Session σ} (h : x s = y s₁) (h' : x' s = y' s₁)
    (he : y' s₁ = y s₁) (ho : s.Onward schema (y.after s₁)) : BesideAt schema x x' s := by
  refine ⟨(h'.trans he).trans h.symm, ?_⟩
  have ha : x.after s = y.after s₁ := by simp only [after, h]
  rw [ha]
  exact ho

theorem BesideAt.bind (hx : BesideAt schema x x' s)
    (hf : ∀ a s₁, x s = .ok a s₁ → BesideAt schema (f a) (f' a) s₁) :
    BesideAt schema (x >>= f) (x' >>= f') s := by
  obtain ⟨he, ho⟩ := hx
  cases h : x s with
  | ok a s₁ =>
    rw [after_of_ok h] at ho
    obtain ⟨he', ho'⟩ := hf a s₁ h
    exact .step (bind_of_ok h) (bind_of_ok (he.trans h)) he' (ho.trans ho')
  | error e s₁ =>
    rw [after_of_error h] at ho
    exact .step (y := throw e) (bind_of_error h) (bind_of_error (he.trans h)) rfl ho

theorem after_bind_of_ok {a : α} {s₁ : Session σ} (h : x s = .ok a s₁) :
    (x >>= f).after s = (f a).after s₁ := by
  simp only [after, bind_of_ok h]

theorem after_bind_pure (b : β) : (x >>= fun _ => (pure b : Lookup σ β)).after s = x.after s := by
  cases h : x s with
  | ok a s₁ =>
    have hb : (x >>= fun _ => (pure b : Lookup σ β)) s = .ok b s₁ := bind_of_ok h
    rw [after_of_ok h, after_of_ok hb]
  | error e s₁ => rw [after_of_error h, after_of_error (bind_of_error h)]

theorem bind_eq_of_eq (h : x' s = x s) : (x' >>= f) s = (x >>= f) s := by
  change EStateM.bind x' f s = EStateM.bind x f s
  unfold EStateM.bind
  rw [h]

theorem BesideAt.bindBeside (ht : s.Tidy schema) (hb : base.Later s) (hx : BesideAt schema x x' s)
    (hf : ∀ a, Beside schema base (f a) (f' a)) : BesideAt schema (x >>= f) (x' >>= f') s := by
  refine hx.bind fun a s₁ h => ?_
  have ho := after_of_ok h ▸ hx.onward
  exact hf a s₁ (ho.tidy ht) (hb.trans ho.later)

theorem Beside.bind (hx : Beside schema base x x') (hf : ∀ a, Beside schema base (f a) (f' a)) :
    Beside schema base (x >>= f) (x' >>= f') :=
  fun s ht hb => (hx s ht hb).bindBeside ht hb hf

theorem beside_of_same (h : ∀ s, (x.after s).registry = s.registry ∧ s.forced ⊆ (x.after s).forced) :
    Beside schema base x x :=
  fun s _ _ => ⟨rfl, onward_of_same (h s).1 (h s).2⟩

theorem beside_of_unchanged (h : ∀ s, x.after s = s) : Beside schema base x x :=
  fun s _ _ => .of_unchanged (h s)

theorem beside_pure (a : α) : Beside schema base (pure a) (pure a) := beside_of_unchanged fun _ => rfl

theorem beside_throw (e : Stop) : Beside schema base (throw e : Lookup σ α) (throw e) :=
  beside_of_unchanged fun _ => rfl

theorem respects_beside (schema : Schema σ) (base : Session σ) :
    Respects schema (Beside schema base) where
  pure := beside_pure
  stop e _ := beside_throw e
  force r := beside_of_same fun s => by
    unfold after Schema.force
    split
    · next h =>
      split at h <;> cases h
      · exact ⟨rfl, fun _ h => h⟩
      · exact ⟨rfl, fun _ h => List.mem_cons_of_mem _ h⟩
    · next h => split at h <;> cases h
  refuse _ _ := beside_of_unchanged fun _ => rfl
  bind := Beside.bind

theorem Beside.attempt (hx : Beside schema base x x') :
    Beside schema base x.attempt x'.attempt := by
  intro s ht hb
  obtain ⟨he, ho⟩ := hx s ht hb
  refine ⟨by unfold Lookup.attempt; rw [he], ?_⟩
  have ha : x.attempt.after s = x.after s := by
    unfold Lookup.attempt after
    simp only
    cases x s with
    | ok a s' => rfl
    | error e s' => cases e <;> rfl
  rw [ha]
  exact ho

theorem beside_require {find find' : Finder σ}
    (hfind : ∀ name, Beside schema base (find name) (find' name)) (name : String) :
    Beside schema base (find.require name) (find'.require name) := by
  refine (hfind name).bind fun t? => ?_
  cases t? with
  | none => exact beside_throw _
  | some t => exact beside_pure t

/-- What every step of a fold keeps. -/
theorem foldlM_ok (Keep : β → Prop) {g : β → α → Lookup σ β}
    (hg : ∀ {b a s b' s'}, Keep b → g b a s = .ok b' s' → Keep b') {xs : List α} {b b' : β}
    {s s' : Session σ} (hb : Keep b) (h : xs.foldlM g b s = .ok b' s') : Keep b' := by
  induction xs generalizing b s with
  | nil =>
    cases h
    exact hb
  | cons a rest ih =>
    obtain ⟨b₁, s₁, h₁, h₂⟩ := bind_eq_ok.mp h
    exact ih (hg hb h₁) h₂

end

end Lookup

/-! ## Scans -/

/-- Looking for types asks for names only. -/
theorem Lookup.Respects.explore {S S' : Schema σ} {R : ∀ {α : Type}, Lookup σ α → Lookup σ α → Prop}
    (hR : Respects S R) (hS : S.Congruent S') {find find' : Finder σ}
    (hfind : ∀ name, R (find.require name) (find'.require name)) (seeds : List NamedType) :
    R (S.explore find seeds) (S'.explore find' seeds) := by
  unfold Schema.explore
  rw [← hS.limit]
  exact hR.bind (hR.foldlM seeds (fun found t => hR.collect hS S.limit t found) {}) fun found =>
    hR.collectPending hS hfind S.limit found

/-- Looking for types on one schema, with one finder. -/
theorem Lookup.Respects.explore_same {schema : Schema σ}
    {R : ∀ {α : Type}, Lookup σ α → Lookup σ α → Prop} (hR : Respects schema R) {find : Finder σ}
    (hfind : ∀ name, R (find.require name) (find.require name)) (seeds : List NamedType) :
    R (schema.explore find seeds) (schema.explore find seeds) :=
  hR.explore schema.congruent_refl hfind seeds

namespace Schema

variable {schema : Schema σ}

/-- Every type is under its own name. -/
def Named (schema : Schema σ) (types : Entries NamedType) : Prop :=
  ∀ e ∈ types, schema.nameOf e.2 = e.1

theorem Named.insert {types : Entries NamedType} (h : schema.Named types) (t : NamedType) :
    schema.Named (Entries.insert types (schema.nameOf t) t) := by
  induction types with
  | nil => simp [Named, Entries.insert]
  | cons e rest ih =>
    obtain ⟨he, hrest⟩ := List.forall_mem_cons.mp h
    unfold Entries.insert
    split
    · next hk => exact List.forall_mem_cons.mpr ⟨hk.symm, hrest⟩
    · exact List.forall_mem_cons.mpr ⟨he, ih hrest⟩

section

variable {Keep : Entries NamedType → Prop}
  (hinsert : ∀ types t, Keep types → Keep (Entries.insert types (schema.nameOf t) t))

include hinsert

/-- What every insertion of a type under its own name keeps, collecting types keeps. -/
theorem keeps_collect {fuel : Nat} {t : NamedType} {found found' : Found} {s s' : Session σ}
    (hk : Keep found.types) (h : schema.collect fuel t found s = .ok found' s') : Keep found'.types := by
  induction fuel generalizing t found found' s s' with
  | zero => cases h
  | succ fuel ih =>
    unfold collect at h
    simp only at h
    cases hf : Entries.find? found.types (schema.nameOf t) with
    | some other =>
      rw [hf] at h
      simp only at h
      split at h
      · cases h
        exact hk
      · cases h
    | none =>
      rw [hf] at h
      simp only at h
      cases hd : schema.definition t with
      | scalar sc =>
        rw [hd] at h
        cases h
        exact hinsert _ t hk
      | entity e =>
        rw [hd] at h
        refine foldlM_ok (fun found : Found => Keep found.types)
          (fun {found r s₁ found₁ s₂} hf h₁ => ?_) (hinsert _ t hk) h
        obtain ⟨tip, s₃, -, h₂⟩ := bind_eq_ok.mp h₁
        cases tip with
        | inl name =>
          cases h₂
          exact hf
        | inr t => exact ih hf h₂

theorem keeps_collectPending {find : Finder σ} {fuel : Nat} {found found' : Found}
    {s s' : Session σ} (hk : Keep found.types)
    (h : schema.collectPending find fuel found s = .ok found' s') : Keep found'.types := by
  induction fuel generalizing found s with
  | zero => cases h
  | succ fuel ih =>
    obtain ⟨types, pending⟩ := found
    unfold collectPending at h
    cases pending with
    | nil =>
      cases h
      exact hk
    | cons name pending =>
      simp only at h
      split at h
      · exact ih (by exact hk) h
      · obtain ⟨t, s₁, -, h₂⟩ := bind_eq_ok.mp h
        obtain ⟨found₁, s₂, h₃, h₄⟩ := bind_eq_ok.mp h₂
        exact ih (keeps_collect hinsert (by exact hk) h₃) h₄

/-- What every insertion of a type under its own name keeps, looking for types keeps. -/
theorem keeps_explore {find : Finder σ} {seeds : List NamedType} {found : Found} {s s' : Session σ}
    (hk : Keep []) (h : schema.explore find seeds s = .ok found s') : Keep found.types := by
  obtain ⟨found₁, s₁, hfold, hpending⟩ := bind_eq_ok.mp h
  have hfound : Keep found₁.types :=
    foldlM_ok (fun found : Found => Keep found.types) (keeps_collect hinsert) (by exact hk) hfold
  exact keeps_collectPending hinsert hfound hpending

end

theorem named_explore {find : Finder σ} {seeds : List NamedType} {found : Found} {s s' : Session σ}
    (h : schema.explore find seeds s = .ok found s') : schema.Named found.types :=
  keeps_explore (fun _ t hn => hn.insert t) nofun h

theorem nodup_explore {find : Finder σ} {seeds : List NamedType} {found : Found} {s s' : Session σ}
    (h : schema.explore find seeds s = .ok found s') : (Entries.keys found.types).Nodup :=
  @keeps_explore σ schema (fun types => (Entries.keys types).Nodup)
    (fun _ _ hn => Entries.nodup_keys_insert hn _ _) find seeds found s s' List.nodup_nil h

theorem beside_publish {base : Session σ} {types : Entries NamedType} (hn : schema.Named types) :
    Beside schema base (publish types) (publish types) := by
  induction types with
  | nil => exact beside_pure ()
  | cons e rest ih =>
    obtain ⟨name, t⟩ := e
    obtain ⟨he, hrest⟩ := List.forall_mem_cons.mp hn
    intro s ht hb
    have set (hr : ∀ t', Entries.find? s.registry name ≠ some (.ready t')) :
        BesideAt schema (do modify (Session.setSlot · name (.ready t)); publish rest)
          (do modify (Session.setSlot · name (.ready t)); publish rest) s :=
      BesideAt.bindBeside ht hb ⟨rfl, onward_setReady hr he⟩ fun _ => ih hrest
    unfold publish
    refine BesideAt.bind (.of_unchanged rfl) fun s₁ s₂ h => ?_
    cases h
    cases hr : Entries.find? s.registry name with
    | none => exact set (by simp [hr])
    | some slot =>
      cases slot with
      | loading cyclic => exact set (by simp [hr])
      | ready other =>
        simp only
        split
        · exact ih hrest s ht hb
        · exact .of_unchanged rfl

/-- Scanning, where looking up names goes onward. -/
theorem beside_scanWith (loader'? : Option (String → Loading σ))
    (hd : (schema.withLoader loader'?).onDemand = schema.onDemand) {base : Session σ}
    {find find' : Finder σ} (hfind : ∀ name, Beside schema base (find name) (find' name)) :
    Beside schema base (schema.scanWith find) ((schema.withLoader loader'?).scanWith find') := by
  intro s ht hb
  have hw : s.Onward schema (schema.warned s) := onward_of_same (by simp) (by simp)
  have hw' : (schema.withLoader loader'?).warned s = schema.warned s := by
    unfold warned
    rw [hd]
  have hexplore := (respects_beside schema base).explore (schema.congruent_withLoader loader'?)
    (beside_require hfind) s.readyTypes (schema.warned s) (hw.tidy ht) (hb.trans hw.later)
  have hscan : BesideAt schema (schema.explore find s.readyTypes >>= publishAll)
      ((schema.withLoader loader'?).explore find' s.readyTypes >>= publishAll) (schema.warned s) := by
    refine hexplore.bind fun found s₁ h => ?_
    have ho := hw.trans (after_of_ok h ▸ hexplore.onward)
    refine BesideAt.bindBeside (ho.tidy ht) (hb.trans ho.later)
      (beside_publish (named_explore h) s₁ (ho.tidy ht) (hb.trans ho.later)) fun _ => ?_
    exact beside_of_same fun _ => ⟨rfl, fun _ h => h⟩
  refine .step (scanWith_eq_explore ..) ?_ hscan.same (hw.trans hscan.onward)
  rw [scanWith_eq_explore, hw']

/-! ## Loading -/

/-- What a look-up does with what was loaded: a type that was registered for it is checked, and removed
again where it does not pass. -/
def checkLoaded (schema : Schema σ) (find : Finder σ) (name : String) :
    Option NamedType × Bool → Lookup σ (Option NamedType)
  | (some t, true) => do
    match schema.entity? t with
    | some e => Lookup.onDefect (e.check schema find) (Session.evict · name t)
    | none => pure ()
    return some t
  | (found, _) => return found

section

variable {find : Finder σ} {loader : String → Loading σ} {name : String} {s s' : Session σ}

theorem loadName_of_ok {r : Option NamedType × Bool}
    (h : schema.loadMarked find loader name (s.setSlot name (.loading false)) = .ok r s') :
    schema.loadName find loader name s = schema.checkLoaded find name r (clearLoading name s') := by
  have ends : Lookup.ensuring (schema.loadMarked find loader name) (clearLoading name)
      (s.setSlot name (.loading false)) = .ok r (clearLoading name s') := by
    simp only [Lookup.ensuring, h]
  refine (bind_of_ok (x := modify _) rfl).trans ((bind_of_ok ends).trans ?_)
  obtain ⟨found, new⟩ := r
  cases found <;> cases new <;> rfl

theorem loadName_of_error {e : Stop}
    (h : schema.loadMarked find loader name (s.setSlot name (.loading false)) = .error e s') :
    schema.loadName find loader name s = .error e (clearLoading name s') := by
  have ends : Lookup.ensuring (schema.loadMarked find loader name) (clearLoading name)
      (s.setSlot name (.loading false)) = .error e (clearLoading name s') := by
    simp only [Lookup.ensuring, h]
  exact (bind_of_ok (x := modify _) rfl).trans (bind_of_error ends)

/-- A loaded type has the name that it was loaded for. -/
theorem named_load {t : NamedType} (h : schema.load find loader name s = .ok (some t) s') :
    schema.nameOf t = name := by
  obtain ⟨found, s₁, -, h₂⟩ := bind_eq_ok.mp h
  cases found with
  | none => cases h₂
  | some found =>
    cases found with
    | base t' =>
      simp only at h₂
      split at h₂
      · next hn =>
        cases h₂
        exact hn
      · cases h₂
    | nonNull id inner => cases h₂
    | listOf id inner => cases h₂

end

section

variable {loader : String → Loading σ} (loader' : String → Loading σ) {base : Session σ}
  {find find' : Finder σ} (hfind : ∀ name, Beside schema base (find name) (find' name))
  {name : String} {s s' : Session σ}

omit hfind in
theorem onward_onDefect_evict (hn : Entries.find? s.registry name = none) (ht : s.Tidy schema)
    (ho : s.Onward schema s') {x : Lookup σ α} (hx : s'.Onward schema (x.after s'))
    (t : NamedType) :
    s.Onward schema ((Lookup.onDefect x (Session.evict · name t)).after s') := by
  have hx' := ho.trans hx
  cases h : x s' with
  | ok a s₁ =>
    have ha : Lookup.onDefect x (Session.evict · name t) s' = .ok a s₁ := by
      simp only [Lookup.onDefect, h]
    rw [after_of_ok ha]
    exact after_of_ok h ▸ hx'
  | error e s₁ =>
    rw [after_of_error h] at hx'
    cases e with
    | defect d =>
      have ha : Lookup.onDefect x (Session.evict · name t) s' =
          .error (.defect d) (s₁.evict name t) := by
        simp only [Lookup.onDefect, h]
      rw [after_of_error ha]
      exact onward_evict hn ht hx' t
    | fault f =>
      have ha : Lookup.onDefect x (Session.evict · name t) s' = .error (.fault f) s₁ := by
        simp only [Lookup.onDefect, h]
      rw [after_of_error ha]
      exact hx'
    | exhausted =>
      have ha : Lookup.onDefect x (Session.evict · name t) s' = .error .exhausted s₁ := by
        simp only [Lookup.onDefect, h]
      rw [after_of_error ha]
      exact hx'

include hfind

/-- A type that does not pass its check is removed: before the look-up, its name was unknown. -/
theorem besideAt_checkLoaded (hn : Entries.find? s.registry name = none) (ht : s.Tidy schema)
    (hb : base.Later s) (ho : s.Onward schema s') (loaded : Option NamedType × Bool) :
    (schema.withLoader (some loader')).checkLoaded find' name loaded s' =
        schema.checkLoaded find name loaded s' ∧
      s.Onward schema ((schema.checkLoaded find name loaded).after s') := by
  obtain ⟨found, new⟩ := loaded
  cases found with
  | none => exact ⟨rfl, ho⟩
  | some t =>
    cases new with
    | false => exact ⟨rfl, ho⟩
    | true =>
      unfold checkLoaded
      simp only [entity?_withLoader]
      cases he : schema.entity? t with
      | none => exact ⟨rfl, ho⟩
      | some e =>
        obtain ⟨hs, hc⟩ := (respects_beside schema base).check
          (schema.congruent_withLoader (some loader')) (beside_require hfind) (.refl e) s'
          (ho.tidy ht) (hb.trans ho.later)
        have hevict := onward_onDefect_evict hn ht ho hc t
        have hsame : Lookup.onDefect (e.check (schema.withLoader (some loader')) find')
            (Session.evict · name t) s' =
              Lookup.onDefect (e.check schema find) (Session.evict · name t) s' := by
          unfold Lookup.onDefect
          rw [hs]
        exact ⟨bind_eq_of_eq hsame, by rw [after_bind_pure]; exact hevict⟩

variable (hl : schema.loader? = some loader) (hname : loader' name = loader name)

include hl

theorem beside_run (l : Loading σ) :
    Beside schema base (l.run find (schema.scanWith find))
      (l.run find' ((schema.withLoader (some loader')).scanWith find')) := by
  induction l with
  | done found => exact beside_pure found
  | panic p => exact beside_throw _
  | step change next ih =>
    intro s ht hb
    have hs : s.Onward schema { s with app := change s.app } := onward_of_same rfl fun _ h => h
    obtain ⟨he, ho⟩ := ih (change s.app) { s with app := change s.app } (hs.tidy ht)
      (hb.trans hs.later)
    exact ⟨he, hs.trans ho⟩
  | find name next ih => exact (hfind name).attempt.bind ih
  | scan next ih => exact (beside_scanWith (some loader') (by simp [onDemand, withLoader, hl]) hfind).attempt.bind ih

include hname

theorem beside_load : Beside schema base (schema.load find loader name)
    ((schema.withLoader (some loader')).load find' loader' name) := by
  unfold load
  rw [hname]
  refine (beside_run loader' hfind hl (loader name)).bind fun found => ?_
  cases found with
  | none => exact beside_pure none
  | some found =>
    cases found with
    | base t =>
      simp only [nameOf_withLoader]
      by_cases hn : schema.nameOf t = name
      · simp only [hn, if_true]
        exact beside_pure _
      · simp only [hn, if_false]
        exact beside_throw _
    | nonNull id inner => exact beside_of_unchanged fun _ => rfl
    | listOf id inner => exact beside_of_unchanged fun _ => rfl

theorem beside_loadMarked : Beside schema base (schema.loadMarked find loader name)
    ((schema.withLoader (some loader')).loadMarked find' loader' name) := by
  intro s ht hb
  refine (beside_load loader' hfind hl hname s ht hb).bind fun loaded s₁ h => ?_
  refine BesideAt.bind (.of_unchanged rfl) fun s₂ s₃ h' => ?_
  cases h'
  have set : ∀ t, loaded = some t → (∀ t', Entries.find? s₁.registry name ≠ some (.ready t')) →
      BesideAt schema (do modify (Session.setSlot · name (.ready t)); return (some t, true))
        (do modify (Session.setSlot · name (.ready t)); return (some t, true)) s₁ := by
    rintro t rfl hr
    exact ⟨rfl, onward_setReady hr (named_load h)⟩
  cases hr : Entries.find? s₁.registry name with
  | none =>
    cases loaded with
    | none => exact .of_unchanged rfl
    | some t => exact set t rfl (by simp [hr])
  | some slot =>
    cases slot with
    | ready existing => cases loaded <;> exact .of_unchanged rfl
    | loading cyclic =>
      cases cyclic with
      | true => exact .of_unchanged rfl
      | false =>
        cases loaded with
        | none => exact .of_unchanged rfl
        | some t => exact set t rfl (by simp [hr])

/-- **Loading an unknown name.** Its mark is gone in the end, and a type is removed only if it was
registered here. -/
theorem besideAt_loadName (hn : Entries.find? s.registry name = none) (ht : s.Tidy schema)
    (hb : base.Later s) :
    BesideAt schema (schema.loadName find loader name)
      ((schema.withLoader (some loader')).loadName find' loader' name) s := by
  have htm : (s.setSlot name (.loading false)).Tidy schema := ht.setSlot fun _ => nofun
  have hbm : base.Later (s.setSlot name (.loading false)) :=
    hb.trans (later_setSlot fun t ht => by rw [hn] at ht; cases ht)
  obtain ⟨he, ho⟩ := beside_loadMarked loader' hfind hl hname _ htm hbm
  cases h : schema.loadMarked find loader name (s.setSlot name (.loading false)) with
  | error e s' =>
    have ho' := onward_of_marked hn ht (after_of_error h ▸ ho)
    exact .step (y := throw e) (loadName_of_error h) (loadName_of_error (he.trans h)) rfl ho'
  | ok r s' =>
    have ho' := onward_of_marked hn ht (after_of_ok h ▸ ho)
    obtain ⟨hs, hc⟩ := besideAt_checkLoaded loader' hfind hn ht hb ho' r
    exact .step (loadName_of_ok h) (loadName_of_ok (he.trans h)) hs hc

end

/-! ## Looking up names, seen from outside -/

section

variable {loader loader' : String → Loading σ} (hl : schema.loader? = some loader)
  {base : Session σ} (hsame : ∀ name, (∀ t, Entries.find? base.registry name ≠ some (.ready t)) →
    loader' name = loader name)

include hl hsame

omit hl hsame in
/-- A known name is answered from the registry. -/
theorem besideAt_findWithin_of_known (loader' : String → Loading σ) {s : Session σ} {name : String}
    {slot : Slot} (hr : Entries.find? s.registry name = some slot) (fuel : Nat) :
    BesideAt schema (schema.findWithin fuel name)
      ((schema.withLoader (some loader')).findWithin fuel name) s := by
  cases slot with
  | ready t =>
    have h : ∀ schema : Schema σ, schema.findWithin fuel name s = .ok (some t) s := fun _ =>
      findWithin_of_ready fuel hr
    exact .step (y := pure (some t)) (h _) (h _) rfl (.refl s)
  | loading cyclic =>
    have h : ∀ schema : Schema σ, schema.findWithin fuel name s =
        .error (.defect (.cyclicLoad name)) (s.setSlot name (.loading true)) := fun schema => by
      rw [findWithin_eq, hr]
      rfl
    exact .step (y := throw (.defect (.cyclicLoad name))) (h _) (h _) rfl (onward_remark hr)

theorem beside_findWithin (fuel : Nat) (name : String) :
    Beside schema base (schema.findWithin fuel name)
      ((schema.withLoader (some loader')).findWithin fuel name) := by
  induction fuel generalizing name with
  | zero =>
    intro s ht hb
    cases hr : Entries.find? s.registry name with
    | some slot => exact besideAt_findWithin_of_known loader' hr 0
    | none =>
      have hstop : (schema.withLoader (some loader')).findWithin 0 name s =
          (throw .exhausted : Lookup σ (Option NamedType)) s := by
        rw [findWithin_eq, hr]
        rfl
      refine .step ?_ hstop rfl (.refl s)
      rw [findWithin_eq, hr, hl]
  | succ fuel ih =>
    intro s ht hb
    cases hr : Entries.find? s.registry name with
    | some slot => exact besideAt_findWithin_of_known loader' hr _
    | none =>
      have hname : loader' name = loader name := hsame name fun t ht => by
        rw [hb.ready name t ht] at hr
        cases hr
      obtain ⟨he, ho⟩ := besideAt_loadName loader' ih hl hname hr ht hb
      refine .step ?_ ?_ he ho
      · rw [findWithin_eq, hr, hl]
      · rw [findWithin_eq, hr]
        rfl

theorem beside_find (name : String) :
    Beside schema base (schema.find name) ((schema.withLoader (some loader')).find name) :=
  beside_findWithin hl hsame schema.limit name

theorem beside_scan : Beside schema base schema.scan (schema.withLoader (some loader')).scan :=
  beside_scanWith (some loader') (by simp [onDemand, withLoader, hl]) (beside_find hl hsame)

end

/-- What is asked of a schema from outside. -/
inductive Inquiry
  /-- The type of a name. -/
  | find (name : String)
  /-- Whether there is a type of a name. -/
  | knows (name : String)
  /-- All reachable types. -/
  | scan

/-- What a schema answers. -/
inductive Reply
  | type (found : Option NamedType)
  | known (b : Bool)
  | types (found : Entries NamedType)

/-- Asks a schema. -/
def inquire (schema : Schema σ) : Inquiry → Lookup σ Reply
  | .find name => do return .type (← schema.find name)
  | .knows name => do return .known (← schema.find name).isSome
  | .scan => do return .types (← schema.scan)

/-- The session after some inquiries, however each of them has ended. -/
def afterAll (schema : Schema σ) (asked : List Inquiry) (s : Session σ) : Session σ :=
  asked.foldl (fun s q => (schema.inquire q).after s) s

section

variable {loader : String → Loading σ} (hl : schema.loader? = some loader) {base : Session σ}

include hl

theorem beside_inquire {loader' : String → Loading σ}
    (hsame : ∀ name, (∀ t, Entries.find? base.registry name ≠ some (.ready t)) →
      loader' name = loader name) (q : Inquiry) :
    Beside schema base (schema.inquire q) ((schema.withLoader (some loader')).inquire q) := by
  cases q with
  | find name => exact (beside_find hl hsame name).bind fun _ => beside_pure _
  | knows name => exact (beside_find hl hsame name).bind fun _ => beside_pure _
  | scan => exact (beside_scan hl hsame).bind fun _ => beside_pure _

end

/-- Without a loader, looking up a name goes onward. -/
theorem beside_find_of_eager (hl : schema.loader? = none) {base : Session σ} (name : String) :
    Beside schema base (schema.find name) (schema.find name) := by
  intro s _ _
  cases hr : Entries.find? s.registry name with
  | some slot =>
    exact ⟨rfl, (besideAt_findWithin_of_known (fun _ => .done none) hr schema.limit).onward⟩
  | none =>
    have hfind : schema.find name s = .ok none s := by
      rw [find, findWithin_eq, hr, hl]
      rfl
    exact .of_unchanged (after_of_ok hfind)

/-- Whatever is asked, the session goes onward. -/
theorem onward_inquire (q : Inquiry) {s : Session σ} (ht : s.Tidy schema) :
    s.Onward schema ((schema.inquire q).after s) := by
  cases hl : schema.loader? with
  | some loader => exact (beside_inquire hl (fun _ _ => rfl) q s ht (.refl s)).onward
  | none =>
    have hfind : ∀ name, Beside schema s (schema.find name) (schema.find name) :=
      beside_find_of_eager hl
    have hscan : Beside schema s schema.scan schema.scan :=
      beside_scanWith schema.loader? rfl hfind
    have hq : Beside schema s (schema.inquire q) (schema.inquire q) := by
      cases q with
      | find name => exact (hfind name).bind fun _ => beside_pure _
      | knows name => exact (hfind name).bind fun _ => beside_pure _
      | scan => exact hscan.bind fun _ => beside_pure _
    exact (hq s ht (.refl s)).onward

theorem onward_afterAll (asked : List Inquiry) {s : Session σ} (ht : s.Tidy schema) :
    s.Onward schema (schema.afterAll asked s) := by
  induction asked generalizing s with
  | nil => exact .refl s
  | cons q rest ih =>
    have ho := onward_inquire q ht
    exact ho.trans (ih (ho.tidy ht))

/-- Registering types goes onward. -/
theorem beside_register (base : Session σ) (declared : List Ty) :
    Beside schema base (schema.register declared) (schema.register declared) := by
  induction declared with
  | nil => exact beside_pure ()
  | cons d rest ih =>
    cases d with
    | nonNull id inner => exact beside_of_unchanged fun _ => rfl
    | listOf id inner => exact beside_of_unchanged fun _ => rfl
    | base t =>
      intro s ht hb
      unfold register
      refine BesideAt.bind (.of_unchanged rfl) fun s₁ s₂ h => ?_
      cases h
      cases hr : Entries.find? s.registry (schema.nameOf t) with
      | none =>
        exact BesideAt.bindBeside ht hb ⟨rfl, onward_setReady (by simp [hr]) rfl⟩ fun _ => ih
      | some slot =>
        simp only
        split
        · exact ih s ht hb
        · exact .of_unchanged rfl

/-- Registering types leaves a tidy session, in which no name is marked. -/
theorem tidy_of_register {declared : List Ty} {start s : Session σ} (hstart : start.registry = [])
    (h : schema.register declared start = .ok () s) :
    s.Tidy schema ∧ ∀ name cyclic, Entries.find? s.registry name ≠ some (.loading cyclic) := by
  have ht : start.Tidy schema := by
    refine ⟨?_, ?_⟩ <;> simp [hstart, Entries.keys]
  have hm : ∀ name cyclic, Entries.find? start.registry name ≠ some (.loading cyclic) := by
    simp [hstart]
  have ho := after_of_ok h ▸ (beside_register start _ start ht (.refl start)).onward
  exact ⟨ho.tidy ht, ho.unmarked hm⟩

/-- A session to start with is tidy, and no name is marked. -/
theorem tidy_of_build (hd : schema.onDemand = true) {declared : List Ty} {assumeValid : Bool}
    {start s : Session σ} (hstart : start.registry = [])
    (h : schema.build declared assumeValid start = .ok () s) :
    s.Tidy schema ∧ ∀ name cyclic, Entries.find? s.registry name ≠ some (.loading cyclic) := by
  unfold build at h
  rw [hd] at h
  obtain ⟨⟨⟩, s₁, h₁, h₂⟩ := bind_eq_ok.mp h
  cases h₂
  exact tidy_of_register hstart h₁

/-- **A name stands for one type.** Whatever has been asked of a schema that loads types on demand, and
however it has ended, no name is left marked, and each name stands for a type of that name. From then
on, whatever else is asked, a name that stands for a type goes on to stand for it, and what the loader
would do for such a name makes no difference to any answer: the loader is not asked for it. -/
theorem registered_once {schema : Schema σ} {loader : String → Loading σ}
    (hl : schema.loader? = some loader) {declared : List Ty} {assumeValid : Bool}
    {start s₀ : Session σ} (hstart : start.registry = [])
    (hbuild : schema.build declared assumeValid start = .ok () s₀) (asked : List Inquiry) :
    (∀ name cyclic, Entries.find? (schema.afterAll asked s₀).registry name ≠ some (.loading cyclic)) ∧
    (∀ name t, Entries.find? (schema.afterAll asked s₀).registry name = some (.ready t) →
      schema.nameOf t = name) ∧
    ∀ later : List Inquiry,
      (∀ name t, Entries.find? (schema.afterAll asked s₀).registry name = some (.ready t) →
        schema.find name (schema.afterAll later (schema.afterAll asked s₀)) =
          .ok (some t) (schema.afterAll later (schema.afterAll asked s₀))) ∧
      ∀ loader' : String → Loading σ,
        (∀ name, (∀ t, Entries.find? (schema.afterAll asked s₀).registry name ≠ some (.ready t)) →
          loader' name = loader name) →
        ∀ q, (schema.withLoader (some loader')).inquire q
            (schema.afterAll later (schema.afterAll asked s₀)) =
          schema.inquire q (schema.afterAll later (schema.afterAll asked s₀)) := by
  obtain ⟨ht₀, hm₀⟩ := tidy_of_build (by simp [onDemand, hl]) hstart hbuild
  have ho := onward_afterAll asked ht₀
  have ht := ho.tidy ht₀
  refine ⟨fun name cyclic hc => ?_, ht.named, fun later => ?_⟩
  · obtain ⟨cyclic', hc'⟩ := ho.marked name cyclic hc
    exact hm₀ name cyclic' hc'
  · have ho' := onward_afterAll later ht
    exact ⟨fun name t hr => findWithin_of_ready _ (ho'.later.ready name t hr), fun loader' hsame q =>
      (beside_inquire hl hsame q _ (ho'.tidy ht) ho'.later).same⟩

end Schema

namespace Sample

/-- What a loader does for a name that it is asked for out of turn. -/
def outOfOrder : Loading Nat := .panic { text := "out of order" }

/-- Panics when it is asked for the first time; from then on, scans the schema and gives a new copy of an
instance each time that it is asked. -/
def reload (_ : String) : Loading Nat :=
  .step (· + 1) fun asked =>
    if asked = 1 then outOfOrder
    else .scan fun _ => .done (some (.base (.defined ⟨0, asked⟩)))

/-- A schema of entities that link to themselves by name. -/
def reloading : Schema Nat where
  define _ := .entity {
    name := "User"
    resolve _ _ := pure (.ready .null)
    links := [{
      label := { name := "friend" }
      target := .named "User"
      resolve := fun _ _ => pure (.ready .null) }] }
  target _ := .base (.standard .string)
  loader? := some reload
  limit := 30

/-- The session that the schema starts with. -/
def reloadingSession : Session Nat where
  registry := [("String", .ready (.standard .string)), ("Int", .ready (.standard .int)),
    ("Float", .ready (.standard .float)), ("Boolean", .ready (.standard .boolean)),
    ("ID", .ready (.standard .id))]
  app := 0

/-- The session after a panic, a type of another name, and a type that is registered. -/
def reloaded : Session Nat :=
  reloading.afterAll [.find "User", .find "Nobody", .find "User"] reloadingSession

theorem ready_reloaded :
    Entries.find? reloaded.registry "User" = some (.ready (.defined ⟨0, 3⟩)) := by
  decide +kernel

end Sample

theorem registered_once_sample :
    Sample.reloading.build [] false { app := 0 } = .ok () Sample.reloadingSession ∧
    Sample.reloading.find "User" Sample.reloaded = .ok (some (.defined ⟨0, 3⟩)) Sample.reloaded ∧
    ∀ q, (Sample.reloading.withLoader (some fun name =>
        if name = "User" then Sample.outOfOrder else Sample.reload name)).inquire q Sample.reloaded =
      Sample.reloading.inquire q Sample.reloaded := by
  have hbuild : Sample.reloading.build [] false { app := 0 } = .ok () Sample.reloadingSession := rfl
  have h := (Schema.registered_once (by rfl) (by rfl) hbuild
    [.find "User", .find "Nobody", .find "User"]).2.2 []
  refine ⟨hbuild, h.1 "User" _ Sample.ready_reloaded, h.2 _ fun name hn => if_neg ?_⟩
  rintro rfl
  exact hn _ Sample.ready_reloaded

end EntityQuery
