import EntityQuery.Proofs.Schema.History
import EntityQuery.Proofs.Schema.Leftovers

/-!
# What look-ups load

Looking up one name may load others, since a type is checked against the names that it refers to. A type that
does not pass its check is removed, while what its check has loaded stays. So what is registered between calls
is what look-ups have loaded with success, and nothing else.

* `Session.Idle`: a session between calls, in which no name is being loaded.
* `Schema.Acquires`: what look-ups have loaded from one session to another one. **`Acquires.registers`**: that is what
  is registered in between.
* `Lookup.Traced`: a computation that registers what look-ups load. **`Schema.traced_findWithin`**: looking up a
  name, and `Schema.traced_explore`: all that a scan does before it publishes.
-/

namespace EntityQuery

open Lookup Session

variable {σ α β : Type}

namespace Session

variable {s s' : Session σ}

/-- Every name occurs once, and none is being loaded. -/
structure Idle (s : Session σ) : Prop where
  nodup : (Entries.keys s.registry).Nodup
  unmarked : ∀ name cyclic, Entries.find? s.registry name ≠ some (.loading cyclic)

theorem Idle.of_registry (h : s.Idle) (hr : s'.registry = s.registry) : s'.Idle :=
  ⟨hr ▸ h.nodup, hr ▸ h.unmarked⟩

theorem Idle.setReady (h : s.Idle) (name : String) (t : NamedType) :
    (s.setSlot name (.ready t)).Idle where
  nodup := Entries.nodup_keys_insert h.nodup _ _
  unmarked other cyclic hc := by
    simp only [setSlot, Entries.find?_insert] at hc
    split at hc
    · cases hc
    · exact h.unmarked other cyclic hc

theorem find?_setSlot_of_ne {name other : String} (h : other ≠ name) (slot : Slot) :
    Entries.find? (s.setSlot name slot).registry other = Entries.find? s.registry other := by
  rw [setSlot, Entries.find?_insert, if_neg h.symm]

/-- A name that is unknown although another one has been set. -/
theorem unknown_of_setSlot {name other : String} {slot : Slot}
    (h : Entries.find? (s.setSlot name slot).registry other = none) :
    other ≠ name ∧ Entries.find? s.registry other = none := by
  have hne : other ≠ name := by
    rintro rfl
    simp [setSlot, Entries.find?_insert] at h
  exact ⟨hne, by rwa [find?_setSlot_of_ne hne] at h⟩

theorem Idle.evict (h : s.Idle) (name : String) (t : NamedType) : (s.evict name t).Idle := by
  unfold Session.evict
  split
  · refine ⟨Entries.nodup_keys_erase h.nodup name, fun other cyclic hc => ?_⟩
    rw [Entries.find?_erase h.nodup] at hc
    split at hc
    · cases hc
    · exact h.unmarked other cyclic hc
  · exact h

@[simp] theorem forced_evict (s : Session σ) (name : String) (t : NamedType) :
    (s.evict name t).forced = s.forced := by
  unfold Session.evict
  split <;> rfl

@[simp] theorem complete_evict (s : Session σ) (name : String) (t : NamedType) :
    (s.evict name t).complete = s.complete := by
  unfold Session.evict
  split <;> rfl

theorem find?_evict_of_ne {name other : String} (h : other ≠ name) (t : NamedType) :
    Entries.find? (s.evict name t).registry other = Entries.find? s.registry other := by
  unfold evict
  split
  · exact Entries.find?_erase_of_ne _ h.symm
  · rfl

end Session

/-- What is unknown later was unknown before. -/
theorem Session.unknown_of_later {s s' : Session σ} (hs : s.Idle) (h : s.Later s') {name : String}
    (hn : Entries.find? s'.registry name = none) : Entries.find? s.registry name = none := by
  cases hr : Entries.find? s.registry name with
  | none => rfl
  | some slot =>
    cases slot with
    | loading cyclic => exact absurd hr (hs.unmarked name cyclic)
    | ready t =>
      rw [h.ready name t hr] at hn
      cases hn

namespace Schema

variable {schema : Schema σ} {s s₁ s' : Session σ} {loads loads' : Entries NamedType} {name : String}
  {t : NamedType}

/-! ## What look-ups load -/

/-- From one session to another one, look-ups have loaded these types, each under its name. -/
inductive Acquires (schema : Schema σ) : Session σ → Entries NamedType → Session σ → Prop
  /-- Nothing is registered. -/
  | still {s s' : Session σ} (later : s.Later s') (registry : s'.registry = s.registry)
      (complete : s'.complete = s.complete) : Acquires schema s [] s'
  /-- An unknown name is looked up with success: its type is registered, and what the check of that loads. -/
  | found {s s' : Session σ} {loads : Entries NamedType} {name : String} {t : NamedType} {fuel : Nat}
      (unknown : Entries.find? s.registry name = none)
      (check : Acquires schema (s.setSlot name (.ready t)) loads s')
      (answer : schema.findWithin fuel name s = .ok (some t) s') :
      Acquires schema s ((name, t) :: loads) s'
  /-- An unknown name is looked up, and its type does not pass: only what the check has loaded stays. -/
  | refused {s s' : Session σ} {loads : Entries NamedType} {name : String} {t : NamedType} {fuel : Nat}
      {d : Defect} (unknown : Entries.find? s.registry name = none)
      (check : Acquires schema (s.setSlot name (.ready t)) loads s')
      (answer : schema.findWithin fuel name s = .error (.defect d) (s'.evict name t)) :
      Acquires schema s loads (s'.evict name t)
  /-- One after the other. -/
  | append {s s₁ s' : Session σ} {loads loads' : Entries NamedType} (first : Acquires schema s loads s₁)
      (second : Acquires schema s₁ loads' s') : Acquires schema s (loads ++ loads') s'

theorem Publishes.append {s'' : Session σ} (h : Publishes loads s s') (h' : Publishes loads' s' s'') :
    Publishes (loads ++ loads') s s'' := by
  refine ⟨h.later.trans h'.later, fun e he => ?_, fun name slot hs => ?_⟩
  · rcases List.mem_append.mp he with he | he
    · exact h'.later.ready _ _ (h.ready e he)
    · exact h'.ready e he
  · rcases h'.new name slot hs with hs | ⟨t, rfl, ht⟩
    · refine (h.new name slot hs).imp_right ?_
      rintro ⟨t, rfl, ht⟩
      exact ⟨t, rfl, List.mem_append_left _ ht⟩
    · exact .inr ⟨t, rfl, List.mem_append_right _ ht⟩

/-- Removing a type whose name was unknown before. -/
theorem Publishes.evict (hn : Entries.find? s.registry name = none) (hs' : s'.Idle)
    (h : Publishes loads (s.setSlot name (.ready t)) s')
    (hfresh : ∀ e ∈ loads, Entries.find? (s.setSlot name (.ready t)).registry e.1 = none) :
    Publishes loads s (s'.evict name t) := by
  have hready : Entries.find? s'.registry name = some (.ready t) :=
    h.later.ready name t (find?_setSlot_self s name (.ready t))
  have hgone : Entries.find? (s'.evict name t).registry name = none := by
    rw [Session.evict, if_pos hready]
    exact Entries.find?_erase_self hs'.nodup name
  refine ⟨⟨fun other u hu => ?_, fun id hid => ?_⟩, fun e he => ?_, fun other slot hs => ?_⟩
  · have hne : other ≠ name := by
      rintro rfl
      rw [hn] at hu
      cases hu
    rw [find?_evict_of_ne hne]
    exact h.later.ready other u (by rwa [find?_setSlot_of_ne hne])
  · rw [forced_evict]
    exact h.later.forced id hid
  · rw [find?_evict_of_ne (unknown_of_setSlot (hfresh e he)).1]
    exact h.ready e he
  · have hne : other ≠ name := by
      rintro rfl
      rw [hgone] at hs
      cases hs
    rw [find?_evict_of_ne hne] at hs
    refine (h.new other slot hs).imp_left fun hs => ?_
    rwa [find?_setSlot_of_ne hne] at hs

/-- **What a name stands for** after look-ups have loaded some types. -/
theorem Publishes.find?_eq (h : Publishes loads s s') (hs : s.Idle) (name : String) :
    Entries.find? s'.registry name =
      (Entries.find? s.registry name).or ((Entries.find? loads name).map .ready) := by
  cases hr : Entries.find? s.registry name with
  | some slot =>
    cases slot with
    | loading cyclic => exact absurd hr (hs.unmarked name cyclic)
    | ready t => exact h.later.ready name t hr
  | none =>
    cases hl : Entries.find? loads name with
    | some t => exact h.ready _ (Entries.mem_of_find? hl)
    | none =>
      refine Option.eq_none_iff_forall_ne_some.mpr fun slot hs' => ?_
      rcases h.new name slot hs' with hs' | ⟨t, -, ht⟩
      · rw [hr] at hs'
        cases hs'
      · have hhas := (Entries.mem_keys_iff _ _).mp (List.mem_map_of_mem ht)
        rw [Entries.has, hl] at hhas
        cases hhas

/-- **What look-ups have loaded is registered, and nothing else.** -/
theorem Acquires.registers (h : schema.Acquires s loads s') (hs : s.Idle) :
    s'.Idle ∧ Publishes loads s s' ∧ s'.complete = s.complete ∧
      ∀ e ∈ loads, Entries.find? s.registry e.1 = none := by
  induction h with
  | still later registry complete =>
    refine ⟨hs.of_registry registry, ⟨later, nofun, fun name slot h => ?_⟩, complete, nofun⟩
    rw [registry] at h
    exact .inl h
  | @found s s' loads name t fuel unknown check answer ih =>
    obtain ⟨hidle, hloads, hcomplete, hfresh⟩ := ih (hs.setReady name t)
    refine ⟨hidle, .cons_of_set (by simp [unknown]) hloads, hcomplete, ?_⟩
    exact List.forall_mem_cons.mpr ⟨unknown, fun e he => (unknown_of_setSlot (hfresh e he)).2⟩
  | @refused s s' loads name t fuel d unknown check answer ih =>
    obtain ⟨hidle, hloads, hcomplete, hfresh⟩ := ih (hs.setReady name t)
    exact ⟨hidle.evict name t, hloads.evict unknown hidle hfresh, (complete_evict ..).trans hcomplete,
      fun e he => (unknown_of_setSlot (hfresh e he)).2⟩
  | append first second ih ih' =>
    obtain ⟨hidle, hloads, hcomplete, hfresh⟩ := ih hs
    obtain ⟨hidle', hloads', hcomplete', hfresh'⟩ := ih' hidle
    refine ⟨hidle', hloads.append hloads', hcomplete'.trans hcomplete, fun e he => ?_⟩
    rcases List.mem_append.mp he with he | he
    · exact hfresh e he
    · exact unknown_of_later hs hloads.later (hfresh' e he)

/-- Without a loader, nothing is loaded. -/
theorem Acquires.eq_nil (h : schema.Acquires s loads s') (hl : schema.loader? = none) : loads = [] := by
  induction h with
  | still => rfl
  | found unknown check answer ih =>
    rw [findWithin_eq, unknown, hl] at answer
    cases answer
  | refused unknown check answer ih =>
    rw [findWithin_eq, unknown, hl] at answer
    cases answer
  | append first second ih ih' => rw [ih, ih', List.append_nil]

/-! ## Computations that register what look-ups load -/

end Schema

/-- Where the computation answers or stops at a defect, look-ups have loaded what is registered since. -/
def Lookup.Traced (schema : Schema σ) (x : Lookup σ α) : Prop :=
  ∀ s, s.Idle → (∀ stop s', x s = .error stop s' → ∃ d, stop = .defect d) →
    ∃ loads, schema.Acquires s loads (x.after s)

namespace Schema

variable {schema : Schema σ} {s s₁ s' : Session σ} {name : String} {t : NamedType} {x : Lookup σ α}
  {f : α → Lookup σ β} {find : Finder σ}

/-- A computation that leaves the registry as it is. -/
theorem traced_of_same (h : ∀ s, s.Later (x.after s) ∧ (x.after s).registry = s.registry ∧
    (x.after s).complete = s.complete) : Traced schema x :=
  fun s _ _ => ⟨[], .still (h s).1 (h s).2.1 (h s).2.2⟩

theorem traced_of_unchanged (h : ∀ s, x.after s = s) : Traced schema x :=
  traced_of_same fun s => by rw [h s]; exact ⟨.refl s, rfl, rfl⟩

theorem Traced.bind (hx : Traced schema x) (hf : ∀ a, Traced schema (f a)) : Traced schema (x >>= f) := by
  intro s hs hstop
  cases h : x s with
  | ok a s₁ =>
    obtain ⟨loads, hloads⟩ := hx s hs fun stop s' he => by rw [h] at he; cases he
    rw [after_of_ok h] at hloads
    have hgo : (x >>= f) s = f a s₁ := bind_of_ok h
    obtain ⟨loads', hloads'⟩ := hf a s₁ (hloads.registers hs).1 fun stop s' he =>
      hstop stop s' (hgo.trans he)
    exact ⟨loads ++ loads', after_bind_of_ok h ▸ hloads.append hloads'⟩
  | error stop s₁ =>
    have hgo : (x >>= f) s = .error stop s₁ := bind_of_error h
    obtain ⟨loads, hloads⟩ := hx s hs fun stop' s' he => by
      rw [h] at he
      cases he
      exact hstop stop s₁ hgo
    rw [after_of_error h] at hloads
    exact ⟨loads, (after_of_error hgo).symm ▸ hloads⟩

/-- Forcing a reference registers nothing. -/
theorem later_after_force (r : LazyRef) (s : Session σ) :
    s.Later ((schema.force r).after s) ∧ ((schema.force r).after s).registry = s.registry ∧
      ((schema.force r).after s).complete = s.complete := by
  unfold Lookup.after Schema.force
  split
  · next h =>
    split at h <;> cases h
    · exact ⟨.refl s, rfl, rfl⟩
    · exact ⟨⟨fun _ _ h => h, fun _ h => List.mem_cons_of_mem _ h⟩, rfl, rfl⟩
  · next h => split at h <;> cases h

theorem respects_traced (schema : Schema σ) : Respects schema fun x _ => Traced schema x where
  pure _ := traced_of_unchanged fun _ => rfl
  stop _ _ := traced_of_unchanged fun _ => rfl
  force r := traced_of_same (later_after_force r)
  refuse _ _ := traced_of_unchanged fun _ => rfl
  bind := Traced.bind

theorem traced_require (hfind : ∀ name, Traced schema (find name)) (name : String) :
    Traced schema (find.require name) := by
  refine Traced.bind (hfind name) fun t? => ?_
  cases t? with
  | none => exact traced_of_unchanged fun _ => rfl
  | some t => exact traced_of_unchanged fun _ => rfl

theorem acquires_of_known {fuel : Nat} {slot : Slot} (hs : s.Idle)
    (hr : Entries.find? s.registry name = some slot) :
    ∃ loads, schema.Acquires s loads ((schema.findWithin fuel name).after s) := by
  cases slot with
  | loading cyclic => exact absurd hr (hs.unmarked name cyclic)
  | ready t =>
    rw [after_of_ok (findWithin_of_ready fuel hr)]
    exact ⟨[], .still (.refl s) rfl rfl⟩

theorem acquires_of_eager {fuel : Nat} (hr : Entries.find? s.registry name = none)
    (hl : schema.loader? = none) :
    ∃ loads, schema.Acquires s loads ((schema.findWithin fuel name).after s) := by
  have hfind : schema.findWithin fuel name s = .ok none s := by
    rw [findWithin_eq, hr, hl]
    rfl
  rw [after_of_ok hfind]
  exact ⟨[], .still (.refl s) rfl rfl⟩

/-- Checking the type of a look-up: it stays registered, or only what the check has loaded does. -/
theorem acquires_checkLoaded {fuel : Nat} (app : σ) (hs : s.Idle)
    (hn : Entries.find? s.registry name = none)
    (hcheck : ∀ e : Entity σ, Traced schema (e.check schema find))
    (hfind : schema.findWithin fuel name s =
      schema.checkLoaded find name (some t, true) ({ s with app }.setSlot name (.ready t)))
    (hstop : ∀ stop s', schema.findWithin fuel name s = .error stop s' → ∃ d, stop = .defect d) :
    ∃ loads, schema.Acquires s loads ((schema.findWithin fuel name).after s) := by
  have hset : schema.Acquires (s.setSlot name (.ready t)) [] ({ s with app }.setSlot name (.ready t)) :=
    .still (later_setApp _ app) rfl rfl
  have hidle : ({ s with app }.setSlot name (.ready t) : Session σ).Idle :=
    (hs.setReady name t).of_registry rfl
  cases he : schema.entity? t with
  | none =>
    have hfound : schema.findWithin fuel name s = .ok (some t) ({ s with app }.setSlot name (.ready t)) :=
      hfind.trans (checkLoaded_eq_ok.mpr ⟨rfl, .inl ⟨he, rfl⟩⟩)
    rw [after_of_ok hfound]
    exact ⟨_, .found hn hset hfound⟩
  | some e =>
    cases hc : e.check schema find ({ s with app }.setSlot name (.ready t)) with
    | ok u s₂ =>
      have hfound : schema.findWithin fuel name s = .ok (some t) s₂ :=
        hfind.trans (checkLoaded_eq_ok.mpr ⟨rfl, .inr ⟨e, he, hc⟩⟩)
      obtain ⟨loads, hloads⟩ := hcheck e _ hidle fun stop s' h => by rw [hc] at h; cases h
      rw [after_of_ok hc] at hloads
      rw [after_of_ok hfound]
      exact ⟨_, .found hn (hset.append hloads) hfound⟩
    | error stop s₂ =>
      have ends {s₃ : Session σ} (h : Lookup.onDefect (e.check schema find) (Session.evict · name t)
          ({ s with app }.setSlot name (.ready t)) = .error stop s₃) :
          schema.findWithin fuel name s = .error stop s₃ := by
        rw [hfind]
        unfold checkLoaded
        simp only [he]
        exact bind_of_error h
      cases stop with
      | fault f =>
        obtain ⟨d, hd⟩ := hstop _ s₂ (ends (by simp only [Lookup.onDefect, hc]))
        cases hd
      | exhausted =>
        obtain ⟨d, hd⟩ := hstop _ s₂ (ends (by simp only [Lookup.onDefect, hc]))
        cases hd
      | defect d =>
        have hrefused : schema.findWithin fuel name s = .error (.defect d) (s₂.evict name t) :=
          ends (by simp only [Lookup.onDefect, hc])
        obtain ⟨loads, hloads⟩ := hcheck e _ hidle fun stop s' h => by
          rw [hc] at h
          cases h
          exact ⟨d, rfl⟩
        rw [after_of_error hc] at hloads
        rw [after_of_error hrefused]
        exact ⟨_, .refused hn (hset.append hloads) hrefused⟩

/-- **Looking up a name registers what it loads**, in a schema whose loader does not come back to it. -/
theorem traced_findWithin (hp : schema.Plain) (fuel : Nat) (name : String) :
    Traced schema (schema.findWithin fuel name) := by
  induction fuel generalizing name with
  | zero =>
    intro s hs hstop
    cases hr : Entries.find? s.registry name with
    | some slot => exact acquires_of_known hs hr
    | none =>
      cases hl : schema.loader? with
      | none => exact acquires_of_eager hr hl
      | some loader =>
        obtain ⟨d, hd⟩ := hstop .exhausted s (by rw [findWithin_eq, hr, hl]; rfl)
        cases hd
  | succ fuel ih =>
    intro s hs hstop
    cases hr : Entries.find? s.registry name with
    | some slot => exact acquires_of_known hs hr
    | none =>
      cases hl : schema.loader? with
      | none => exact acquires_of_eager hr hl
      | some loader =>
        have hfind : schema.findWithin (fuel + 1) name s =
            schema.loadName (schema.findWithin fuel) loader name s := by
          rw [findWithin_eq, hr, hl]
        have hcleared (app : σ) :
            clearLoading name { s.setSlot name (.loading false) with app } = { s with app } :=
          clearLoading_mark (s := { s with app }) hr
        -- the loader is stopped, gives no type, or gives one that is registered and then checked
        have hcases := @loadName_cases σ schema loader (schema.findWithin fuel) name (hp loader hl name) s
        rcases hcases with
          ⟨stop, app, -, h⟩ | ⟨app, h⟩ | ⟨t, app, -, h⟩
        · rw [after_of_error (hfind.trans h), hcleared]
          exact ⟨[], .still (later_setApp s app) rfl rfl⟩
        · rw [after_of_ok (hfind.trans h), hcleared]
          exact ⟨[], .still (later_setApp s app) rfl rfl⟩
        · refine acquires_checkLoaded (t := t) app hs hr
            (fun e => (respects_traced schema).check_same (traced_require ih) e) ?_ hstop
          rw [hfind, h]
          simp only [setSlot, Entries.insert_insert]

/-- **All that a scan does before it publishes** registers what its look-ups load. -/
theorem traced_explore (hp : schema.Plain) (seeds : List NamedType) :
    Traced schema (schema.explore schema.find seeds) :=
  (respects_traced schema).explore_same (traced_require (traced_findWithin hp schema.limit)) seeds

end Schema

end EntityQuery
