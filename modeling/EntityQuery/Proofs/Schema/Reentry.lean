import EntityQuery.Proofs.Schema.Registry

/-!
# Loaders that come back to their name

While a loader is asked for a name, the name is marked, and a look-up of it leaves a note in the mark. So the
loader may come back to the schema in any way, and its loads may nest: it is not asked for the name again, and
that it came back is seen in the end, even if it dropped what it was told.

* `Session.Keeps`: a name that has a slot keeps one, and so does the note that the name was asked for.
* `Lookup.Alert`: a computation does the same as another one, unless the name is looked up.
* **`Schema.alert_loadName`**: loading another name, whatever the loaders do.
* `Schema.ComesBack`: the loader, asked for a name, comes back to this name.
* **`Schema.reentry_is_caught`**: a name that has a slot is not loaded; a marked one is refused; and a loader
  that came back to its name is refused in the end.
-/

namespace EntityQuery

open Lookup Session

variable {σ α β : Type}

namespace Session

/-- A name has a slot: it is marked or stands for a type. -/
def Held (name : String) (s : Session σ) : Prop := Entries.find? s.registry name ≠ none

/-- A name stands for a type, or it is marked and has been asked for meanwhile. -/
def Noticed (name : String) (s : Session σ) : Prop :=
  s.Held name ∧ Entries.find? s.registry name ≠ some (.loading false)

/-- From one session to another one, a name keeps its slot, and the note in it. -/
structure Keeps (name : String) (s s' : Session σ) : Prop where
  held : s.Held name → s'.Held name
  noticed : s.Noticed name → s'.Noticed name

section

variable {s s' s'' : Session σ} {name other : String}

theorem Keeps.refl (s : Session σ) : s.Keeps name s := ⟨id, id⟩

theorem Keeps.trans (h : s.Keeps name s') (h' : s'.Keeps name s'') : s.Keeps name s'' :=
  ⟨fun hs => h'.held (h.held hs), fun hs => h'.noticed (h.noticed hs)⟩

theorem keeps_of_find?_eq (h : Entries.find? s'.registry name = Entries.find? s.registry name) :
    s.Keeps name s' := by
  refine ⟨fun hs => ?_, fun hs => ?_⟩ <;> unfold Noticed Held at * <;> rwa [h]

/-- Whatever slot another name gets. -/
theorem keeps_setSlot_of_ne (h : other ≠ name) (slot : Slot) :
    s.Keeps name (s.setSlot other slot) :=
  keeps_of_find?_eq (by simp [setSlot, Entries.find?_insert, h])

theorem noticed_setSlot {slot : Slot} (h : slot ≠ .loading false) :
    (s.setSlot name slot).Noticed name := by
  unfold Noticed Held setSlot
  simp only [Entries.find?_insert, if_true]
  exact ⟨nofun, fun he => h (Option.some.inj he)⟩

/-- A slot with a type, or with the note that the name was asked for. -/
theorem keeps_setSlot {slot : Slot} (h : slot ≠ .loading false) :
    s.Keeps name (s.setSlot other slot) := by
  by_cases hne : other = name
  · subst hne
    exact ⟨fun _ => (noticed_setSlot h).1, fun _ => noticed_setSlot h⟩
  · exact keeps_setSlot_of_ne hne slot

theorem keeps_setReady (t : NamedType) : s.Keeps name (s.setSlot other (.ready t)) :=
  keeps_setSlot (by simp)

theorem keeps_clearLoading (h : other ≠ name) (s : Session σ) :
    s.Keeps name (clearLoading other s) := by
  refine keeps_of_find?_eq ?_
  unfold clearLoading
  split
  · exact Entries.find?_erase_of_ne _ h
  · rfl

theorem keeps_evict (h : other ≠ name) (t : NamedType) (s : Session σ) :
    s.Keeps name (s.evict other t) := by
  refine keeps_of_find?_eq ?_
  unfold evict
  split
  · exact Entries.find?_erase_of_ne _ h
  · rfl

end

end Session

/-! ## Computations under watch -/

namespace Lookup

/-- From a session, the second computation does the same as the first one, or it ends in an alarm where the
first one leaves a note that the name was asked for. Meanwhile the name keeps its slot. -/
structure AlertAt (alarm : Fault → Prop) (name : String) (x x' : Lookup σ α) (s : Session σ) :
    Prop where
  keeps : s.Keeps name (x.after s)
  same : x' s = x s ∨ (∃ f s', alarm f ∧ x' s = .error (.fault f) s') ∧ (x.after s).Noticed name

/-- So it is from every session in which the name has a slot. -/
def Alert (alarm : Fault → Prop) (name : String) (x x' : Lookup σ α) : Prop :=
  ∀ s, s.Held name → AlertAt alarm name x x' s

section

variable {alarm : Fault → Prop} {name : String} {x x' : Lookup σ α} {f f' : α → Lookup σ β}
  {s s₁ : Session σ}

theorem AlertAt.of_keeps (h : s.Keeps name (x.after s)) : AlertAt alarm name x x s := ⟨h, .inl rfl⟩

theorem alert_of_keeps (h : ∀ s : Session σ, s.Keeps name (x.after s)) : Alert alarm name x x :=
  fun s _ => .of_keeps (h s)

theorem alert_of_unchanged (h : ∀ s : Session σ, (x.after s).registry = s.registry) : Alert alarm name x x :=
  alert_of_keeps fun s => keeps_of_find?_eq (by rw [h])

theorem alert_pure (a : α) : Alert alarm name (pure a : Lookup σ α) (pure a) :=
  alert_of_unchanged fun _ => rfl

theorem alert_throw (e : Stop) : Alert alarm name (throw e : Lookup σ α) (throw e) :=
  alert_of_unchanged fun _ => rfl

theorem alert_modify {change : Session σ → Session σ} (h : ∀ s : Session σ, s.Keeps name (change s)) :
    Alert alarm name (modify change) (modify change) := alert_of_keeps h

theorem AlertAt.bind (hx : AlertAt alarm name x x' s)
    (hf : ∀ a s₁, x s = .ok a s₁ → AlertAt alarm name (f a) (f' a) s₁) :
    AlertAt alarm name (x >>= f) (x' >>= f') s := by
  obtain ⟨hkeeps, hsame⟩ := hx
  cases h : x s with
  | error e s₁ =>
    have hbind : (x >>= f) s = .error e s₁ := bind_of_error h
    rw [after_of_error h] at hkeeps hsame
    rw [h] at hsame
    refine ⟨by rwa [after_of_error hbind], ?_⟩
    rw [after_of_error hbind, hbind]
    rcases hsame with he | ⟨⟨g, s', hg, he⟩, hn⟩
    · exact .inl (bind_of_error he)
    · exact .inr ⟨⟨g, s', hg, bind_of_error he⟩, hn⟩
  | ok a s₁ =>
    rw [after_of_ok h] at hkeeps hsame
    obtain ⟨hkeeps', hsame'⟩ := hf a s₁ h
    refine ⟨by rw [after_bind_of_ok h]; exact hkeeps.trans hkeeps', ?_⟩
    rw [after_bind_of_ok h]
    rcases hsame with he | ⟨⟨g, s', hg, he⟩, hn⟩
    · rw [bind_of_ok h, bind_of_ok (he.trans h)]
      exact hsame'
    · exact .inr ⟨⟨g, s', hg, bind_of_error he⟩, hkeeps'.noticed hn⟩

theorem Alert.bind (hx : Alert alarm name x x') (hf : ∀ a, Alert alarm name (f a) (f' a)) :
    Alert alarm name (x >>= f) (x' >>= f') := by
  refine fun s hs => (hx s hs).bind fun a s₁ h => hf a s₁ ?_
  have hkeeps := (hx s hs).keeps
  rw [after_of_ok h] at hkeeps
  exact hkeeps.held hs

theorem respects_alert (schema : Schema σ) (alarm : Fault → Prop) (name : String) :
    Respects schema (Alert alarm name) where
  pure := alert_pure
  stop e _ := alert_throw e
  force r := alert_of_unchanged fun s => by
    unfold after Schema.force
    split
    · next h => split at h <;> cases h <;> rfl
    · next h => split at h <;> cases h
  refuse _ _ := alert_of_unchanged fun _ => rfl
  bind := Alert.bind

/-- An alarm is no defect, so the loader is not told of it. -/
theorem Alert.attempt (hx : Alert alarm name x x') : Alert alarm name x.attempt x'.attempt := by
  intro s hs
  obtain ⟨hkeeps, hsame⟩ := hx s hs
  have hafter : x.attempt.after s = x.after s := by
    unfold Lookup.attempt after
    simp only
    cases x s with
    | ok a s' => rfl
    | error e s' => cases e <;> rfl
  refine ⟨hafter ▸ hkeeps, ?_⟩
  rw [hafter]
  unfold Lookup.attempt
  rcases hsame with he | ⟨⟨g, s', hg, he⟩, hn⟩
  · exact .inl (by rw [he])
  · exact .inr ⟨⟨g, s', hg, by rw [he]⟩, hn⟩

theorem Alert.ensuring (hx : Alert alarm name x x') {clean : Session σ → Session σ}
    (hclean : ∀ s : Session σ, s.Keeps name (clean s)) :
    Alert alarm name (x.ensuring clean) (x'.ensuring clean) := by
  intro s hs
  obtain ⟨hkeeps, hsame⟩ := hx s hs
  have hafter : (x.ensuring clean).after s = clean (x.after s) := by
    unfold Lookup.ensuring after
    simp only
    cases x s <;> rfl
  refine ⟨hafter ▸ hkeeps.trans (hclean _), ?_⟩
  rw [hafter]
  unfold Lookup.ensuring
  rcases hsame with he | ⟨⟨g, s', hg, he⟩, hn⟩
  · exact .inl (by rw [he])
  · exact .inr ⟨⟨g, clean s', hg, by rw [he]⟩, (hclean _).noticed hn⟩

theorem Alert.onDefect (hx : Alert alarm name x x') {clean : Session σ → Session σ}
    (hclean : ∀ s : Session σ, s.Keeps name (clean s)) :
    Alert alarm name (x.onDefect clean) (x'.onDefect clean) := by
  intro s hs
  obtain ⟨hkeeps, hsame⟩ := hx s hs
  have hafter : (x.after s).Keeps name ((x.onDefect clean).after s) := by
    unfold Lookup.onDefect after
    simp only
    cases x s with
    | ok a s' => exact .refl s'
    | error e s' =>
      cases e with
      | defect d => exact hclean s'
      | fault f => exact .refl s'
      | exhausted => exact .refl s'
  refine ⟨hkeeps.trans hafter, ?_⟩
  rcases hsame with he | ⟨⟨g, s', hg, he⟩, hn⟩
  · exact .inl (by unfold Lookup.onDefect; rw [he])
  · exact .inr ⟨⟨g, s', hg, by unfold Lookup.onDefect; rw [he]⟩, hafter.noticed hn⟩

theorem alert_require {find find' : Finder σ}
    (hfind : ∀ other, Alert alarm name (find other) (find' other)) (other : String) :
    Alert alarm name (find.require other) (find'.require other) := by
  refine (hfind other).bind fun t? => ?_
  cases t? with
  | none => exact alert_throw _
  | some t => exact alert_pure t

end

end Lookup

namespace Schema

variable {schema : Schema σ} {alarm : Fault → Prop} {name other : String} {s : Session σ}

/-! ## Loading other names -/

theorem alert_publish (types : Entries NamedType) :
    Alert alarm name (publish types : Lookup σ Unit) (publish types) := by
  induction types with
  | nil => exact alert_pure ()
  | cons e rest ih =>
    obtain ⟨key, t⟩ := e
    have set : Alert alarm name (do modify (Session.setSlot · key (.ready t)); publish rest : Lookup σ Unit)
        (do modify (Session.setSlot · key (.ready t)); publish rest) :=
      (alert_modify fun _ => keeps_setReady _).bind fun _ => ih
    unfold publish
    refine (alert_of_unchanged fun _ => rfl).bind fun s => ?_
    split
    · split
      · exact ih
      · exact alert_throw _
    · exact set

section

variable {loader : String → Loading σ} (hl : schema.loader? = some loader)
  (loader' : String → Loading σ) {find find' : Finder σ} (hfind : ∀ other, Alert alarm name (find other) (find' other))

include hl hfind

/-- Scanning, with look-ups that are watched. -/
theorem alert_scanWith : Alert alarm name (schema.scanWith find)
    ((schema.withLoader (some loader')).scanWith find') := by
  have hR := respects_alert schema alarm name
  have hS := schema.congruent_withLoader (some loader')
  have hd : schema.onDemand = true := by simp [onDemand, hl]
  have hd' : (schema.withLoader (some loader')).onDemand = true := rfl
  unfold scanWith
  simp only [hd, hd', if_true, limit_withLoader]
  refine (alert_of_unchanged fun _ => rfl).bind fun _ => ?_
  refine (alert_of_unchanged fun _ => rfl).bind fun s => ?_
  refine Alert.bind (hR.foldlM s.readyTypes (fun found t => hR.collect hS schema.limit t found) {})
    fun found => ?_
  refine Alert.bind (hR.collectPending hS (alert_require hfind) schema.limit found) fun found => ?_
  exact (alert_publish found.types).bind fun _ => alert_of_unchanged fun _ => rfl

/-- Running a loader, whatever it asks for. -/
theorem alert_run (l : Loading σ) : Alert alarm name (l.run find (schema.scanWith find))
    (l.run find' ((schema.withLoader (some loader')).scanWith find')) := by
  induction l with
  | done found => exact alert_pure found
  | panic p => exact alert_throw _
  | step change next ih =>
    intro s hs
    have hkeeps : s.Keeps name { s with app := change s.app } := keeps_of_find?_eq rfl
    obtain ⟨hkeeps', hsame⟩ := ih (change s.app) { s with app := change s.app } hs
    exact ⟨hkeeps.trans hkeeps', hsame⟩
  | find other next ih => exact (hfind other).attempt.bind ih
  | scan next ih => exact (alert_scanWith hl loader' hfind).attempt.bind ih

theorem alert_load (asked : String → Loading σ) (other : String) :
    Alert alarm name (schema.load find asked other)
      ((schema.withLoader (some loader')).load find' asked other) := by
  refine (alert_run hl loader' hfind (asked other)).bind fun found => ?_
  cases found with
  | none => exact alert_pure none
  | some found =>
    cases found with
    | base t =>
      simp only [nameOf_withLoader]
      by_cases hn : schema.nameOf t = other
      · simp only [hn, if_true]
        exact alert_pure _
      · simp only [hn, if_false]
        exact alert_throw _
    | nonNull id inner => exact alert_of_unchanged fun _ => rfl
    | listOf id inner => exact alert_of_unchanged fun _ => rfl

/-- **Loading another name**, with a loader that does the same for it. -/
theorem alert_loadName (hsame : loader' other = loader other) (hne : other ≠ name) :
    Alert alarm name (schema.loadName find loader other)
      ((schema.withLoader (some loader')).loadName find' loader' other) := by
  have hR := respects_alert schema alarm name
  have hS := schema.congruent_withLoader (some loader')
  have hload : (schema.withLoader (some loader')).load find' loader' other =
      (schema.withLoader (some loader')).load find' loader other := by
    unfold load
    rw [hsame]
  have hmarked : Alert alarm name (schema.loadMarked find loader other)
      ((schema.withLoader (some loader')).loadMarked find' loader' other) := by
    unfold loadMarked
    rw [hload]
    refine (alert_load hl loader' hfind loader other).bind fun loaded => ?_
    refine (alert_of_unchanged fun _ => rfl).bind fun s => ?_
    split
    · exact alert_throw _
    · exact alert_pure _
    · exact alert_pure _
    · exact (alert_modify fun _ => keeps_setReady _).bind fun _ => alert_pure _
  unfold loadName
  refine (alert_modify fun _ => keeps_setSlot_of_ne hne _).bind fun _ => ?_
  refine (Alert.ensuring hmarked (keeps_clearLoading hne)).bind fun ⟨found, registered⟩ => ?_
  cases found with
  | none => exact alert_pure none
  | some t =>
    cases registered with
    | false => exact alert_pure (some t)
    | true =>
      simp only [entity?_withLoader]
      cases schema.entity? t with
      | none => exact alert_pure (some t)
      | some e =>
        have hcheck := hR.check hS (alert_require hfind) (.refl e)
        exact (Alert.onDefect hcheck (keeps_evict hne t)).bind fun _ => alert_pure (some t)

end

/-! ## Looking up names -/

/-- **A name that is being loaded is refused**, and the mark keeps a note of it. -/
theorem findWithin_of_loading {cyclic : Bool} (fuel : Nat)
    (h : Entries.find? s.registry name = some (.loading cyclic)) :
    schema.findWithin fuel name s =
      .error (.defect (.cyclicLoad name)) (s.setSlot name (.loading true)) := by
  rw [findWithin_eq, h]
  rfl

/-- A known name is answered from its slot, whatever the loader does. -/
theorem alertAt_of_known (loader? : Option (String → Loading σ)) {slot : Slot}
    (hr : Entries.find? s.registry other = some slot) (fuel : Nat) :
    AlertAt alarm name (schema.findWithin fuel other)
      ((schema.withLoader loader?).findWithin fuel other) s := by
  cases slot with
  | ready t =>
    have h : schema.findWithin fuel other s = .ok (some t) s := findWithin_of_ready fuel hr
    have h' : (schema.withLoader loader?).findWithin fuel other s = .ok (some t) s :=
      findWithin_of_ready fuel hr
    exact ⟨by rw [after_of_ok h]; exact .refl s, .inl (h'.trans h.symm)⟩
  | loading cyclic =>
    have h : schema.findWithin fuel other s = _ := findWithin_of_loading fuel hr
    have h' : (schema.withLoader loader?).findWithin fuel other s = _ := findWithin_of_loading fuel hr
    exact ⟨by rw [after_of_error h]; exact keeps_setSlot (by simp), .inl (h'.trans h.symm)⟩

/-- Looks up names as ever, but a look-up of one name ends in a panic. -/
def findUntil (schema : Schema σ) (stop : String) (p : Panic) : Nat → Finder σ
  | 0, name => if name = stop then throw (.fault (.panic p)) else schema.findWithin 0 name
  | fuel + 1, name =>
    if name = stop then throw (.fault (.panic p))
    else fun s =>
      match Entries.find? s.registry name, schema.loader? with
      | none, some loader => schema.loadName (schema.findUntil stop p fuel) loader name s
      | _, _ => schema.findWithin 0 name s

theorem findUntil_self (stop : String) (p : Panic) (fuel : Nat) :
    schema.findUntil stop p fuel stop = throw (.fault (.panic p)) := by
  cases fuel <;> exact if_pos rfl

section

variable {loader loader' : String → Loading σ} (hl : schema.loader? = some loader)

include hl

/-- **A name that has a slot is not loaded**: what the loader would do for it makes no difference. -/
theorem alert_findWithin (hsame : ∀ other ≠ name, loader' other = loader other) (fuel : Nat)
    (other : String) :
    Alert (fun _ => False) name (schema.findWithin fuel other)
      ((schema.withLoader (some loader')).findWithin fuel other) := by
  induction fuel generalizing other with
  | zero =>
    intro s hs
    cases hr : Entries.find? s.registry other with
    | some slot => exact alertAt_of_known (some loader') hr 0
    | none =>
      have h : schema.findWithin 0 other s = .error .exhausted s := by
        rw [findWithin_eq, hr, hl]
        rfl
      have h' : (schema.withLoader (some loader')).findWithin 0 other s = .error .exhausted s := by
        rw [findWithin_eq, hr]
        rfl
      exact ⟨by rw [after_of_error h]; exact .refl s, .inl (h'.trans h.symm)⟩
  | succ fuel ih =>
    intro s hs
    cases hr : Entries.find? s.registry other with
    | some slot => exact alertAt_of_known (some loader') hr (fuel + 1)
    | none =>
      have hne : other ≠ name := by
        rintro rfl
        exact hs hr
      have h : schema.findWithin (fuel + 1) other s =
          schema.loadName (schema.findWithin fuel) loader other s := by
        rw [findWithin_eq, hr, hl]
      have h' : (schema.withLoader (some loader')).findWithin (fuel + 1) other s =
          (schema.withLoader (some loader')).loadName
            ((schema.withLoader (some loader')).findWithin fuel) loader' other s := by
        rw [findWithin_eq, hr]
        rfl
      obtain ⟨hkeeps, hload⟩ := alert_loadName hl loader' ih (hsame other hne) hne s hs
      refine ⟨?_, ?_⟩
      · unfold after at hkeeps ⊢
        rwa [h]
      · unfold after at hload ⊢
        rwa [h, h']

/-- A look-up of another name, up to the first look-up of the name. -/
theorem alert_findUntil_of_ne {p : Panic} {fuel : Nat}
    (ih : ∀ other, Alert (· = .panic p) name (schema.findWithin fuel other)
      (schema.findUntil name p fuel other)) (hne : other ≠ name) :
    Alert (· = .panic p) name (schema.findWithin (fuel + 1) other)
      (schema.findUntil name p (fuel + 1) other) := by
  intro s hs
  have h : schema.findUntil name p (fuel + 1) other s =
      match Entries.find? s.registry other, schema.loader? with
      | none, some loader => schema.loadName (schema.findUntil name p fuel) loader other s
      | _, _ => schema.findWithin 0 other s := congrFun (if_neg hne) s
  cases hr : Entries.find? s.registry other with
  | some slot =>
    refine ⟨(alert_findWithin hl (fun _ _ => rfl) _ other s hs).keeps, .inl ?_⟩
    rw [h, findWithin_eq, findWithin_eq, hr]
    cases slot <;> rfl
  | none =>
    have h' : schema.findUntil name p (fuel + 1) other s =
        schema.loadName (schema.findUntil name p fuel) loader other s := by
      rw [h, hr, hl]
    have h'' : schema.findWithin (fuel + 1) other s =
        schema.loadName (schema.findWithin fuel) loader other s := by
      rw [findWithin_eq, hr, hl]
    have hself : schema.withLoader (some loader) = schema := by
      rw [← hl]
      rfl
    have hload := alert_loadName hl loader ih rfl hne s hs
    rw [hself] at hload
    obtain ⟨hkeeps, hload⟩ := hload
    refine ⟨?_, ?_⟩
    · unfold after at hkeeps ⊢
      rwa [h'']
    · unfold after at hload ⊢
      rwa [h'', h']

/-- **A look-up that is noticed**: where a name has a slot, a computation of look-ups leaves a note in it, or
does the same as one that ends in an alarm where the name is looked up. -/
theorem alert_findUntil (p : Panic) (fuel : Nat) (other : String) :
    Alert (· = .panic p) name (schema.findWithin fuel other)
      (schema.findUntil name p fuel other) := by
  -- the name itself sounds the alarm at any depth; all others wait for it further down
  have self : ∀ fuel, Alert (· = .panic p) name (schema.findWithin fuel name)
      (schema.findUntil name p fuel name) := by
    intro fuel s hs
    have halarm : schema.findUntil name p fuel name s = .error (.fault (.panic p)) s := by
      rw [findUntil_self]
      rfl
    refine ⟨(alert_findWithin hl (fun _ _ => rfl) fuel name s hs).keeps,
      .inr ⟨⟨.panic p, s, rfl, halarm⟩, ?_⟩⟩
    cases hr : Entries.find? s.registry name with
    | none => exact absurd hr hs
    | some slot =>
      cases slot with
      | ready t =>
        rw [after_of_ok (findWithin_of_ready fuel hr)]
        exact ⟨hs, by simp [hr]⟩
      | loading cyclic =>
        rw [after_of_error (findWithin_of_loading fuel hr)]
        exact noticed_setSlot (by simp)
  induction fuel generalizing other with
  | zero =>
    by_cases hne : other = name
    · exact hne ▸ self 0
    · intro s hs
      exact ⟨(alert_findWithin hl (fun _ _ => rfl) 0 other s hs).keeps,
        .inl (congrFun (if_neg hne) s)⟩
  | succ fuel ih =>
    by_cases hne : other = name
    · exact hne ▸ self (fuel + 1)
    · exact alert_findUntil_of_ne hl ih hne

end

/-! ## Loaders that come back -/

/-- The loader, asked for a name, comes back to this name: what it asks for looks the name up, directly or
through loads and scans of its own. An alarm for the look-up ends the load, which does not end in it else. -/
def ComesBack (schema : Schema σ) (loader : String → Loading σ) (fuel : Nat) (name : String)
    (s : Session σ) : Prop :=
  ∃ p, (schema.load (schema.findUntil name p fuel) loader name).panic? s = some p ∧
    (schema.load (schema.findWithin fuel) loader name).panic? s ≠ some p

section

variable {loader : String → Loading σ} (hl : schema.loader? = some loader)

include hl

/-- A loader that came back to a name leaves a note of it, or a type. -/
theorem ComesBack.noticed {fuel : Nat} (h : schema.ComesBack loader fuel name s) (hs : s.Held name) :
    ((schema.load (schema.findWithin fuel) loader name).after s).Noticed name := by
  obtain ⟨p, halarm, hp⟩ := h
  have hself : schema.withLoader (some loader) = schema := by
    rw [← hl]
    rfl
  have hload := alert_load hl loader (alert_findUntil hl p fuel) loader name s hs
  rw [hself] at hload
  rcases hload.same with he | ⟨-, hn⟩
  · unfold panic? at halarm hp
    rw [he] at halarm
    exact absurd halarm hp
  · exact hn

/-- **Coming back to a name that is being loaded is caught.** Take any loader, which may look up names and
scan the schema while it is asked for a type, and drop what it is told.

While a name has a slot, as it has from the moment the loader is asked for it, the loader is not asked for it
again, however its loads nest: what it would do then makes no difference. Looking up a marked name is refused.
And where the loader came back to the name that it was asked for, and nothing was registered for the name
meanwhile, looking up the name fails; as a cycle, if the loader itself came to a type of the name or to none. -/
theorem reentry_is_caught (fuel : Nat) (name : String) :
    (∀ s slot, Entries.find? s.registry name = some slot →
      ∀ loader' : String → Loading σ, (∀ other ≠ name, loader' other = loader other) →
        (schema.withLoader (some loader')).load ((schema.withLoader (some loader')).findWithin fuel)
            loader name s =
          schema.load (schema.findWithin fuel) loader name s) ∧
    (∀ s cyclic, Entries.find? s.registry name = some (.loading cyclic) →
      schema.findWithin fuel name s =
        .error (.defect (.cyclicLoad name)) (s.setSlot name (.loading true))) ∧
    ∀ s, Entries.find? s.registry name = none →
      schema.ComesBack loader fuel name (s.setSlot name (.loading false)) →
      (∀ t, Entries.find? ((schema.load (schema.findWithin fuel) loader name).after
        (s.setSlot name (.loading false))).registry name ≠ some (.ready t)) →
      (∃ e s', schema.findWithin (fuel + 1) name s = .error e s') ∧
      ∀ found s', schema.load (schema.findWithin fuel) loader name
          (s.setSlot name (.loading false)) = .ok found s' →
        ∃ s'', schema.findWithin (fuel + 1) name s = .error (.defect (.cyclicLoad name)) s'' := by
  refine ⟨fun s slot hr loader' hsame => ?_, fun s cyclic => findWithin_of_loading fuel,
    fun s hn hback hready => ?_⟩
  · have hload := alert_load hl loader' (alert_findWithin hl hsame fuel) loader name s (by simp [Held, hr])
    rcases hload.same with he | ⟨⟨f, s', hf, -⟩, -⟩
    · exact he
    · exact hf.elim
  · have hload : schema.findWithin (fuel + 1) name s =
        schema.loadName (schema.findWithin fuel) loader name s := by
      rw [findWithin_eq, hn, hl]
    have hheld : (s.setSlot name (.loading false)).Held name := by
      simp [Held, setSlot, Entries.find?_insert]
    obtain ⟨hheld', hnoticed⟩ := hback.noticed hl hheld
    rw [hload]
    cases h : schema.load (schema.findWithin fuel) loader name (s.setSlot name (.loading false)) with
    | error e s₁ =>
      exact ⟨⟨e, _, loadName_of_error (bind_of_error h)⟩, fun _ _ he => by cases he⟩
    | ok found s₁ =>
      rw [after_of_ok h] at hheld' hnoticed hready
      -- whatever the loader made of the refusal, the mark has kept it
      have hslot : Entries.find? s₁.registry name = some (.loading true) := by
        cases hr : Entries.find? s₁.registry name with
        | none => exact absurd hr hheld'
        | some slot =>
          cases slot with
          | ready t => exact absurd hr (hready t)
          | loading cyclic =>
            cases cyclic with
            | true => rfl
            | false => exact absurd hr hnoticed
      have hmarked : schema.loadMarked (schema.findWithin fuel) loader name
          (s.setSlot name (.loading false)) = .error (.defect (.cyclicLoad name)) s₁ := by
        refine (bind_of_ok h).trans ((bind_of_ok (x := get) rfl).trans ?_)
        rw [hslot]
        cases found <;> rfl
      have hrefused := loadName_of_error hmarked
      exact ⟨⟨_, _, hrefused⟩, fun _ _ _ => ⟨_, hrefused⟩⟩

end

end Schema

namespace Sample

/-- Asked for "Org", asks for "Owner", drops what it is told, and gives an entity. Asked for "Owner", comes back
to "Org", drops what it is told, and gives nothing. -/
def returning : String → Loading Nat
  | "Org" => .find "Owner" fun _ => .done (some (.base (.defined ⟨0, 0⟩)))
  | "Owner" => .find "Org" fun _ => .done none
  | _ => .done none

/-- A schema with one entity, loaded on demand. -/
def returningSchema : Schema Nat where
  define _ := .entity { name := "Org", resolve _ _ := pure (.ready .null) }
  target _ := .base (.standard .string)
  loader? := some returning
  limit := 20

/-- The session in which the loader is asked for "Org". -/
def returningSession : Session Nat := reloadingSession.setSlot "Org" (.loading false)

end Sample

theorem reentry_is_caught_sample :
    Sample.returningSchema.ComesBack Sample.returning 5 "Org" Sample.returningSession ∧
    (Sample.returningSchema.load (Sample.returningSchema.findWithin 5) Sample.returning "Org").answer?
        Sample.returningSession = some (some (.defined ⟨0, 0⟩)) ∧
    ∃ s, Sample.returningSchema.findWithin 6 "Org" Sample.reloadingSession =
      .error (.defect (.cyclicLoad "Org")) s := by
  have hback : Sample.returningSchema.ComesBack Sample.returning 5 "Org" Sample.returningSession :=
    ⟨{ text := "again" }, by decide +kernel, by decide +kernel⟩
  have hgiven : (Sample.returningSchema.load (Sample.returningSchema.findWithin 5) Sample.returning
      "Org").answer? Sample.returningSession = some (some (.defined ⟨0, 0⟩)) := by
    decide +kernel
  have hslot : Entries.find? ((Sample.returningSchema.load (Sample.returningSchema.findWithin 5)
      Sample.returning "Org").after Sample.returningSession).registry "Org" = some (.loading true) := by
    decide +kernel
  obtain ⟨s', hs'⟩ := answer?_eq_some.mp hgiven
  refine ⟨hback, hgiven, ?_⟩
  exact ((Schema.reentry_is_caught rfl 5 "Org").2.2 Sample.reloadingSession rfl hback
    fun t => by rw [← Sample.returningSession, hslot]; nofun).2 _ s' hs'

end EntityQuery
