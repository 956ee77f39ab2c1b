import EntityQuery.Proofs.Schema.Registry

/-!
# What an unsuccessful look-up leaves

A name that is looked up is marked while the loader is asked for it, and stands for its type while this type is
checked. Where the look-up comes to nothing, the mark is removed, and so is a type that does not pass. What is
not removed is a type whose check never ends: the loader panicked for a type that it refers to.

* `Schema.Interrupted`: such a check.
* `Schema.loadName_cases`: what looking up an unknown name does, by what the loader gives.
* **`Schema.unsuccessful_find_leaves_nothing`**: after every other unsuccessful look-up the name is as unknown
  as before, and is loaded and checked anew.
* `interrupted_find_leaves_type`: after an interrupted check, the type is there, unchecked.
-/

namespace EntityQuery

open Lookup Session

variable {σ α : Type}

/-- A loader that does not come back to the schema changes the state of the application only. -/
theorem Loading.after_run_of_plain {find : Finder σ} {scan : Lookup σ (Entries NamedType)}
    {l : Loading σ} (hl : l.Plain) (s : Session σ) :
    ∃ app, (l.run find scan).after s = { s with app } := by
  induction l generalizing s with
  | done found => exact ⟨s.app, rfl⟩
  | panic p => exact ⟨s.app, rfl⟩
  | step change next ih =>
    obtain ⟨app, h⟩ := ih (change s.app) (hl (change s.app)) { s with app := change s.app }
    exact ⟨app, h⟩
  | find name next => exact hl.elim
  | scan next => exact hl.elim

namespace Session

variable {schema : Schema σ} {s : Session σ} {name : String}

/-- A name that is only marked is unknown again once its mark is removed. -/
theorem find?_clearLoading {cyclic : Bool} (ht : s.Tidy schema)
    (h : Entries.find? s.registry name = some (.loading cyclic)) :
    Entries.find? (clearLoading name s).registry name = none := by
  unfold clearLoading
  rw [h]
  exact Entries.find?_erase_self ht.nodup name

/-- A name whose type is removed is unknown again. -/
theorem find?_evict {t : NamedType} (ht : s.Tidy schema)
    (h : Entries.find? s.registry name = some (.ready t)) :
    Entries.find? (s.evict name t).registry name = none := by
  unfold evict
  rw [if_pos h]
  exact Entries.find?_erase_self ht.nodup name

theorem Tidy.setApp (ht : s.Tidy schema) (app : σ) : ({ s with app } : Session σ).Tidy schema :=
  ⟨ht.nodup, ht.named⟩

theorem find?_setSlot_self (s : Session σ) (name : String) (slot : Slot) :
    Entries.find? (s.setSlot name slot).registry name = some slot := by
  simp [setSlot, Entries.find?_insert]

end Session

namespace Schema

variable {schema : Schema σ} {loader : String → Loading σ} {find : Finder σ} {name : String}
  {s s' : Session σ}

/-! ## Looking up an unknown name -/

/-- Loading a type registers nothing, however it ends. -/
theorem after_load_of_plain (hl : (loader name).Plain) (s : Session σ) :
    ∃ app, (schema.load find loader name).after s = { s with app } := by
  obtain ⟨app, hrun⟩ : ∃ app, ((loader name).run find (schema.scanWith find)).after s = { s with app } :=
    Loading.after_run_of_plain hl s
  cases h : (loader name).run find (schema.scanWith find) s with
  | error e s₁ =>
    rw [after_of_error h] at hrun
    exact ⟨app, (after_of_error (bind_of_error h)).trans hrun⟩
  | ok found s₁ =>
    rw [after_of_ok h] at hrun
    have hload : (schema.load find loader name).after s = s₁ := by
      unfold after load
      rw [bind_of_ok h]
      cases found with
      | none => rfl
      | some t =>
        cases t with
        | base t =>
          by_cases hn : schema.nameOf t = name
          · simp only [hn, if_true]
            rfl
          · simp only [hn, if_false]
            rfl
        | nonNull id inner => rfl
        | listOf id inner => rfl
    exact ⟨app, hload.trans hrun⟩

/-- **What looking up an unknown name does**, by what the loader gives: where there is a type of the name, it
is registered and checked; else the mark is removed, and that is all. -/
theorem loadName_cases (hl : (loader name).Plain) (s : Session σ) :
    (∃ e app, schema.load find loader name (s.setSlot name (.loading false)) =
        .error e { s.setSlot name (.loading false) with app } ∧
      schema.loadName find loader name s =
        .error e (clearLoading name { s.setSlot name (.loading false) with app })) ∨
    (∃ app, schema.loadName find loader name s =
      .ok none (clearLoading name { s.setSlot name (.loading false) with app })) ∨
    ∃ t app, schema.load find loader name (s.setSlot name (.loading false)) =
        .ok (some t) { s.setSlot name (.loading false) with app } ∧
      schema.loadName find loader name s =
        schema.checkLoaded find name (some t, true)
          ({ s.setSlot name (.loading false) with app }.setSlot name (.ready t)) := by
  obtain ⟨app, hafter⟩ : ∃ app, (schema.load find loader name).after (s.setSlot name (.loading false)) =
      { s.setSlot name (.loading false) with app } := after_load_of_plain hl _
  have hmark : Entries.find? ({ s.setSlot name (.loading false) with app } : Session σ).registry name =
      some (.loading false) := find?_setSlot_self s name (.loading false)
  cases h : schema.load find loader name (s.setSlot name (.loading false)) with
  | error e s₁ =>
    rw [after_of_error h] at hafter
    subst hafter
    exact .inl ⟨e, app, rfl, loadName_of_error (bind_of_error h)⟩
  | ok found s₁ =>
    rw [after_of_ok h] at hafter
    subst hafter
    have hmarked : ∀ {r s₂}, (match found with
        | none => (.ok (none, false) { s.setSlot name (.loading false) with app } :
            EStateM.Result Stop (Session σ) (Option NamedType × Bool))
        | some t => .ok (some t, true)
            ({ s.setSlot name (.loading false) with app }.setSlot name (.ready t))) = .ok r s₂ →
        schema.loadMarked find loader name (s.setSlot name (.loading false)) = .ok r s₂ := by
      intro r s₂ hr
      refine (bind_of_ok h).trans ((bind_of_ok (x := get) rfl).trans ?_)
      rw [hmark]
      cases found <;> exact hr
    cases found with
    | none => exact .inr (.inl ⟨app, loadName_of_ok (hmarked rfl)⟩)
    | some t =>
      refine .inr (.inr ⟨t, app, rfl, (loadName_of_ok (hmarked rfl)).trans ?_⟩)
      have hready := find?_setSlot_self { s.setSlot name (.loading false) with app } name (.ready t)
      unfold clearLoading
      rw [hready]

/-! ## What is left -/

/-- How names are looked up while one is being loaded. -/
def nested (schema : Schema σ) : Finder σ := schema.findWithin (schema.limit - 1)

/-- The check of the type that the loader gave for a name was ended by a fault: the loader panicked for a name
that the type refers to. The type, registered before its check, is still there. -/
structure Interrupted (schema : Schema σ) (loader : String → Loading σ) (name : String) (t : NamedType)
    (s : Session σ) (f : Fault) (s' : Session σ) : Prop where
  check : ∃ s₁ e, schema.load schema.nested loader name (s.setSlot name (.loading false)) =
      .ok (some t) s₁ ∧ schema.entity? t = some e ∧
    e.check schema schema.nested (s₁.setSlot name (.ready t)) = .error (.fault f) s'
  left : Entries.find? s'.registry name = some (.ready t)

variable (hl : schema.loader? = some loader)

include hl

/-- Within the limit on nested look-ups, an unknown name is loaded. -/
theorem find_of_unknown (hn : Entries.find? s.registry name = none) :
    schema.find name s = if schema.limit = 0 then .error .exhausted s
      else schema.loadName schema.nested loader name s := by
  unfold Schema.find nested
  rw [findWithin_eq, hn, hl]
  cases schema.limit with
  | zero => rfl
  | succ fuel => rfl

/-- Checking an entity keeps what is registered, however it ends. -/
theorem onward_check (e : Entity σ) (ht : s.Tidy schema) (fuel : Nat) :
    s.Onward schema ((e.check schema (schema.findWithin fuel)).after s) :=
  ((respects_beside schema s).check (schema.congruent_withLoader (some loader))
    (beside_require fun name => beside_findWithin hl (fun _ _ => rfl) fuel name)
    (.refl e) s ht (.refl s)).onward

/-- A registered type whose check comes to a defect is removed; one whose check is ended by a fault stays. -/
theorem checkLoaded_cases {t : NamedType} (ht : s.Tidy schema)
    (hr : Entries.find? s.registry name = some (.ready t)) (fuel : Nat) :
    (∃ s', schema.checkLoaded (schema.findWithin fuel) name (some t, true) s = .ok (some t) s') ∨
    (∃ s', schema.checkLoaded (schema.findWithin fuel) name (some t, true) s = .error .exhausted s') ∨
    (∃ d s', schema.checkLoaded (schema.findWithin fuel) name (some t, true) s =
        .error (.defect d) s' ∧ Entries.find? s'.registry name = none) ∨
    ∃ f s', schema.checkLoaded (schema.findWithin fuel) name (some t, true) s =
        .error (.fault f) s' ∧ Entries.find? s'.registry name = some (.ready t) ∧
          ∃ e, schema.entity? t = some e ∧
            e.check schema (schema.findWithin fuel) s = .error (.fault f) s' := by
  unfold checkLoaded
  simp only
  cases he : schema.entity? t with
  | none => exact .inl ⟨s, rfl⟩
  | some e =>
    have ho := onward_check hl e ht fuel
    have ends : ∀ {stop : Stop} {s₁ : Session σ},
        Lookup.onDefect (e.check schema (schema.findWithin fuel)) (Session.evict · name t) s =
          .error stop s₁ →
        (do Lookup.onDefect (e.check schema (schema.findWithin fuel)) (Session.evict · name t)
            return some t : Lookup σ (Option NamedType)) s = .error stop s₁ := bind_of_error
    cases h : e.check schema (schema.findWithin fuel) s with
    | ok u s₁ =>
      refine .inl ⟨s₁, bind_of_ok (a := u) ?_⟩
      simp only [Lookup.onDefect, h]
    | error stop s₁ =>
      rw [after_of_error h] at ho
      have hready : Entries.find? s₁.registry name = some (.ready t) := ho.later.ready name t hr
      cases stop with
      | exhausted =>
        refine .inr (.inl ⟨s₁, ends ?_⟩)
        simp only [Lookup.onDefect, h]
      | defect d =>
        refine .inr (.inr (.inl ⟨d, s₁.evict name t, ends ?_, find?_evict (ho.tidy ht) hready⟩))
        simp only [Lookup.onDefect, h]
      | fault f =>
        refine .inr (.inr (.inr ⟨f, s₁, ends ?_, hready, e, rfl, h⟩))
        simp only [Lookup.onDefect, h]

/-- **An unsuccessful look-up leaves nothing of its name.** Take a schema whose loader does not come back to
it, but may give anything for any name, or panic. Where looking up an unknown name finds no type, shows a
defect or is ended by a panic, the name is unknown afterwards, so that looking it up again asks the loader
and checks the type anew; unless the panic came while the type of the name was being checked. -/
theorem unsuccessful_find_leaves_nothing (hp : schema.Plain) (ht : s.Tidy schema)
    (hn : Entries.find? s.registry name = none)
    (h : schema.find name s = .ok none s' ∨ (∃ d, schema.find name s = .error (.defect d) s') ∨
      ∃ f, schema.find name s = .error (.fault f) s') :
    Entries.find? s'.registry name = none ∧
        (schema.find name s' = schema.loadName schema.nested loader name s') ∨
      ∃ t f, schema.find name s = .error (.fault f) s' ∧ schema.Interrupted loader name t s f s' := by
  have hlimit : schema.limit ≠ 0 := by
    intro hzero
    rw [find_of_unknown hl hn, if_pos hzero] at h
    rcases h with h | ⟨d, h⟩ | ⟨f, h⟩ <;> cases h
  have hfind := (find_of_unknown hl hn).trans (if_neg hlimit)
  have unknown : Entries.find? s'.registry name = none →
      Entries.find? s'.registry name = none ∧
        schema.find name s' = schema.loadName schema.nested loader name s' := fun hs' =>
    ⟨hs', (find_of_unknown hl hs').trans (if_neg hlimit)⟩
  have marked : ∀ app, ({ s.setSlot name (.loading false) with app } : Session σ).Tidy schema :=
    fun app => Tidy.setApp (ht.setSlot fun _ h => by cases h) app
  have cleared : ∀ app, Entries.find?
      (clearLoading name { s.setSlot name (.loading false) with app }).registry name = none :=
    fun app => find?_clearLoading (marked app) (find?_setSlot_self s name (.loading false))
  rw [hfind] at h ⊢
  have hcases := @loadName_cases σ schema loader schema.nested name (hp loader hl name) s
  -- the loader is stopped, gives no type, or gives one that is registered and then checked
  rcases hcases with
    ⟨stop, app, -, hstop⟩ | ⟨app, hnone⟩ | ⟨t, app, hgiven, hcheck⟩
  · refine .inl (unknown ?_)
    rw [hstop] at h
    rcases h with h | ⟨d, h⟩ | ⟨f, h⟩ <;> cases h <;> exact cleared app
  · refine .inl (unknown ?_)
    rw [hnone] at h
    rcases h with h | ⟨d, h⟩ | ⟨f, h⟩ <;> cases h
    exact cleared app
  · have htidy : ({ s.setSlot name (.loading false) with app }.setSlot name (.ready t) :
        Session σ).Tidy schema :=
      (marked app).setSlot fun t' he => by cases he; exact named_load hgiven
    rw [hcheck] at h ⊢
    rcases checkLoaded_cases hl htidy (find?_setSlot_self _ name (.ready t)) (schema.limit - 1) with
      ⟨s₁, hs₁⟩ | ⟨s₁, hs₁⟩ | ⟨d, s₁, hs₁, hleft⟩ | ⟨f, s₁, hs₁, hleft, e, he, hstopped⟩
    · rw [nested, hs₁] at h
      rcases h with h | ⟨d, h⟩ | ⟨f, h⟩ <;> cases h
    · rw [nested, hs₁] at h
      rcases h with h | ⟨d, h⟩ | ⟨f, h⟩ <;> cases h
    · rw [nested, hs₁] at h
      refine .inl (unknown ?_)
      rcases h with h | ⟨d', h⟩ | ⟨f, h⟩ <;> cases h
      exact hleft
    · rw [nested, hs₁] at h
      refine .inr ⟨t, f, ?_⟩
      rcases h with h | ⟨d', h⟩ | ⟨f', h⟩ <;> cases h
      exact ⟨hs₁, ⟨_, e, hgiven, he, hstopped⟩, hleft⟩

end Schema

namespace Sample

/-- What a loader ends with for a name that it has lost. -/
def lost : Panic := { text := "gone" }

/-- Gives an entity that links to one that is lost, and one whose link leads to no entity. -/
def losing : String → Loading Unit
  | "Org" => .done (some (.base (.defined ⟨0, 0⟩)))
  | "Owner" => .panic lost
  | "Bad" => .done (some (.base (.defined ⟨1, 0⟩)))
  | _ => .done none

/-- An entity with one link. -/
def linking (name target : String) : Entity Unit where
  name
  resolve _ _ := pure (.ready .null)
  links := [{
    label := { name := "next" }
    target := .named target
    resolve := fun _ _ => pure (.ready .null) }]

/-- A schema whose loader panics for some names. -/
def losingSchema : Schema Unit where
  define id := .entity (if id.serial = 0 then linking "Org" "Owner" else linking "Bad" "Int")
  target _ := .base (.standard .string)
  loader? := some losing
  limit := 20

/-- The session that the schema starts with. -/
def losingSession : Session Unit where
  registry := [("String", .ready (.standard .string)), ("Int", .ready (.standard .int)),
    ("Float", .ready (.standard .float)), ("Boolean", .ready (.standard .boolean)),
    ("ID", .ready (.standard .id))]
  app := ()

/-- The session after a look-up that ended in a panic. -/
def lostSession : Session Unit := (losingSchema.find "Owner").after losingSession

theorem plain_losing : losingSchema.Plain := by
  rintro _ ⟨⟩ name
  unfold losing
  split <;> trivial

theorem tidy_losing : losingSession.Tidy losingSchema :=
  have hbuild : losingSchema.build [] false { app := () } = .ok () losingSession := rfl
  (Schema.tidy_of_build rfl rfl hbuild).1

end Sample

/-- Where the loader panics for the name itself, nothing is left of it. -/
theorem unsuccessful_find_leaves_nothing_sample :
    (Sample.losingSchema.find "Owner").panic? Sample.losingSession = some Sample.lost ∧
    (Entries.find? Sample.lostSession.registry "Owner" = none ∧
        (Sample.losingSchema.find "Owner" Sample.lostSession =
          Sample.losingSchema.loadName Sample.losingSchema.nested Sample.losing "Owner"
            Sample.lostSession) ∨
      ∃ t f, Sample.losingSchema.find "Owner" Sample.losingSession =
          .error (.fault f) Sample.lostSession ∧
        Sample.losingSchema.Interrupted Sample.losing "Owner" t Sample.losingSession f
          Sample.lostSession) := by
  have hpanic : (Sample.losingSchema.find "Owner").panic? Sample.losingSession = some Sample.lost := by
    decide +kernel
  exact ⟨hpanic, Schema.unsuccessful_find_leaves_nothing rfl Sample.plain_losing Sample.tidy_losing rfl
    (.inr (.inr ⟨_, panic?_eq_some.mp hpanic⟩))⟩

/-- **A check that never ends leaves its type behind.** The loader panics for the target of a link; the entity
with the link is found from then on, without the loader and without a check. -/
theorem interrupted_find_leaves_type :
    (Sample.losingSchema.find "Org").panic? Sample.losingSession = some Sample.lost ∧
    Entries.find? ((Sample.losingSchema.find "Org").after Sample.losingSession).registry "Org" =
      some (.ready (.defined ⟨0, 0⟩)) ∧
    (Sample.losingSchema.find "Org").answer?
        ((Sample.losingSchema.find "Org").after Sample.losingSession) =
      some (some (.defined ⟨0, 0⟩)) := by
  decide +kernel

end EntityQuery
