import EntityQuery.Proofs.Schema.Exploring
import EntityQuery.Proofs.Schema.Acquiring

/-!
# What a failed scan leaves

A scan keeps what it finds to itself until it has found everything; what it looks up on the way is registered
by the look-ups. So a scan that fails while it is looking leaves what its look-ups have loaded, and nothing of
its own. Then it publishes what it has found, entry by entry, and a look-up may have loaded another instance
meanwhile: a scan that fails there has published the entries before.

* `Schema.publish_error`: where publishing stops. `Schema.HalfPublished`: what a conflict leaves.
* `Schema.Thorough`: what a computation has registered passes, unless a look-up has stopped it.
  **`Supply.answers_after_explore`**: what is answered before a scan has looked is answered after it.
* `Schema.InUse`: a session between calls. **`Schema.failed_scan_leaves`**: what a failed scan leaves there.
* `failed_scan_publishes`: a scan that leaves types that only references lead to.
-/

namespace EntityQuery

open Lookup Session

variable {σ α β : Type}

namespace Schema

variable {schema : Schema σ} {s s₁ s' : Session σ} {name : String} {x : Lookup σ α}
  {f : α → Lookup σ β}

/-! ## Publishing -/

section

variable {types : Entries NamedType} {stop : Stop}

/-- **Publishing the first of some types**: its name stands for another one, or for it, or for none. -/
theorem publish_cases (name : String) (t : NamedType) (s : Session σ) :
    (∃ other, Entries.find? s.registry name = some (.ready other) ∧ other ≠ t ∧
      ∀ rest, publish ((name, t) :: rest) s = .error (.defect (.duplicateType name)) s) ∨
    (Entries.find? s.registry name = some (.ready t) ∧
      ∀ rest, publish ((name, t) :: rest) s = publish rest s) ∨
    (∀ other, Entries.find? s.registry name ≠ some (.ready other)) ∧
      ∀ rest, publish ((name, t) :: rest) s = publish rest (s.setSlot name (.ready t)) := by
  cases hr : Entries.find? s.registry name with
  | none =>
    refine .inr (.inr ⟨nofun, fun rest => (bind_of_ok (x := get) rfl).trans ?_⟩)
    rw [hr]
    rfl
  | some slot =>
    cases slot with
    | loading cyclic =>
      refine .inr (.inr ⟨nofun, fun rest => (bind_of_ok (x := get) rfl).trans ?_⟩)
      rw [hr]
      rfl
    | ready other =>
      by_cases he : other = t
      · subst he
        refine .inr (.inl ⟨rfl, fun rest => (bind_of_ok (x := get) rfl).trans ?_⟩)
        rw [hr]
        exact congrFun (if_pos rfl) s
      · refine .inl ⟨other, rfl, he, fun rest => (bind_of_ok (x := get) rfl).trans ?_⟩
        rw [hr]
        exact congrFun (if_neg he) s

/-- **Where publishing stops**, the types before have been published, and a name stands for another type. -/
theorem publish_error (h : publish types s = .error stop s') :
    ∃ published name t other rest, types = published ++ (name, t) :: rest ∧
      publish published s = .ok () s' ∧ Entries.find? s'.registry name = some (.ready other) ∧
      other ≠ t ∧ stop = .defect (.duplicateType name) := by
  induction types generalizing s with
  | nil => cases h
  | cons e rest ih =>
    obtain ⟨name, t⟩ := e
    -- where the first one goes through, a later one stops it
    have later {s₁ : Session σ}
        (hgo : ∀ rest, publish ((name, t) :: rest) s = publish rest s₁) :
        ∃ published name' t' other rest', (name, t) :: rest = published ++ (name', t') :: rest' ∧
          publish published s = .ok () s' ∧
          Entries.find? s'.registry name' = some (.ready other) ∧ other ≠ t' ∧
          stop = .defect (.duplicateType name') := by
      obtain ⟨published, name', t', other, rest', rfl, hok, hrest⟩ := ih ((hgo rest).symm.trans h)
      exact ⟨(name, t) :: published, name', t', other, rest', rfl, (hgo published).trans hok, hrest⟩
    rcases publish_cases name t s with ⟨other, hr, hne, hstop⟩ | ⟨-, hgo⟩ | ⟨-, hgo⟩
    · rw [hstop] at h
      cases h
      exact ⟨[], name, t, other, rest, rfl, rfl, hr, hne, rfl⟩
    · exact later hgo
    · exact later hgo

theorem complete_publish (h : publish types s = .ok () s') : s'.complete = s.complete := by
  induction types generalizing s with
  | nil =>
    cases h
    rfl
  | cons e rest ih =>
    obtain ⟨name, t⟩ := e
    rcases publish_cases name t s with ⟨other, -, -, hstop⟩ | ⟨-, hgo⟩ | ⟨-, hgo⟩
    · rw [hstop] at h
      cases h
    · exact ih ((hgo rest).symm.trans h)
    · have hrest : s'.complete = (s.setSlot name (.ready t)).complete := ih ((hgo rest).symm.trans h)
      exact hrest

/-- Publishing types whose names are registered changes nothing. -/
theorem publish_of_known (hs : ∀ e ∈ types, ∃ t, Entries.find? s.registry e.1 = some (.ready t))
    (h : publish types s = .ok () s') : s' = s := by
  induction types with
  | nil =>
    cases h
    rfl
  | cons e rest ih =>
    obtain ⟨name, t⟩ := e
    obtain ⟨⟨other, hr⟩, hrest⟩ := List.forall_mem_cons.mp hs
    rcases publish_cases name t s with ⟨other, -, -, hstop⟩ | ⟨-, hgo⟩ | ⟨hn, -⟩
    · rw [hstop] at h
      cases h
    · exact ih hrest ((hgo rest).symm.trans h)
    · exact absurd hr (hn other)

end

/-! ## Where a scan fails -/

/-- A scan has found types and has published the first of them, some under names that were unknown; then the
name of the next one stood for another instance, which a look-up of this scan had loaded. -/
structure HalfPublished (schema : Schema σ) (s : Session σ) (loads published : Entries NamedType)
    (d : Defect) (s₁ s' : Session σ) : Prop where
  conflict : ∃ name t other rest,
    schema.explore schema.find s.readyTypes (schema.warned s) =
        .ok { types := published ++ (name, t) :: rest } s₁ ∧
      (name, other) ∈ loads ∧ other ≠ t ∧ d = .duplicateType name
  publishes : Publishes published s₁ s'
  new : ∃ e ∈ published, Entries.find? s₁.registry e.1 = none

/-- A scan fails while it is looking, or while it publishes. -/
theorem scan_error {stop : Stop} (h : schema.scan s = .error stop s') :
    schema.explore schema.find s.readyTypes (schema.warned s) = .error stop s' ∨
    ∃ found s₁, schema.explore schema.find s.readyTypes (schema.warned s) = .ok found s₁ ∧
      publish found.types s₁ = .error stop s' := by
  rw [scan, scanWith_eq_explore] at h
  refine (bind_eq_error.mp h).imp_right ?_
  rintro ⟨found, s₁, hexplore, hpublishAll⟩
  refine ⟨found, s₁, hexplore, ?_⟩
  rcases bind_eq_error.mp hpublishAll with hpublish | ⟨⟨⟩, s₂, -, hend⟩
  · exact hpublish
  · cases hend

/-- **A conflict is with a type that a look-up has loaded**: what was registered before has been found. -/
theorem published_of_conflict (hp : schema.Plain) (ht : s.Tidy schema) (hs₁ : s₁.Idle)
    (hloads : Publishes loads s s₁) {found : Found} {d : Defect}
    (hexplore : schema.explore schema.find s.readyTypes (schema.warned s) = .ok found s₁)
    (hpublish : publish found.types s₁ = .error (.defect d) s') :
    (s' = s₁ ∨ ∃ published, schema.HalfPublished s loads published d s₁ s') ∧ s₁.Later s' ∧
      s'.complete = s₁.complete := by
  obtain ⟨-, hseeds, hpending⟩ :=
    explore_ok (stable_require hp) (fun h => ready_of_require hp h) hexplore
  have hnodup := nodup_explore hexplore
  obtain ⟨published, name, t, other, rest, htypes, hok, hother, hne, hd⟩ := publish_error hpublish
  have hpublishes := publish_ok hok
  have hfound : Entries.find? found.types name = some t :=
    (Entries.find?_eq_some_iff hnodup).mpr (by simp [htypes])
  have hregistered : Entries.find? s₁.registry name = some (.ready other) := by
    refine (hpublishes.new name _ hother).resolve_right ?_
    rintro ⟨u, hu, hmem⟩
    cases hu
    have hfound' : Entries.find? found.types name = some other :=
      (Entries.find?_eq_some_iff hnodup).mpr (htypes ▸ List.mem_append_left _ hmem)
    exact hne (Option.some_inj.mp (hfound'.symm.trans hfound))
  have hloaded : (name, other) ∈ loads := by
    rcases hloads.new name _ hregistered with hs | ⟨u, hu, hmem⟩
    · -- the scan has started from it, so it has found it under this name
      have hheld : schema.Holds found.types other :=
        hseeds other (List.mem_filterMap.mpr ⟨_, Entries.mem_of_find? hs, rfl⟩)
      rw [Holds, ht.named name other hs, hfound] at hheld
      exact absurd (Option.some_inj.mp hheld).symm hne
    · cases hu
      exact hmem
  refine ⟨?_, hpublishes.later, complete_publish hok⟩
  by_cases hnew : ∃ e ∈ published, Entries.find? s₁.registry e.1 = none
  · refine .inr ⟨published, ⟨name, t, other, rest, ?_, hloaded, hne, by cases hd; rfl⟩,
      hpublishes, hnew⟩
    rw [hexplore, ← htypes, ← hpending]
  · refine .inl (publish_of_known (fun e he => ?_) hok)
    cases hr : Entries.find? s₁.registry e.1 with
    | none => exact absurd ⟨e, he, hr⟩ hnew
    | some slot =>
      cases slot with
      | loading cyclic => exact absurd hr (hs₁.unmarked e.1 cyclic)
      | ready u => exact ⟨u, rfl⟩

/-! ## Answers after a failed scan -/

/-- Whatever the computation does: what it has registered passes its check, or a look-up has stopped it. -/
def Thorough (schema : Schema σ) (x : Lookup σ α) : Prop :=
  ∀ s, (s.Later (x.after s) ∧ schema.CertifiedSince s (x.after s)) ∨
    ∃ stop s', x s = .error stop s' ∧
      ∃ name s₁, s.Later s₁ ∧ schema.find name s₁ = .error stop s'

theorem thorough_of_same (h : ∀ s, s.Later (x.after s) ∧ (x.after s).registry = s.registry) :
    schema.Thorough x :=
  fun s => .inl ⟨(h s).1, fun _ _ _ ht _ => .inl ((h s).2 ▸ ht)⟩

theorem thorough_of_unchanged (h : ∀ s, x.after s = s) : schema.Thorough x :=
  thorough_of_same fun s => by rw [h s]; exact ⟨.refl s, rfl⟩

theorem Thorough.bind (hx : schema.Thorough x) (hf : ∀ a, schema.Thorough (f a)) :
    schema.Thorough (x >>= f) := by
  intro s
  rcases hx s with ⟨hl, hc⟩ | ⟨stop, s', hstop, name, s₁, hl, hfind⟩
  · cases h : x s with
    | error stop s₁ =>
      rw [after_of_error h] at hl hc
      exact .inl (by rw [after_of_error (bind_of_error h)]; exact ⟨hl, hc⟩)
    | ok a s₁ =>
      rw [after_of_ok h] at hl hc
      rcases hf a s₁ with ⟨hl', hc'⟩ | ⟨stop, s', hstop, name, s₂, hl', hfind⟩
      · exact .inl (by rw [after_bind_of_ok h]; exact ⟨hl.trans hl', hc.trans hl' hc'⟩)
      · exact .inr ⟨stop, s', (bind_of_ok h).trans hstop, name, s₂, hl.trans hl', hfind⟩
  · exact .inr ⟨stop, s', bind_of_error hstop, name, s₁, hl, hfind⟩

theorem respects_thorough (schema : Schema σ) : Respects schema fun x _ => schema.Thorough x where
  pure _ := thorough_of_unchanged fun _ => rfl
  stop _ _ := thorough_of_unchanged fun _ => rfl
  force r := thorough_of_same fun s => ⟨(later_after_force r s).1, (later_after_force r s).2.1⟩
  refuse _ _ := thorough_of_unchanged fun _ => rfl
  bind := Thorough.bind

section

variable {given : String → Option Ty} {names : Finset String} {base : Session σ}

theorem Supply.thorough_require (hg : schema.Supply given names) (name : String) :
    schema.Thorough (schema.find.require name) := by
  refine Thorough.bind (fun s => ?_) fun t? => ?_
  · cases h : schema.find name s with
    | error stop s' => exact .inr ⟨stop, s', rfl, name, s, .refl s, h⟩
    | ok found s' =>
      rw [after_of_ok h]
      exact .inl (hg.gains_findWithin schema.limit name s found s' h)
  · cases t? with
    | none => exact thorough_of_unchanged fun _ => rfl
    | some t => exact thorough_of_unchanged fun _ => rfl

theorem Honest.warned (hs : schema.Honest given base s) :
    schema.Honest given base (schema.warned s) where
  tidy := (onward_of_same (by simp) (by simp)).tidy hs.tidy
  loyal name t ht := hs.loyal name t (by rwa [registry_warned] at ht)
  later := hs.later.trans (schema.later_warned s)
  unmarked name cyclic hc := hs.unmarked name cyclic (by rwa [registry_warned] at hc)

theorem Supply.honest_explore (hg : schema.Supply given names) (hs : schema.Honest given base s)
    (seeds : List NamedType) :
    schema.Honest given base ((schema.explore schema.find seeds).after s) := by
  have ho : s.Onward schema ((schema.explore schema.find seeds).after s) :=
    ((respects_beside schema s).explore (schema.congruent_withLoader (some (supplier given)))
      (beside_require (beside_find hg.loads fun _ _ => rfl)) seeds s hs.tidy (.refl s)).onward
  have hloyal : schema.Loyal given base ((schema.explore schema.find seeds).after s) :=
    (respects_preserves schema given base).explore_same
      (preserves_require (hg.preserves_findWithin schema.limit)) seeds s hs.toLoyal
  exact ⟨hloyal, hs.later.trans ho.later, ho.unmarked hs.unmarked⟩

/-- **What is answered before a scan has looked is answered after it**; all answers are the same, unless a
look-up that failed has stopped the scan. -/
theorem Supply.answers_after_explore (hg : schema.Supply given names) (ht : s.Tidy schema)
    (hm : ∀ name cyclic, Entries.find? s.registry name ≠ some (.loading cyclic))
    (seeds : List NamedType)
    (hs' : (schema.explore schema.find seeds).after (schema.warned s) = s') :
    (∀ name found, (schema.find name).answer? s = some found →
      (schema.find name).answer? s' = some found) ∧
    ((∀ name, (schema.find name).answer? s' = (schema.find name).answer? s) ∨
      ∃ stop, schema.explore schema.find seeds (schema.warned s) = .error stop s' ∧
        ∃ name s₁, s.Later s₁ ∧ schema.find name s₁ = .error stop s') := by
  have hs : schema.Honest given s s := ⟨⟨ht, fun _ _ h => .inl h⟩, .refl s, hm⟩
  have hhonest : schema.Honest given s s' := hs' ▸ hg.honest_explore hs.warned seeds
  have kept (name : String) (found : Option NamedType) (h : (schema.find name).answer? s = some found) :
      (schema.find name).answer? s' = some found :=
    hg.answer?_of_certifiedSince hs (.refl s) h hhonest
  refine ⟨kept, ?_⟩
  rcases (respects_thorough schema).explore_same hg.thorough_require seeds (schema.warned s) with
    ⟨-, hc⟩ | ⟨stop, s₂, hstop, name, s₁, hl, hfind⟩
  · rw [hs'] at hc
    have hcertified : schema.CertifiedSince s s' := fun name t e ht' he =>
      (hc name t e ht' he).imp_left fun hw => by rwa [registry_warned] at hw
    exact .inl fun name => Option.ext fun found =>
      ⟨fun h => hg.answer?_of_certifiedSince hhonest hcertified h hs, kept name found⟩
  · rw [after_of_error hstop] at hs'
    subst hs'
    exact .inr ⟨stop, hstop, name, s₁, (schema.later_warned s).trans hl, hfind⟩

/-- Without a loader, the answer is what the name stands for. -/
theorem answer?_of_eager (hl : schema.loader? = none)
    (h : Entries.find? s'.registry name = Entries.find? s.registry name) :
    (schema.find name).answer? s' = (schema.find name).answer? s := by
  unfold Lookup.answer? find
  rw [findWithin_eq, findWithin_eq, h, hl]
  cases Entries.find? s.registry name with
  | none => rfl
  | some slot => cases slot <;> rfl

end

/-! ## Failed scans -/

/-- A session of a schema in use, between the calls. -/
inductive InUse (schema : Schema σ) : Session σ → Prop
  /-- To start with, nothing is registered. -/
  | start {s : Session σ} (empty : s.registry = []) : InUse schema s
  /-- Types are registered, as far as they can be. -/
  | register {s : Session σ} (declared : List Ty) (before : InUse schema s) :
      InUse schema ((schema.register declared).after s)
  /-- The schema is asked for something, however that ends. -/
  | inquire {s : Session σ} (q : Inquiry) (before : InUse schema s) :
      InUse schema ((schema.inquire q).after s)
  /-- Something else changes: the application, the warnings, which references have been forced. -/
  | beside {s s' : Session σ} (before : InUse schema s) (registry : s'.registry = s.registry) :
      InUse schema s'

/-- Between the calls, every name occurs once and stands for a type of that name. -/
theorem InUse.tidy (h : schema.InUse s) :
    s.Tidy schema ∧ ∀ name cyclic, Entries.find? s.registry name ≠ some (.loading cyclic) := by
  induction h with
  | start empty =>
    refine ⟨⟨?_, ?_⟩, ?_⟩ <;> simp [empty, Entries.keys]
  | @register s declared before ih =>
    have ho := (beside_register s declared s ih.1 (.refl s)).onward
    exact ⟨ho.tidy ih.1, ho.unmarked ih.2⟩
  | inquire q before ih =>
    have ho := onward_inquire q ih.1
    exact ⟨ho.tidy ih.1, ho.unmarked ih.2⟩
  | beside before registry ih =>
    exact ⟨⟨registry ▸ ih.1.nodup, registry ▸ ih.1.named⟩, registry ▸ ih.2⟩

/-- What a scan that fails leaves: what its look-ups have loaded, and, if it has failed while it was
publishing, what it has published by then. -/
structure Abandoned (schema : Schema σ) (s : Session σ) (d : Defect) (loads : Entries NamedType)
    (s₁ s' : Session σ) : Prop where
  /-- Up to here, the scan has only looked for types. -/
  looked : (schema.explore schema.find s.readyTypes).after (schema.warned s) = s₁
  /-- Its look-ups have loaded some types. -/
  loaded : schema.Acquires (schema.warned s) loads s₁
  /-- These are registered, and so is what was registered before, and nothing else. -/
  slots : ∀ name, Entries.find? s₁.registry name =
    (Entries.find? s.registry name).or ((Entries.find? loads name).map .ready)
  /-- The scan leaves this, or has published some types. -/
  published : s' = s₁ ∨ ∃ published, schema.HalfPublished s loads published d s₁ s'
  /-- The schema is not taken to be complete, unless it was before. -/
  complete : s'.complete = s.complete
  /-- A name that stood for a type stands for it. -/
  kept : ∀ name t, Entries.find? s.registry name = some (.ready t) →
    schema.find name s' = .ok (some t) s'
  /-- Without a loader, nothing is registered, and all answers are as before. -/
  eager : schema.loader? = none → loads = [] ∧ s' = s₁ ∧
    ∀ name, (schema.find name).answer? s' = (schema.find name).answer? s
  /-- With a loader that always gives the same, where nothing has been published, what was answered before is
  answered still, and all answers are as before, unless a look-up that failed has stopped the scan. -/
  answers : s' = s₁ → ∀ given names, schema.Supply given names →
    (∀ name found, (schema.find name).answer? s = some found →
      (schema.find name).answer? s' = some found) ∧
    ((∀ name, (schema.find name).answer? s' = (schema.find name).answer? s) ∨
      ∃ name s₂, s.Later s₂ ∧ schema.find name s₂ = .error (.defect d) s')

/-- **What a failed scan leaves.** Take a schema with a loader that does not come back to it, or without one. A
scan that fails leaves what its look-ups have loaded, and what was there before, and nothing else; unless a
look-up has loaded another instance of a type that the scan has found by reference: the types that the scan
has published before it comes to this one stay registered. -/
theorem failed_scan_leaves (hp : schema.Plain) (hs : schema.InUse s) {d : Defect}
    (h : schema.scan s = .error (.defect d) s') :
    ∃ loads s₁, schema.Abandoned s d loads s₁ s' := by
  obtain ⟨ht, hm⟩ := hs.tidy
  have hidle : s.Idle := ⟨ht.nodup, hm⟩
  have hwarned : (schema.warned s).Idle := hidle.of_registry (by simp)
  have hcases := scan_error h
  have hstop : ∀ stop s₂, schema.explore schema.find s.readyTypes (schema.warned s) = .error stop s₂ →
      stop = .defect d := by
    intro stop s₂ hstop
    rcases hcases with hx | ⟨found, s₁, hx, -⟩ <;> rw [hstop] at hx <;> cases hx
    rfl
  obtain ⟨loads, hloads⟩ := traced_explore hp s.readyTypes (schema.warned s) hwarned
    fun stop s₂ hx => ⟨d, hstop stop s₂ hx⟩
  generalize hs₁ : (schema.explore schema.find s.readyTypes).after (schema.warned s) = s₁ at *
  obtain ⟨hidle₁, hpublishes, hcomplete, -⟩ := hloads.registers hwarned
  have hslots := hpublishes.find?_eq hwarned
  simp only [registry_warned] at hslots
  obtain ⟨hs', hlater, hcomplete'⟩ :
      (s' = s₁ ∨ ∃ published, schema.HalfPublished s loads published d s₁ s') ∧ s₁.Later s' ∧
        s'.complete = s₁.complete := by
    rcases hcases with hx | ⟨found, s₂, hx, hpublish⟩
    · obtain rfl := (after_of_error hx).symm.trans hs₁
      exact ⟨.inl rfl, .refl s', rfl⟩
    · obtain rfl := (after_of_ok hx).symm.trans hs₁
      exact published_of_conflict hp ht hidle₁ ⟨(schema.later_warned s).trans hpublishes.later,
        hpublishes.ready, fun name slot hr => by simpa using hpublishes.new name slot hr⟩ hx hpublish
  refine ⟨loads, s₁, hs₁, hloads, hslots, hs', hcomplete'.trans (by simpa using hcomplete), fun name t hr => ?_,
    fun hl => ?_, ?_⟩
  · refine findWithin_of_ready _ (hlater.ready name t ?_)
    rw [hslots, hr]
    rfl
  · have hnil := hloads.eq_nil hl
    obtain rfl : s' = s₁ := by
      refine hs'.resolve_right ?_
      rintro ⟨published, ⟨name, t, other, rest, -, hmem, -⟩, -, -⟩
      rw [hnil] at hmem
      cases hmem
    refine ⟨hnil, rfl, fun name => answer?_of_eager hl ?_⟩
    rw [hslots name, hnil]
    simp
  · rintro rfl given names hg
    obtain ⟨hkept, hanswers⟩ := hg.answers_after_explore ht hm s.readyTypes hs₁
    refine ⟨hkept, hanswers.imp_right ?_⟩
    rintro ⟨stop, hx, name, s₂, hl, hfind⟩
    exact ⟨name, s₂, hl, hstop stop s' hx ▸ hfind⟩

end Schema

/-! ## A scan that leaves more -/

namespace Sample

/-- An entity with links. -/
def shopEntity (name : String) (links : List (String × TypeRef)) : Entity Unit where
  name
  resolve _ _ := pure (.ready .null)
  links := links.map fun (link, target) =>
    { label := { name := link }, target, resolve := fun _ _ => pure (.ready .null) }

/-- What the loader gives: an order, and another item. -/
def givenShop : String → Option Ty
  | "Order" => some (.base (.defined ⟨3, 0⟩))
  | "Item" => some (.base (.defined ⟨2, 1⟩))
  | _ => none

/-- A shop refers to its owner and to its item directly, and to an order by name; the order refers to an item
by name. -/
def shopSchema : Schema Unit where
  define id := .entity <|
    match id.serial with
    | 0 => shopEntity "Shop" [("owner", .direct (.base (.defined ⟨1, 0⟩))),
        ("item", .direct (.base (.defined ⟨2, 0⟩))), ("order", .named "Order")]
    | 1 => shopEntity "Owner" []
    | 2 => shopEntity "Item" []
    | _ => shopEntity "Order" [("item", .named "Item")]
  target _ := .base (.standard .string)
  loader? := some fun name => .done (givenShop name)
  limit := 30

/-- The session that the schema starts with, where the shop is declared. -/
def shopSession : Session Unit where
  registry := Standard.all.map (fun k => (k.name, .ready (.standard k))) ++
    [("Shop", .ready (.defined ⟨0, 0⟩))]
  app := ()

/-- The session after a scan has failed. -/
def shopLeft : Session Unit := shopSchema.scan.after shopSession

theorem plain_shop : shopSchema.Plain := by
  rintro _ ⟨⟩ name
  trivial

theorem inUse_shop : shopSchema.InUse shopSession :=
  have h : (shopSchema.register (Standard.all.map (fun k => .base (.standard k)) ++
      [.base (.defined ⟨0, 0⟩)])).after { app := () } = shopSession := rfl
  h ▸ .register _ (.start rfl)

end Sample

theorem failed_scan_leaves_shop :
    Sample.shopSchema.scan.defect? Sample.shopSession = some (.duplicateType "Item") ∧
    ∃ loads s₁, Sample.shopSchema.Abandoned Sample.shopSession (.duplicateType "Item") loads s₁
      Sample.shopLeft := by
  have hdefect : Sample.shopSchema.scan.defect? Sample.shopSession = some (.duplicateType "Item") := by
    decide +kernel
  exact ⟨hdefect, Schema.failed_scan_leaves Sample.plain_shop Sample.inUse_shop
    (defect?_eq_some.mp hdefect)⟩

/-- **A failed scan may leave what only references lead to.** The owner is unknown by name. A scan finds the
owner and the item of the shop, and looks up the order, which registers another item; publishing stops at the
item, and the owner, published before it, is found from then on. -/
theorem failed_scan_publishes :
    (Sample.shopSchema.find "Owner").answer? Sample.shopSession = some none ∧
    Sample.shopSchema.scan.defect? Sample.shopSession = some (.duplicateType "Item") ∧
    Entries.find? Sample.shopLeft.registry "Owner" = some (.ready (.defined ⟨1, 0⟩)) ∧
    (Sample.shopSchema.find "Owner").answer? Sample.shopLeft = some (some (.defined ⟨1, 0⟩)) := by
  decide +kernel

end EntityQuery
