import EntityQuery.Proofs.Schema.Graph
import EntityQuery.Proofs.Schema.Scanning

/-!
# Where a scan goes

A scan without a loader goes through the graph of types. What it finds is what can be reached, unless it
stops at a defect: at two types of one name, or at a name that stands for nothing.

* `Lookup.Meets`: what comes of a computation.
* `Schema.Inside`, `Schema.Explores`: what a traversal has found lies in the graph, and nothing that its
  references end in is left out.
* **`Schema.meets_collect`**: the traversal of a definition. **`Schema.meets_scan`**: a scan finds what can
  be reached.
-/

namespace EntityQuery

open Lookup Session

variable {σ α β : Type}

/-! ## What comes of a computation -/

namespace Lookup

/-- Where the computation succeeds, `Q` holds of what it gives; where it stops at a defect, `E` holds. -/
structure Meets (x : Lookup σ α) (s : Session σ) (Q : α → Session σ → Prop) (E : Prop) : Prop where
  ok : ∀ a s', x s = .ok a s' → Q a s'
  defect : ∀ d s', x s = .error (.defect d) s' → E

variable {x : Lookup σ α} {f : α → Lookup σ β} {s : Session σ} {P : α → Session σ → Prop}
  {Q : β → Session σ → Prop} {E : Prop}

theorem meets_pure {a : α} (h : P a s) : (pure a : Lookup σ α).Meets s P E :=
  ⟨fun _ _ he => (by cases he; exact h), fun _ _ he => (by cases he)⟩

theorem meets_defect {d : Defect} (h : E) : (Lookup.defect d : Lookup σ α).Meets s P E :=
  ⟨fun _ _ he => (by cases he), fun _ _ _ => h⟩

theorem meets_get : (get : Lookup σ (Session σ)).Meets s (fun a s' => a = s ∧ s' = s) E :=
  ⟨fun _ _ he => (by cases he; exact ⟨rfl, rfl⟩), fun _ _ he => (by cases he)⟩

theorem meets_modify {g : Session σ → Session σ} :
    (modify g : Lookup σ PUnit).Meets s (fun _ s' => s' = g s) E :=
  ⟨fun _ _ he => (by cases he; rfl), fun _ _ he => (by cases he)⟩

theorem meets_exhausted : (throw .exhausted : Lookup σ α).Meets s P E :=
  ⟨fun _ _ he => (by cases he), fun _ _ he => (by cases he)⟩

theorem Meets.bind (hx : x.Meets s P E) (hf : ∀ a s', P a s' → (f a).Meets s' Q E) :
    (x >>= f).Meets s Q E := by
  cases hr : x s with
  | ok a s₁ =>
    have h := hf a s₁ (hx.ok a s₁ hr)
    exact ⟨fun b s' he => h.ok b s' (by rw [← he, bind_of_ok hr]),
      fun d s' he => h.defect d s' (by rw [← he, bind_of_ok hr])⟩
  | error e s₁ =>
    refine ⟨fun b s' he => ?_, fun d s' he => ?_⟩ <;> rw [bind_of_error hr] at he <;> cases he
    exact hx.defect d s₁ hr

theorem Meets.mono {P' : α → Session σ → Prop} {E' : Prop} (h : x.Meets s P E)
    (hP : ∀ a s', P a s' → P' a s') (hE : E → E') : x.Meets s P' E' :=
  ⟨fun a s' he => hP a s' (h.ok a s' he), fun d s' he => hE (h.defect d s' he)⟩

end Lookup

theorem Entries.find?_eq_some_iff {es : Entries α} (h : (keys es).Nodup) {key : String} {v : α} :
    find? es key = some v ↔ (key, v) ∈ es := by
  refine ⟨mem_of_find?, fun hmem => ?_⟩
  induction es with
  | nil => cases hmem
  | cons e rest ih =>
    obtain ⟨hne, hrest⟩ := List.nodup_cons.mp h
    rcases List.mem_cons.mp hmem with rfl | hmem
    · simp [find?]
    · have hk : e.1 ≠ key := fun he => hne (he ▸ List.mem_map_of_mem hmem)
      simpa [find?, hk] using ih hrest hmem

namespace Schema

variable {schema : Schema σ} {declared : List Ty} {s : Session σ}

/-! ## The traversal -/

/-- **What a reference ends in** is found without a defect. -/
theorem meets_tipWithin (declared : List Ty) (fuel : Nat) (r : TypeRef) (s : Session σ) :
    (r.tipWithin schema fuel).Meets s
      (fun tip s' => (schema.graph declared).Ends r tip ∧ s'.registry = s.registry) False := by
  induction fuel generalizing r s with
  | zero =>
    cases r with
    | named name => exact meets_pure ⟨.named name, rfl⟩
    | direct t => exact meets_exhausted
    | lazy r => exact meets_exhausted
  | succ fuel ih =>
    have ofType : ∀ (t : Ty) s, (t.tipWith (TypeRef.tipWithin schema fuel)).Meets s
        (fun tip s' => (schema.graph declared).Ends (.direct t) tip ∧ s'.registry = s.registry)
        False := by
      intro t s
      cases t with
      | base t => exact meets_pure ⟨.base t, rfl⟩
      | nonNull id inner => exact (ih inner s).mono (fun _ _ h => ⟨.nonNull h.1, h.2⟩) False.elim
      | listOf id inner => exact (ih inner s).mono (fun _ _ h => ⟨.listOf h.1, h.2⟩) False.elim
    cases r with
    | named name => exact meets_pure ⟨.named name, rfl⟩
    | direct t => exact ofType t s
    | lazy r =>
      have hforce : (schema.force r).Meets s
          (fun t s' => t = schema.target r ∧ s'.registry = s.registry) False := by
        unfold force
        refine ⟨fun t s' he => ?_, fun d s' he => ?_⟩ <;> split at he <;> cases he <;> exact ⟨rfl, rfl⟩
      refine hforce.bind fun t s₁ ⟨ht, hs⟩ => ?_
      subst ht
      exact (ofType _ s₁).mono (fun _ _ h => ⟨.lazy h.1, h.2.trans hs⟩) id

variable (schema declared) in
/-- What has been found lies in the graph: types under their own names, and names that are referred
to. -/
structure Inside (found : Found) : Prop where
  nodup : (Entries.keys found.types).Nodup
  types : ∀ name t, Entries.find? found.types name = some t → (schema.graph declared).Denotes name t
  pending : ∀ name ∈ found.pending, ∃ t e, (schema.graph declared).Reaches t ∧
    schema.entity? t = some e ∧ ∃ r ∈ e.references, (schema.graph declared).Ends r (.inl name)

variable (schema) in
/-- A name has been found or is left to look up; a definition has been found. -/
def Covers (found : Found) : String ⊕ NamedType → Prop
  | .inl name => name ∈ found.pending ∨ Entries.has found.types name = true
  | .inr t => schema.Holds found.types t

variable (schema declared) in
/-- All that the references of an entity end in has been found or is left to look up. -/
def Surrounds (found : Found) (t : NamedType) : Prop :=
  ∀ e, schema.entity? t = some e → ∀ r ∈ e.references, ∀ tip,
    (schema.graph declared).Ends r tip → schema.Covers found tip

variable (schema declared) in
/-- More has been found, and what is new has been gone through. -/
structure Explores (found found' : Found) : Prop where
  grows : Grows found.types found'.types
  pending : ∀ name ∈ found.pending, name ∈ found'.pending
  surrounds : ∀ t, schema.Holds found'.types t →
    schema.Holds found.types t ∨ schema.Surrounds declared found' t

theorem Covers.mono {found found' : Found} {tip : String ⊕ NamedType} (h : schema.Covers found tip)
    (hg : Grows found.types found'.types) (hp : ∀ name ∈ found.pending, name ∈ found'.pending) :
    schema.Covers found' tip := by
  cases tip with
  | inl name =>
    refine h.imp (hp name) fun hn => ?_
    obtain ⟨t, ht⟩ := Option.isSome_iff_exists.mp hn
    exact Option.isSome_iff_exists.mpr ⟨t, hg name t ht⟩
  | inr t => exact hg.holds h

theorem Explores.refl (found : Found) : schema.Explores declared found found :=
  ⟨.refl _, fun _ h => h, fun _ h => .inl h⟩

theorem Explores.trans {found found' found'' : Found} (h : schema.Explores declared found found')
    (h' : schema.Explores declared found' found'') : schema.Explores declared found found'' := by
  refine ⟨h.grows.trans h'.grows, fun name hn => h'.pending name (h.pending name hn), fun t ht => ?_⟩
  rcases h'.surrounds t ht with ht | hs
  · exact (h.surrounds t ht).imp_right fun hs e he r hr tip htip =>
      (hs e he r hr tip htip).mono h'.grows h'.pending
  · exact .inr hs

theorem inside_empty : schema.Inside declared {} :=
  ⟨List.nodup_nil, fun _ _ h => (by cases h), fun _ h => (by cases h)⟩

/-- A definition of the graph that has no name among the types yet is added. -/
theorem Inside.insert {found : Found} (h : schema.Inside declared found) {t : NamedType}
    (ht : (schema.graph declared).Reaches t) : schema.Inside declared
      { found with types := Entries.insert found.types (schema.nameOf t) t } where
  nodup := Entries.nodup_keys_insert h.nodup _ _
  types name t' ht' := by
    rw [Entries.find?_insert] at ht'
    split at ht'
    · next hn =>
      cases ht'
      exact ⟨ht, hn⟩
    · exact h.types name t' ht'
  pending := h.pending

section

variable {fuel : Nat} {t : NamedType} {found : Found}

theorem collect_of_found (schema : Schema σ) (h : schema.Holds found.types t) :
    schema.collect (fuel + 1) t found = pure found := by
  unfold collect
  simp only
  rw [h]
  exact if_pos rfl

theorem collect_of_other (schema : Schema σ) {other : NamedType}
    (h : Entries.find? found.types (schema.nameOf t) = some other) (hne : other ≠ t) :
    schema.collect (fuel + 1) t found = Lookup.defect (.duplicateType (schema.nameOf t)) := by
  unfold collect
  simp only
  rw [h]
  exact if_neg hne

theorem collect_of_scalar (schema : Schema σ) (h : Entries.find? found.types (schema.nameOf t) = none)
    (ht : schema.entity? t = none) : schema.collect (fuel + 1) t found =
      pure { found with types := Entries.insert found.types (schema.nameOf t) t } := by
  unfold collect
  simp only
  rw [h]
  revert ht
  unfold entity?
  cases schema.definition t <;> intro ht
  · rfl
  · cases ht

theorem collect_of_entity (schema : Schema σ) (h : Entries.find? found.types (schema.nameOf t) = none) {e : Entity σ}
    (ht : schema.entity? t = some e) : schema.collect (fuel + 1) t found =
      e.references.foldlM (schema.collectReference fuel)
        { found with types := Entries.insert found.types (schema.nameOf t) t } := by
  unfold collect
  simp only
  rw [h]
  revert ht
  unfold entity?
  cases schema.definition t <;> intro ht <;> cases ht
  rfl

end

/-- What collecting a definition of the graph does, with so much fuel. -/
def CollectsWithin (schema : Schema σ) (declared : List Ty) (fuel : Nat) : Prop :=
  ∀ (t : NamedType) (found : Found) (s : Session σ), (schema.graph declared).Reaches t →
    schema.Inside declared found → (schema.collect fuel t found).Meets s
      (fun found' s' => s'.registry = s.registry ∧ schema.Inside declared found' ∧
        schema.Explores declared found found' ∧ schema.Holds found'.types t)
      (¬(schema.graph declared).Unique)

section

variable {fuel : Nat} {t : NamedType} {e : Entity σ} {found : Found}

theorem meets_collectReference (hcollect : schema.CollectsWithin declared fuel)
    (ht : (schema.graph declared).Reaches t) (he : schema.entity? t = some e) {r : TypeRef}
    (hr : r ∈ e.references) (s : Session σ) (h : schema.Inside declared found) :
    (schema.collectReference fuel found r).Meets s
      (fun found' s' => s'.registry = s.registry ∧ schema.Inside declared found' ∧
        schema.Explores declared found found' ∧
        ∀ tip, (schema.graph declared).Ends r tip → schema.Covers found' tip)
      (¬(schema.graph declared).Unique) := by
  refine ((meets_tipWithin declared schema.limit r s).mono (fun _ _ h => h) False.elim).bind
    fun tip s₁ ⟨htip, hs₁⟩ => ?_
  cases tip with
  | inl name =>
    refine meets_pure ⟨hs₁, ⟨h.nodup, h.types, List.forall_mem_cons.mpr
      ⟨⟨t, e, ht, he, r, hr, htip⟩, h.pending⟩⟩, ⟨.refl _, fun _ hn => List.mem_cons_of_mem _ hn,
      fun _ ht => .inl ht⟩, fun tip htip' => ?_⟩
    rw [← htip.unique htip']
    exact .inl List.mem_cons_self
  | inr t' =>
    refine (hcollect t' found s₁ (.step ht he hr htip) h).mono
      (fun found' s' ⟨hs, hin, hex, hh⟩ => ⟨hs.trans hs₁, hin, hex, fun tip htip' => ?_⟩) id
    rw [← htip.unique htip']
    exact hh

theorem meets_collectReferences (hcollect : schema.CollectsWithin declared fuel)
    (ht : (schema.graph declared).Reaches t) (he : schema.entity? t = some e) {refs : List TypeRef}
    (hrefs : ∀ r ∈ refs, r ∈ e.references) (s : Session σ) (h : schema.Inside declared found) :
    (refs.foldlM (schema.collectReference fuel) found).Meets s
      (fun found' s' => s'.registry = s.registry ∧ schema.Inside declared found' ∧
        schema.Explores declared found found' ∧
        ∀ r ∈ refs, ∀ tip, (schema.graph declared).Ends r tip → schema.Covers found' tip)
      (¬(schema.graph declared).Unique) := by
  induction refs generalizing found s with
  | nil => exact meets_pure ⟨rfl, h, .refl found, fun _ hr => by cases hr⟩
  | cons r rest ih =>
    obtain ⟨hr, hrest⟩ := List.forall_mem_cons.mp hrefs
    refine (meets_collectReference hcollect ht he hr s h).bind fun found₁ s₁ ⟨hs₁, h₁, hex₁, hr₁⟩ => ?_
    refine (ih hrest s₁ h₁).mono (fun found' s' ⟨hs, hin, hex, hc⟩ => ⟨hs.trans hs₁, hin,
      hex₁.trans hex, List.forall_mem_cons.mpr ⟨fun tip htip => ?_, hc⟩⟩) id
    exact (hr₁ tip htip).mono hex.grows hex.pending

end

/-- **Collecting a definition goes through all that can be reached from it**, and stops only at two
definitions of one name. -/
theorem meets_collect (schema : Schema σ) (declared : List Ty) (fuel : Nat) :
    schema.CollectsWithin declared fuel := by
  induction fuel with
  | zero => exact fun _ _ _ _ _ => meets_exhausted
  | succ fuel ih =>
    intro t found s ht h
    cases hf : Entries.find? found.types (schema.nameOf t) with
    | some other =>
      by_cases he : other = t
      · subst he
        rw [collect_of_found schema hf]
        exact meets_pure ⟨rfl, h, .refl found, hf⟩
      · rw [collect_of_other schema hf he]
        exact meets_defect fun hu => he (hu _ _ _ (h.types _ _ hf) ⟨ht, rfl⟩)
    | none =>
      have hin := h.insert ht
      -- the definition itself is new; all else that is new has been gone through
      have hnew : ∀ {found' : Found}, (∀ t', schema.Holds found'.types t' →
            schema.Holds (Entries.insert found.types (schema.nameOf t) t) t' ∨
              schema.Surrounds declared found' t') → schema.Surrounds declared found' t →
          ∀ t', schema.Holds found'.types t' →
            schema.Holds found.types t' ∨ schema.Surrounds declared found' t' := by
        intro found' hs hself t' ht'
        rcases hs t' ht' with ht' | ht'
        · rcases holds_insert ht' with rfl | ht'
          · exact .inr hself
          · exact .inl ht'
        · exact .inr ht'
      cases he : schema.entity? t with
      | none =>
        rw [collect_of_scalar schema hf he]
        refine meets_pure ⟨rfl, hin, ⟨grows_insert hf, fun _ hn => hn,
          hnew (fun _ ht' => .inl ht') fun e he' => ?_⟩, holds_insert_self⟩
        rw [he] at he'
        cases he'
      | some e =>
        rw [collect_of_entity schema hf he]
        refine (meets_collectReferences ih ht he (fun _ hr => hr) s hin).mono
          (fun found' s' ⟨hs, hin', hex, hc⟩ => ⟨hs, hin', ⟨(grows_insert hf).trans hex.grows,
            hex.pending, hnew hex.surrounds fun e' he' => ?_⟩,
            hex.grows.holds holds_insert_self⟩) id
        rw [he] at he'
        cases he'
        exact hc

theorem meets_collectAll {seeds : List NamedType} {found : Found}
    (hseeds : ∀ t ∈ seeds, (schema.graph declared).Reaches t) (s : Session σ)
    (h : schema.Inside declared found) :
    (seeds.foldlM (fun found t => schema.collect schema.limit t found) found :
      Lookup σ Found).Meets s
      (fun found' s' => s'.registry = s.registry ∧ schema.Inside declared found' ∧
        schema.Explores declared found found' ∧ ∀ t ∈ seeds, schema.Holds found'.types t)
      (¬(schema.graph declared).Unique) := by
  induction seeds generalizing found s with
  | nil => exact meets_pure ⟨rfl, h, .refl found, fun _ ht => by cases ht⟩
  | cons t rest ih =>
    obtain ⟨ht, hrest⟩ := List.forall_mem_cons.mp hseeds
    refine (schema.meets_collect declared schema.limit t found s ht h).bind
      fun found₁ s₁ ⟨hs₁, h₁, hex₁, ht₁⟩ => ?_
    exact (ih hrest s₁ h₁).mono (fun found' s' ⟨hs, hin, hex, hr⟩ => ⟨hs.trans hs₁, hin,
      hex₁.trans hex, List.forall_mem_cons.mpr ⟨hex.grows.holds ht₁, hr⟩⟩) id

section

variable {name : String}

theorem require_of_none (hl : schema.loader? = none)
    (h : Entries.find? s.registry name = none) :
    schema.find.require name s = .error (.defect (.unknownType name)) s := by
  have hfind : schema.find name s = .ok none s := by
    rw [find, findWithin_eq, h, hl]
    rfl
  rw [Finder.require, bind_of_ok hfind]
  rfl

theorem require_of_ready {t : NamedType} (h : Entries.find? s.registry name = some (.ready t)) :
    schema.find.require name s = .ok t s := by
  have hfind : schema.find name s = .ok (some t) s := findWithin_of_ready _ h
  rw [Finder.require, bind_of_ok hfind]
  rfl

end

/-- **Looking up the names that are left** refuses those that have not been found: only what the scan has
started with is registered. -/
theorem meets_collectPending (hl : schema.loader? = none) (fuel : Nat) (found : Found) (s : Session σ)
    (hs : ∀ name slot, Entries.find? s.registry name = some slot →
      Entries.has found.types name = true) :
    (schema.collectPending schema.find fuel found).Meets s
      (fun found' s' => s'.registry = s.registry ∧ found'.types = found.types ∧
        ∀ name ∈ found.pending, Entries.has found.types name = true)
      (∃ name ∈ found.pending, Entries.has found.types name ≠ true) := by
  induction fuel generalizing found with
  | zero => exact meets_exhausted
  | succ fuel ih =>
    obtain ⟨types, pending⟩ := found
    unfold collectPending
    cases pending with
    | nil => exact meets_pure ⟨rfl, rfl, fun _ hn => by cases hn⟩
    | cons name pending =>
      simp only
      split
      · next hn =>
        refine (ih ⟨types, pending⟩ hs).mono
          (fun _ _ h => ⟨h.1, h.2.1, List.forall_mem_cons.mpr ⟨hn, h.2.2⟩⟩) ?_
        rintro ⟨name', hmem, h⟩
        exact ⟨name', List.mem_cons_of_mem _ hmem, h⟩
      · next hn =>
        have hnone : Entries.find? s.registry name = none :=
          Option.eq_none_iff_forall_ne_some.mpr fun slot hr => hn (hs name slot hr)
        refine ⟨fun _ _ he => ?_, fun _ _ _ => ⟨name, List.mem_cons_self, hn⟩⟩
        rw [bind_of_error (require_of_none hl hnone)] at he
        cases he

/-! ## Registering what has been found -/

theorem meets_publish {types : Entries NamedType} {registered : Set NamedType} (s : Session σ)
    (htypes : ∀ e ∈ types, (schema.graph declared).Denotes e.1 e.2)
    (hregistered : ∀ t ∈ registered, (schema.graph declared).Reaches t)
    (hs : (schema.graph declared).Holds registered Slot.ready s.registry) :
    (publish types : Lookup σ Unit).Meets s
      (fun _ s' => (schema.graph declared).Holds {t | t ∈ registered ∨ ∃ e ∈ types, e.2 = t}
        Slot.ready s'.registry) (¬(schema.graph declared).Unique) := by
  induction types generalizing s registered with
  | nil => exact meets_pure (hs.congr fun t => by simp)
  | cons e rest ih =>
    obtain ⟨name, t⟩ := e
    obtain ⟨⟨ht, hname⟩, hrest⟩ := List.forall_mem_cons.mp htypes
    obtain rfl : schema.nameOf t = name := hname
    unfold publish
    refine meets_get.bind fun a s' h => ?_
    rw [h.1, h.2]
    cases hr : Entries.find? s.registry (schema.nameOf t) with
    | none =>
      refine meets_modify.bind fun _ s₁ hs₁ => ?_
      subst hs₁
      refine (ih (s.setSlot (schema.nameOf t) (.ready t)) hrest ?_
        (TypeGraph.Holds.insert hs hr)).mono (fun _ _ h => h.congr fun t' => ?_) id
      · rintro t' (rfl | ht')
        · exact ht
        · exact hregistered t' ht'
      · simp only [Set.mem_ofPred_eq, Set.mem_insert_iff, List.exists_mem_cons_iff]
        tauto
    | some slot =>
      obtain ⟨other, hother, hname, rfl⟩ := (hs.find?_iff _ _).mp hr
      simp only
      split
      · next he =>
        subst he
        refine (ih s hrest hregistered hs).mono (fun _ _ h => h.congr fun t' => ?_) id
        have hmem : other = t' → t' ∈ registered := fun he => he ▸ hother
        simp only [Set.mem_ofPred_eq, List.exists_mem_cons_iff]
        tauto
      · next hne =>
        exact meets_defect fun hu => hne (hu _ _ _ ⟨hregistered other hother, hname⟩ ⟨ht, rfl⟩)

/-! ## Scanning -/

section

variable {registered : Set NamedType} (hs : (schema.graph declared).Holds registered Slot.ready s.registry)

include hs

theorem mem_readyTypes_iff {t : NamedType} : t ∈ s.readyTypes ↔ t ∈ registered := by
  constructor
  · intro h
    obtain ⟨⟨name, slot⟩, hmem, he⟩ := List.mem_filterMap.mp h
    obtain ⟨t', ht', -, rfl⟩ := (hs.find?_iff _ _).mp ((Entries.find?_eq_some_iff hs.nodup).mpr hmem)
    cases he
    exact ht'
  · intro h
    exact List.mem_filterMap.mpr
      ⟨_, Entries.mem_of_find? ((hs.find?_iff _ _).mpr ⟨t, h, rfl, rfl⟩), rfl⟩

end

/-- Where everything that was found has been gone through, all that can be reached has been found. -/
theorem holds_of_reaches {found : Found} (hex : schema.Explores declared {} found)
    (hroots : ∀ t, (schema.graph declared).Root t → schema.Holds found.types t) {t : NamedType}
    (ht : (schema.graph declared).Reaches t) : schema.Holds found.types t := by
  induction ht with
  | root h => exact hroots _ h
  | step _ he hr htip ih =>
    rcases hex.surrounds _ ih with h | h
    · cases h
    · exact h _ he _ hr _ htip

theorem scan_eq_of_eager (hl : schema.loader? = none) : schema.scan = (do
    let seeds := (← get).readyTypes
    let found ← seeds.foldlM (fun found t => schema.collect schema.limit t found) {}
    let found ← schema.collectPending schema.find schema.limit found
    publish found.types
    modify fun s => { s with complete := true }
    return found.types) := by
  have hd : schema.onDemand = false := by simp [onDemand, hl]
  unfold scan scanWith
  rw [hd]
  rfl

/-- **A scan finds and registers what can be reached**, where all the roots of the graph are registered.
It refuses two types of one name, and names that stand for nothing. -/
theorem meets_scan (hl : schema.loader? = none) {registered : Set NamedType}
    (hroots : ∀ t, (schema.graph declared).Root t → t ∈ registered)
    (hregistered : ∀ t ∈ registered, (schema.graph declared).Reaches t)
    (hs : (schema.graph declared).Holds registered Slot.ready s.registry) :
    schema.scan.Meets s (fun types s' =>
        (schema.graph declared).Holds {t | (schema.graph declared).Reaches t} id types ∧
          (schema.graph declared).Registered s' ∧ (schema.graph declared).Known)
      (¬((schema.graph declared).Unique ∧ (schema.graph declared).Known)) := by
  have hseeds : ∀ {t}, t ∈ s.readyTypes ↔ t ∈ registered := mem_readyTypes_iff hs
  rw [scan_eq_of_eager hl]
  refine meets_get.bind fun s₀ s₁ ⟨hs₀, hs₁⟩ => ?_
  rw [hs₀, hs₁]
  refine ((meets_collectAll (fun t ht => hregistered t (hseeds.mp ht)) s inside_empty).mono
    (fun _ _ h => h) fun h hk => h hk.1).bind fun found s₂ ⟨hs₂, hin, hex, hheld⟩ => ?_
  have hall : ∀ {t}, (schema.graph declared).Reaches t → schema.Holds found.types t := fun ht =>
    holds_of_reaches hex (fun t ht => hheld t (hseeds.mpr (hroots t ht))) ht
  have hhas : ∀ {name t}, (schema.graph declared).Denotes name t →
      Entries.has found.types name = true := by
    rintro _ t ⟨ht, rfl⟩
    exact Option.isSome_iff_exists.mpr ⟨t, hall ht⟩
  have hpending := meets_collectPending hl schema.limit found s₂ fun name slot h => by
    rw [hs₂] at h
    obtain ⟨t, ht, hname, -⟩ := (hs.find?_iff _ _).mp h
    exact hhas ⟨hregistered t ht, hname⟩
  refine (hpending.mono (fun _ _ h => h) ?_).bind fun found' s₃ ⟨hs₃, htypes, hfound⟩ => ?_
  · rintro ⟨name, hname, hn⟩ ⟨-, hknown⟩
    obtain ⟨t, e, ht, he, r, hr, htip⟩ := hin.pending name hname
    obtain ⟨t', ht'⟩ := hknown t e ht he r hr name htip
    exact hn (hhas ht')
  have hknown : (schema.graph declared).Known := by
    intro t e ht he r hr name htip
    have hcovers : schema.Covers found (.inl name) := by
      rcases hex.surrounds t (hall ht) with h | h
      · cases h
      · exact h e he r hr _ htip
    obtain ⟨t', ht'⟩ := Option.isSome_iff_exists.mp (hcovers.elim (hfound name) id)
    exact ⟨t', hin.types name t' ht'⟩
  have hmem : ∀ e ∈ found.types, (schema.graph declared).Denotes e.1 e.2 := fun e he =>
    hin.types _ _ ((Entries.find?_eq_some_iff hin.nodup).mpr he)
  rw [htypes]
  refine ((meets_publish s₃ hmem hregistered (by rwa [hs₃, hs₂])).mono (fun _ _ h => h)
    fun h hk => h hk.1).bind fun _ s₄ hs₄ => ?_
  refine meets_modify.bind fun _ s₅ hs₅ => meets_pure ?_
  subst hs₅
  refine ⟨⟨fun name t => ⟨fun h => ?_, ?_⟩, hin.nodup⟩, hs₄.congr fun t => ⟨?_, fun ht => ?_⟩, hknown⟩
  · exact ⟨t, (hin.types name t h).1, (hin.types name t h).2, rfl⟩
  · rintro ⟨t, ht, rfl, rfl⟩
    exact hall ht
  · rintro (ht | ⟨e, he, rfl⟩)
    · exact hregistered t ht
    · exact (hmem e he).1
  · exact .inr ⟨_, Entries.mem_of_find? (hall ht), rfl⟩

end Schema

end EntityQuery
