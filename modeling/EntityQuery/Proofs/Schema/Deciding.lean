import EntityQuery.Proofs.Schema.Admission
import Mathlib.Data.Finset.Card

/-!
# Building a schema comes to an end

Where the wrappers of all references come to an end, and the types that can be reached have finitely many
names, a high enough limit makes no difference for building a schema without a loader: it succeeds, or it
stops at a defect.

* `Lookup.Decides`: a computation that comes to an end from some limit on.
* `Schema.within`: the same schema under another limit.
* **`Schema.decides_collect`**: the traversal; its measure is the number of names that have not been found.
* **`Schema.decides_scan`**, **`Schema.decides_build`**: scanning and building.
* **`Schema.build_accepts_iff`**: building accepts exactly the well-formed graphs.
-/

namespace EntityQuery

open Lookup Session

variable {σ α β : Type}

namespace Lookup

/-- From some limit on, the computation succeeds, always with the same result, of which `Q` holds; or from
some limit on it stops at a defect. -/
inductive Decides (x : Nat → Lookup σ α) (s : Session σ) (Q : α → Session σ → Prop) : Prop
  | ok (enough : Nat) (a : α) (s' : Session σ) (h : ∀ limit ≥ enough, x limit s = .ok a s')
      (hQ : Q a s')
  | defect (enough : Nat) (h : ∀ limit ≥ enough, ∃ d s', x limit s = .error (.defect d) s')

variable {x y : Nat → Lookup σ α} {f : Nat → α → Lookup σ β} {s : Session σ}
  {P P' : α → Session σ → Prop} {Q : β → Session σ → Prop}

theorem decides_get : Decides (fun _ => (get : Lookup σ (Session σ))) s fun a s' => a = s ∧ s' = s :=
  .ok 0 s s (fun _ _ => rfl) ⟨rfl, rfl⟩

theorem decides_pure {a : α} (h : P a s) : Decides (fun _ => pure a) s P :=
  .ok 0 a s (fun _ _ => rfl) h

theorem decides_defect (h : ∀ limit, ∃ d s', x limit s = .error (.defect d) s') : Decides x s P :=
  .defect 0 fun limit _ => h limit

theorem Decides.mono (h : Decides x s P) (hP : ∀ a s', P a s' → P' a s') : Decides x s P' := by
  cases h with
  | ok enough a s' h hQ => exact .ok enough a s' h (hP a s' hQ)
  | defect enough h => exact .defect enough h

theorem Decides.congr (h : Decides x s P) (hxy : ∀ limit, y limit = x limit) : Decides y s P := by
  rwa [funext hxy]

/-- The first step takes one from the limit. -/
theorem Decides.succ (h : Decides (fun limit => x (limit + 1)) s P) : Decides x s P := by
  cases h with
  | ok enough a s' h hQ =>
    refine .ok (enough + 1) a s' (fun limit hlimit => ?_) hQ
    rw [← Nat.sub_add_cancel (Nat.le_of_add_left_le hlimit)]
    exact h _ (Nat.le_sub_of_add_le hlimit)
  | defect enough h =>
    refine .defect (enough + 1) fun limit hlimit => ?_
    rw [← Nat.sub_add_cancel (Nat.le_of_add_left_le hlimit)]
    exact h _ (Nat.le_sub_of_add_le hlimit)

theorem Decides.bind (hx : Decides x s P)
    (hf : ∀ a s', P a s' → Decides (fun limit => f limit a) s' Q) :
    Decides (fun limit => x limit >>= f limit) s Q := by
  cases hx with
  | ok enough a s₁ hx hP =>
    cases hf a s₁ hP with
    | ok enough' b s' hf hQ =>
      refine .ok (max enough enough') b s' (fun limit hlimit => ?_) hQ
      exact (bind_of_ok (hx limit (le_of_max_le_left hlimit))).trans
        (hf limit (le_of_max_le_right hlimit))
    | defect enough' hf =>
      refine .defect (max enough enough') fun limit hlimit => ?_
      obtain ⟨d, s', h⟩ := hf limit (le_of_max_le_right hlimit)
      exact ⟨d, s', (bind_of_ok (hx limit (le_of_max_le_left hlimit))).trans h⟩
  | defect enough hx =>
    refine .defect enough fun limit hlimit => ?_
    obtain ⟨d, s', h⟩ := hx limit hlimit
    exact ⟨d, s', bind_of_error h⟩

/-- What is known of the result under every limit is known of the result in the end. -/
theorem Decides.and_meets (h : Decides x s P) {E : Prop} (hx : ∀ limit, (x limit).Meets s P' E) :
    Decides x s fun a s' => P a s' ∧ P' a s' := by
  cases h with
  | ok enough a s' h hP =>
    exact .ok enough a s' h ⟨hP, (hx enough).ok a s' (h enough le_rfl)⟩
  | defect enough h => exact .defect enough h

/-- Whatever the session, the computation comes to an end. -/
def Finishes (x : Nat → Lookup σ α) : Prop := ∀ s, Decides x s fun _ _ => True

theorem Finishes.bind (hx : Finishes x) (hf : ∀ a, Finishes fun limit => f limit a) :
    Finishes fun limit => x limit >>= f limit :=
  fun s => (hx s).bind fun a s' _ => hf a s'

theorem finishes_pure (a : α) : Finishes (σ := σ) fun _ => pure a := fun _ => decides_pure trivial

theorem finishes_defect (d : Nat → Defect) :
    Finishes fun limit => (Lookup.defect (d limit) : Lookup σ α) :=
  fun s => decides_defect fun limit => ⟨d limit, s, rfl⟩

theorem Finishes.forM {xs : List β} {g : Nat → β → Lookup σ PUnit}
    (hg : ∀ b ∈ xs, Finishes fun limit => g limit b) : Finishes fun limit => xs.forM (g limit) := by
  induction xs with
  | nil => exact finishes_pure _
  | cons b rest ih =>
    exact (hg b List.mem_cons_self).bind fun _ => ih fun b' hb => hg b' (List.mem_cons_of_mem _ hb)

end Lookup

namespace Schema

/-- The same schema under another limit. -/
def within (schema : Schema σ) (limit : Nat) : Schema σ := { schema with limit }

variable {schema : Schema σ} {declared : List Ty} {s : Session σ}

/-! ## The traversal -/

theorem tipWithin_of_ends {r : TypeRef} {tip : String ⊕ NamedType}
    (h : (schema.graph declared).Ends r tip) (s : Session σ) :
    ∃ enough s', s'.registry = s.registry ∧ ∀ fuel ≥ enough, ∀ limit,
      r.tipWithin (schema.within limit) fuel s = .ok tip s' := by
  induction h generalizing s with
  | named name => exact ⟨0, s, rfl, fun fuel _ limit => by cases fuel <;> rfl⟩
  | base t =>
    refine ⟨1, s, rfl, fun fuel hfuel limit => ?_⟩
    obtain ⟨fuel, rfl⟩ := Nat.exists_eq_add_of_le' hfuel
    rfl
  | nonNull _ ih =>
    obtain ⟨enough, s', hs', h⟩ := ih s
    refine ⟨enough + 1, s', hs', fun fuel hfuel limit => ?_⟩
    obtain ⟨fuel, rfl⟩ := Nat.exists_eq_add_of_le' hfuel
    exact h (fuel + enough) (Nat.le_add_left _ _) limit
  | listOf _ ih =>
    obtain ⟨enough, s', hs', h⟩ := ih s
    refine ⟨enough + 1, s', hs', fun fuel hfuel limit => ?_⟩
    obtain ⟨fuel, rfl⟩ := Nat.exists_eq_add_of_le' hfuel
    exact h (fuel + enough) (Nat.le_add_left _ _) limit
  | @lazy r _ _ ih =>
    obtain ⟨s₁, hs₁, hforce⟩ : ∃ s₁, s₁.registry = s.registry ∧
        schema.force r s = .ok (schema.target r) s₁ := by
      unfold force
      by_cases hr : s.isForced r = true
      · exact ⟨s, rfl, if_pos hr⟩
      · exact ⟨{ s with forced := r.id :: s.forced, app := schema.onForce r s.app }, rfl, if_neg hr⟩
    obtain ⟨enough, s', hs', h⟩ := ih s₁
    refine ⟨enough + 1, s', hs'.trans hs₁, fun fuel hfuel limit => ?_⟩
    obtain ⟨fuel, rfl⟩ := Nat.exists_eq_add_of_le' hfuel
    exact (bind_of_ok hforce).trans (h (fuel + enough + 1)
      ((Nat.le_add_left _ _).trans (Nat.le_succ _)) limit)

/-- More names have been found. -/
def Widens (types types' : Entries NamedType) : Prop :=
  ∀ name, Entries.has types name = true → Entries.has types' name = true

/-- How many of some names have not been found. -/
def unfound (names : Finset String) (types : Entries NamedType) : Nat :=
  (names.filter fun name => Entries.has types name ≠ true).card

theorem Widens.unfound_le {types types' : Entries NamedType} (h : Widens types types')
    (names : Finset String) : unfound names types' ≤ unfound names types :=
  Finset.card_le_card <| Finset.monotone_filter_right _ fun name _ hn => mt (h name) hn

theorem widens_insert (types : Entries NamedType) (name : String) (t : NamedType) :
    Widens types (Entries.insert types name t) := by
  intro other h
  unfold Entries.has at h ⊢
  rw [Entries.find?_insert]
  split
  · rfl
  · exact h

theorem has_insert_self (types : Entries NamedType) (name : String) (t : NamedType) :
    Entries.has (Entries.insert types name t) name = true := by
  simp [Entries.has, Entries.find?_insert]

theorem unfound_insert_lt {names : Finset String} {types : Entries NamedType} {name : String}
    (hname : name ∈ names) (h : Entries.find? types name = none) (t : NamedType) :
    unfound names (Entries.insert types name t) < unfound names types := by
  refine Finset.card_lt_card (Finset.ssubset_iff_subset_ne.mpr ⟨Finset.monotone_filter_right _
    fun other _ hn => mt (widens_insert types name t other) hn, fun he => ?_⟩)
  have hmem : name ∈ names.filter fun name => Entries.has types name ≠ true :=
    Finset.mem_filter.mpr ⟨hname, by simp [Entries.has, h]⟩
  rw [← he, Finset.mem_filter] at hmem
  exact hmem.2 (has_insert_self types name t)

/-- What a traversal under a high enough limit leaves: more names have been found, nothing is
registered. -/
def Traverses (s : Session σ) (found : Found) (found' : Found) (s' : Session σ) : Prop :=
  s'.registry = s.registry ∧ Widens found.types found'.types

variable (hchained : (schema.graph declared).Chained) {names : Finset String}
  (hnames : ∀ t, (schema.graph declared).Reaches t → schema.nameOf t ∈ names)

section

variable {bound : Nat → Nat} (hbound : ∀ limit, limit ≤ bound limit) {left : Nat}
  (hcollect : ∀ {t found} s, (schema.graph declared).Reaches t → unfound names found.types ≤ left →
    Decides (fun limit => (schema.within (bound limit)).collect limit t found) s
      fun found' s' => Traverses s found found' s' ∧
        Entries.has found'.types (schema.nameOf t) = true)

include hchained hbound hcollect

theorem decides_collectReference {t : NamedType} (ht : (schema.graph declared).Reaches t)
    {e : Entity σ} (he : schema.entity? t = some e) {r : TypeRef} (hr : r ∈ e.references)
    {found : Found} (hleft : unfound names found.types ≤ left) (s : Session σ) :
    Decides (fun limit => (schema.within (bound limit)).collectReference limit found r) s
      (Traverses s found) := by
  obtain ⟨tip, htip⟩ := hchained t e ht he r hr
  obtain ⟨enough, s₁, hs₁, h⟩ := tipWithin_of_ends htip s
  have hdecides : Decides (fun limit => r.tip (schema.within (bound limit))) s
      fun tip' s' => tip' = tip ∧ s' = s₁ :=
    .ok enough tip s₁ (fun limit hlimit => h _ (hlimit.trans (hbound limit)) _) ⟨rfl, rfl⟩
  refine hdecides.bind fun tip' s' ⟨htip', hs'⟩ => ?_
  subst htip' hs'
  cases tip' with
  | inl name => exact decides_pure ⟨hs₁, fun _ h => h⟩
  | inr t' =>
    exact (hcollect s' (.step ht he hr htip) hleft).mono fun found' s'' ⟨h, _⟩ =>
      ⟨h.1.trans hs₁, h.2⟩

theorem decides_collectReferences {t : NamedType} (ht : (schema.graph declared).Reaches t)
    {e : Entity σ} (he : schema.entity? t = some e) {refs : List TypeRef}
    (hrefs : ∀ r ∈ refs, r ∈ e.references) {found : Found}
    (hleft : unfound names found.types ≤ left) (s : Session σ) :
    Decides (fun limit =>
        refs.foldlM ((schema.within (bound limit)).collectReference limit) found) s
      (Traverses s found) := by
  induction refs generalizing found s with
  | nil => exact decides_pure ⟨rfl, fun _ h => h⟩
  | cons r rest ih =>
    obtain ⟨hr, hrest⟩ := List.forall_mem_cons.mp hrefs
    refine (decides_collectReference hchained hbound hcollect ht he hr hleft s).bind
      fun found₁ s₁ ⟨hs₁, hw₁⟩ => ?_
    exact (ih hrest ((hw₁.unfound_le names).trans hleft) s₁).mono fun found' s' ⟨hs, hw⟩ =>
      ⟨hs.trans hs₁, fun name hn => hw name (hw₁ name hn)⟩

end

include hchained hnames

/-- **The traversal of a definition comes to an end**: each further step into a definition finds one more
of finitely many names. -/
theorem decides_collect (left : Nat) {bound : Nat → Nat} (hbound : ∀ limit, limit ≤ bound limit)
    {t : NamedType} {found : Found} (s : Session σ) (ht : (schema.graph declared).Reaches t)
    (hleft : unfound names found.types ≤ left) :
    Decides (fun limit => (schema.within (bound limit)).collect limit t found) s
      fun found' s' => Traverses s found found' s' ∧
        Entries.has found'.types (schema.nameOf t) = true := by
  induction left using Nat.strong_induction_on generalizing bound t found s with
  | _ left ih =>
    refine .succ ?_
    cases hf : Entries.find? found.types (schema.nameOf t) with
    | some other =>
      by_cases he : other = t
      · subst he
        exact (decides_pure ⟨⟨rfl, fun _ h => h⟩, by simp [Entries.has, hf]⟩).congr
          fun limit => collect_of_found (schema.within _) hf
      · exact (decides_defect fun _ => ⟨_, s, rfl⟩).congr fun limit =>
          collect_of_other (schema.within _) hf he
    | none =>
      have hlt := (unfound_insert_lt (hnames t ht) hf t).trans_le hleft
      have hself := has_insert_self found.types (schema.nameOf t) t
      have hwidens := widens_insert found.types (schema.nameOf t) t
      let found₁ : Found := { found with types := Entries.insert found.types (schema.nameOf t) t }
      cases he : schema.entity? t with
      | none =>
        exact (decides_pure (a := found₁) ⟨⟨rfl, hwidens⟩, hself⟩).congr fun limit =>
          collect_of_scalar (schema.within (bound (limit + 1))) hf he
      | some e =>
        have hbound₁ : ∀ limit, limit ≤ bound (limit + 1) := fun limit =>
          (Nat.le_succ limit).trans (hbound (limit + 1))
        have hrefs := decides_collectReferences hchained hbound₁
          (fun s ht hleft => ih _ hlt hbound₁ s ht hleft) ht he (fun _ hr => hr)
          (le_refl (unfound names found₁.types)) s
        exact (hrefs.mono fun found' s' h =>
          ⟨⟨h.1, fun name hn => h.2 name (hwidens name hn)⟩, h.2 _ hself⟩).congr fun limit =>
          collect_of_entity (schema.within (bound (limit + 1))) hf he

theorem decides_collectAll {seeds : List NamedType}
    (hseeds : ∀ t ∈ seeds, (schema.graph declared).Reaches t) (found : Found) (s : Session σ) :
    Decides (fun limit => seeds.foldlM
        (fun found t => (schema.within limit).collect limit t found) found) s
      fun found' s' => Traverses s found found' s' ∧
        ∀ t ∈ seeds, Entries.has found'.types (schema.nameOf t) = true := by
  induction seeds generalizing found s with
  | nil => exact decides_pure ⟨⟨rfl, fun _ h => h⟩, fun _ ht => by cases ht⟩
  | cons t rest ih =>
    obtain ⟨ht, hrest⟩ := List.forall_mem_cons.mp hseeds
    refine (decides_collect hchained hnames _ (fun _ => le_rfl) s ht le_rfl).bind
      fun found₁ s₁ ⟨⟨hs₁, hw₁⟩, ht₁⟩ => ?_
    exact (ih hrest found₁ s₁).mono fun found' s' ⟨⟨hs, hw⟩, h⟩ =>
      ⟨⟨hs.trans hs₁, fun name hn => hw name (hw₁ name hn)⟩,
        List.forall_mem_cons.mpr ⟨hw _ ht₁, h⟩⟩

omit hchained hnames

/-! ## Looking up names -/

theorem find_within (hl : schema.loader? = none) (limit : Nat) :
    (schema.within limit).find = schema.find := by
  have hl' : (schema.within limit).loader? = none := hl
  rw [find_eq_of_eager hl, find_eq_of_eager hl']

theorem finishes_require (hl : schema.loader? = none) (name : String) :
    Finishes fun _ => schema.find.require name := by
  intro s
  cases hr : Entries.find? s.registry name with
  | none => exact decides_defect fun _ => ⟨_, s, require_of_none hl hr⟩
  | some slot =>
    cases slot with
    | ready t => exact .ok 0 t s (fun _ _ => require_of_ready hr) trivial
    | loading cyclic =>
      have hfind : schema.find name s =
          .error (.defect (.cyclicLoad name)) (s.setSlot name (.loading true)) := by
        rw [find, findWithin_eq, hr]
        rfl
      exact decides_defect fun _ => ⟨_, _, bind_of_error hfind⟩

/-- **Looking up the names that are left comes to an end**: only what has been found is registered. -/
theorem decides_collectPending (hl : schema.loader? = none) (bound : Nat → Nat) (found : Found)
    (s : Session σ) (hs : ∀ name slot, Entries.find? s.registry name = some slot →
      Entries.has found.types name = true) :
    Decides (fun limit => (schema.within (bound limit)).collectPending schema.find limit found) s
      fun _ _ => True := by
  obtain ⟨types, pending⟩ := found
  induction pending generalizing bound with
  | nil => exact .succ (decides_pure trivial)
  | cons name pending ih =>
    refine .succ ?_
    by_cases hn : Entries.has types name = true
    · exact (ih _ hs).congr fun limit => if_pos hn
    · have hnone : Entries.find? s.registry name = none :=
        Option.eq_none_iff_forall_ne_some.mpr fun slot hr => hn (hs name slot hr)
      refine Decides.congr (decides_defect fun limit => ?_) fun limit => if_neg hn
      exact ⟨_, s, bind_of_error (require_of_none hl hnone)⟩

/-! ## Scanning -/

theorem finishes_publish (types : Entries NamedType) :
    Finishes fun _ => (publish types : Lookup σ Unit) := by
  induction types with
  | nil => exact finishes_pure _
  | cons e rest ih =>
    obtain ⟨name, t⟩ := e
    refine Finishes.bind (fun s => decides_get.mono fun _ _ _ => trivial) fun s => ?_
    have hset : Finishes fun _ => (do
        modify (Session.setSlot · name (.ready t))
        publish rest : Lookup σ Unit) :=
      Finishes.bind (fun s => .ok 0 ⟨⟩ (s.setSlot name (.ready t)) (fun _ _ => rfl) trivial) fun _ => ih
    cases Entries.find? s.registry name with
    | none => exact hset
    | some slot =>
      cases slot with
      | loading cyclic => exact hset
      | ready other =>
        by_cases he : other = t
        · exact fun s => (ih s).congr fun _ => if_pos he
        · exact fun s => (finishes_defect (fun _ => .duplicateType name) s).congr fun _ => if_neg he

/-- **A scan comes to an end.** -/
theorem decides_scan (hl : schema.loader? = none) (hchained : (schema.graph declared).Chained)
    {names : Finset String}
    (hnames : ∀ t, (schema.graph declared).Reaches t → schema.nameOf t ∈ names)
    {registered : Set NamedType} (hregistered : ∀ t ∈ registered, (schema.graph declared).Reaches t)
    (hs : (schema.graph declared).Holds registered Slot.ready s.registry) :
    Decides (fun limit => (schema.within limit).scan) s fun _ _ => True := by
  have heq : ∀ limit, (schema.within limit).scan = (do
      let seeds := (← get).readyTypes
      let found ← seeds.foldlM (fun found t => (schema.within limit).collect limit t found) {}
      let found ← (schema.within limit).collectPending schema.find limit found
      publish found.types
      modify fun s => { s with complete := true }
      return found.types) := by
    intro limit
    rw [scan_eq_of_eager (show (schema.within limit).loader? = none from hl), find_within hl]
    rfl
  refine Decides.congr ?_ heq
  refine decides_get.bind fun s₀ s₁ ⟨hs₀, hs₁⟩ => ?_
  rw [hs₀, hs₁]
  have hseeds : ∀ {t}, t ∈ s.readyTypes ↔ t ∈ registered := mem_readyTypes_iff hs
  refine (decides_collectAll hchained hnames (fun t ht => hregistered t (hseeds.mp ht)) {} s).bind
    fun found s₂ ⟨⟨hs₂, _⟩, hheld⟩ => ?_
  refine (decides_collectPending hl id found s₂ fun name slot h => ?_).bind
    fun found' s₃ _ => ?_
  · rw [hs₂] at h
    obtain ⟨t, ht, rfl, -⟩ := (hs.find?_iff _ _).mp h
    exact hheld t (hseeds.mpr ht)
  refine (finishes_publish found'.types s₃).bind fun _ s₄ _ => ?_
  exact .ok 0 found'.types { s₄ with complete := true } (fun _ _ => rfl) trivial

/-! ## Checking -/

section

variable (hl : schema.loader? = none) {bound : Nat → Nat}

include hl

theorem decides_resolve (declared : List Ty) (r : TypeRef) (s : Session σ) :
    Decides (fun limit => r.resolve (schema.within (bound limit)) schema.find) s
      fun t _ => (schema.graph declared).Leads r t := by
  cases r with
  | direct t => exact decides_pure (.direct t)
  | named name =>
    exact (finishes_require hl name s).bind fun n s' _ => decides_pure (.named name n)
  | lazy r =>
    cases hr : schema.force r s with
    | error e s' =>
      unfold force at hr
      split at hr <;> cases hr
    | ok t s' =>
      refine .ok 0 t s' (fun _ _ => hr) ?_
      unfold force at hr
      split at hr <;> cases hr <;> exact .lazy r

theorem decides_resolveBare (declared : List Ty) (r : TypeRef) (s : Session σ) :
    Decides (fun limit => r.resolveBare (schema.within (bound limit)) schema.find) s
      fun b _ => (schema.graph declared).Leads r b.type := by
  refine (decides_resolve hl declared r s).bind fun t s' ht => ?_
  cases t with
  | base n => exact decides_pure ht
  | listOf id inner => exact decides_pure ht
  | nonNull id inner => exact decides_defect fun limit => ⟨_, s', rfl⟩

/-- **Unwrapping comes to an end** where the wrappers do. -/
theorem finishes_unwrap {r : TypeRef} {tip : String ⊕ NamedType}
    (hr : (schema.graph declared).Ends r tip) {t : Ty} (ht : (schema.graph declared).Leads r t) :
    Finishes fun limit => t.unwrapWithin (schema.within (bound limit)) schema.find limit := by
  have hbase : ∀ n, Finishes fun limit =>
      (Ty.base n).unwrapWithin (schema.within (bound limit)) schema.find limit := fun n s =>
    (finishes_pure n s).congr fun limit => by cases limit <;> rfl
  induction hr generalizing t bound with
  | named name => cases ht with | named _ n => exact hbase n
  | base n => cases ht with | direct => exact hbase n
  | @nonNull id inner tip _ ih =>
    cases ht with
    | direct =>
      refine fun s => .succ ?_
      exact (decides_resolveBare hl declared inner s).bind fun b s' hb => ih hb (fun n s =>
        (finishes_pure n s).congr fun limit => by cases limit <;> rfl) s'
  | @listOf id inner tip _ ih =>
    cases ht with
    | direct =>
      refine fun s => .succ ?_
      exact (decides_resolve hl declared inner s).bind fun t s' ht => ih ht (fun n s =>
        (finishes_pure n s).congr fun limit => by cases limit <;> rfl) s'
  | lazy _ ih => cases ht with | lazy r => exact ih (.direct _) hbase

theorem finishes_nonScalar? {r : TypeRef} {tip : String ⊕ NamedType}
    (hr : (schema.graph declared).Ends r tip) :
    Finishes fun limit => r.nonScalar? (schema.within limit) schema.find := fun s =>
  (decides_resolve hl declared r s).bind fun _ s' ht =>
    (finishes_unwrap hl hr ht s').bind fun n s'' _ =>
      (finishes_pure (if (schema.entity? n).isSome then some n else none) s'').congr fun _ => rfl

theorem finishes_checkArgument {a : Argument} {tip : String ⊕ NamedType}
    (ha : (schema.graph declared).Ends a.type tip) (owner : String) :
    Finishes fun limit => a.check (schema.within limit) schema.find owner := by
  refine (finishes_nonScalar? hl ha).bind fun n? => ?_
  cases n? with
  | none => exact finishes_pure _
  | some n => exact finishes_defect fun _ => .invalidArgumentType owner a.name (schema.nameOf n)

theorem finishes_checkAttribute {a : Attribute σ}
    (ha : ∀ r, a.type? = some r → ∃ tip, (schema.graph declared).Ends r tip) (entity : String) :
    Finishes fun limit => a.check (schema.within limit) schema.find entity := by
  unfold Attribute.check
  cases hr : a.type? with
  | none => exact finishes_pure _
  | some r =>
    obtain ⟨tip, htip⟩ := ha r hr
    refine (finishes_nonScalar? hl htip).bind fun n? => ?_
    cases n? with
    | none => exact finishes_pure _
    | some n =>
      exact finishes_defect fun _ => .invalidAttributeType entity a.label.name (schema.nameOf n)

theorem finishes_follow (l : Link σ) (entity : String) :
    Finishes fun limit => l.follow (schema.within limit) schema.find entity := by
  refine Finishes.bind (fun s => (decides_resolve hl [] l.target s).mono fun _ _ _ => trivial)
    fun t => ?_
  have hrefuse : Finishes fun limit => (do
      Lookup.defect (.invalidLinkType entity l.label.name (← (schema.within limit).textOf t)) :
        Lookup σ (NamedType × Entity σ)) := fun s => decides_defect fun _ => ⟨_, s, rfl⟩
  cases t with
  | base n =>
    cases he : schema.entity? n with
    | none =>
      refine fun s => (hrefuse s).congr fun limit => ?_
      have he' : (schema.within limit).entity? n = none := he
      simp only [he']
    | some e =>
      refine fun s => (finishes_pure (n, e) s).congr fun limit => ?_
      have he' : (schema.within limit).entity? n = some e := he
      simp only [he']
  | nonNull id inner => exact hrefuse
  | listOf id inner => exact hrefuse

/-- **Checking an entity comes to an end** where the wrappers of all its references do. -/
theorem finishes_check {e : Entity σ}
    (he : ∀ r ∈ e.references, ∃ tip, (schema.graph declared).Ends r tip) :
    Finishes fun limit => e.check (schema.within limit) schema.find := by
  simp only [Entity.references, List.mem_append, List.mem_map, List.mem_filterMap, List.mem_flatMap,
    List.mem_cons] at he
  have harguments : ∀ owner (as : List Argument),
      (∀ a ∈ as, ∃ tip, (schema.graph declared).Ends a.type tip) →
        Finishes fun limit => as.forM (Argument.check (schema.within limit) schema.find owner) :=
    fun owner as has => .forM fun a ha =>
      let ⟨_, htip⟩ := has a ha
      finishes_checkArgument hl htip owner
  refine (harguments _ _ fun a ha => he _ (.inl (.inl (.inl ⟨a, ha, rfl⟩)))).bind fun _ => ?_
  refine (Finishes.forM fun a ha => finishes_checkAttribute hl
    (fun r hr => he r (.inl (.inl (.inr ⟨a, ha, hr⟩)))) _).bind fun _ => ?_
  refine (Finishes.forM fun a ha => harguments _ _
    fun b hb => he _ (.inl (.inr ⟨a, ha, b, hb, rfl⟩))).bind fun _ => ?_
  exact .forM fun l hl' => (finishes_follow hl l _).bind fun _ => harguments _ _
    fun b hb => he _ (.inr ⟨l, hl', .inr ⟨b, hb, rfl⟩⟩)

theorem finishes_checkFound (name : String) {t : NamedType}
    (ht : ∀ e, schema.entity? t = some e → ∀ r ∈ e.references,
      ∃ tip, (schema.graph declared).Ends r tip) :
    Finishes fun limit => (schema.within limit).checkFound name t := by
  have hregistered : Finishes fun limit => (schema.within limit).checkRegistered t := by
    intro s
    unfold checkRegistered
    cases he : schema.entity? t with
    | none =>
      refine (finishes_pure ⟨⟩ s).congr fun limit => ?_
      have he' : (schema.within limit).entity? t = none := he
      simp only [he']
    | some e =>
      refine (finishes_check hl (ht e he) s).congr fun limit => ?_
      have he' : (schema.within limit).entity? t = some e := he
      simp only [he', find_within hl]
  have hsource : Finishes fun limit => (schema.within limit).checkSource name t := by
    refine fun s => (finishes_pure ⟨⟩ s).congr fun limit => ?_
    have hl' : (schema.within limit).loader? = none := hl
    unfold checkSource
    simp only [hl']
  exact fun s => (hregistered.bind (fun _ => hsource) s).congr fun limit => checkFound_eq name t

end

/-! ## Building -/

theorem finishes_register (types : List Ty) :
    Finishes fun limit => (schema.within limit).register types := by
  induction types with
  | nil => exact finishes_pure _
  | cons d rest ih =>
    cases d with
    | nonNull id inner => exact fun s => decides_defect fun _ => ⟨_, s, rfl⟩
    | listOf id inner => exact fun s => decides_defect fun _ => ⟨_, s, rfl⟩
    | base t =>
      refine Finishes.bind (fun s => decides_get.mono fun _ _ _ => trivial) fun s => ?_
      cases hr : Entries.find? s.registry (schema.nameOf t) with
      | none =>
        have hset : Finishes fun limit => (do
            modify (Session.setSlot · (schema.nameOf t) (.ready t))
            (schema.within limit).register rest : Lookup σ Unit) :=
          Finishes.bind (fun s => .ok 0 ⟨⟩ (s.setSlot (schema.nameOf t) (.ready t)) (fun _ _ => rfl)
            trivial) fun _ => ih
        refine fun s' => (hset s').congr fun limit => ?_
        have hr' : Entries.find? s.registry ((schema.within limit).nameOf t) = none := hr
        simp only [hr']
        rfl
      | some slot =>
        by_cases he : slot = .ready t
        · refine fun s' => (ih s').congr fun limit => ?_
          have hr' : Entries.find? s.registry ((schema.within limit).nameOf t) = some slot := hr
          simp only [hr']
          exact if_pos he
        · refine fun s' => (finishes_defect (fun _ => .duplicateType (schema.nameOf t)) s').congr
            fun limit => ?_
          have hr' : Entries.find? s.registry ((schema.within limit).nameOf t) = some slot := hr
          simp only [hr']
          exact if_neg he

theorem decides_check (hl : schema.loader? = none) (hchained : (schema.graph declared).Chained)
    {names : Finset String}
    (hnames : ∀ t, (schema.graph declared).Reaches t → schema.nameOf t ∈ names)
    {registered : Set NamedType} (hroots : ∀ t, (schema.graph declared).Root t → t ∈ registered)
    (hregistered : ∀ t ∈ registered, (schema.graph declared).Reaches t)
    (hs : (schema.graph declared).Holds registered Slot.ready s.registry) :
    Decides (fun limit => (schema.within limit).check) s fun _ _ => True := by
  have hscan : ∀ limit, (schema.within limit).scan.Meets s (fun types s' =>
        (schema.graph declared).Holds {t | (schema.graph declared).Reaches t} id types ∧
          (schema.graph declared).Registered s' ∧ (schema.graph declared).Known)
      (¬((schema.graph declared).Unique ∧ (schema.graph declared).Known)) := fun limit =>
    meets_scan (show (schema.within limit).loader? = none from hl) hroots hregistered hs
  refine ((decides_scan hl hchained hnames hregistered hs).and_meets hscan).bind
    fun types s₁ ⟨_, htypes, _⟩ => ?_
  refine Finishes.forM (fun e he => ?_) s₁
  obtain ⟨name, t⟩ := e
  obtain ⟨t', ht', -, ht⟩ := (htypes.find?_iff _ _).mp ((Entries.find?_eq_some_iff htypes.nodup).mpr he)
  obtain rfl : t = t' := ht
  by_cases hname : (Standard.ofName? name).isSome = true
  · exact fun s => (finishes_pure ⟨⟩ s).congr fun _ => if_pos hname
  · exact fun s => (finishes_checkFound hl name (fun e he => hchained t e ht' he) s).congr
      fun _ => if_neg hname

/-- **Building a schema comes to an end.** -/
theorem decides_build (hl : schema.loader? = none) (hchained : (schema.graph declared).Chained)
    {names : Finset String}
    (hnames : ∀ t, (schema.graph declared).Reaches t → schema.nameOf t ∈ names) (app : σ) :
    Decides (fun limit => (schema.within limit).build declared false) { app } fun _ _ => True := by
  have hd : schema.onDemand = false := by simp [onDemand, hl]
  have heq : ∀ limit, (schema.within limit).build declared false = (do
      (schema.within limit).register (Standard.all.map (fun k => .base (.standard k)) ++ declared)
      (schema.within limit).check) := by
    intro limit
    have hd' : (schema.within limit).onDemand = false := hd
    unfold build
    rw [hd']
    rfl
  have hroots : ∀ limit, ((schema.within limit).register
      (Standard.all.map (fun k => .base (.standard k)) ++ declared)).Meets { app }
        (fun _ s' => (schema.graph declared).Holds {t | (schema.graph declared).Root t} Slot.ready
          s'.registry ∧ ∀ t ∈ declared, ∃ n, t = .base n)
        (¬(schema.graph declared).WellFormed) := fun limit =>
    (schema.within limit).meets_registerRoots declared app
  refine Decides.congr ?_ heq
  exact ((finishes_register _ _).and_meets hroots).bind fun _ s₁ h =>
    decides_check hl hchained hnames (fun _ ht => ht) (fun _ ht => .root ht) h.2.1

/-- **Building a schema without a loader accepts exactly the well-formed graphs.** What it accepts is
well-formed and finite, and all types that can be reached are registered then, each under its own name, and
nothing else is. Where the wrappers of all references come to an end, and the types that can be reached
have finitely many names, it comes to an end, and no higher limit makes a difference: it succeeds for a
well-formed graph, and a scan gives the same types then; for any other graph it stops at a defect. -/
theorem build_accepts_iff (hl : schema.loader? = none) (declared : List Ty) (app : σ) :
    (∀ s, schema.build declared false { app } = .ok () s →
      (schema.graph declared).WellFormed ∧ {t | (schema.graph declared).Reaches t}.Finite ∧
        (schema.graph declared).Registered s) ∧
    ((schema.graph declared).Chained →
      {name | ∃ t, (schema.graph declared).Denotes name t}.Finite →
      ∃ enough, ∀ limit ≥ enough,
        ((∃ s, (schema.within limit).build declared false { app } = .ok () s) ↔
          (schema.graph declared).WellFormed) ∧
        (¬(schema.graph declared).WellFormed → ∃ d s,
          (schema.within limit).build declared false { app } = .error (.defect d) s) ∧
        ∀ s, (schema.within limit).build declared false { app } = .ok () s →
          (schema.graph declared).Registered s ∧
          ∃ types s', (schema.within limit).scan s = .ok types s' ∧ ∀ name t,
            Entries.find? types name = some t ↔ (schema.graph declared).Denotes name t) := by
  have hmeets : ∀ limit, ((schema.within limit).build declared false).Meets { app }
      (fun _ s' => (schema.graph declared).Registered s' ∧ (schema.graph declared).WellFormed)
      (¬(schema.graph declared).WellFormed) := fun limit =>
    meets_build (show (schema.within limit).loader? = none from hl) declared app
  refine ⟨fun s h => ?_, fun hchained hfinite => ?_⟩
  · obtain ⟨hs, hwf⟩ := (meets_build hl declared app).ok () s h
    exact ⟨hwf, hs.finite hwf.unique.name_injOn, hs⟩
  have hnames : ∀ t, (schema.graph declared).Reaches t → schema.nameOf t ∈ hfinite.toFinset :=
    fun t ht => hfinite.mem_toFinset.mpr ⟨t, ht, rfl⟩
  cases decides_build hl hchained hnames app with
  | defect enough h =>
    refine ⟨enough, fun limit hlimit => ?_⟩
    obtain ⟨d, s, hbuild⟩ := h limit hlimit
    have hill := (hmeets limit).defect d s hbuild
    refine ⟨⟨fun ⟨s', hs'⟩ => ?_, fun hwf => absurd hwf hill⟩, fun _ => ⟨d, s, hbuild⟩, fun s' hs' => ?_⟩
      <;> rw [hbuild] at hs' <;> cases hs'
  | ok enough _ s h _ =>
    obtain ⟨hs, hwf⟩ := (hmeets enough).ok () s (h enough le_rfl)
    have hscan : ∀ limit, (schema.within limit).scan.Meets s (fun types s' =>
          (schema.graph declared).Holds {t | (schema.graph declared).Reaches t} id types ∧
            (schema.graph declared).Registered s' ∧ (schema.graph declared).Known)
        (¬((schema.graph declared).Unique ∧ (schema.graph declared).Known)) := fun limit =>
      meets_scan (show (schema.within limit).loader? = none from hl) (fun _ ht => .root ht)
        (fun _ ht => ht) hs
    obtain ⟨enough', types, s', h', htypes⟩ : ∃ enough' types s',
        (∀ limit ≥ enough', (schema.within limit).scan s = .ok types s') ∧
          (schema.graph declared).Holds {t | (schema.graph declared).Reaches t} id types := by
      cases decides_scan hl hchained hnames (fun _ ht => ht) hs with
      | ok enough' types s' h' _ =>
        exact ⟨enough', types, s', h', ((hscan enough').ok types s' (h' enough' le_rfl)).1⟩
      | defect enough' h' =>
        obtain ⟨d, s', h'⟩ := h' enough' le_rfl
        exact absurd ⟨hwf.unique, hwf.known⟩ ((hscan enough').defect d s' h')
    refine ⟨max enough enough', fun limit hlimit => ?_⟩
    have hbuild := h limit (le_of_max_le_left hlimit)
    refine ⟨⟨fun _ => hwf, fun _ => ⟨s, hbuild⟩⟩, fun hill => absurd hwf hill, fun s₁ hs₁ => ?_⟩
    rw [hbuild] at hs₁
    cases hs₁
    refine ⟨hs, types, s', h' limit (le_of_max_le_right hlimit), fun name t => ?_⟩
    rw [htypes.find?_iff]
    exact ⟨fun ⟨t', ht', hname, he⟩ => he ▸ ⟨ht', hname⟩, fun ht => ⟨t, ht.1, ht.2, rfl⟩⟩

end Schema

namespace Sample

/-- The graph of the sample schema. -/
abbrev graph (secret : String) : TypeGraph Unit := (schema secret).graph [.base (.defined ⟨0, 0⟩)]

theorem chained_graph (secret : String) : (graph secret).Chained := by
  intro t e _ he r hr
  obtain rfl := eq_of_entity? he
  have hr' : r ∈ [.direct (.nonNull ⟨⟨0, 0⟩, [0]⟩ (.named "String")), .named "User"] := hr
  rcases List.mem_pair.mp hr' with rfl | rfl
  · exact ⟨_, .nonNull (.named _)⟩
  · exact ⟨_, .named _⟩

end Sample

/-- The sample schema has a well-formed graph, though its only entity links to itself. -/
theorem Schema.build_accepts_iff_sample :
    (Sample.graph "").WellFormed ∧ (Sample.graph "").Registered Sample.session ∧
    ∃ enough, ∀ limit ≥ enough, ∃ s types s',
      ((Sample.schema "").within limit).build [.base (.defined ⟨0, 0⟩)] false { app := () } =
        .ok () s ∧
      ((Sample.schema "").within limit).scan s = .ok types s' ∧
      Entries.find? types "User" = some (.defined ⟨0, 0⟩) := by
  obtain ⟨haccepts, hends⟩ := Schema.build_accepts_iff
    (show (Sample.schema "").loader? = none from rfl) [.base (.defined ⟨0, 0⟩)] ()
  obtain ⟨hwf, hfinite, hs⟩ := haccepts _ (Sample.built "")
  have hnames : {name | ∃ t, (Sample.graph "").Denotes name t}.Finite :=
    (hfinite.image (Sample.graph "").name).subset fun _ ⟨t, ht, hname⟩ => ⟨t, ht, hname⟩
  obtain ⟨enough, h⟩ := hends (Sample.chained_graph "") hnames
  refine ⟨hwf, hs, enough, fun limit hlimit => ?_⟩
  obtain ⟨hiff, -, hscan⟩ := h limit hlimit
  obtain ⟨s, hbuild⟩ := hiff.mpr hwf
  obtain ⟨-, types, s', htypes, hfind⟩ := hscan s hbuild
  exact ⟨s, types, s', hbuild, htypes, (hfind _ _).mpr
    ⟨.root (.inr (List.mem_singleton_self _)), rfl⟩⟩

end EntityQuery
