import EntityQuery.Proofs.Schema.Shapes
import EntityQuery.Proofs.Schema.Soundness

/-!
# Coercing what has been coerced

Over the standard scalars, what coercing a value gives is coerced to itself: completed values can be completed
again and supplied again, and supplied values that have been read can be read again.

* `TypeRef.Yields`, `Ty.OverStandards`: references and types that lead to standard scalars.
* `Ty.Steady`: scalars that give back what they are given.
* **`Ty.Steady.serialize`**, **`Ty.Steady.parse`**: values of the shape of a type over such scalars are coerced
  to themselves.
* **`coercions_are_stable`**: both for what coercing a value has given.
-/

namespace EntityQuery

open Lookup Schema

variable {σ : Type}

/-! ## Types over standard scalars -/

/-- The reference leads to the type: directly, when it is forced, or by the name of a standard scalar. -/
inductive TypeRef.Yields (schema : Schema σ) : TypeRef → Ty → Prop
  | direct (t : Ty) : TypeRef.Yields schema (.direct t) t
  | lazy (r : LazyRef) : TypeRef.Yields schema (.lazy r) (schema.target r)
  | named (k : Standard) : TypeRef.Yields schema (.named k.name) (.base (.standard k))

/-- A type that is built from scalars that coerce as the standard ones do, by any nesting of lists and non-null
wrappers. -/
inductive Ty.OverStandards (schema : Schema σ) : Ty → Prop
  | scalar {n : NamedType} {sc : Scalar σ} {k : Standard} (hd : schema.definition n = .scalar sc)
    (hk : sc.coercion = .standard k) : Ty.OverStandards schema (.base n)
  | nonNull {id : PartId} {inner : TypeRef} {t : Ty} (hr : inner.Yields schema t)
    (ht : t.OverStandards schema) : Ty.OverStandards schema (.nonNull id inner)
  | listOf {id : PartId} {inner : TypeRef} {t : Ty} (hr : inner.Yields schema t)
    (ht : t.OverStandards schema) : Ty.OverStandards schema (.listOf id inner)

section

variable {schema : Schema σ} {s s' : Session σ} {r : TypeRef} {t t' : Ty}

/-- Where the standard scalars are registered, a reference leads where it is known to. -/
theorem TypeRef.Yields.resolve (h : r.Yields schema t) (hs : Standards s) :
    ∃ s', r.resolve schema schema.find s = .ok t s' ∧ Standards s' := by
  cases h with
  | direct t => exact ⟨s, rfl, hs⟩
  | lazy r =>
    simp only [TypeRef.resolve, Schema.force]
    split
    · exact ⟨s, rfl, hs⟩
    · exact ⟨_, rfl, hs⟩
  | named k =>
    refine ⟨s, ?_, hs⟩
    have hfind : schema.find k.name s = .ok (some (.standard k)) s := findWithin_of_ready _ (hs k)
    have hrequire : schema.find.require k.name s = .ok (.standard k) s := bind_of_ok hfind
    exact bind_of_ok hrequire

theorem TypeRef.Yields.eq_of_resolve (h : r.Yields schema t) (hs : Standards s)
    (hr : r.resolve schema schema.find s = .ok t' s') : t' = t ∧ Standards s' := by
  obtain ⟨s₁, h₁, hs₁⟩ := h.resolve hs
  rw [h₁] at hr
  cases hr
  exact ⟨rfl, hs₁⟩

theorem Ty.course_standards (schema : Schema σ) :
    Ty.Course schema schema.find (Ty.OverStandards schema) Standards (TypeRef.Yields schema) where
  nonNull ht hs hr := by
    cases ht with
    | nonNull hy ht =>
      obtain ⟨rfl, hs'⟩ := hy.eq_of_resolve hs hr
      exact ⟨hy, ht, hs'⟩
  listOf ht hs hr := by
    cases ht with
    | listOf hy ht =>
      obtain ⟨rfl, hs'⟩ := hy.eq_of_resolve hs hr
      exact ⟨hy, ht, hs'⟩

end

/-! ## Coercing what is coerced to itself -/

section

variable {schema : Schema σ} {given : NamedType → Json → Prop}

/-- What definitions are given they give back, and it is not null. -/
structure Ty.Steady (given : NamedType → Json → Prop) (coerce : NamedType → Json → Lookup σ Json) : Prop where
  null : ∀ n s, coerce n .null s = .ok .null s
  filled : ∀ {n w}, given n w → ∀ s, coerce n w s = .ok w s
  isNull : ∀ {n w}, given n w → w.isNull = false

namespace Ty.Steady

variable {coerce : NamedType → Json → Lookup σ Json} {s : Session σ} {t : Ty} {w : Json}

theorem isNull_of_filled (h : Steady given coerce) {b : BareTy}
    (hw : b.Filled (TypeRef.Yields schema) given w) : w.isNull = false := by
  cases hw with
  | scalar hg => exact h.isNull hg
  | list => rfl

/-- A value of the shape of a type passes its non-null check. -/
theorem strip (h : Steady given coerce) (hw : t.Shaped (TypeRef.Yields schema) given w) (hs : Standards s)
    (refusal : String → String) :
    ∃ b s', t.strip schema schema.find refusal w s = .ok b s' ∧ Standards s' ∧
      (w = .null ∨ b.Filled (TypeRef.Yields schema) given w) := by
  have bare : ∀ b : BareTy, b.type.strip schema schema.find refusal w s = .ok b s := by
    intro b
    cases b <;> rfl
  cases hw with
  | null b => exact ⟨b, s, bare b, hs, .inl rfl⟩
  | @filled b _ hw => exact ⟨b, s, bare b, hs, .inr hw⟩
  | @nonNull id inner b _ hy hw =>
    obtain ⟨s', hr, hs'⟩ := hy.resolve hs
    refine ⟨b, s', ?_, hs', .inr hw⟩
    simp only [Ty.strip, h.isNull_of_filled hw, Bool.false_eq_true, if_false]
    refine (bind_of_ok hr).trans ?_
    cases b <;> rfl

/-- Completing a value that is no list. -/
theorem serializeSingle (h : Steady given schema.serializeNamed)
    (hw : t.Shaped (TypeRef.Yields schema) given w) (hs : Standards s)
    (hother : ∀ items, w = .array items → False) :
    ∃ s', t.serialize schema schema.find w s = .ok w s' ∧ Standards s' := by
  obtain ⟨b, s', hb, hs', hw⟩ := h.strip hw hs nullReturned
  refine ⟨s', ?_, hs'⟩
  rw [Ty.serialize.eq_2 schema schema.find t w hother, bind_of_ok hb]
  rcases hw with rfl | hw
  · cases b with
    | base n => exact h.null n s'
    | listOf id inner => rfl
  · cases hw with
    | scalar hg => exact h.filled hg s'
    | list => exact (hother _ rfl).elim

mutual

/-- **Completing a value of the shape of the type.** -/
theorem serialize (h : Steady given schema.serializeNamed) {s : Session σ} (hs : Standards s) {t : Ty} :
    (w : Json) → t.Shaped (TypeRef.Yields schema) given w →
      ∃ s', t.serialize schema schema.find w s = .ok w s' ∧ Standards s'
  | .array ws, hw => by
    obtain ⟨b, s₁, hb, hs₁, hw⟩ := h.strip hw hs nullReturned
    rw [Ty.serialize, bind_of_ok hb]
    rcases hw with hnull | hw
    · cases hnull
    · cases hw with
      | scalar hg => exact ⟨s₁, h.filled hg s₁, hs₁⟩
      | list hy hws =>
        obtain ⟨s₂, hr, hs₂⟩ := hy.resolve hs₁
        obtain ⟨s₃, hi, hs₃⟩ := serializeItems h hs₂ ws hws
        exact ⟨s₃, (bind_of_ok hr).trans (bind_of_ok hi), hs₃⟩
  | .null, hw => serializeSingle h hw hs (fun _ he => nomatch he)
  | .bool _, hw => serializeSingle h hw hs (fun _ he => nomatch he)
  | .number _, hw => serializeSingle h hw hs (fun _ he => nomatch he)
  | .string _, hw => serializeSingle h hw hs (fun _ he => nomatch he)
  | .object _, hw => serializeSingle h hw hs (fun _ he => nomatch he)

theorem serializeItems (h : Steady given schema.serializeNamed) {s : Session σ} (hs : Standards s) {t : Ty} :
    (ws : List Json) → (∀ w ∈ ws, t.Shaped (TypeRef.Yields schema) given w) →
      ∃ s', t.serializeItems schema schema.find ws s = .ok ws s' ∧ Standards s'
  | [], _ => ⟨s, by rw [Ty.serializeItems]; rfl, hs⟩
  | w :: rest, hws => by
    obtain ⟨hw, hrest⟩ := List.forall_mem_cons.mp hws
    obtain ⟨s₁, h₁, hs₁⟩ := serialize h hs w hw
    obtain ⟨s₂, h₂, hs₂⟩ := serializeItems h hs₁ rest hrest
    rw [Ty.serializeItems, bind_of_ok h₁]
    exact ⟨s₂, bind_of_ok h₂, hs₂⟩

end

/-- Reading a value that is no list: it is wrapped into none. -/
theorem parseOther (h : Steady given schema.parseNamed)
    (hw : t.Shaped (TypeRef.Yields schema) given w) (hs : Standards s)
    (hother : ∀ items, w = .array items → False) :
    ∃ s', t.parse schema schema.find w s = .ok w s' ∧ Standards s' := by
  obtain ⟨b, s', hb, hs', hw⟩ := h.strip hw hs nullSupplied
  refine ⟨s', ?_, hs'⟩
  rw [Ty.parse.eq_2 schema schema.find t w hother]
  unfold Ty.parseSingle
  rw [bind_of_ok hb]
  rcases hw with rfl | hw
  · cases b with
    | base n => exact h.null n s'
    | listOf id inner => rfl
  · cases hw with
    | scalar hg => exact h.filled hg s'
    | list => exact (hother _ rfl).elim

mutual

/-- **Reading a value of the shape of the type.** -/
theorem parse (h : Steady given schema.parseNamed) {s : Session σ} (hs : Standards s) {t : Ty} :
    (w : Json) → t.Shaped (TypeRef.Yields schema) given w →
      ∃ s', t.parse schema schema.find w s = .ok w s' ∧ Standards s'
  | .array ws, hw => by
    obtain ⟨b, s₁, hb, hs₁, hw⟩ := h.strip hw hs nullSupplied
    rw [Ty.parse, bind_of_ok hb]
    rcases hw with hnull | hw
    · cases hnull
    · cases hw with
      | scalar hg => exact ⟨s₁, h.filled hg s₁, hs₁⟩
      | list hy hws =>
        obtain ⟨s₂, hr, hs₂⟩ := hy.resolve hs₁
        obtain ⟨s₃, hi, hs₃⟩ := parseItems h hs₂ ws hws
        exact ⟨s₃, (bind_of_ok hr).trans (bind_of_ok hi), hs₃⟩
  | .null, hw => parseOther h hw hs (fun _ he => nomatch he)
  | .bool _, hw => parseOther h hw hs (fun _ he => nomatch he)
  | .number _, hw => parseOther h hw hs (fun _ he => nomatch he)
  | .string _, hw => parseOther h hw hs (fun _ he => nomatch he)
  | .object _, hw => parseOther h hw hs (fun _ he => nomatch he)

theorem parseItems (h : Steady given schema.parseNamed) {s : Session σ} (hs : Standards s) {t : Ty} :
    (ws : List Json) → (∀ w ∈ ws, t.Shaped (TypeRef.Yields schema) given w) →
      ∃ s', t.parseItems schema schema.find ws s = .ok ws s' ∧ Standards s'
  | [], _ => ⟨s, by rw [Ty.parseItems]; rfl, hs⟩
  | w :: rest, hws => by
    obtain ⟨hw, hrest⟩ := List.forall_mem_cons.mp hws
    obtain ⟨s₁, h₁, hs₁⟩ := parse h hs w hw
    obtain ⟨s₂, h₂, hs₂⟩ := parseItems h hs₁ rest hrest
    rw [Ty.parseItems, bind_of_ok h₁]
    exact ⟨s₂, bind_of_ok h₂, hs₂⟩

end

end Ty.Steady

end

/-! ## Standard scalars -/

namespace Schema

variable {schema : Schema σ}

/-- The value is one that a standard scalar completes to itself, and accepts. -/
def Completed (schema : Schema σ) (n : NamedType) (w : Json) : Prop :=
  ∃ sc k, schema.definition n = .scalar sc ∧ sc.coercion = .standard k ∧ k.serialize? w = some w ∧
    k.Accepted w

/-- The value is one that a standard scalar accepts. -/
def Accepted (schema : Schema σ) (n : NamedType) (w : Json) : Prop :=
  ∃ sc k, schema.definition n = .scalar sc ∧ sc.coercion = .standard k ∧ k.Accepted w

section

variable {n : NamedType} {sc : Scalar σ} {k : Standard} {v w : Json} {s s' : Session σ}
  (hd : schema.definition n = .scalar sc) (hk : sc.coercion = .standard k) (hv : v.isNull = false)

include hd hk hv

theorem serializeNamed_eq_ok :
    schema.serializeNamed n v s = .ok w s' ↔ k.serialize? v = some w ∧ s' = s := by
  simp only [serializeNamed, hv, Bool.false_eq_true, if_false, hd, call_eq_ok, Scalar.serialize_eq_ok hk]
  constructor
  · rintro ⟨app, ⟨hw, rfl⟩, rfl⟩
    exact ⟨hw, rfl⟩
  · rintro ⟨hw, rfl⟩
    exact ⟨_, ⟨hw, rfl⟩, rfl⟩

theorem parseNamed_eq_ok : schema.parseNamed n v s = .ok w s' ↔ k.parse? v = some w ∧ s' = s := by
  simp only [parseNamed, hv, Bool.false_eq_true, if_false, hd, call_eq_ok, Scalar.parse_eq_ok hk]
  constructor
  · rintro ⟨app, ⟨hw, rfl⟩, rfl⟩
    exact ⟨hw, rfl⟩
  · rintro ⟨hw, rfl⟩
    exact ⟨_, ⟨hw, rfl⟩, rfl⟩

end

theorem leaf_serializeNamed_standard :
    Ty.Leaf (Ty.OverStandards schema) Standards schema.Completed schema.serializeNamed where
  null _ _ := rfl
  filled := by
    intro n v s w s' hn hs hv h
    cases hn with
    | scalar hd hk =>
      obtain ⟨hw, rfl⟩ := (serializeNamed_eq_ok hd hk hv).mp h
      exact ⟨⟨_, _, hd, hk, Standard.serialize?_of_serialize? hw, Standard.accepted_of_serialize? hw⟩, hs⟩

theorem leaf_parseNamed_standard :
    Ty.Leaf (Ty.OverStandards schema) Standards schema.Accepted schema.parseNamed where
  null _ _ := rfl
  filled := by
    intro n v s w s' hn hs hv h
    cases hn with
    | scalar hd hk =>
      obtain ⟨hw, rfl⟩ := (parseNamed_eq_ok hd hk hv).mp h
      exact ⟨⟨_, _, hd, hk, Standard.accepted_of_parse? hw⟩, hs⟩

theorem steady_serializeNamed : Ty.Steady schema.Completed schema.serializeNamed where
  null _ _ := rfl
  filled := by
    rintro n w ⟨sc, k, hd, hk, hw, ha⟩ s
    exact (serializeNamed_eq_ok hd hk ha.isNull).mpr ⟨hw, rfl⟩
  isNull := fun ⟨_, _, _, _, _, ha⟩ => ha.isNull

theorem steady_parseNamed : Ty.Steady schema.Accepted schema.parseNamed where
  null _ _ := rfl
  filled := by
    rintro n w ⟨sc, k, hd, hk, ha⟩ s
    exact (parseNamed_eq_ok hd hk ha.isNull).mpr ⟨ha.parse?, rfl⟩
  isNull := fun ⟨_, _, _, _, ha⟩ => ha.isNull

/-- What is completed is accepted. -/
theorem steady_parseNamed_completed : Ty.Steady schema.Completed schema.parseNamed where
  null _ _ := rfl
  filled := fun ⟨sc, k, hd, hk, _, ha⟩ => steady_parseNamed.filled ⟨sc, k, hd, hk, ha⟩
  isNull := fun ⟨_, _, _, _, _, ha⟩ => ha.isNull

end Schema

/-- **Coercions are stable, and outputs are valid inputs.** Over the standard scalars, in all sessions in which
they are registered: what completing a value has given is completed to itself, and read as itself; and what
reading a supplied value has given is read as itself. -/
theorem coercions_are_stable {schema : Schema σ} {t : Ty} (ht : t.OverStandards schema) {s s₁ : Session σ}
    (hs : Standards s) (v w : Json) :
    (t.serialize schema schema.find v s = .ok w s₁ → Standards s₁ ∧ ∀ s', Standards s' →
      (∃ s₂, t.serialize schema schema.find w s' = .ok w s₂ ∧ Standards s₂) ∧
      ∃ s₂, t.parse schema schema.find w s' = .ok w s₂ ∧ Standards s₂) ∧
    (t.parse schema schema.find v s = .ok w s₁ → Standards s₁ ∧ ∀ s', Standards s' →
      ∃ s₂, t.parse schema schema.find w s' = .ok w s₂ ∧ Standards s₂) := by
  have hc := Ty.course_standards schema
  refine ⟨fun h => ?_, fun h => ?_⟩
  · obtain ⟨hw, hs₁⟩ := hc.shaped_serialize leaf_serializeNamed_standard ht hs v h
    exact ⟨hs₁, fun s' hs' => ⟨steady_serializeNamed.serialize hs' w hw,
      steady_parseNamed_completed.parse hs' w hw⟩⟩
  · obtain ⟨hw, hs₁⟩ := hc.shaped_parse leaf_parseNamed_standard ht hs v h
    exact ⟨hs₁, fun s' hs' => steady_parseNamed.parse hs' w hw⟩

namespace Sample

/-- A schema whose lazy references lead to lists of integers. -/
def numbers : Schema Unit where
  define _ := .scalar (.ofStandard .int)
  target _ := .listOf ⟨⟨0, 0⟩, [1]⟩ (.direct (.base (.standard .int)))
  limit := 3

/-- A session in which the standard scalars are registered, and nothing else. -/
def standardSession : Session Unit :=
  { registry := Standard.all.map fun k => (k.name, .ready (.standard k)), app := () }

/-- Non-null lists of lists of integers, those inside behind a lazy reference. -/
def table : Ty :=
  .nonNull ⟨⟨0, 0⟩, []⟩ (.direct (.listOf ⟨⟨0, 0⟩, [0]⟩ (.lazy ⟨⟨⟨0, 0⟩, [0, 0]⟩, "rows", default⟩)))

theorem table_overStandards : table.OverStandards numbers :=
  .nonNull (.direct _) (.listOf (.lazy _) (.listOf (.direct _) (.scalar rfl rfl)))

theorem standards_standardSession : Standards standardSession := by
  intro k
  cases k <;> rfl

end Sample

open Sample in
theorem coercions_are_stable_sample :
    let ones : Json := .array [.array [.int 1]]
    (∃ s₁, table.serialize numbers numbers.find (.array [.array [.bool true]]) standardSession = .ok ones s₁) ∧
    (∃ s₁, table.parse numbers numbers.find (.int 1) standardSession = .ok ones s₁) ∧
    (∃ s₂, table.serialize numbers numbers.find ones standardSession = .ok ones s₂) ∧
    ∃ s₂, table.parse numbers numbers.find ones standardSession = .ok ones s₂ := by
  intro ones
  have hserialize : ∃ s₁, table.serialize numbers numbers.find (.array [.array [.bool true]]) standardSession =
      .ok ones s₁ := by
    refine ⟨{ standardSession with forced := [⟨⟨0, 0⟩, [0, 0]⟩] }, ?_⟩
    simp only [Ty.serialize, Ty.serializeItems]
    rfl
  have hparse : ∃ s₁, table.parse numbers numbers.find (.int 1) standardSession = .ok ones s₁ := by
    refine ⟨{ standardSession with forced := [⟨⟨0, 0⟩, [0, 0]⟩] }, ?_⟩
    simp only [Ty.parse, Json.int]
    rw [show numbers.limit = 3 from rfl]
    simp only [Ty.parseSingle]
    rfl
  refine ⟨hserialize, hparse, ?_⟩
  obtain ⟨s₁, hserialize⟩ := hserialize
  obtain ⟨-, hstable⟩ := (coercions_are_stable table_overStandards standards_standardSession _ _).1 hserialize
  obtain ⟨⟨s₂, h₂, -⟩, s₃, h₃, -⟩ := hstable standardSession standards_standardSession
  exact ⟨⟨s₂, h₂⟩, s₃, h₃⟩

end EntityQuery
