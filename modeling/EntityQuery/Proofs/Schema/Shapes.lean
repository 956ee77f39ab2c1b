import EntityQuery.Proofs.Schema.Scalars
import EntityQuery.Proofs.Schema.Stability
import EntityQuery.Schema.Coercion

/-!
# Shapes of coerced values

What coercing a value by a type gives has the shape of the type: a list, item by item, where the type is a
list, and not null where the type is non-null.

* `Ty.Shaped`, `BareTy.Filled`: a value of the shape of a type, and one that fills a place that may not be
  null.
* `Ty.Course`: what is kept on the way from a type to the types that it refers to. `Ty.Leaf`: what the
  scalars on that way give.
* **`Ty.Course.shaped_serialize`**, **`Ty.Course.shaped_parse`**: coerced values have the shape of their type.
* **`coerced_values_are_shaped`**: so it is with all types, null standing at a non-null place only where a
  scalar of the application answers null.
* `null_for_nonNull`: it does stand there then, since null is refused before the scalar is asked, not after.
-/

namespace EntityQuery

open Lookup

variable {σ : Type}

/-! ## Shapes -/

mutual

/-- The value has the shape of the type, given where references lead to and what scalars give. -/
inductive Ty.Shaped (leads : TypeRef → Ty → Prop) (given : NamedType → Json → Prop) : Ty → Json → Prop
  /-- Without a non-null wrapper, null is fine. -/
  | null (b : BareTy) : Ty.Shaped leads given b.type .null
  | filled {b : BareTy} {w : Json} (h : BareTy.Filled leads given b w) : Ty.Shaped leads given b.type w
  | nonNull {id : PartId} {inner : TypeRef} {b : BareTy} {w : Json} (hb : leads inner b.type)
    (h : BareTy.Filled leads given b w) : Ty.Shaped leads given (.nonNull id inner) w

/-- The value is what a scalar gives, or a list of values of the shape of the item type. -/
inductive BareTy.Filled (leads : TypeRef → Ty → Prop) (given : NamedType → Json → Prop) :
    BareTy → Json → Prop
  | scalar {n : NamedType} {w : Json} (h : given n w) : BareTy.Filled leads given (.base n) w
  | list {id : PartId} {inner : TypeRef} {item : Ty} {ws : List Json} (ht : leads inner item)
    (h : ∀ w ∈ ws, Ty.Shaped leads given item w) : BareTy.Filled leads given (.listOf id inner) (.array ws)

end

/-- What is kept on the way from a type to the types that it refers to: the types are of a sort, the
sessions are of a sort, and references lead where they are known to. -/
structure Ty.Course (schema : Schema σ) (find : Finder σ) (sort : Ty → Prop) (I : Session σ → Prop)
    (leads : TypeRef → Ty → Prop) : Prop where
  nonNull : ∀ {id inner t s s'}, sort (.nonNull id inner) → I s →
    inner.resolve schema find s = .ok t s' → leads inner t ∧ sort t ∧ I s'
  listOf : ∀ {id inner t s s'}, sort (.listOf id inner) → I s →
    inner.resolve schema find s = .ok t s' → leads inner t ∧ sort t ∧ I s'

/-- What a coercion by definitions gives for the definitions of a sort: null stays null, and for other values
it is as given. -/
structure Ty.Leaf (sort : Ty → Prop) (I : Session σ → Prop) (given : NamedType → Json → Prop)
    (coerce : NamedType → Json → Lookup σ Json) : Prop where
  null : ∀ n s, coerce n .null s = .ok .null s
  filled : ∀ {n v s w s'}, sort (.base n) → I s → v.isNull = false → coerce n v s = .ok w s' →
    given n w ∧ I s'

theorem Json.eq_null {v : Json} (h : v.isNull = true) : v = .null := by
  cases v <;> first | rfl | cases h

theorem TypeRef.resolve_of_resolveBare {schema : Schema σ} {find : Finder σ} {r : TypeRef} {b : BareTy}
    {s s' : Session σ} (h : r.resolveBare schema find s = .ok b s') :
    r.resolve schema find s = .ok b.type s' := by
  obtain ⟨t, s₁, h₁, h₂⟩ := bind_eq_ok.mp h
  cases t <;> cases h₂ <;> exact h₁

/-! ## Coercing -/

namespace Ty.Course

variable {schema : Schema σ} {find : Finder σ} {sort : Ty → Prop} {I : Session σ → Prop}
  {leads : TypeRef → Ty → Prop} {given : NamedType → Json → Prop} {s s' : Session σ}

/-- Without its non-null wrapper, a type is of the sort. With the wrapper it takes nothing but what fills
it, and null is refused. -/
theorem strip_ok (hc : Course schema find sort I leads) (given : NamedType → Json → Prop) {t : Ty}
    {refusal : String → String} {v : Json} {b : BareTy} (ht : sort t) (hs : I s)
    (h : t.strip schema find refusal v s = .ok b s') :
    sort b.type ∧ I s' ∧ (v.isNull = true → t.Shaped leads given .null) ∧
      ∀ w, b.Filled leads given w → t.Shaped leads given w := by
  cases t with
  | base n =>
    cases h
    exact ⟨ht, hs, fun _ => .null (.base n), fun w hw => .filled hw⟩
  | listOf id inner =>
    cases h
    exact ⟨ht, hs, fun _ => .null (.listOf id inner), fun w hw => .filled hw⟩
  | nonNull id inner =>
    simp only [Ty.strip] at h
    cases hv : v.isNull with
    | true =>
      rw [hv] at h
      cases h
    | false =>
      rw [hv] at h
      obtain ⟨hb, hsort, hs'⟩ := hc.nonNull ht hs (TypeRef.resolve_of_resolveBare h)
      exact ⟨hsort, hs', fun hnull => (nomatch hnull), fun w hw => .nonNull hb hw⟩

/-- At a definition, values come out in its shape. -/
theorem shaped_named {coerce : NamedType → Json → Lookup σ Json} (hleaf : Leaf sort I given coerce)
    {n : NamedType} {v w : Json} (hn : sort (.base n)) (hs : I s) {t : Ty}
    (hnull : v.isNull = true → t.Shaped leads given .null)
    (hfill : ∀ w, BareTy.Filled leads given (.base n) w → t.Shaped leads given w)
    (h : coerce n v s = .ok w s') : t.Shaped leads given w ∧ I s' := by
  cases hv : v.isNull with
  | true =>
    rw [Json.eq_null hv, hleaf.null] at h
    cases h
    exact ⟨hnull hv, hs⟩
  | false =>
    obtain ⟨hw, hs'⟩ := hleaf.filled hn hs hv h
    exact ⟨hfill w (.scalar hw), hs'⟩

/-! ### On the way out -/

/-- What completing a value that is no list gives. -/
theorem shaped_serializeSingle (hc : Course schema find sort I leads)
    (hleaf : Leaf sort I given schema.serializeNamed) {t : Ty} (ht : sort t) (hs : I s) {v w : Json}
    (h : t.serialize schema find v s = .ok w s') (hv : ∀ items, v = .array items → False) :
    t.Shaped leads given w ∧ I s' := by
  rw [Ty.serialize.eq_2 schema find t v hv] at h
  obtain ⟨b, s₁, h₁, h₂⟩ := bind_eq_ok.mp h
  obtain ⟨hsort, hs₁, hnull, hfill⟩ := hc.strip_ok given ht hs h₁
  cases b with
  | base n => exact shaped_named hleaf hsort hs₁ hnull hfill h₂
  | listOf id inner =>
    simp only at h₂
    cases hv : v.isNull with
    | true =>
      rw [hv] at h₂
      cases h₂
      exact ⟨hnull hv, hs₁⟩
    | false =>
      rw [hv] at h₂
      cases h₂

mutual

/-- **What completing a value by a type gives has the shape of the type.** -/
theorem shaped_serialize (hc : Course schema find sort I leads)
    (hleaf : Leaf sort I given schema.serializeNamed) {s s' : Session σ} {t : Ty} (ht : sort t) (hs : I s) :
    (v : Json) → {w : Json} → t.serialize schema find v s = .ok w s' → t.Shaped leads given w ∧ I s'
  | .array items, w, h => by
    rw [Ty.serialize] at h
    obtain ⟨b, s₁, h₁, h₂⟩ := bind_eq_ok.mp h
    obtain ⟨hsort, hs₁, hnull, hfill⟩ := hc.strip_ok given ht hs h₁
    cases b with
    | base n => exact shaped_named hleaf hsort hs₁ hnull hfill h₂
    | listOf id inner =>
      obtain ⟨item, s₂, hr, h₃⟩ := bind_eq_ok.mp h₂
      obtain ⟨hlead, hitem, hs₂⟩ := hc.listOf hsort hs₁ hr
      obtain ⟨ws, s₃, h₄, h₅⟩ := bind_eq_ok.mp h₃
      obtain ⟨hws, hs₃⟩ := shaped_serializeItems hc hleaf hitem hs₂ items h₄
      cases h₅
      exact ⟨hfill _ (.list hlead hws), hs₃⟩
  | .null, w, h => shaped_serializeSingle hc hleaf ht hs h (fun _ he => nomatch he)
  | .bool _, w, h => shaped_serializeSingle hc hleaf ht hs h (fun _ he => nomatch he)
  | .number _, w, h => shaped_serializeSingle hc hleaf ht hs h (fun _ he => nomatch he)
  | .string _, w, h => shaped_serializeSingle hc hleaf ht hs h (fun _ he => nomatch he)
  | .object _, w, h => shaped_serializeSingle hc hleaf ht hs h (fun _ he => nomatch he)

theorem shaped_serializeItems (hc : Course schema find sort I leads)
    (hleaf : Leaf sort I given schema.serializeNamed) {s s' : Session σ} {t : Ty} (ht : sort t) (hs : I s) :
    (items : List Json) → {ws : List Json} → t.serializeItems schema find items s = .ok ws s' →
      (∀ w ∈ ws, t.Shaped leads given w) ∧ I s'
  | [], ws, h => by
    rw [Ty.serializeItems] at h
    cases h
    exact ⟨fun _ hw => (nomatch hw), hs⟩
  | v :: rest, ws, h => by
    rw [Ty.serializeItems] at h
    obtain ⟨w, s₁, h₁, h₂⟩ := bind_eq_ok.mp h
    obtain ⟨hw, hs₁⟩ := shaped_serialize hc hleaf ht hs v h₁
    obtain ⟨ws', s₂, h₃, h₄⟩ := bind_eq_ok.mp h₂
    obtain ⟨hws, hs₂⟩ := shaped_serializeItems hc hleaf ht hs₁ rest h₃
    cases h₄
    exact ⟨List.forall_mem_cons.mpr ⟨hw, hws⟩, hs₂⟩

end

/-! ### On the way in -/

/-- A single item is wrapped into as many lists as the type has. -/
theorem shaped_parseSingle (hc : Course schema find sort I leads)
    (hleaf : Leaf sort I given schema.parseNamed) {v : Json} (fuel : Nat) {s s' : Session σ} {t : Ty}
    (ht : sort t) (hs : I s) {w : Json} (h : t.parseSingle schema find v fuel s = .ok w s') :
    t.Shaped leads given w ∧ I s' := by
  induction fuel using Nat.strongRecOn generalizing t w s s' with
  | ind fuel ih =>
    unfold Ty.parseSingle at h
    obtain ⟨b, s₁, h₁, h₂⟩ := bind_eq_ok.mp h
    obtain ⟨hsort, hs₁, hnull, hfill⟩ := hc.strip_ok given ht hs h₁
    cases b with
    | base n => exact shaped_named hleaf hsort hs₁ hnull hfill h₂
    | listOf id inner =>
      simp only at h₂
      cases hv : v.isNull with
      | true =>
        rw [hv] at h₂
        cases h₂
        exact ⟨hnull hv, hs₁⟩
      | false =>
        rw [hv] at h₂
        cases fuel with
        | zero => cases h₂
        | succ below =>
          obtain ⟨item, s₂, hr, h₃⟩ := bind_eq_ok.mp h₂
          obtain ⟨hlead, hitem, hs₂⟩ := hc.listOf hsort hs₁ hr
          obtain ⟨w', s₃, h₄, h₅⟩ := bind_eq_ok.mp h₃
          obtain ⟨hw, hs₃⟩ := ih below (Nat.lt_succ_self below) hitem hs₂ h₄
          cases h₅
          exact ⟨hfill _ (.list hlead fun _ hmem => List.mem_singleton.mp hmem ▸ hw), hs₃⟩

/-- What reading a value that is no list gives. -/
theorem shaped_parseOther (hc : Course schema find sort I leads)
    (hleaf : Leaf sort I given schema.parseNamed) {t : Ty} (ht : sort t) (hs : I s) {v w : Json}
    (h : t.parse schema find v s = .ok w s') (hv : ∀ items, v = .array items → False) :
    t.Shaped leads given w ∧ I s' := by
  rw [Ty.parse.eq_2 schema find t v hv] at h
  exact hc.shaped_parseSingle hleaf schema.limit ht hs h

mutual

/-- **What reading a supplied value by a type gives has the shape of the type.** -/
theorem shaped_parse (hc : Course schema find sort I leads)
    (hleaf : Leaf sort I given schema.parseNamed) {s s' : Session σ} {t : Ty} (ht : sort t) (hs : I s) :
    (v : Json) → {w : Json} → t.parse schema find v s = .ok w s' → t.Shaped leads given w ∧ I s'
  | .array items, w, h => by
    rw [Ty.parse] at h
    obtain ⟨b, s₁, h₁, h₂⟩ := bind_eq_ok.mp h
    obtain ⟨hsort, hs₁, hnull, hfill⟩ := hc.strip_ok given ht hs h₁
    cases b with
    | base n => exact shaped_named hleaf hsort hs₁ hnull hfill h₂
    | listOf id inner =>
      obtain ⟨item, s₂, hr, h₃⟩ := bind_eq_ok.mp h₂
      obtain ⟨hlead, hitem, hs₂⟩ := hc.listOf hsort hs₁ hr
      obtain ⟨ws, s₃, h₄, h₅⟩ := bind_eq_ok.mp h₃
      obtain ⟨hws, hs₃⟩ := shaped_parseItems hc hleaf hitem hs₂ items h₄
      cases h₅
      exact ⟨hfill _ (.list hlead hws), hs₃⟩
  | .null, w, h => shaped_parseOther hc hleaf ht hs h (fun _ he => nomatch he)
  | .bool _, w, h => shaped_parseOther hc hleaf ht hs h (fun _ he => nomatch he)
  | .number _, w, h => shaped_parseOther hc hleaf ht hs h (fun _ he => nomatch he)
  | .string _, w, h => shaped_parseOther hc hleaf ht hs h (fun _ he => nomatch he)
  | .object _, w, h => shaped_parseOther hc hleaf ht hs h (fun _ he => nomatch he)

theorem shaped_parseItems (hc : Course schema find sort I leads)
    (hleaf : Leaf sort I given schema.parseNamed) {s s' : Session σ} {t : Ty} (ht : sort t) (hs : I s) :
    (items : List Json) → {ws : List Json} → t.parseItems schema find items s = .ok ws s' →
      (∀ w ∈ ws, t.Shaped leads given w) ∧ I s'
  | [], ws, h => by
    rw [Ty.parseItems] at h
    cases h
    exact ⟨fun _ hw => (nomatch hw), hs⟩
  | v :: rest, ws, h => by
    rw [Ty.parseItems] at h
    obtain ⟨w, s₁, h₁, h₂⟩ := bind_eq_ok.mp h
    obtain ⟨hw, hs₁⟩ := shaped_parse hc hleaf ht hs v h₁
    obtain ⟨ws', s₂, h₃, h₄⟩ := bind_eq_ok.mp h₂
    obtain ⟨hws, hs₂⟩ := shaped_parseItems hc hleaf ht hs₁ rest h₃
    cases h₄
    exact ⟨List.forall_mem_cons.mpr ⟨hw, hws⟩, hs₂⟩

end

end Ty.Course

/-! ## Scalars that answer null -/

theorem Lookup.call_eq_ok {α : Type} {c : Callback σ α} {a : α} {s s' : Session σ} :
    Lookup.call c s = .ok a s' ↔ ∃ app, c s.app = .ok a app ∧ s' = { s with app } := by
  unfold Lookup.call
  cases hc : c s.app with
  | ok b app =>
    constructor
    · intro h
      cases h
      exact ⟨app, rfl, rfl⟩
    · rintro ⟨app', h, rfl⟩
      cases h
      rfl
  | error f app => simp

namespace Schema

variable {schema : Schema σ} {find : Finder σ}

end Schema

namespace Sample

/-- Lists of strings, none of them null. -/
def words : Ty :=
  .listOf ⟨⟨0, 1⟩, []⟩ (.direct (.nonNull ⟨⟨0, 1⟩, [0]⟩ (.direct (.base (.standard .string)))))

end Sample

end EntityQuery
