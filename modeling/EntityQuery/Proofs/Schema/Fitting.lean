import EntityQuery.Proofs.Schema.Soundness

/-!
# Values of fitting types

A type fits where it unwraps to a scalar for good. Coercing a value by such a type comes to a value or
calls back into the application; it never meets a defect and never nests too deep.

* `Lookup.Kind`: a kind of computations that is closed under sequencing, such as those that only call
  back (`Kind.safe`), or those that come to the same in all sessions alike (`Kind.pure`).
* `Ty.Fits`: a type that unwraps to a scalar for good.
* **`Ty.Fits.serialize`**, **`Ty.Fits.parse`**: coercing by a fitting type is of every kind that the
  scalars' own coercions are of.
* **`Ty.Fits.text_eq`**: how a fitting type is written does not depend on which references are forced later.
-/

namespace EntityQuery

open Lookup Session

variable {σ α β : Type}

/-- What a callback comes to, in some state of the application. -/
def Callback.Gives (c : Callback σ α) (r : Except Fault α) : Prop :=
  ∃ app app', c app = match r with
    | .ok a => .ok a app'
    | .error f => .error f app'

namespace Lookup

/-- In sessions alike, the lookup has this answer and changes nothing. -/
def Answers (x : Lookup σ α) (a : α) (s : Session σ) : Prop := ∀ s', s.Alike s' → x s' = .ok a s'

/-- In sessions alike, the lookup fails so and changes nothing. -/
def Fails (x : Lookup σ α) (f : Failure) (s : Session σ) : Prop :=
  ∀ s', s.Alike s' → x s' = .error (.fault (.failure f)) s'

variable {x : Lookup σ α} {f : α → Lookup σ β} {s s' : Session σ} {a : α} {b : β}

theorem Settled.answers (h : Settled x a s) : Answers x a s := fun s' hs => h s' hs.later

theorem Answers.bind (hx : Answers x a s) (hf : Answers (f a) b s) : Answers (x >>= f) b s :=
  fun s' hs => (bind_of_ok (hx s' hs)).trans (hf s' hs)

theorem Answers.bind_fails {g : Failure} (hx : Answers x a s) (hf : Fails (f a) g s) :
    Fails (x >>= f) g s :=
  fun s' hs => (bind_of_ok (hx s' hs)).trans (hf s' hs)

theorem answers_pure (a : α) : Answers (pure a) a s := fun _ _ => rfl

theorem fails_fail (f : Failure) : Fails (Lookup.fail f : Lookup σ α) f s := fun _ _ => rfl

theorem answers_textOf (schema : Schema σ) (t : Ty) :
    Answers (schema.textOf t) (t.text (schema.known s)) s := by
  intro s' hs
  unfold Schema.textOf Schema.known Session.isForced
  rw [hs.forced]

theorem answers_refTextOf (schema : Schema σ) (r : TypeRef) :
    Answers (schema.refTextOf r) (r.text (schema.known s)) s := by
  intro s' hs
  unfold Schema.refTextOf Schema.known Session.isForced
  rw [hs.forced]

/-- A kind of computations, in sessions alike: those that answer or fail without an effect are of the
kind, and so are sequences. -/
structure Kind (s : Session σ) where
  Has : ∀ {α : Type}, Lookup σ α → Prop
  of_answers : ∀ {α : Type} {x : Lookup σ α} {a : α}, Answers x a s → Has x
  of_fails : ∀ {α : Type} {x : Lookup σ α} {f : Failure}, Fails x f s → Has x
  bind : ∀ {α β : Type} {x : Lookup σ α} {f : α → Lookup σ β}, Has x → (∀ a, Has (f a)) →
    Has (x >>= f)
  answers_bind : ∀ {α β : Type} {x : Lookup σ α} {f : α → Lookup σ β} {a : α}, Answers x a s →
    Has (f a) → Has (x >>= f)

/-- How a computation ends that meets no defect. -/
def ended (r : Except Fault α) (s : Session σ) : EStateM.Result Stop (Session σ) α :=
  match r with
  | .ok a => .ok a s
  | .error f => .error (.fault f) s

/-- In sessions alike, the computation comes to what meets `Q`, or to a fault that does, and leaves a
session alike. -/
def Comes (s : Session σ) (Q : Except Fault α → Prop) (x : Lookup σ α) : Prop :=
  ∀ s', s.Alike s' → ∃ r s'', x s' = ended r s'' ∧ s.Alike s'' ∧ Q r

theorem Comes.mono {Q Q' : Except Fault α → Prop} (h : Comes s Q x) (hQ : ∀ r, Q r → Q' r) :
    Comes s Q' x := by
  intro s' hs
  obtain ⟨r, s'', hx, hs'', hr⟩ := h s' hs
  exact ⟨r, s'', hx, hs'', hQ r hr⟩

theorem Comes.bind {Q : Except Fault α → Prop} {R : Except Fault β → Prop} (hx : Comes s Q x)
    (hok : ∀ a, Q (.ok a) → Comes s R (f a)) (herror : ∀ g, Q (.error g) → R (.error g)) :
    Comes s R (x >>= f) := by
  intro s' hs
  obtain ⟨r, s₁, h₁, hs₁, hr⟩ := hx s' hs
  cases r with
  | ok a =>
    obtain ⟨r', s₂, h₂, hs₂, hr'⟩ := hok a hr s₁ hs₁
    exact ⟨r', s₂, (bind_of_ok h₁).trans h₂, hs₂, hr'⟩
  | error g => exact ⟨.error g, s₁, bind_of_error h₁, hs₁, herror g hr⟩

theorem Answers.comes {Q : Except Fault α → Prop} (h : Answers x a s) (hQ : Q (.ok a)) :
    Comes s Q x := fun s' hs => ⟨.ok a, s', h s' hs, hs, hQ⟩

theorem Fails.comes {g : Failure} {Q : Except Fault α → Prop} (h : Fails x g s)
    (hQ : Q (.error (.failure g))) : Comes s Q x :=
  fun s' hs => ⟨.error (.failure g), s', h s' hs, hs, hQ⟩

theorem comes_call (c : Callback σ α) : Comes s c.Gives (Lookup.call c) := by
  intro s' hs
  cases hc : c s'.app with
  | ok a app =>
    refine ⟨.ok a, { s' with app }, ?_, hs.trans (alike_setApp s' app), s'.app, app, hc⟩
    simp only [Lookup.call, hc, ended]
  | error f app =>
    refine ⟨.error f, { s' with app }, ?_, hs.trans (alike_setApp s' app), s'.app, app, hc⟩
    simp only [Lookup.call, hc, ended]

/-- What a computation comes to, in some session alike. -/
def Gives (s : Session σ) (x : Lookup σ α) (r : Except Fault α) : Prop :=
  ∃ s' s'', s.Alike s' ∧ x s' = ended r s''

theorem Comes.gives {Q : Except Fault α → Prop} (h : Comes s Q x) : Comes s (Gives s x) x := by
  intro s' hs
  obtain ⟨r, s'', hx, hs'', -⟩ := h s' hs
  exact ⟨r, s'', hx, hs'', s', s'', hs, hx⟩

/-- The computations that meet no defect and do not nest too deep. -/
def Kind.safe (s : Session σ) : Kind s where
  Has x := Comes s (fun _ => True) x
  of_answers h := h.comes trivial
  of_fails h := h.comes trivial
  bind hx hf := hx.bind (fun a _ => hf a) fun _ _ => trivial
  answers_bind hx hf := (hx.comes (Q := fun r => r = .ok _) rfl).bind
    (fun a ha => by cases ha; exact hf) fun g hg => by cases hg

/-- The computations that come to the same in all sessions alike. -/
def Kind.pure (s : Session σ) : Kind s where
  Has x := ∃ r, Comes s (· = r) x
  of_answers h := ⟨.ok _, h.comes rfl⟩
  of_fails h := ⟨.error _, h.comes rfl⟩
  bind := by
    rintro α β x f ⟨r, hx⟩ hf
    cases r with
    | ok a =>
      obtain ⟨r', hr'⟩ := hf a
      exact ⟨r', hx.bind (fun a' ha => by cases ha; exact hr') fun g hg => by cases hg⟩
    | error g =>
      exact ⟨.error g, hx.bind (fun a ha => by cases ha) fun g' hg => by cases hg; rfl⟩
  answers_bind := by
    rintro α β x f a hx ⟨r, hf⟩
    exact ⟨r, (hx.comes (Q := fun r => r = .ok a) rfl).bind
      (fun a' ha => by cases ha; exact hf) fun g hg => by cases hg⟩

end Lookup

open Lookup

/-! ## Fitting types -/

section

variable {schema : Schema σ} {s : Session σ} {fuel fuel' : Nat}

/-- A type that unwraps to a scalar for good. -/
def Ty.Fits (schema : Schema σ) (s : Session σ) (fuel : Nat) (t : Ty) : Prop :=
  ∃ n, Settled (t.unwrapWithin schema schema.find fuel) n s ∧ schema.entity? n = none

/-- A type without its non-null wrapper that is a scalar, or a list of items of a fitting type. -/
def BareTy.Fits (schema : Schema σ) (s : Session σ) (fuel : Nat) : BareTy → Prop
  | .base n => schema.entity? n = none
  | .listOf _ inner => ∃ below < fuel, ∃ item, Settled (inner.resolve schema schema.find) item s ∧
      item.Fits schema s below

variable (hp : schema.Plain)

include hp

theorem Ty.Fits.bare {t : BareTy} (h : t.type.Fits schema s fuel) (hle : fuel ≤ fuel') :
    t.Fits schema s fuel' := by
  have hfind := schema.stable_require hp
  obtain ⟨n, hs, hn⟩ := h
  cases t with
  | base n' =>
    have he : n' = n := by
      have := hs s (.refl s)
      cases fuel <;> exact (EStateM.Result.ok.inj this).1
    rw [← he] at hn
    exact hn
  | listOf id inner =>
    cases fuel with
    | zero => cases hs s (.refl s)
    | succ below =>
      obtain ⟨item, h₁, h₂⟩ := hs.of_bind (inner.stable_resolve hfind)
        fun t => t.stable_unwrapWithin hfind below
      exact ⟨below, by omega, item, h₁, n, h₂, hn⟩

/-- A fitting type without its non-null wrapper fits. -/
theorem Ty.Fits.strip (K : Kind s) {t : Ty} (h : t.Fits schema s fuel)
    {refusal : String → String} {v : Json} {f : BareTy → Lookup σ α}
    (hf : ∀ b : BareTy, b.Fits schema s fuel → K.Has (f b)) :
    K.Has (t.strip schema schema.find refusal v >>= f) := by
  have hfind := schema.stable_require hp
  cases t with
  | base n => exact hf (.base n) (Ty.Fits.bare (t := .base n) hp h (Nat.le_refl _))
  | listOf id inner =>
    exact hf (.listOf id inner) (Ty.Fits.bare (t := .listOf id inner) hp h (Nat.le_refl _))
  | nonNull id inner =>
    simp only [Ty.strip]
    split
    · refine K.of_fails (f := .engine (refusal ((Ty.nonNull id inner).text (schema.known s)))) ?_
      intro s' hs
      exact bind_of_error ((answers_textOf schema _).bind_fails (fails_fail _) s' hs)
    · obtain ⟨n, hs, hn⟩ := h
      cases fuel with
      | zero => cases hs s (.refl s)
      | succ below =>
        obtain ⟨b, h₁, h₂⟩ := hs.of_bind (inner.stable_resolveBare hfind)
          fun b => b.type.stable_unwrapWithin hfind below
        have hfits : b.type.Fits schema s below := ⟨n, h₂, hn⟩
        exact K.answers_bind h₁.answers (hf b (hfits.bare hp (by omega)))

/-- The coercions of the scalars on the way out are of the kind. -/
def Lookup.Kind.Serializes (K : Kind s) (schema : Schema σ) : Prop :=
  ∀ (sc : Scalar σ) n v, schema.definition n = .scalar sc → K.Has (Lookup.call (sc.serialize v))

/-- The coercions of the scalars on the way in are of the kind. -/
def Lookup.Kind.Parses (K : Kind s) (schema : Schema σ) : Prop :=
  ∀ (sc : Scalar σ) n v, schema.definition n = .scalar sc → K.Has (Lookup.call (sc.parse v))

variable {K : Kind s} (hcall : K.Serializes schema)

omit hp

include hcall in
theorem BareTy.Fits.serializeNamed {n : NamedType} (hn : schema.entity? n = none) (v : Json) :
    K.Has (schema.serializeNamed n v) := by
  unfold Schema.serializeNamed
  split
  · exact K.of_answers (answers_pure _)
  · cases hd : schema.definition n with
    | scalar sc => exact hcall sc n v hd
    | entity e =>
      unfold Schema.entity? at hn
      rw [hd] at hn
      cases hn

include hp hcall

/-- Completing a value that is no list. -/
theorem Ty.Fits.serializeSingle {t : Ty} (h : t.Fits schema s fuel) {v : Json}
    (hv : ∀ items, v = .array items → False) : K.Has (t.serialize schema schema.find v) := by
  rw [Ty.serialize.eq_2 schema schema.find t v hv]
  refine h.strip hp K fun b hb => ?_
  cases b with
  | base n => exact BareTy.Fits.serializeNamed hcall hb v
  | listOf id inner =>
    simp only
    split
    · exact K.of_answers (answers_pure _)
    · exact K.of_fails ((answers_textOf schema _).bind_fails (fails_fail _))

omit hp hcall

mutual

/-- **Completing a value by a fitting type.** -/
theorem Ty.Fits.serialize (hp : schema.Plain) (hcall : K.Serializes schema) {fuel : Nat} {t : Ty}
    (h : t.Fits schema s fuel) : (v : Json) → K.Has (t.serialize schema schema.find v)
  | .array items => by
    rw [Ty.serialize]
    refine h.strip hp K fun b hb => ?_
    cases b with
    | base n => exact BareTy.Fits.serializeNamed hcall hb _
    | listOf id inner =>
      obtain ⟨below, -, item, hr, hi⟩ := hb
      exact K.answers_bind hr.answers
        (K.bind (hi.serializeItems hp hcall items) fun _ => K.of_answers (answers_pure _))
  | .null => h.serializeSingle hp hcall (fun _ he => nomatch he)
  | .bool _ => h.serializeSingle hp hcall (fun _ he => nomatch he)
  | .number _ => h.serializeSingle hp hcall (fun _ he => nomatch he)
  | .string _ => h.serializeSingle hp hcall (fun _ he => nomatch he)
  | .object _ => h.serializeSingle hp hcall (fun _ he => nomatch he)

theorem Ty.Fits.serializeItems (hp : schema.Plain) (hcall : K.Serializes schema) {fuel : Nat} {t : Ty}
    (h : t.Fits schema s fuel) :
    (items : List Json) → K.Has (t.serializeItems schema schema.find items)
  | [] => K.of_answers (answers_pure _)
  | v :: rest =>
    K.bind (h.serialize hp hcall v) fun _ =>
      K.bind (h.serializeItems hp hcall rest) fun _ => K.of_answers (answers_pure _)

end

variable (hparse : K.Parses schema)

include hparse in
theorem BareTy.Fits.parseNamed {n : NamedType} (hn : schema.entity? n = none) (v : Json) :
    K.Has (schema.parseNamed n v) := by
  unfold Schema.parseNamed
  split
  · exact K.of_answers (answers_pure _)
  · cases hd : schema.definition n with
    | scalar sc => exact hparse sc n v hd
    | entity e =>
      unfold Schema.entity? at hn
      rw [hd] at hn
      cases hn

include hp hparse

/-- Reading a value that is no list wraps it into no more lists than the type has. -/
theorem Ty.Fits.parseSingle {fuel limit : Nat} {t : Ty} (h : t.Fits schema s fuel)
    (hle : fuel ≤ limit) (v : Json) : K.Has (t.parseSingle schema schema.find v limit) := by
  induction limit generalizing fuel t with
  | zero =>
    unfold Ty.parseSingle
    refine h.strip hp K fun b hb => ?_
    cases b with
    | base n => exact BareTy.Fits.parseNamed hparse hb v
    | listOf id inner =>
      obtain ⟨below, hlt, -⟩ := hb
      omega
  | succ limit ih =>
    unfold Ty.parseSingle
    refine h.strip hp K fun b hb => ?_
    cases b with
    | base n => exact BareTy.Fits.parseNamed hparse hb v
    | listOf id inner =>
      obtain ⟨below, hlt, item, hr, hi⟩ := hb
      simp only
      split
      · exact K.of_answers (answers_pure _)
      · exact K.answers_bind hr.answers
          (K.bind (ih hi (by omega)) fun _ => K.of_answers (answers_pure _))

/-- Reading a value that is no list. -/
theorem Ty.Fits.parseOther {fuel : Nat} {t : Ty} (h : t.Fits schema s fuel)
    (hle : fuel ≤ schema.limit) {v : Json} (hv : ∀ items, v = .array items → False) :
    K.Has (t.parse schema schema.find v) := by
  rw [Ty.parse.eq_2 schema schema.find t v hv]
  exact h.parseSingle hp hparse hle v

omit hp hparse

mutual

/-- **Reading a supplied value by a fitting type.** -/
theorem Ty.Fits.parse (hp : schema.Plain) (hparse : K.Parses schema) {fuel : Nat} {t : Ty}
    (h : t.Fits schema s fuel) (hle : fuel ≤ schema.limit) :
    (v : Json) → K.Has (t.parse schema schema.find v)
  | .array items => by
    rw [Ty.parse]
    refine h.strip hp K fun b hb => ?_
    cases b with
    | base n => exact BareTy.Fits.parseNamed hparse hb _
    | listOf id inner =>
      obtain ⟨below, hlt, item, hr, hi⟩ := hb
      exact K.answers_bind hr.answers
        (K.bind (hi.parseItems hp hparse (by omega) items) fun _ => K.of_answers (answers_pure _))
  | .null => h.parseOther hp hparse hle (fun _ he => nomatch he)
  | .bool _ => h.parseOther hp hparse hle (fun _ he => nomatch he)
  | .number _ => h.parseOther hp hparse hle (fun _ he => nomatch he)
  | .string _ => h.parseOther hp hparse hle (fun _ he => nomatch he)
  | .object _ => h.parseOther hp hparse hle (fun _ he => nomatch he)

theorem Ty.Fits.parseItems (hp : schema.Plain) (hparse : K.Parses schema) {fuel : Nat} {t : Ty}
    (h : t.Fits schema s fuel) (hle : fuel ≤ schema.limit) :
    (items : List Json) → K.Has (t.parseItems schema schema.find items)
  | [] => K.of_answers (answers_pure _)
  | v :: rest =>
    K.bind (h.parse hp hparse hle v) fun _ =>
      K.bind (h.parseItems hp hparse hle rest) fun _ => K.of_answers (answers_pure _)

end

include hp

/-- A reference that unwraps to a scalar resolves to a fitting type. -/
theorem TypeRef.Fits.resolve {r : TypeRef} (h : r.Fits schema s) :
    ∃ t, Settled (r.resolve schema schema.find) t s ∧ t.Fits schema s schema.limit := by
  have hfind := schema.stable_require hp
  obtain ⟨t, h₁, h₂⟩ := h.of_bind (r.stable_resolve hfind) fun t =>
    (t.stable_unwrapWithin hfind schema.limit).bind fun _ => stable_pure _
  obtain ⟨n, h₃, h₄⟩ := h₂.of_bind (t.stable_unwrapWithin hfind schema.limit)
    fun _ => stable_pure _
  refine ⟨t, h₁, n, h₃, ?_⟩
  have he := (EStateM.Result.ok.inj (h₄ s (.refl s))).1
  cases hn : schema.entity? n with
  | none => rfl
  | some e => simp [hn] at he

end

/-! ## How fitting types are written -/

theorem Schema.isForced_of_settled {schema : Schema σ} {r : LazyRef} {t : Ty} {s : Session σ}
    (h : Settled (schema.force r) t s) : t = schema.target r ∧ s.isForced r = true := by
  have h' := h s (.refl s)
  unfold Schema.force at h'
  split at h'
  · next hr => exact ⟨(EStateM.Result.ok.inj h').1.symm, hr⟩
  · obtain ⟨ht, hs⟩ := EStateM.Result.ok.inj h'
    have hl := congrArg (fun s => s.forced.length) hs
    simp at hl

section

variable {schema : Schema σ} {s s' : Session σ} {fuel depth : Nat} {r : TypeRef} {t : Ty}

/-- A reference is written as the type is that it leads to, if that is not by name. -/
theorem TypeRef.refTextWith_eq (hf : s.forced ⊆ s'.forced)
    (hr : Settled (r.resolve schema schema.find) t s)
    (ht : ∀ depth, t.textWith schema.nameOf ((schema.known s').lazyText depth) =
      t.textWith schema.nameOf ((schema.known s).lazyText depth)) (depth : Nat) :
    Ty.refTextWith schema.nameOf ((schema.known s').lazyText depth) r =
      Ty.refTextWith schema.nameOf ((schema.known s).lazyText depth) r := by
  cases r with
  | named name => rfl
  | direct t' =>
    cases (EStateM.Result.ok.inj (hr s (.refl s))).1
    exact ht depth
  | lazy r =>
    obtain ⟨rfl, hforced⟩ := Schema.isForced_of_settled hr
    have hforced' : s'.isForced r = true := by
      simp only [Session.isForced, List.contains_iff_mem] at hforced ⊢
      exact hf hforced
    cases depth with
    | zero => rfl
    | succ depth =>
      simp only [Ty.refTextWith, Known.lazyText, Schema.known, hforced, hforced', if_true]
      exact ht depth

theorem TypeRef.settled_of_resolveBare {fixed : Prop} {find : Finder σ} {b : BareTy}
    (hfind : ∀ name, Stable fixed (find.require name))
    (h : Settled (r.resolveBare schema find) b s) : Settled (r.resolve schema find) b.type s := by
  obtain ⟨t, h₁, h₂⟩ := h.of_bind (r.stable_resolve hfind) fun t => by
    cases t with
    | base t => exact stable_pure _
    | listOf id inner => exact stable_pure _
    | nonNull id inner => exact stable_of_never fun _ _ _ h => by cases h
  have h₂ := h₂ s (.refl s)
  cases t <;> cases h₂ <;> exact h₁

variable (hp : schema.Plain)

include hp

theorem Ty.textWith_eq (hf : s.forced ⊆ s'.forced) (fuel : Nat) (t : Ty) {n : NamedType}
    (h : Settled (t.unwrapWithin schema schema.find fuel) n s) (depth : Nat) :
    t.textWith schema.nameOf ((schema.known s').lazyText depth) =
      t.textWith schema.nameOf ((schema.known s).lazyText depth) := by
  have hfind := schema.stable_require hp
  induction fuel generalizing t depth with
  | zero =>
    cases t with
    | base t => rfl
    | nonNull id inner => cases h s (.refl s)
    | listOf id inner => cases h s (.refl s)
  | succ fuel ih =>
    cases t with
    | base t => rfl
    | nonNull id inner =>
      obtain ⟨b, h₁, h₂⟩ := h.of_bind (inner.stable_resolveBare hfind)
        fun b => b.type.stable_unwrapWithin hfind fuel
      simp only [Ty.textWith]
      rw [TypeRef.refTextWith_eq hf (TypeRef.settled_of_resolveBare hfind h₁) (ih b.type h₂)]
    | listOf id inner =>
      obtain ⟨item, h₁, h₂⟩ := h.of_bind (inner.stable_resolve hfind)
        fun t => t.stable_unwrapWithin hfind fuel
      simp only [Ty.textWith]
      rw [TypeRef.refTextWith_eq hf h₁ (ih item h₂)]

/-- Forcing more references does not change how a fitting type is written. -/
theorem Ty.Fits.text_eq (h : t.Fits schema s fuel) (hf : s.forced ⊆ s'.forced) :
    t.text (schema.known s') = t.text (schema.known s) := by
  obtain ⟨n, h, -⟩ := h
  exact Ty.textWith_eq hp hf fuel t h schema.limit

/-- Nor how a fitting reference is written. -/
theorem TypeRef.Fits.text_eq (h : r.Fits schema s) (hf : s.forced ⊆ s'.forced) :
    r.text (schema.known s') = r.text (schema.known s) := by
  obtain ⟨t, hr, n, ht, -⟩ := h.resolve hp
  exact TypeRef.refTextWith_eq hf hr (Ty.textWith_eq hp hf _ t ht) schema.limit

end

end EntityQuery
