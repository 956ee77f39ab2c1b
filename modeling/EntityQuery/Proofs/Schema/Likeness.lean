import EntityQuery.Proofs.Failure.Likeness
import EntityQuery.Proofs.Schema.Stability
import EntityQuery.Schema.Coercion

/-!
# Schemas whose callbacks fail alike

Two schemas are alike if they differ in their callbacks only, and these only in what they say where they
fail: in a fault, one may have another text that no client may read, or another panic.

* `Parallel`: computations on one state that end alike in every state.
* `Answer.Alike`, `Entity.Alike`, `Schema.Alike`: likeness of answers, of entities, of schemas.
* **`Schema.Alike.follow`**, **`Schema.Alike.serialize`**: following links and completing values come to
  the same on schemas that are alike.
-/

namespace EntityQuery

/-! ## Computations on one state -/

section

variable {ε σ α β γ δ : Type}

/-- Results that leave one state: two answers related by `A`, or two errors related by `E`. -/
inductive ResultRel (E : ε → ε → Prop) (A : α → β → Prop) :
    EStateM.Result ε σ α → EStateM.Result ε σ β → Prop
  | ok {a : α} {b : β} (h : A a b) (s : σ) : ResultRel E A (.ok a s) (.ok b s)
  | error {e e' : ε} (h : E e e') (s : σ) : ResultRel E A (.error e s) (.error e' s)

/-- Computations that end alike in every state. -/
def Parallel (E : ε → ε → Prop) (A : α → β → Prop) (x : EStateM ε σ α) (x' : EStateM ε σ β) :
    Prop :=
  ∀ s, ResultRel E A (x s) (x' s)

namespace Parallel

variable {E : ε → ε → Prop} {A : α → β → Prop} {B : γ → δ → Prop}

theorem pure {a : α} {b : β} (h : A a b) : Parallel E A (Pure.pure a) (Pure.pure b : EStateM ε σ β) :=
  fun s => .ok h s

theorem bind {x : EStateM ε σ α} {x' : EStateM ε σ β} {k : α → EStateM ε σ γ}
    {k' : β → EStateM ε σ δ} (h : Parallel E A x x') (hk : ∀ a b, A a b → Parallel E B (k a) (k' b)) :
    Parallel E B (x >>= k) (x' >>= k') := by
  intro s
  have hx := h s
  change ResultRel E B (EStateM.bind x k s) (EStateM.bind x' k' s)
  unfold EStateM.bind
  revert hx
  generalize x s = r
  generalize x' s = r'
  rintro (⟨hab, s⟩ | ⟨he, s⟩)
  · exact hk _ _ hab s
  · exact .error he s

theorem mono {A' : α → β → Prop} {x : EStateM ε σ α} {x' : EStateM ε σ β} (h : Parallel E A x x')
    (hA : ∀ a b, A a b → A' a b) : Parallel E A' x x' := by
  intro s
  have hx := h s
  revert hx
  generalize x s = r
  generalize x' s = r'
  rintro (⟨hab, s⟩ | ⟨he, s⟩)
  · exact .ok (hA _ _ hab) s
  · exact .error he s

/-- A computation beside itself. -/
theorem rfl' (hE : ∀ e, E e e) (x : EStateM ε σ α) : Parallel E Eq x x := by
  intro s
  cases x s with
  | ok a s => exact .ok rfl s
  | error e s => exact .error (hE e) s

end Parallel

end

variable {σ α β : Type}

/-- Likeness of callbacks: in every state they end alike and leave one state. -/
abbrev Callback.Alike (A : α → β → Prop) (c : Callback σ α) (c' : Callback σ β) : Prop :=
  Parallel Fault.Alike A c c'

/-- Likeness of the ways a computation on a session stops. -/
inductive Stop.Alike : Stop → Stop → Prop
  | defect (d : Defect) : Alike (.defect d) (.defect d)
  | fault {f g : Fault} (h : f.Alike g) : Alike (.fault f) (.fault g)
  | exhausted : Alike .exhausted .exhausted

@[refl] theorem Fault.Alike.refl : (f : Fault) → f.Alike f
  | .failure f => .failure (.refl f)
  | .panic p => .panic p p

@[refl] theorem Stop.Alike.refl : (e : Stop) → e.Alike e
  | .defect d => .defect d
  | .fault f => .fault (.refl f)
  | .exhausted => .exhausted

/-- Likeness of computations on a session. -/
abbrev Lookup.Alike (A : α → β → Prop) (x : Lookup σ α) (x' : Lookup σ β) : Prop :=
  Parallel Stop.Alike A x x'

namespace Lookup

variable {A : α → β → Prop}

theorem alike_call {c : Callback σ α} {c' : Callback σ β} (h : Callback.Alike A c c') :
    Alike A (call c) (call c') := by
  intro s
  have hc := h s.app
  unfold call
  revert hc
  generalize c s.app = r
  generalize c' s.app = r'
  rintro (⟨hab, app⟩ | ⟨he, app⟩)
  · exact .ok hab _
  · exact .error (.fault he) _

theorem alike_self (x : Lookup σ α) : Alike Eq x x := .rfl' Stop.Alike.refl x

end Lookup

/-! ## Schemas -/

/-- Likeness of answers: of one form, with work that is alike. -/
inductive Answer.Alike : Answer σ → Answer σ → Prop
  | ready (v : Json) : Alike (.ready v) (.ready v)
  | deferred {c c' : Callback σ Json} (h : Callback.Alike Eq c c') :
    Alike (.deferred c) (.deferred c')
  | settling (home : Home) (hops : Nat) {c c' : Callback σ Json} (h : Callback.Alike Eq c c') :
    Alike (.settling home hops c) (.settling home hops c')
  | stuck (home : Home) : Alike (.stuck home) (.stuck home)

/-- Likeness of attributes: they differ in their callbacks only, which are alike. -/
structure Attribute.Alike (a a' : Attribute σ) : Prop where
  label : a.label = a'.label
  type? : a.type? = a'.type?
  resolve : ∀ reference site,
    Callback.Alike Answer.Alike (a.resolve reference site) (a'.resolve reference site)
  checkRule : ∀ v, Callback.Alike Eq (a.checkRule v) (a'.checkRule v)

/-- Likeness of acts. -/
structure Act.Alike (a a' : Act σ) : Prop where
  label : a.label = a'.label
  arguments : a.arguments = a'.arguments
  perform : ∀ reference arguments,
    Callback.Alike Answer.Alike (a.perform reference arguments) (a'.perform reference arguments)

/-- Likeness of links. -/
structure Link.Alike (l l' : Link σ) : Prop where
  label : l.label = l'.label
  target : l.target = l'.target
  arguments : l.arguments = l'.arguments
  resolve : ∀ reference site,
    Callback.Alike Answer.Alike (l.resolve reference site) (l'.resolve reference site)

/-- Likeness of entities. -/
structure Entity.Alike (e e' : Entity σ) : Prop where
  name : e.name = e'.name
  arguments : e.arguments = e'.arguments
  resolve : ∀ arguments context,
    Callback.Alike Answer.Alike (e.resolve arguments context) (e'.resolve arguments context)
  attributes : List.Forall₂ Attribute.Alike e.attributes e'.attributes
  acts : List.Forall₂ Act.Alike e.acts e'.acts
  links : List.Forall₂ Link.Alike e.links e'.links

/-- Likeness of scalars; how they read supplied values is left open, as executions do not ask. -/
structure Scalar.Alike (t t' : Scalar σ) : Prop where
  name : t.name = t'.name
  serialize : ∀ v, Callback.Alike Eq (t.serialize v) (t'.serialize v)

/-- Likeness of definitions. -/
inductive Definition.Alike : Definition σ → Definition σ → Prop
  | scalar {t t' : Scalar σ} (h : t.Alike t') : Alike (.scalar t) (.scalar t')
  | entity {e e' : Entity σ} (h : e.Alike e') : Alike (.entity e) (.entity e')

/-- Likeness of schemas: the callbacks are alike, and everything else is the same. -/
structure Schema.Alike (S S' : Schema σ) : Prop where
  define : ∀ id, (S.define id).Alike (S'.define id)
  target : S.target = S'.target
  onForce : S.onForce = S'.onForce
  loader? : S.loader? = S'.loader?
  limit : S.limit = S'.limit

theorem rel_find? {R : α → β → Prop} {as : List α} {bs : List β} (h : List.Forall₂ R as bs)
    {p : α → Bool} {q : β → Bool} (hpq : ∀ a b, R a b → p a = q b) :
    Option.Rel R (as.find? p) (bs.find? q) := by
  induction h with
  | nil => exact .none
  | @cons a b as bs hab _ ih =>
    rw [List.find?_cons, List.find?_cons, hpq a b hab]
    split
    · exact .some hab
    · exact ih

namespace Entity.Alike

variable {e e' : Entity σ} (h : e.Alike e') (name : String)

include h

theorem attribute? : Option.Rel Attribute.Alike (e.attribute? name) (e'.attribute? name) :=
  rel_find? h.attributes fun _ _ ha => by rw [ha.label]

theorem act? : Option.Rel Act.Alike (e.act? name) (e'.act? name) :=
  rel_find? h.acts fun _ _ ha => by rw [ha.label]

theorem link? : Option.Rel Link.Alike (e.link? name) (e'.link? name) :=
  rel_find? h.links fun _ _ hl => by rw [hl.label]

end Entity.Alike

theorem Definition.Alike.name {d d' : Definition σ} (h : d.Alike d') : d.name = d'.name := by
  cases h with
  | scalar h => exact h.name
  | entity h => exact h.name

namespace Schema.Alike

variable {S S' : Schema σ} (h : S.Alike S')

include h

theorem definition : (t : NamedType) → (S.definition t).Alike (S'.definition t)
  | .standard _ => .scalar ⟨rfl, fun _ => .rfl' Fault.Alike.refl _⟩
  | .defined id => h.define id

theorem entity? (t : NamedType) : Option.Rel Entity.Alike (S.entity? t) (S'.entity? t) := by
  unfold Schema.entity?
  have ht := h.definition t
  revert ht
  generalize S.definition t = d
  generalize S'.definition t = d'
  rintro (h | h)
  · exact .none
  · exact .some h

theorem nameOf_eq : S.nameOf = S'.nameOf := funext fun t => (h.definition t).name

theorem known_eq : S.known = S'.known := by
  funext s
  unfold Schema.known
  rw [h.nameOf_eq, h.target, h.limit]

theorem textOf_eq : S.textOf = S'.textOf := by
  funext t s
  unfold Schema.textOf
  rw [h.known_eq]

theorem onDemand_eq : S.onDemand = S'.onDemand := by
  unfold Schema.onDemand
  rw [h.loader?]

theorem force_eq : S.force = S'.force := by
  funext r s
  unfold Schema.force
  rw [h.target, h.onForce]

theorem resolve_eq (find : Finder σ) (r : TypeRef) : r.resolve S find = r.resolve S' find := by
  unfold TypeRef.resolve
  rw [h.force_eq]

theorem strip_eq (find : Finder σ) (refusal : String → String) (v : Json) (t : Ty) :
    t.strip S find refusal v = t.strip S' find refusal v := by
  unfold Ty.strip TypeRef.resolveBare
  simp only [h.resolve_eq, h.textOf_eq]

/-- Schemas that are alike look up names alike, where no loader is asked. -/
theorem find_eq (hl : S.loader? = none) : S.find = S'.find := by
  rw [find_eq_of_eager hl, find_eq_of_eager (h.loader? ▸ hl)]

/-- **Links lead to entities that are alike.** -/
theorem follow (find : Finder σ) {l l' : Link σ} (hl : l.Alike l') (entity : String) :
    Lookup.Alike (fun p p' => p.1 = p'.1 ∧ p.2.Alike p'.2) (l.follow S find entity)
      (l'.follow S' find entity) := by
  unfold Link.follow
  rw [← hl.target, ← hl.label, h.resolve_eq, h.textOf_eq]
  refine (Lookup.alike_self _).bind ?_
  rintro target _ rfl
  have refused : Lookup.Alike (fun p p' => p.1 = p'.1 ∧ p.2.Alike p'.2)
      (do Lookup.defect (.invalidLinkType entity l.label.name (← S'.textOf target)) :
        Lookup σ (NamedType × Entity σ))
      (do Lookup.defect (.invalidLinkType entity l.label.name (← S'.textOf target)) :
        Lookup σ (NamedType × Entity σ)) := by
    refine (Lookup.alike_self _).bind ?_
    rintro text _ rfl
    exact fun s => .error (.defect _) s
  cases target with
  | nonNull id inner => exact refused
  | listOf id inner => exact refused
  | base t =>
    rcases rel_cases (h.entity? t) with ⟨he, he'⟩ | ⟨e, e', he, he', halike⟩
    · simp only [he, he']
      exact refused
    · simp only [he, he']
      exact .pure ⟨rfl, halike⟩

theorem serializeNamed (t : NamedType) (v : Json) :
    Lookup.Alike Eq (S.serializeNamed t v) (S'.serializeNamed t v) := by
  unfold Schema.serializeNamed
  have ht := h.definition t
  revert ht
  generalize S.definition t = d
  generalize S'.definition t = d'
  intro ht
  split
  · exact .pure rfl
  · cases ht with
    | scalar hs => exact Lookup.alike_call (hs.serialize v)
    | entity _ => exact .pure rfl

/-- Completing a value that is no list. -/
theorem serializeSingle (find : Finder σ) (t : Ty) {v : Json}
    (hv : ∀ items, v = .array items → False) :
    Lookup.Alike Eq (t.serialize S find v) (t.serialize S' find v) := by
  rw [Ty.serialize.eq_2 S find t v hv, Ty.serialize.eq_2 S' find t v hv, h.strip_eq, h.textOf_eq]
  refine (Lookup.alike_self _).bind ?_
  rintro b _ rfl
  cases b with
  | base n => exact h.serializeNamed n v
  | listOf id inner => exact Lookup.alike_self _

omit h

mutual

/-- **Values are completed alike.** -/
theorem serialize (h : S.Alike S') (find : Finder σ) (t : Ty) :
    (v : Json) → Lookup.Alike Eq (t.serialize S find v) (t.serialize S' find v)
  | .array items => by
    rw [Ty.serialize, Ty.serialize, h.strip_eq]
    refine (Lookup.alike_self _).bind ?_
    rintro b _ rfl
    cases b with
    | base n => exact h.serializeNamed n _
    | listOf id inner =>
      simp only [h.resolve_eq]
      refine (Lookup.alike_self _).bind ?_
      rintro item _ rfl
      refine (h.serializeItems find item items).bind ?_
      rintro vs _ rfl
      exact .pure rfl
  | .null => h.serializeSingle find t fun _ he => nomatch he
  | .bool _ => h.serializeSingle find t fun _ he => nomatch he
  | .number _ => h.serializeSingle find t fun _ he => nomatch he
  | .string _ => h.serializeSingle find t fun _ he => nomatch he
  | .object _ => h.serializeSingle find t fun _ he => nomatch he

theorem serializeItems (h : S.Alike S') (find : Finder σ) (t : Ty) : (vs : List Json) →
    Lookup.Alike Eq (t.serializeItems S find vs) (t.serializeItems S' find vs)
  | [] => .pure rfl
  | v :: rest => by
    rw [Ty.serializeItems, Ty.serializeItems]
    refine (h.serialize find t v).bind ?_
    rintro first _ rfl
    refine (h.serializeItems find t rest).bind ?_
    rintro others _ rfl
    exact .pure rfl

end

end Schema.Alike

end EntityQuery
