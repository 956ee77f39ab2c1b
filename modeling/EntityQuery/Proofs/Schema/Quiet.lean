import EntityQuery.Proofs.Schema.Recording
import EntityQuery.Proofs.Schema.Searching

/-!
# Lookups leave the log alone

Whatever an execution asks of a schema that keeps a log, other than calling a resolver, leaves the log as
it is: looking up and loading names, resolving references, and coercing values. That holds of every
schema, with or without a loader, sound or not, and however the lookup ends.

* `Lookup.Quiet`: a lookup that leaves the log alone.
* **`Schema.Records.closed`**: what a traversal asks for leaves the log alone; so do looking up names,
  resolving references and following links.
* **`Schema.Records.serialize`**, **`Schema.Records.parse`**: coercing values.
-/

namespace EntityQuery

open Lookup Session

variable {σ α β : Type}

namespace Lookup

/-- However the lookup ends, it leaves the log alone. -/
def Quiet (x : Lookup (Recorded σ) α) : Prop := ∀ s, (x.after s).log = s.log

variable {x : Lookup (Recorded σ) α} {f : α → Lookup (Recorded σ) β}

theorem quiet_iff : x.Quiet ↔ ∀ s, (∃ a s', x s = .ok a s' ∧ s'.log = s.log) ∨
    ∃ e s', x s = .error e s' ∧ s'.log = s.log := by
  refine forall_congr' fun s => ?_
  unfold after
  cases x s with
  | ok a s' => exact ⟨fun h => .inl ⟨a, s', rfl, h⟩, by rintro (⟨_, _, ⟨⟩, h⟩ | ⟨_, _, ⟨⟩, _⟩); exact h⟩
  | error e s' =>
    exact ⟨fun h => .inr ⟨e, s', rfl, h⟩, by rintro (⟨_, _, ⟨⟩, _⟩ | ⟨_, _, ⟨⟩, h⟩); exact h⟩

theorem quiet_pure (a : α) : Quiet (pure a : Lookup (Recorded σ) α) := fun _ => rfl

theorem quiet_throw (e : Stop) : Quiet (throw e : Lookup (Recorded σ) α) := fun _ => rfl

theorem quiet_warn (t : Topic) (message : String) :
    Quiet (modify (Session.warn · t message) : Lookup (Recorded σ) PUnit) := fun _ => rfl

theorem Quiet.bind (hx : x.Quiet) (hf : ∀ a, (f a).Quiet) : Quiet (x >>= f) := by
  refine quiet_iff.mpr fun s => ?_
  rcases quiet_iff.mp hx s with ⟨a, s', hr, hs⟩ | ⟨e, s', hr, hs⟩
  · rw [bind_of_ok hr, ← hs]
    exact quiet_iff.mp (hf a) s'
  · exact .inr ⟨e, s', bind_of_error hr, hs⟩

theorem quiet_call {c : Callback (Recorded σ) α} (hc : c.Quiet) : Quiet (Lookup.call c) := by
  refine quiet_iff.mpr fun s => ?_
  have h := hc s.app
  unfold Lookup.call
  cases hr : c s.app with
  | ok a app =>
    rw [hr] at h
    exact .inl ⟨a, { s with app }, rfl, h⟩
  | error f app =>
    rw [hr] at h
    exact .inr ⟨.fault f, { s with app }, rfl, h⟩

theorem Quiet.ensuring (hx : x.Quiet) {clean : Session (Recorded σ) → Session (Recorded σ)}
    (h : ∀ s, (clean s).log = s.log) : Quiet (x.ensuring clean) := by
  refine quiet_iff.mpr fun s => ?_
  unfold Lookup.ensuring
  rcases quiet_iff.mp hx s with ⟨a, s', hr, hs⟩ | ⟨e, s', hr, hs⟩
  · rw [hr]
    exact .inl ⟨a, clean s', rfl, (h s').trans hs⟩
  · rw [hr]
    exact .inr ⟨e, clean s', rfl, (h s').trans hs⟩

theorem Quiet.onDefect (hx : x.Quiet) {clean : Session (Recorded σ) → Session (Recorded σ)}
    (h : ∀ s, (clean s).log = s.log) : Quiet (x.onDefect clean) := by
  refine quiet_iff.mpr fun s => ?_
  unfold Lookup.onDefect
  rcases quiet_iff.mp hx s with ⟨a, s', hr, hs⟩ | ⟨e, s', hr, hs⟩
  · rw [hr]
    exact .inl ⟨a, s', rfl, hs⟩
  · rw [hr]
    cases e with
    | defect d => exact .inr ⟨.defect d, clean s', rfl, (h s').trans hs⟩
    | fault f => exact .inr ⟨.fault f, s', rfl, hs⟩
    | exhausted => exact .inr ⟨.exhausted, s', rfl, hs⟩

theorem Quiet.attempt (hx : x.Quiet) : Quiet x.attempt := by
  refine quiet_iff.mpr fun s => ?_
  unfold Lookup.attempt
  rcases quiet_iff.mp hx s with ⟨a, s', hr, hs⟩ | ⟨e, s', hr, hs⟩
  · rw [hr]
    exact .inl ⟨.ok a, s', rfl, hs⟩
  · rw [hr]
    cases e with
    | defect d => exact .inl ⟨.error d, s', rfl, hs⟩
    | fault f => exact .inr ⟨.fault f, s', rfl, hs⟩
    | exhausted => exact .inr ⟨.exhausted, s', rfl, hs⟩

theorem Quiet.catchFailure (hx : x.Quiet) : Quiet x.catchFailure := by
  refine quiet_iff.mpr fun s => ?_
  unfold Lookup.catchFailure
  rcases quiet_iff.mp hx s with ⟨a, s', hr, hs⟩ | ⟨e, s', hr, hs⟩
  · rw [hr]
    exact .inl ⟨.ok a, s', rfl, hs⟩
  · rw [hr]
    obtain d | (f | p) | _ := e
    · exact .inr ⟨.defect d, s', rfl, hs⟩
    · exact .inl ⟨.error f, s', rfl, hs⟩
    · exact .inr ⟨.fault (.panic p), s', rfl, hs⟩
    · exact .inr ⟨.exhausted, s', rfl, hs⟩

end Lookup

namespace Schema.Records

variable {schema : Schema (Recorded σ)} (h : schema.Records)

include h

/-- What a traversal asks for leaves the log alone. -/
theorem closed : Closed schema fun x => Quiet x where
  pure := quiet_pure
  stop e _ := quiet_throw e
  session _ := rfl
  change _ hf s := congrArg Recorded.log (hf s)
  force r s := by
    unfold Schema.force after
    by_cases hr : s.isForced r
    · simp only [hr, if_true]
    · simp only [hr, Bool.false_eq_true, if_false]
      exact h.force r s.app
  bind := Quiet.bind
  ensuring _ hc hx := hx.ensuring fun s => congrArg Recorded.log (hc s)
  onDefect _ hc hx := hx.onDefect fun s => congrArg Recorded.log (hc s)
  attempt := Quiet.attempt

theorem loads : Loads schema fun x => Quiet x := by
  intro loader hloader name find scan hfind hscan
  have hquiet := h.loader loader hloader name
  revert hquiet
  generalize loader name = l
  intro hquiet
  induction hquiet with
  | done found => exact quiet_pure found
  | panic p => exact quiet_throw _
  | @step change next hc _ ih =>
    intro s
    exact (ih (change s.app) { s with app := change s.app }).trans (hc s.app)
  | find name _ ih => exact (hfind name).attempt.bind ih
  | scan _ ih => exact hscan.attempt.bind ih

/-- **Looking up a name leaves the log alone**, also where it is loaded. -/
theorem find (name : String) : (schema.find name).Quiet := h.closed.find h.loads name

/-- So does looking up the entity that a query names. -/
theorem root {x : Execution (Recorded σ)} (hx : x.schema = schema) (q : Query) : (x.root q).Quiet :=
  h.closed.root h.loads hx q

/-- So does resolving a reference. -/
theorem resolve (r : TypeRef) : (r.resolve schema schema.find).Quiet := h.closed.resolve h.loads r

theorem resolveBare (r : TypeRef) : (r.resolveBare schema schema.find).Quiet :=
  h.closed.resolveBare h.loads r

/-- **Following a link leaves the log alone.** -/
theorem follow (entity : String) (l : Link (Recorded σ)) :
    (l.follow schema schema.find entity).Quiet :=
  h.closed.follow h.loads entity l

/-! ## Coercing values -/

theorem strip (refusal : String → String) (v : Json) (t : Ty) :
    (t.strip schema schema.find refusal v).Quiet := by
  cases t with
  | base t => exact quiet_pure _
  | listOf id inner => exact quiet_pure _
  | nonNull id inner =>
    simp only [Ty.strip]
    split
    · exact fun _ => rfl
    · exact h.resolveBare inner

theorem serializeNamed (t : NamedType) (v : Json) : (schema.serializeNamed t v).Quiet := by
  unfold Schema.serializeNamed
  split
  · exact quiet_pure _
  · split
    · next sc hsc => exact quiet_call (h.scalars t sc hsc v).1
    · exact quiet_pure _

theorem parseNamed (t : NamedType) (v : Json) : (schema.parseNamed t v).Quiet := by
  unfold Schema.parseNamed
  split
  · exact quiet_pure _
  · split
    · next sc hsc => exact quiet_call (h.scalars t sc hsc v).2
    · exact quiet_throw _

theorem serializeSingle (t : Ty) (v : Json) (hv : ∀ items, v = .array items → False) :
    (t.serialize schema schema.find v).Quiet := by
  rw [Ty.serialize.eq_2 schema schema.find t v hv]
  refine (h.strip _ _ t).bind fun b => ?_
  cases b with
  | base n => exact h.serializeNamed n v
  | listOf id inner =>
    simp only
    split
    · exact quiet_pure _
    · exact fun _ => rfl

theorem parseSingle (v : Json) (fuel : Nat) (t : Ty) :
    (t.parseSingle schema schema.find v fuel).Quiet := by
  induction fuel generalizing t with
  | zero =>
    unfold Ty.parseSingle
    refine (h.strip _ _ t).bind fun b => ?_
    cases b with
    | base n => exact h.parseNamed n v
    | listOf id inner =>
      simp only
      split
      · exact quiet_pure _
      · exact quiet_throw _
  | succ fuel ih =>
    unfold Ty.parseSingle
    refine (h.strip _ _ t).bind fun b => ?_
    cases b with
    | base n => exact h.parseNamed n v
    | listOf id inner =>
      simp only
      split
      · exact quiet_pure _
      · exact (h.resolve inner).bind fun item => (ih item).bind fun _ => quiet_pure _

omit h

mutual

/-- **Completing a value leaves the log alone.** -/
theorem serialize (h : schema.Records) (t : Ty) :
    (v : Json) → (t.serialize schema schema.find v).Quiet
  | .array items => by
    rw [Ty.serialize]
    refine (h.strip _ _ t).bind fun b => ?_
    cases b with
    | base n => exact h.serializeNamed n _
    | listOf id inner =>
      exact (h.resolve inner).bind fun item =>
        (serializeItems h item items).bind fun _ => quiet_pure _
  | .null => h.serializeSingle t .null fun _ he => nomatch he
  | .bool _ => h.serializeSingle t (.bool _) fun _ he => nomatch he
  | .number _ => h.serializeSingle t (.number _) fun _ he => nomatch he
  | .string _ => h.serializeSingle t (.string _) fun _ he => nomatch he
  | .object _ => h.serializeSingle t (.object _) fun _ he => nomatch he

theorem serializeItems (h : schema.Records) (t : Ty) :
    (items : List Json) → (t.serializeItems schema schema.find items).Quiet
  | [] => quiet_pure _
  | v :: rest => (serialize h t v).bind fun _ =>
      (serializeItems h t rest).bind fun _ => quiet_pure _

end

theorem parseOther (h : schema.Records) (t : Ty) (v : Json)
    (hv : ∀ items, v = .array items → False) : (t.parse schema schema.find v).Quiet := by
  rw [Ty.parse.eq_2 schema schema.find t v hv]
  exact h.parseSingle v _ t

mutual

/-- **Reading a supplied value leaves the log alone.** -/
theorem parse (h : schema.Records) (t : Ty) : (v : Json) → (t.parse schema schema.find v).Quiet
  | .array items => by
    rw [Ty.parse]
    refine (h.strip _ _ t).bind fun b => ?_
    cases b with
    | base n => exact h.parseNamed n _
    | listOf id inner =>
      exact (h.resolve inner).bind fun item =>
        (parseItems h item items).bind fun _ => quiet_pure _
  | .null => h.parseOther t .null fun _ he => nomatch he
  | .bool _ => h.parseOther t (.bool _) fun _ he => nomatch he
  | .number _ => h.parseOther t (.number _) fun _ he => nomatch he
  | .string _ => h.parseOther t (.string _) fun _ he => nomatch he
  | .object _ => h.parseOther t (.object _) fun _ he => nomatch he

theorem parseItems (h : schema.Records) (t : Ty) :
    (items : List Json) → (t.parseItems schema schema.find items).Quiet
  | [] => quiet_pure _
  | v :: rest => (parse h t v).bind fun _ =>
      (parseItems h t rest).bind fun _ => quiet_pure _

end

end Schema.Records

end EntityQuery
