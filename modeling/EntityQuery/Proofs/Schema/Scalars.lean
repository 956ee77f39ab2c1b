import EntityQuery.Typing.Scalar

/-!
# What standard scalars give

A standard scalar gives values of one form, and takes a value of that form as it is: what is completed once
stays as it is when it is completed again or supplied again.

* `Standard.Accepted`: the values that a standard scalar takes as they are when they are supplied.
* **`Standard.accepted_of_parse?`**, **`Standard.accepted_of_serialize?`**: it gives no others.
* **`Standard.serialize?_of_serialize?`**: what has been completed is completed already.
* `Scalar.serialize_eq_ok`, `Scalar.parse_eq_ok`: so it is with every scalar that coerces as a standard one does.
-/

namespace EntityQuery

namespace Standard

/-- The values that a standard scalar takes as they are when they are supplied. -/
inductive Accepted : Standard → Json → Prop
  | string (s : String) : Accepted string (.string s)
  | int {n : Int} (h : isInt32 n = true) : Accepted int (.int n)
  | float {n : Number} (h : n.toDouble.isFinite = true) : Accepted float (.number n)
  | boolean (b : Bool) : Accepted boolean (.bool b)
  | id (s : String) : Accepted id (.string s)

variable {k : Standard} {v w : Json}

/-! ## Integers -/

/-- An integer of 32 bits is one of 64 bits. -/
theorem int64?_of_isInt32 {n : Int} (h : isInt32 n = true) : int64? n = some (Int64.ofInt n) := by
  simp only [isInt32, Bool.and_eq_true, decide_eq_true_eq] at h
  exact if_pos (by omega)

theorem coerceInt?_eq_some_iff {lenient : Bool} :
    coerceInt? lenient v = some w ↔
      ∃ i, integer? lenient v = some i ∧ isInt32 i.toInt = true ∧ w = .int i.toInt := by
  simp only [coerceInt?, Option.bind_eq_some_iff]
  refine exists_congr fun i => and_congr_right fun _ => ?_
  cases isInt32 i.toInt <;> simp [eq_comm]

/-- An integer of 32 bits is read as itself, however lenient the reading is. -/
theorem coerceInt?_int {n : Int} (h : isInt32 n = true) (lenient : Bool) :
    coerceInt? lenient (.int n) = some (.int n) := by
  have hi := int64?_of_isInt32 h
  have hn : (Int64.ofInt n).toInt = n := int64?_eq_some_iff.mp hi
  refine coerceInt?_eq_some_iff.mpr ⟨.ofInt n, ?_, hn.symm ▸ h, by rw [hn]⟩
  simp only [integer?, Json.int, Number.int64?, hi]

theorem accepted_of_coerceInt? {lenient : Bool} (h : coerceInt? lenient v = some w) : Accepted int w := by
  obtain ⟨i, -, h32, rfl⟩ := coerceInt?_eq_some_iff.mp h
  exact .int h32

/-! ## Supplied values -/

theorem Accepted.parse? (h : Accepted k w) : k.parse? w = some w := by
  cases h with
  | string s => rfl
  | int h => exact coerceInt?_int h false
  | float h => simp only [Standard.parse?, h, if_true]
  | boolean b => rfl
  | id s => rfl

theorem Accepted.isNull (h : Accepted k w) : w.isNull = false := by cases h <;> rfl

/-- **What reading a supplied value gives is accepted.** -/
theorem accepted_of_parse? (h : k.parse? v = some w) : Accepted k w := by
  cases k with
  | string =>
    cases v <;> simp only [Standard.parse?, reduceCtorEq] at h
    cases h
    exact .string _
  | int => exact accepted_of_coerceInt? h
  | float =>
    cases v <;> simp only [Standard.parse?, reduceCtorEq] at h
    split at h
    · next hn =>
      cases h
      exact .float hn
    · cases h
  | boolean =>
    cases v <;> simp only [Standard.parse?, reduceCtorEq] at h
    cases h
    exact .boolean _
  | id =>
    obtain ⟨s, -, rfl⟩ := Option.map_eq_some_iff.mp h
    exact .id s

/-! ## Completing values -/

theorem isFinite_of_readDouble? {cs : List Char} {x : Binary64} (h : readDouble? cs = some x) :
    x.isFinite = true := by
  simp only [readDouble?] at h
  -- With a point or without one, an infinite double is refused in the end.
  split at h
  all_goals
    split at h
    · simp only [reduceCtorEq] at h
    · obtain ⟨_, -, h⟩ := Option.bind_eq_some_iff.mp h
      split at h
      · next hx =>
        cases h
        exact (Bool.and_eq_true_iff.mp hx).2
      · cases h

/-- The double that a resolved value denotes is finite. -/
theorem isFinite_of_denotedDouble? {x : Binary64} (h : denotedDouble? v = some x) : x.isFinite = true := by
  cases v with
  | number n =>
    simp only [denotedDouble?] at h
    split at h
    · next hx =>
      cases h
      exact hx
    · cases h
  | bool b => cases b <;> cases h <;> decide +kernel
  | string s => exact isFinite_of_readDouble? h
  | null => cases h
  | array _ => cases h
  | object _ => cases h

/-- **What completing a value gives is accepted.** -/
theorem accepted_of_serialize? (h : k.serialize? v = some w) : Accepted k w := by
  cases k with
  | string =>
    cases v <;> simp only [serialize?, reduceCtorEq] at h <;> cases h <;> exact .string _
  | int => exact accepted_of_coerceInt? h
  | float =>
    obtain ⟨x, hx, rfl⟩ := Option.map_eq_some_iff.mp h
    exact Accepted.float (isFinite_of_denotedDouble? hx)
  | boolean =>
    cases h
    exact .boolean _
  | id =>
    obtain ⟨s, -, rfl⟩ := Option.map_eq_some_iff.mp h
    exact .id s

/-- **What has been completed is completed already.** -/
theorem serialize?_of_serialize? (h : k.serialize? v = some w) : k.serialize? w = some w := by
  cases accepted_of_serialize? h with
  | string s => rfl
  | int h32 => exact coerceInt?_int h32 true
  | float hx =>
    -- Only doubles stay as they are: completing an integer would give the double nearest to it.
    obtain ⟨x, -, he⟩ := Option.map_eq_some_iff.mp h
    cases he
    simp only [serialize?, denotedDouble?, Number.toDouble] at hx ⊢
    simp only [hx, if_true, Option.map_some]
  | boolean b => rfl
  | id s => rfl

theorem serialize_eq_ok : k.serialize v = .ok w ↔ k.serialize? v = some w := by
  unfold Standard.serialize
  cases k.serialize? v <;> simp

theorem parse_eq_ok : k.parse v = .ok w ↔ k.parse? v = some w := by
  unfold Standard.parse
  cases k.parse? v <;> simp

end Standard

/-! ## Scalars that coerce as a standard one does -/

namespace Scalar

variable {σ α : Type} {sc : Scalar σ} {k : Standard} {v w : Json} {app app' : σ}

theorem lift_eq_ok {r : Except Failure α} {a : α} :
    (lift r : Callback σ α) app = .ok a app' ↔ r = .ok a ∧ app' = app := by
  cases r with
  | ok b =>
    change EStateM.Result.ok b app = _ ↔ _
    simp [eq_comm]
  | error f =>
    change EStateM.Result.error (Fault.failure f) app = _ ↔ _
    simp

theorem serialize_eq_ok (hk : sc.coercion = .standard k) :
    sc.serialize v app = .ok w app' ↔ k.serialize? v = some w ∧ app' = app := by
  simp only [serialize, hk, lift_eq_ok, Standard.serialize_eq_ok]

theorem parse_eq_ok (hk : sc.coercion = .standard k) :
    sc.parse v app = .ok w app' ↔ k.parse? v = some w ∧ app' = app := by
  simp only [parse, hk, lift_eq_ok, Standard.parse_eq_ok]

theorem serialize_of_none (hk : sc.coercion = .standard k) (h : k.serialize? v = none) :
    sc.serialize v app = .error (.failure (.invariant (k.serializeComplaint ++ v.render))) app := by
  simp only [serialize, hk, Standard.serialize, h]
  rfl

theorem parse_of_none (hk : sc.coercion = .standard k) (h : k.parse? v = none) :
    sc.parse v app = .error (.failure (.engine (k.parseComplaint ++ v.render))) app := by
  simp only [parse, hk, Standard.parse, h]
  rfl

end Scalar

end EntityQuery
