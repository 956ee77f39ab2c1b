import EntityQuery.Proofs.Binary64.Values
import EntityQuery.Proofs.Schema.Scalars
import EntityQuery.Proofs.Text.Decimals

/-!
# Integers of 32 bits

What the scalar of integers makes of a value is the integer that the value denotes, and no other one, although
it gets there by way of 64 bits, of doubles, and of a cast that stops at the ends of the 64 bits.

* `Json.Denotes`: the integer that a value denotes, said of the value alone; **`Json.Denotes.unique`**: there is
  only one.
* **`Standard.integer?_eq_some_iff`**: of 32 bits, a lenient reading gives the integer that a value denotes.
* **`integers_are_exact`**: the coercions of the scalar, both ways.
-/

namespace EntityQuery

/-! ## Denoted integers -/

/-- The value denotes the integer. -/
inductive Json.Denotes : Json → Int → Prop
  /-- An integer of 64 bits, with or without a sign. -/
  | integer {n : Int} (hn : Number.fits n = true) : Denotes (.int n) n
  /-- A double that equals the integer, as the dyadic rational that it is. -/
  | double {x : Binary64} {n : Int} (hx : x.isFinite = true) (hn : x.value = n) : Denotes (.number (.double x)) n
  | bool (b : Bool) : Denotes (.bool b) (if b then 1 else 0)
  /-- A signed decimal of 64 bits between blanks. -/
  | text {s : String} {cs : List Char} {n : Int} (hs : Text.Padded cs s.toList) (hn : SignedDecimal cs n)
    (hlow : -2 ^ 63 ≤ n) (hhigh : n < 2 ^ 63) : Denotes (.string s) n

theorem Json.denotes_bool_iff {b : Bool} {n : Int} : (Json.bool b).Denotes n ↔ n = if b then 1 else 0 := by
  constructor
  · intro h
    cases h
    rfl
  · rintro rfl
    exact .bool b

theorem Json.Denotes.unique {v : Json} {n m : Int} (hn : v.Denotes n) (hm : v.Denotes m) : n = m := by
  cases hn with
  | integer _ =>
    cases hm
    rfl
  | double _ hx =>
    cases hm with
    | double _ hx' => exact_mod_cast hx.symm.trans hx'
  | bool _ =>
    cases hm
    rfl
  | text hs hd _ _ =>
    cases hm with
    | text hs' hd' _ _ =>
      have hcs := (hs.trim_eq hd.ne_nil hd.isBlank).symm.trans (hs'.trim_eq hd'.ne_nil hd'.isBlank)
      exact hd.unique (hcs ▸ hd')

/-! ## Casts -/

/-- A cast to 64 bits stops at their ends. -/
theorem toInt_ofIntClamp (k : Int) : (Int64.ofIntClamp k).toInt = max (-2 ^ 63) (min k (2 ^ 63 - 1)) := by
  have hmin : Int64.minValue.toInt = -2 ^ 63 := rfl
  have hmax : Int64.maxValue.toInt = 2 ^ 63 - 1 := rfl
  unfold Int64.ofIntClamp
  split
  · next hlow =>
    split
    · next hhigh =>
      rw [Int64.toInt_ofIntLE]
      omega
    · omega
  · omega

namespace Standard

theorem isInt32_iff {n : Int} : isInt32 n = true ↔ -2 ^ 31 ≤ n ∧ n ≤ 2 ^ 31 - 1 := by
  simp only [isInt32, Bool.and_eq_true, decide_eq_true_eq]
  omega

theorem fits_of_isInt32 {n : Int} (h : isInt32 n = true) : Number.fits n = true := by
  have := isInt32_iff.mp h
  simp only [Number.fits, Bool.and_eq_true, decide_eq_true_eq]
  omega

variable {v w : Json} {i : Int64} (h32 : isInt32 i.toInt = true)

include h32

/-- What a cast gives in 32 bits, it has been given. -/
theorem ofIntClamp_eq_iff {k : Int} : Int64.ofIntClamp k = i ↔ k = i.toInt := by
  have := isInt32_iff.mp h32
  rw [← Int64.toInt_inj, toInt_ofIntClamp]
  omega

theorem integer?_double {x : Binary64} :
    integer? true (.number (.double x)) = some i ↔ x.isFinite = true ∧ x.value = i.toInt := by
  change x.integer?.map Int64.ofIntClamp = some i ↔ _
  rw [← Binary64.integer?_eq_some_iff, Option.map_eq_some_iff]
  constructor
  · rintro ⟨k, hk, hi⟩
    rw [hk, (ofIntClamp_eq_iff h32).mp hi]
  · intro hx
    exact ⟨i.toInt, hx, (ofIntClamp_eq_iff h32).mpr rfl⟩

/-- An integer of more than 64 bits goes by way of its double, which is too large as well. -/
theorem integer?_int {n : Int} : integer? true (.int n) = some i ↔ n = i.toInt := by
  cases hn : int64? n with
  | some j =>
    have hj : n = j.toInt := (int64?_eq_some_iff.mp hn).symm
    rw [hj, Int64.toInt_inj, ← hj]
    simp only [integer?, Json.int, Number.int64?, hn, Option.some.injEq]
  | none =>
    have hne : n ≠ i.toInt := by
      rintro rfl
      rw [int64?_eq_some_iff.mpr rfl] at hn
      cases hn
    have hlarge : 2 ^ 63 ≤ n.natAbs := by
      unfold int64? at hn
      split at hn
      · cases hn
      · omega
    simp only [integer?, Json.int, Number.int64?, hn, if_true, Number.toDouble, hne, iff_false]
    intro h
    obtain ⟨k, hk, hi⟩ := Option.map_eq_some_iff.mp h
    have hk63 := Binary64.two_pow_le_natAbs (by omega) hlarge hk
    rw [(ofIntClamp_eq_iff h32).mp hi] at hk63
    have := isInt32_iff.mp h32
    omega

/-- **Of 32 bits, a lenient reading gives the integer that a value denotes.** -/
theorem integer?_eq_some_iff : integer? true v = some i ↔ v.Denotes i.toInt := by
  cases v with
  | null => exact iff_of_false (fun h => nomatch h) fun h => nomatch h
  | array _ => exact iff_of_false (fun h => nomatch h) fun h => nomatch h
  | object _ => exact iff_of_false (fun h => nomatch h) fun h => nomatch h
  | bool b =>
    rw [Json.denotes_bool_iff]
    simp only [integer?, if_true, Option.some.injEq, ← Int64.toInt_inj]
    cases b <;> exact eq_comm
  | string s =>
    change readInteger? (Text.trim s.toList) = some i ↔ _
    rw [readInteger?_eq_some_iff]
    constructor
    · intro h
      exact .text (Text.padded_trim _) h i.le_toInt i.toInt_lt
    · intro h
      cases h with
      | text hs hn _ _ => rwa [hs.trim_eq hn.ne_nil hn.isBlank]
  | number n =>
    cases n with
    | double x =>
      rw [integer?_double h32]
      constructor
      · rintro ⟨hx, hn⟩
        exact .double hx hn
      · intro h
        cases h with
        | double hx hn => exact ⟨hx, hn⟩
    | int n =>
      refine (integer?_int h32).trans ⟨?_, ?_⟩
      · rintro rfl
        exact .integer (fits_of_isInt32 h32)
      · intro h
        cases h
        rfl

omit h32

/-- Of more than 32 bits it does not: the largest integer without sign is cut off. -/
example : integer? true (.int 18446744073709551615) = some Int64.maxValue := by decide +kernel

/-- A reading that is not lenient takes integers only. -/
theorem integer?_false_eq_some_iff : integer? false v = some i ↔ v = .int i.toInt := by
  constructor
  · intro h
    rcases v with _ | _ | (n | x) | _ | _ | _
    case number.int =>
      simp only [integer?, Number.int64?] at h
      split at h
      · next j hj =>
        cases h
        rw [← int64?_eq_some_iff.mp hj, Json.int]
      · cases h
    all_goals cases h
  · rintro rfl
    simp only [integer?, Json.int, Number.int64?, int64?_eq_some_iff.mpr rfl]

/-- An integer of 32 bits, as one of 64 bits. -/
theorem exists_int64 {n : Int} (h : isInt32 n = true) : ∃ i : Int64, i.toInt = n :=
  ⟨.ofInt n, int64?_eq_some_iff.mp (int64?_of_isInt32 h)⟩

/-- A coercion gives the integers of 32 bits that a reading is known to give. -/
theorem coerceInt?_iff {lenient : Bool} {P : Int → Prop}
    (h : ∀ i : Int64, isInt32 i.toInt = true → (integer? lenient v = some i ↔ P i.toInt)) :
    coerceInt? lenient v = some w ↔ ∃ n, P n ∧ isInt32 n = true ∧ w = .int n := by
  refine coerceInt?_eq_some_iff.trans ⟨?_, ?_⟩
  · rintro ⟨i, hi, h32, rfl⟩
    exact ⟨i.toInt, (h i h32).mp hi, h32, rfl⟩
  · rintro ⟨n, hn, h32, rfl⟩
    obtain ⟨i, rfl⟩ := exists_int64 h32
    exact ⟨i, (h i h32).mpr hn, h32, rfl⟩

theorem serialize?_int_iff : serialize? int v = some w ↔ ∃ n, v.Denotes n ∧ isInt32 n = true ∧ w = .int n :=
  coerceInt?_iff fun _ h32 => integer?_eq_some_iff h32

theorem parse?_int_iff : parse? int v = some w ↔ ∃ n, v = .int n ∧ isInt32 n = true ∧ w = .int n :=
  coerceInt?_iff fun _ _ => integer?_false_eq_some_iff

/-- A value that denotes an integer of more than 32 bits is not completed. -/
theorem serialize?_int_eq_none {n : Int} (hn : v.Denotes n) (h : isInt32 n = false) : serialize? int v = none := by
  refine Option.eq_none_iff_forall_ne_some.mpr fun w hw => ?_
  obtain ⟨m, hm, h32, -⟩ := serialize?_int_iff.mp hw
  rw [hn.unique hm, h32] at h
  cases h

/-- What is not completed as an integer is not read as one either. -/
theorem parse?_int_eq_none (h : serialize? int v = none) : parse? int v = none := by
  refine Option.eq_none_iff_forall_ne_some.mpr fun w hw => ?_
  obtain ⟨n, rfl, h32, rfl⟩ := parse?_int_iff.mp hw
  rw [serialize?_int_iff.mpr ⟨n, .integer (fits_of_isInt32 h32), h32, rfl⟩] at h
  cases h

end Standard

/-- **The coercions of integers are exact.** A resolved value is completed to the integer of 32 bits that it
denotes, and a supplied value is read as the integer of 32 bits that it is; a value that denotes an integer of more
than 32 bits is refused both ways. -/
theorem integers_are_exact {σ : Type} (v : Json) (app : σ) :
    (∀ w app', (Scalar.ofStandard .int).serialize v app = .ok w app' ↔
      ∃ n, v.Denotes n ∧ (-2 ^ 31 ≤ n ∧ n ≤ 2 ^ 31 - 1) ∧ w = .int n ∧ app' = app) ∧
    (∀ w app', (Scalar.ofStandard .int).parse v app = .ok w app' ↔
      ∃ n, v = .int n ∧ (-2 ^ 31 ≤ n ∧ n ≤ 2 ^ 31 - 1) ∧ w = .int n ∧ app' = app) ∧
    ∀ n, v.Denotes n → n < -2 ^ 31 ∨ 2 ^ 31 - 1 < n →
      (Scalar.ofStandard .int).serialize v app =
        .error (.failure (.invariant (Standard.int.serializeComplaint ++ v.render))) app ∧
      (Scalar.ofStandard .int).parse v app =
        .error (.failure (.engine (Standard.int.parseComplaint ++ v.render))) app := by
  have hint : (Scalar.ofStandard .int : Scalar σ).coercion = .standard .int := rfl
  refine ⟨fun w app' => ?_, fun w app' => ?_, fun n hn hout => ?_⟩
  · simp only [Scalar.serialize_eq_ok hint, Standard.serialize?_int_iff, Standard.isInt32_iff, and_assoc,
      ← exists_and_right]
  · simp only [Scalar.parse_eq_ok hint, Standard.parse?_int_iff, Standard.isInt32_iff, and_assoc,
      ← exists_and_right]
  · have hlarge : Standard.isInt32 n = false := by
      rw [Bool.eq_false_iff, ne_eq, Standard.isInt32_iff]
      omega
    have hnone := Standard.serialize?_int_eq_none hn hlarge
    exact ⟨Scalar.serialize_of_none hint hnone, Scalar.parse_of_none hint (Standard.parse?_int_eq_none hnone)⟩

/-- The largest integer of 32 bits is completed from its double, and `2 ^ 63`, where the cast stops, is not. -/
theorem integers_are_exact_doubles :
    let top : Json := .number (.double ⟨0x41DFFFFFFFC00000⟩)
    let huge : Json := .number (.double ⟨0x43E0000000000000⟩)
    (Scalar.ofStandard .int : Scalar Unit).serialize top () = .ok (.int 2147483647) () ∧
    huge.Denotes 9223372036854775808 ∧
    (Scalar.ofStandard .int : Scalar Unit).serialize huge () =
      .error (.failure (.invariant (Standard.int.serializeComplaint ++ huge.render))) () := by
  intro top huge
  have hdenotes {x : Binary64} {n : Int} (h : x.integer? = some n) : (Json.number (.double x)).Denotes n :=
    .double (Binary64.integer?_eq_some_iff.mp h).1 (Binary64.integer?_eq_some_iff.mp h).2
  have htop : top.Denotes 2147483647 := hdenotes (by decide +kernel)
  have hhuge : huge.Denotes 9223372036854775808 := hdenotes (by decide +kernel)
  exact ⟨((integers_are_exact top ()).1 _ _).mpr ⟨_, htop, by omega, rfl, rfl⟩, hhuge,
    ((integers_are_exact huge ()).2.2 _ hhuge (by omega)).1⟩

end EntityQuery
