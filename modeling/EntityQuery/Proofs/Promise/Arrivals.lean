import EntityQuery.Promise.Combinators
import Mathlib.Data.List.Nodup

/-!
# What has come in of a list

The items of a list of thenables come in one by one, in any order, each with an outcome.

* `Arrivals`: the items that have come in, in that order.
* `Arrivals.verdict?`: what they make of the promise of the list: the failure of the first item that
  failed, or the values of all items, by index.
* **`Arrivals.verdict?_ok_iff`**, **`Arrivals.verdict?_error_iff`**: what that says.
* `Gather.Shows`: a list whose slots hold the values that have come in. **`Gather.Shows.fill`**: another
  value comes in.
-/

namespace EntityQuery

variable {V : Type}

/-- The items of a list that have come in, by number, each with its outcome, the first one first. -/
abbrev Arrivals (V : Type) := List (Nat × Outcome V)

namespace Arrivals

section

variable (l : Arrivals V)

/-- The failure that an item has come in with. -/
def failureOf (a : Nat × Outcome V) : Option Failure :=
  match a.2 with
  | .ok _ => none
  | .error f => some f

/-- The failure of the first item that has failed. -/
def failure? : Option Failure := l.findSome? failureOf

/-- The value of an item. -/
def value? (i : Nat) : Option V := l.findSome? fun a => if a.1 = i then a.2.toOption else none

/-- The values of `n` items, by index, once none is missing. -/
def values? (n : Nat) : Option (List V) :=
  if (List.range n).all fun i => (l.value? i).isSome then some ((List.range n).filterMap l.value?)
  else none

/-- What the promise of a list of `n` items settles with. -/
def verdict? (n : Nat) : Option (Except Failure (List V)) :=
  match l.failure? with
  | some f => some (.error f)
  | none => (l.values? n).map .ok

/-- Each of `n` items comes in once at most. -/
structure Once (n : Nat) : Prop where
  nodup : (l.map Prod.fst).Nodup
  lt : ∀ a ∈ l, a.1 < n

end

variable {l : Arrivals V} {n i : Nat} {o : Outcome V} {v : V} {f : Failure}

/-! ## One more item -/

theorem failure?_snoc : failure? (l ++ [(i, o)]) = l.failure?.or (failureOf (i, o)) := by
  rw [failure?, List.findSome?_append]
  simp [failure?]

theorem value?_snoc (j : Nat) :
    value? (l ++ [(i, o)]) j = (l.value? j).or (if i = j then o.toOption else none) := by
  rw [value?, List.findSome?_append]
  simp [value?]

/-- An item that fails leaves the values as they are. -/
theorem value?_snoc_error : value? (l ++ [(i, .error f)]) = l.value? := by
  funext j
  rw [value?_snoc]
  simp [Except.toOption]

theorem value?_eq_none (h : ∀ o, (i, o) ∉ l) : l.value? i = none := by
  refine List.findSome?_eq_none_iff.mpr fun a ha => ?_
  rw [if_neg]
  rintro rfl
  exact h a.2 ha

theorem values?_nil_of_pos (hn : 0 < n) : values? ([] : Arrivals V) n = none := by
  refine if_neg fun hall => ?_
  cases List.all_eq_true.mp hall 0 (List.mem_range.mpr hn)

theorem Once.snoc (h : l.Once n) (hi : i < n) (hnew : ∀ o, (i, o) ∉ l) :
    Once (l ++ [(i, o)]) n where
  nodup := by
    rw [List.map_append, List.nodup_append]
    refine ⟨h.nodup, by simp, ?_⟩
    rintro a ha b hb rfl
    obtain rfl : a = i := by simpa using hb
    obtain ⟨⟨_, o'⟩, hmem, rfl⟩ := List.mem_map.mp ha
    exact hnew o' hmem
  lt a ha := by
    rcases List.mem_append.mp ha with ha | ha
    · exact h.lt a ha
    · obtain rfl := List.mem_singleton.mp ha
      exact hi

/-! ## What has been decided -/

/-- An item comes in with one outcome only. -/
theorem Once.unique (h : l.Once n) {o' : Outcome V} (ho : (i, o) ∈ l) (ho' : (i, o') ∈ l) :
    o = o' :=
  (Prod.mk.inj (List.inj_on_of_nodup_map h.nodup ho ho' rfl)).2

theorem Once.value?_eq_some_iff (h : l.Once n) : l.value? i = some v ↔ (i, .ok v) ∈ l := by
  constructor
  · intro hv
    obtain ⟨⟨j, o⟩, hmem, ha⟩ := List.exists_of_findSome?_eq_some hv
    split at ha
    · rename_i hj
      obtain rfl : j = i := hj
      cases o with
      | ok w =>
        cases ha
        exact hmem
      | error f => cases ha
    · cases ha
  · intro hmem
    cases hv : l.value? i with
    | none =>
      have hnone := List.findSome?_eq_none_iff.mp hv _ hmem
      simp [Except.toOption] at hnone
    | some w =>
      obtain ⟨⟨j, o⟩, hmem', ha⟩ := List.exists_of_findSome?_eq_some hv
      split at ha
      · rename_i hj
        obtain rfl : j = i := hj
        rw [h.unique hmem' hmem] at ha
        exact ha.symm
      · cases ha

theorem values?_eq_some_iff {vs : List V} :
    l.values? n = some vs ↔ (List.range n).map l.value? = vs.map some := by
  have hsome : ∀ is : List Nat, (∀ i ∈ is, (l.value? i).isSome = true) →
      is.map l.value? = (is.filterMap l.value?).map some := by
    intro is
    induction is with
    | nil => simp
    | cons i is ih =>
      intro h
      obtain ⟨hi, his⟩ := List.forall_mem_cons.mp h
      obtain ⟨v, hv⟩ := Option.isSome_iff_exists.mp hi
      simp [hv, ih his]
  rw [values?]
  constructor
  · intro h
    split at h
    · rename_i hall
      cases h
      exact hsome _ (List.all_eq_true.mp hall)
    · cases h
  · intro h
    have hall : ∀ i ∈ List.range n, (l.value? i).isSome = true := fun i hi => by
      have hmem : l.value? i ∈ vs.map some := h ▸ List.mem_map_of_mem hi
      obtain ⟨v, -, hv⟩ := List.mem_map.mp hmem
      rw [← hv]
      rfl
    rw [if_pos (List.all_eq_true.mpr hall)]
    have hmap := (hsome _ hall).symm.trans h
    rw [List.map_injective_iff.mpr (fun _ _ => Option.some.inj) hmap]

/-- **The values of all items, by index.** -/
theorem Once.values?_iff (h : l.Once n) {vs : List V} :
    l.values? n = some vs ↔
      vs.length = n ∧ ∀ (i : Nat) v, vs[i]? = some v → (i, .ok v) ∈ l := by
  rw [values?_eq_some_iff]
  constructor
  · intro hmap
    have hlength : vs.length = n := by simpa using (congrArg List.length hmap).symm
    refine ⟨hlength, fun i v hv => h.value?_eq_some_iff.mp ?_⟩
    have hi : i < n := hlength ▸ (List.getElem?_eq_some_iff.mp hv).1
    have hget := congrArg (·[i]?) hmap
    simpa [hi, hv] using hget
  · rintro ⟨hlength, hall⟩
    refine List.ext_getElem? fun i => ?_
    rw [List.getElem?_map, List.getElem?_map]
    rcases Nat.lt_or_ge i n with hi | hi
    · have hv : vs[i]? = some vs[i] := List.getElem?_eq_getElem (hlength.symm ▸ hi)
      rw [hv, List.getElem?_range hi]
      exact congrArg some (h.value?_eq_some_iff.mpr (hall i _ hv))
    · rw [List.getElem?_eq_none (by simpa using hi), List.getElem?_eq_none (hlength.symm ▸ hi)]
      rfl

theorem failure?_eq_some_iff : l.failure? = some f ↔
    ∃ before i after, l = before ++ (i, .error f) :: after ∧
      ∀ a ∈ before, ∃ v, a.2 = .ok v := by
  have hok : ∀ a : Nat × Outcome V, failureOf a = none ↔ ∃ v, a.2 = .ok v := by
    rintro ⟨i, v | f⟩ <;> simp [failureOf]
  rw [failure?, List.findSome?_eq_some_iff]
  constructor
  · rintro ⟨before, ⟨i, o⟩, after, rfl, ho, hbefore⟩
    refine ⟨before, i, after, ?_, fun a ha => (hok a).mp (hbefore a ha)⟩
    cases o with
    | ok v => cases ho
    | error g => cases ho; rfl
  · rintro ⟨before, i, after, rfl, hbefore⟩
    exact ⟨before, _, after, rfl, rfl, fun a ha => (hok a).mpr (hbefore a ha)⟩

/-- **The promise of a list is fulfilled exactly when all items have come in with values.** -/
theorem Once.verdict?_ok_iff (h : l.Once n) {vs : List V} :
    l.verdict? n = some (.ok vs) ↔
      vs.length = n ∧ ∀ (i : Nat) v, vs[i]? = some v → (i, .ok v) ∈ l := by
  rw [← h.values?_iff, verdict?]
  cases hf : l.failure? with
  | none => cases l.values? n <;> simp
  | some f =>
    refine iff_of_false (fun he => by cases he) fun hvs => ?_
    obtain ⟨before, i, after, rfl, -⟩ := failure?_eq_some_iff.mp hf
    obtain ⟨hlength, hall⟩ := h.values?_iff.mp hvs
    have hmem : (i, Except.error f) ∈ before ++ (i, Except.error f) :: after := by simp
    have hi : i < vs.length := hlength ▸ h.lt _ hmem
    cases h.unique hmem (hall i _ (List.getElem?_eq_getElem hi))

/-- **The promise of a list is rejected with the failure of the first item that has failed.** -/
theorem verdict?_error_iff : l.verdict? n = some (.error f) ↔
    ∃ before i after, l = before ++ (i, .error f) :: after ∧ ∀ a ∈ before, ∃ v, a.2 = .ok v := by
  rw [← failure?_eq_some_iff, verdict?]
  cases l.failure? with
  | none => cases l.values? n <;> simp
  | some g => simp

/-! ## Deciding -/

/-- What is decided stays so. -/
theorem verdict?_snoc_of_some (hi : i < n) (hnew : ∀ o, (i, o) ∉ l)
    {x : Except Failure (List V)} (h : l.verdict? n = some x) :
    verdict? (l ++ [(i, o)]) n = some x := by
  rw [verdict?] at h
  rw [verdict?, failure?_snoc]
  cases hf : l.failure? with
  | some f => simpa [hf] using h
  | none =>
    rw [hf] at h
    obtain ⟨vs, hvs, -⟩ := Option.map_eq_some_iff.mp h
    have hget : some none = vs[i]?.map some := by
      simpa [hi, value?_eq_none hnew] using congrArg (·[i]?) (values?_eq_some_iff.mp hvs)
    obtain ⟨v, -, hv⟩ := Option.map_eq_some_iff.mp hget.symm
    cases hv

theorem failure?_eq_none (h : l.verdict? n = none) : l.failure? = none := by
  rw [verdict?] at h
  cases hf : l.failure? with
  | none => rfl
  | some f => simp [hf] at h

/-- **An item that fails decides**, unless that has been decided before. -/
theorem verdict?_snoc_error (hi : i < n) (hnew : ∀ o, (i, o) ∉ l) :
    verdict? (l ++ [(i, .error f)]) n = (l.verdict? n).or (some (.error f)) := by
  cases h : l.verdict? n with
  | some x => exact verdict?_snoc_of_some hi hnew h
  | none =>
    rw [verdict?, failure?_snoc, failure?_eq_none h]
    rfl

/-- **The last value decides**, unless that has been decided before. -/
theorem verdict?_snoc_ok (hi : i < n) (hnew : ∀ o, (i, o) ∉ l) :
    verdict? (l ++ [(i, .ok v)]) n =
      (l.verdict? n).or ((values? (l ++ [(i, .ok v)]) n).map .ok) := by
  cases h : l.verdict? n with
  | some x => exact verdict?_snoc_of_some hi hnew h
  | none =>
    rw [verdict?, failure?_snoc, failure?_eq_none h]
    rfl

end Arrivals

/-! ## The slots of a list -/

/-- A list whose slots hold the values that have come in. -/
structure Gather.Shows (c : Gather V) (l : Arrivals V) (n : Nat) : Prop where
  slots : c.slots = (List.range n).map l.value?
  remaining : c.remaining = c.slots.countP Option.isNone
  /-- Each value has taken one from the count. -/
  counted : c.remaining + l.countP (fun a => a.2.isOk) = n

namespace Gather.Shows

variable {c : Gather V} {l : Arrivals V} {n i : Nat} {v : V} {f : Failure}

theorem start (n : Nat) : (Gather.ofSize n : Gather V).Shows [] n where
  slots := by
    refine List.ext_getElem? fun i => ?_
    simp only [Gather.ofSize, List.getElem?_replicate, List.getElem?_map]
    by_cases hi : i < n
    · simp [hi, Arrivals.value?]
    · rw [if_neg hi, List.getElem?_eq_none (by simpa using hi)]
      rfl
  remaining := by simp [Gather.ofSize, List.countP_replicate]
  counted := by simp [Gather.ofSize]

/-- The values of a list are those that have come in, once none is missing. -/
theorem values?_eq (h : c.Shows l n) : c.values? = l.values? n := by
  have hzero : c.remaining = 0 ↔ ((List.range n).all fun i => (l.value? i).isSome) = true := by
    rw [h.remaining, h.slots, List.countP_eq_zero, List.all_eq_true]
    simp [Option.isSome_iff_ne_none]
  rw [Gather.values?, Arrivals.values?]
  by_cases h₀ : c.remaining = 0
  · rw [if_pos h₀, if_pos (hzero.mp h₀), h.slots, List.filterMap_map]
    rfl
  · rw [if_neg h₀, if_neg fun hall => h₀ (hzero.mpr hall)]

/-- **Another value comes in**: its slot was empty, so that the count was not zero. -/
theorem fill (h : c.Shows l n) (hi : i < n) (hnew : l.value? i = none) :
    0 < c.remaining ∧ (c.fill i v).Shows (l ++ [(i, .ok v)]) n := by
  have hslot : c.slots[i]? = some none := by
    rw [h.slots, List.getElem?_map, List.getElem?_range hi]
    exact congrArg some hnew
  obtain ⟨hlt, hnone⟩ := List.getElem?_eq_some_iff.mp hslot
  have hpos : 0 < c.remaining := by
    rw [h.remaining]
    exact List.countP_pos_iff.mpr ⟨none, hnone ▸ List.getElem_mem hlt, rfl⟩
  refine ⟨hpos, ?_, ?_, ?_⟩
  · refine List.ext_getElem? fun j => ?_
    rw [Gather.fill, List.getElem?_set, List.getElem?_map]
    by_cases hj : i = j
    · subst hj
      rw [if_pos rfl, if_pos hlt, List.getElem?_range hi, Option.map_some, Arrivals.value?_snoc, hnew]
      simp [Except.toOption]
    · rw [if_neg hj, h.slots, List.getElem?_map]
      rcases Nat.lt_or_ge j n with hjn | hjn
      · rw [List.getElem?_range hjn, Option.map_some, Option.map_some, Arrivals.value?_snoc,
          if_neg hj, Option.or_none]
      · rw [List.getElem?_eq_none (by simpa using hjn)]
        rfl
  · simp [Gather.fill, List.countP_set hlt, hnone, h.remaining]
  · have hcounted := h.counted
    have hone : [(i, (.ok v : Outcome V))].countP (fun a => a.2.isOk) = 1 := rfl
    rw [List.countP_append, hone, Gather.fill]
    dsimp only
    omega

/-- An item that fails leaves the slots as they are. -/
theorem fail (h : c.Shows l n) : c.Shows (l ++ [(i, .error f)]) n where
  slots := by rw [Arrivals.value?_snoc_error, h.slots]
  remaining := h.remaining
  counted := by simpa [Except.isOk, Except.toBool] using h.counted

end Gather.Shows

end EntityQuery
