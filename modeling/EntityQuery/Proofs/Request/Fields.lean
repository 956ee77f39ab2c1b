import EntityQuery.Request.Decoding

/-!
# What the fields of a query are read as

A query that is written as an object gives each of its fields at most once, in any order and in either spelling.

* `Query.Field.given`: what is given for a field. `Query.One`: what a field is read as that is given at most
  once.
* **`Query.readFields?_toMembers`**: the fields of a query are read as what is given for each.
-/

namespace EntityQuery.Query

variable {α : Type}

/-- What is given for a field, in either spelling. -/
def Field.given (field : Field) (fields : List (String × Json)) : List Json :=
  fields.filterMap fun (key, v) => if Field.ofKey? key = some field then some v else none

theorem Field.given_cons (field : Field) (key : String) (v : Json) (rest : List (String × Json)) :
    field.given ((key, v) :: rest) =
      if Field.ofKey? key = some field then v :: field.given rest else field.given rest := by
  unfold Field.given
  rw [List.filterMap_cons]
  split <;> simp_all

/-- What is read for a field that is given at most once: nothing where it is not given. -/
def One (read : Json → Option α) : List Json → Option α → Prop
  | [], x => x = none
  | [v], x => ∃ a, read v = some a ∧ x = some a
  | _ :: _ :: _, _ => False

theorem one_none {read : Json → Option α} {vs : List Json} : One read vs none ↔ vs = [] := by
  rcases vs with _ | ⟨v, _ | ⟨w, vs⟩⟩ <;> simp [One]

theorem one_cons {read : Json → Option α} {v : Json} {vs : List Json} {x : Option α} :
    One read (v :: vs) x ↔ One read vs none ∧ ∃ a, read v = some a ∧ x = some a := by
  rw [one_none]
  rcases vs with _ | ⟨w, vs⟩ <;> simp [One]

/-- The fields have been read, each at most once. -/
structure Draft.Reads (depth : Nat) (fields : List (String × Json)) (d : Draft) : Prop where
  typeName : One (fun v => readName? v.toLiteral) (Field.typeName.given fields) d.typeName
  attributes : One (fun v => readNameList? depth v.toLiteral) (Field.attributes.given fields) d.attributes
  act : One (fun v => readName? v.toLiteral) (Field.act.given fields) d.act
  arguments : One (fun v => readArguments? depth v.toLiteral) (Field.arguments.given fields) d.arguments
  links : One (fun v => readLinks? depth v.toLiteral) (Field.links.given fields) d.links

theorem Draft.reads_iff {depth : Nat} {fields : List (String × Json)} {d : Draft} :
    d.Reads depth fields ↔
      One (fun v => readName? v.toLiteral) (Field.typeName.given fields) d.typeName ∧
      One (fun v => readNameList? depth v.toLiteral) (Field.attributes.given fields) d.attributes ∧
      One (fun v => readName? v.toLiteral) (Field.act.given fields) d.act ∧
      One (fun v => readArguments? depth v.toLiteral) (Field.arguments.given fields) d.arguments ∧
      One (fun v => readLinks? depth v.toLiteral) (Field.links.given fields) d.links :=
  ⟨fun ⟨h₁, h₂, h₃, h₄, h₅⟩ => ⟨h₁, h₂, h₃, h₄, h₅⟩, fun ⟨h₁, h₂, h₃, h₄, h₅⟩ => ⟨h₁, h₂, h₃, h₄, h₅⟩⟩

/-- Setting a field that has not been read so far: without it, the draft is what was there before. -/
theorem Draft.place_iff {β : Type} (get : Draft → Option β) (set : Draft → Option β → Draft)
    (hget : ∀ d x, get (set d x) = x) (hset : ∀ d x y, set (set d x) y = set d y)
    (hself : ∀ d, set d (get d) = d) {P : Draft → Prop} {r : Option β} {d : Draft} :
    (∃ a, P a ∧ (if (get a).isSome then none else r.map fun v => set a (some v)) = some d) ↔
      P (set d none) ∧ ∃ v, r = some v ∧ get d = some v := by
  constructor
  · rintro ⟨a, ha, h⟩
    cases hfree : get a with
    | some v => simp [hfree] at h
    | none =>
      simp only [hfree, Option.isSome_none, Bool.false_eq_true, if_false, Option.map_eq_some_iff] at h
      obtain ⟨v, hv, rfl⟩ := h
      refine ⟨?_, v, hv, hget _ _⟩
      rwa [hset, ← hfree, hself]
  · rintro ⟨h, v, rfl, hd⟩
    refine ⟨set d none, h, ?_⟩
    rw [hget, Option.map_some, hset, ← hd, hself]
    rfl

/-- **The fields of a query are read as what is given for each.** -/
theorem readFields?_toMembers {depth : Nat} {fields : List (String × Json)} {d : Draft} :
    readFields? depth (Json.toMembers fields) = some d ↔ d.Reads depth fields := by
  induction fields generalizing d with
  | nil =>
    rw [Json.toMembers, readFields?, Draft.reads_iff]
    constructor
    · rintro h
      cases h
      exact ⟨rfl, rfl, rfl, rfl, rfl⟩
    · rintro ⟨h₁, h₂, h₃, h₄, h₅⟩
      obtain ⟨_, _, _, _, _⟩ := d
      cases h₁
      cases h₂
      cases h₃
      cases h₄
      cases h₅
      rfl
  | cons field rest ih =>
    obtain ⟨key, v⟩ := field
    rw [Json.toMembers, readFields?, Option.bind_eq_bind, Option.bind_some, Option.bind_eq_bind,
      Option.bind_eq_some_iff]
    simp only [ih]
    cases hk : Field.ofKey? key with
    | none => simp [Draft.reads_iff, Field.given_cons, hk]
    | some field =>
      simp only [Draft.reads_iff, Field.given_cons, hk, Option.some.injEq]
      cases field with
      | typeName =>
        refine (Draft.place_iff Draft.typeName (fun d x => { d with typeName := x }) (fun _ _ => rfl)
          (fun _ _ _ => rfl) (fun _ => rfl)).trans ?_
        simp [one_cons, and_assoc, and_comm, and_left_comm]
      | attributes =>
        refine (Draft.place_iff Draft.attributes (fun d x => { d with attributes := x }) (fun _ _ => rfl)
          (fun _ _ _ => rfl) (fun _ => rfl)).trans ?_
        simp [one_cons, and_assoc, and_comm, and_left_comm]
      | act =>
        refine (Draft.place_iff Draft.act (fun d x => { d with act := x }) (fun _ _ => rfl)
          (fun _ _ _ => rfl) (fun _ => rfl)).trans ?_
        simp [one_cons, and_assoc, and_comm, and_left_comm]
      | arguments =>
        refine (Draft.place_iff Draft.arguments (fun d x => { d with arguments := x }) (fun _ _ => rfl)
          (fun _ _ _ => rfl) (fun _ => rfl)).trans ?_
        simp [one_cons, and_assoc, and_comm, and_left_comm]
      | links =>
        refine (Draft.place_iff Draft.links (fun d x => { d with links := x }) (fun _ _ => rfl)
          (fun _ _ _ => rfl) (fun _ => rfl)).trans ?_
        simp [one_cons, and_assoc, and_comm, and_left_comm]

end EntityQuery.Query
