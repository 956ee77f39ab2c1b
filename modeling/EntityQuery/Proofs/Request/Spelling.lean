import EntityQuery.Proofs.Request.Fields

/-!
# Spellings of requests

A query may be written in many ways: with its keys in full or in short and in any order, without the fields that
have their default value, with other keys besides, and so with the queries nested in it. Each way is read as the
same query. A query that gives a field twice is refused.

* `Query.Respelling`, `Document.Respelling`: writing a query, or a document, in another way at one place.
* **`Document.Respelling.ofLiteral?`**: what is read stays the same.
* `Query.Doubled`, `Document.Doubled`: somewhere, a query gives a field twice.
* **`Document.Doubled.ofLiteral?`**: then nothing is read.
-/

namespace EntityQuery

namespace Query

/-- The value of a field that is not given. -/
def Field.default : Field → Json
  | typeName => .null
  | attributes => .array []
  | act => .null
  | arguments => .object []
  | links => .object []

/-- A query that is written in another way at one place. -/
inductive Respelling : Json → Json → Prop
  /-- A key in another spelling. -/
  | rename {before after : List (String × Json)} {key key' : String} {v : Json} {field : Field}
    (h : Field.ofKey? key = some field) (h' : Field.ofKey? key' = some field) :
    Respelling (.object (before ++ (key, v) :: after)) (.object (before ++ (key', v) :: after))
  /-- The keys in another order. -/
  | permute {fields fields' : List (String × Json)} (h : fields.Perm fields') :
    Respelling (.object fields) (.object fields')
  /-- A field left out that has its default value. -/
  | leaveOut {before after : List (String × Json)} {key : String} {field : Field}
    (h : Field.ofKey? key = some field) :
    Respelling (.object (before ++ (key, field.default) :: after)) (.object (before ++ after))
  /-- A key that names no field, with any value. -/
  | add {before after : List (String × Json)} {key : String} {v : Json} (h : Field.ofKey? key = none) :
    Respelling (.object (before ++ after)) (.object (before ++ (key, v) :: after))
  /-- A nested query in another way. -/
  | nested {before after queries queries' : List (String × Json)} {key name : String} {q q' : Json}
    (h : Field.ofKey? key = some .links) (hq : Respelling q q') :
    Respelling (.object (before ++ (key, .object (queries ++ (name, q) :: queries')) :: after))
      (.object (before ++ (key, .object (queries ++ (name, q') :: queries')) :: after))

variable {α : Type} {depth : Nat} {fields fields' : List (String × Json)} {d : Draft}

theorem Field.given_append (field : Field) (fields fields' : List (String × Json)) :
    field.given (fields ++ fields') = field.given fields ++ field.given fields' :=
  List.filterMap_append

theorem One.perm {read : Json → Option α} {vs vs' : List Json} {x : Option α} (h : One read vs x)
    (hp : vs.Perm vs') : One read vs' x := by
  rcases vs with _ | ⟨v, _ | ⟨w, vs⟩⟩
  · exact List.nil_perm.mp hp ▸ h
  · exact List.singleton_perm.mp hp ▸ h
  · cases h

/-- What is read depends on what is given for each field. -/
theorem Draft.Reads.perm (h : d.Reads depth fields)
    (hp : ∀ field : Field, (field.given fields).Perm (field.given fields')) : d.Reads depth fields' :=
  ⟨h.typeName.perm (hp _), h.attributes.perm (hp _), h.act.perm (hp _), h.arguments.perm (hp _),
    h.links.perm (hp _)⟩

theorem ofLiteral?_object {q : Query} :
    ofLiteral? depth (Json.object fields).toLiteral = some q ↔
      ∃ below d, depth = below + 1 ∧ Draft.Reads below fields d ∧ d.toQuery = q := by
  rw [Json.toLiteral]
  cases depth with
  | zero => simp [ofLiteral?]
  | succ below => simp [ofLiteral?, readFields?_toMembers]

theorem Field.given_mid (field : Field) (before after : List (String × Json)) (key : String) (v : Json) :
    field.given (before ++ (key, v) :: after) =
      if Field.ofKey? key = some field then field.given before ++ v :: field.given after
      else field.given (before ++ after) := by
  rw [given_append, given_cons, given_append]
  split <;> rfl

/-- What one part of a list is read as is read of one value alone. -/
theorem One.of_mid {read : Json → Option α} {vs vs' : List Json} {v : Json} {x : Option α}
    (h : One read (vs ++ v :: vs') x) : vs = [] ∧ vs' = [] ∧ ∃ a, read v = some a ∧ x = some a := by
  have hp : (vs ++ v :: vs').Perm (v :: (vs ++ vs')) := List.perm_middle
  obtain ⟨hnil, a, hread, hx⟩ := one_cons.mp (h.perm hp)
  obtain ⟨rfl, rfl⟩ := List.append_eq_nil_iff.mp (one_none.mp hnil)
  exact ⟨rfl, rfl, a, hread, hx⟩

theorem eq_nil_of_readNameList? {x : List String}
    (h : readNameList? depth Field.attributes.default.toLiteral = some x) : x = [] := by
  simp only [Field.default, Json.toLiteral, Json.toLiterals, readNameList?, readNames?] at h
  split at h <;> cases h
  rfl

theorem eq_nil_of_readArguments? {x : List (String × Json)}
    (h : readArguments? depth Field.arguments.default.toLiteral = some x) : x = [] := by
  cases depth <;> cases h
  rfl

theorem eq_nil_of_readLinks? {x : List (String × Query)}
    (h : readLinks? depth Field.links.default.toLiteral = some x) : x = [] := by
  rw [Field.default, Json.toLiteral, Json.toMembers] at h
  cases depth with
  | zero => simp [readLinks?] at h
  | succ below =>
    simp only [readLinks?, readQueries?, Option.map_some] at h
    cases h
    rfl

/-- Leaving out a field that has its default value. -/
theorem Draft.Reads.leaveOut {before after : List (String × Json)} {key : String} {field : Field}
    (h : d.Reads depth (before ++ (key, field.default) :: after)) (hk : Field.ofKey? key = some field) :
    ∃ d' : Draft, d'.Reads depth (before ++ after) ∧ d'.toQuery = d.toQuery := by
  simp only [Draft.reads_iff, Field.given_mid, hk, Option.some.injEq] at h
  obtain ⟨h₁, h₂, h₃, h₄, h₅⟩ := h
  have absent : ∀ {field : Field}, field.given before = [] → field.given after = [] →
      field.given (before ++ after) = [] := by
    intro field hb ha
    rw [Field.given_append, hb, ha]
    rfl
  cases field with
  | typeName =>
    obtain ⟨hb, ha, x, hx, hd⟩ := One.of_mid h₁
    cases hx
    exact ⟨{ d with typeName := none }, ⟨one_none.mpr (absent hb ha), h₂, h₃, h₄, h₅⟩, by simp [toQuery, hd]⟩
  | attributes =>
    obtain ⟨hb, ha, x, hx, hd⟩ := One.of_mid h₂
    cases eq_nil_of_readNameList? hx
    exact ⟨{ d with attributes := none }, ⟨h₁, one_none.mpr (absent hb ha), h₃, h₄, h₅⟩, by simp [toQuery, hd]⟩
  | act =>
    obtain ⟨hb, ha, x, hx, hd⟩ := One.of_mid h₃
    cases hx
    exact ⟨{ d with act := none }, ⟨h₁, h₂, one_none.mpr (absent hb ha), h₄, h₅⟩, by simp [toQuery, hd]⟩
  | arguments =>
    obtain ⟨hb, ha, x, hx, hd⟩ := One.of_mid h₄
    cases eq_nil_of_readArguments? hx
    exact ⟨{ d with arguments := none }, ⟨h₁, h₂, h₃, one_none.mpr (absent hb ha), h₅⟩, by simp [toQuery, hd]⟩
  | links =>
    obtain ⟨hb, ha, x, hx, hd⟩ := One.of_mid h₅
    cases eq_nil_of_readLinks? hx
    exact ⟨{ d with links := none }, ⟨h₁, h₂, h₃, h₄, one_none.mpr (absent hb ha)⟩, by simp [toQuery, hd]⟩

/-! ## Nested queries -/

/-- Where a nested query is read as the same in another spelling, all nested queries are. -/
theorem readQueries?_mid {queries queries' : List (String × Json)} {name : String} {q q' : Json}
    {qs : List (String × Query)}
    (hq : ∀ {x}, ofLiteral? depth q.toLiteral = some x → ofLiteral? depth q'.toLiteral = some x)
    (h : readQueries? depth (Json.toMembers (queries ++ (name, q) :: queries')) = some qs) :
    readQueries? depth (Json.toMembers (queries ++ (name, q') :: queries')) = some qs := by
  induction queries generalizing qs with
  | nil =>
    simp only [List.nil_append, Json.toMembers, readQueries?, Option.bind_eq_bind, Option.bind_some,
      Option.bind_eq_some_iff] at h ⊢
    obtain ⟨x, hx, h⟩ := h
    exact ⟨x, hq hx, h⟩
  | cons query rest ih =>
    obtain ⟨name', q₀⟩ := query
    simp only [List.cons_append, Json.toMembers, readQueries?, Option.bind_eq_bind, Option.bind_some,
      Option.bind_eq_some_iff] at h ⊢
    obtain ⟨x, hx, xs, hxs, h⟩ := h
    exact ⟨x, hx, xs, ih hxs, h⟩

/-- The same for what is given as links. -/
theorem readLinks?_mid {queries queries' : List (String × Json)} {name : String} {q q' : Json}
    {ls : List (String × Query)}
    (hq : ∀ {depth x}, ofLiteral? depth q.toLiteral = some x → ofLiteral? depth q'.toLiteral = some x)
    (h : readLinks? depth (Json.object (queries ++ (name, q) :: queries')).toLiteral = some ls) :
    readLinks? depth (Json.object (queries ++ (name, q') :: queries')).toLiteral = some ls := by
  rw [Json.toLiteral] at h ⊢
  cases depth with
  | zero => simp [readLinks?] at h
  | succ below =>
    rw [readLinks?, Option.map_eq_some_iff] at h ⊢
    obtain ⟨qs, hqs, rfl⟩ := h
    exact ⟨qs, readQueries?_mid hq hqs, rfl⟩

/-- **In another spelling, a query is read as the same.** -/
theorem Respelling.ofLiteral? {j j' : Json} (h : Respelling j j') {depth : Nat} {q : Query}
    (hq : Query.ofLiteral? depth j.toLiteral = some q) : Query.ofLiteral? depth j'.toLiteral = some q := by
  induction h generalizing depth q with
  | @rename before after key key' v field h h' =>
    obtain ⟨below, d, rfl, hd, rfl⟩ := ofLiteral?_object.mp hq
    refine ofLiteral?_object.mpr ⟨below, d, rfl, hd.perm fun field => ?_, rfl⟩
    rw [Field.given_mid, Field.given_mid, h, h']
  | permute hp =>
    obtain ⟨below, d, rfl, hd, rfl⟩ := ofLiteral?_object.mp hq
    exact ofLiteral?_object.mpr ⟨below, d, rfl, hd.perm fun field => hp.filterMap _, rfl⟩
  | leaveOut h =>
    obtain ⟨below, d, rfl, hd, rfl⟩ := ofLiteral?_object.mp hq
    obtain ⟨d', hd', he⟩ := hd.leaveOut h
    exact ofLiteral?_object.mpr ⟨below, d', rfl, hd', he⟩
  | add h =>
    obtain ⟨below, d, rfl, hd, rfl⟩ := ofLiteral?_object.mp hq
    refine ofLiteral?_object.mpr ⟨below, d, rfl, hd.perm fun field => ?_, rfl⟩
    rw [Field.given_mid, h]
    rfl
  | nested h hr ih =>
    obtain ⟨below, d, rfl, hd, rfl⟩ := ofLiteral?_object.mp hq
    refine ofLiteral?_object.mpr ⟨below, d, rfl, ?_, rfl⟩
    simp only [Draft.reads_iff, Field.given_mid, h, Option.some.injEq, reduceCtorEq, if_false, if_true] at hd ⊢
    obtain ⟨h₁, h₂, h₃, h₄, h₅⟩ := hd
    obtain ⟨hb, ha, ls, hls, hd⟩ := One.of_mid h₅
    refine ⟨h₁, h₂, h₃, h₄, ?_⟩
    rw [hb, ha]
    exact ⟨ls, readLinks?_mid ih hls, hd⟩

/-! ## Fields that are given twice -/

/-- Somewhere, the query gives a field twice, in whichever spellings. -/
inductive Doubled : Json → Prop
  | here {before between after : List (String × Json)} {key key' : String} {v v' : Json} {field : Field}
    (h : Field.ofKey? key = some field) (h' : Field.ofKey? key' = some field) :
    Doubled (.object (before ++ (key, v) :: (between ++ (key', v') :: after)))
  | nested {before after queries queries' : List (String × Json)} {key name : String} {q : Json}
    (h : Field.ofKey? key = some .links) (hq : Doubled q) :
    Doubled (.object (before ++ (key, .object (queries ++ (name, q) :: queries')) :: after))

/-- A field that is given twice is not read. -/
theorem One.not_twice {read : Json → Option α} {vs vs' vs'' : List Json} {v v' : Json} {x : Option α} :
    ¬ One read (vs ++ v :: (vs' ++ v' :: vs'')) x := by
  intro h
  obtain ⟨-, hnil, -⟩ := One.of_mid h
  simp at hnil

/-- Where a nested query is refused, all are. -/
theorem readQueries?_of_none {queries queries' : List (String × Json)} {name : String} {q : Json}
    (hq : ofLiteral? depth q.toLiteral = none) :
    readQueries? depth (Json.toMembers (queries ++ (name, q) :: queries')) = none := by
  induction queries with
  | nil => simp [Json.toMembers, readQueries?, hq]
  | cons query rest ih =>
    obtain ⟨name', q₀⟩ := query
    simp [Json.toMembers, readQueries?, ih]

/-- **A query that gives a field twice is refused.** -/
theorem Doubled.ofLiteral? {j : Json} (h : Doubled j) (depth : Nat) :
    Query.ofLiteral? depth j.toLiteral = none := by
  induction h generalizing depth with
  | @here before between after key key' v v' field h h' =>
    refine Option.eq_none_iff_forall_ne_some.mpr fun q hq => ?_
    obtain ⟨below, d, rfl, hd, -⟩ := ofLiteral?_object.mp hq
    have hgiven : field.given (before ++ (key, v) :: (between ++ (key', v') :: after)) =
        field.given before ++ v :: (field.given between ++ v' :: field.given after) := by
      rw [Field.given_mid, if_pos h, Field.given_mid, if_pos h']
    cases field with
    | typeName => exact One.not_twice (hgiven ▸ hd.typeName)
    | attributes => exact One.not_twice (hgiven ▸ hd.attributes)
    | act => exact One.not_twice (hgiven ▸ hd.act)
    | arguments => exact One.not_twice (hgiven ▸ hd.arguments)
    | links => exact One.not_twice (hgiven ▸ hd.links)
  | nested h hq ih =>
    refine Option.eq_none_iff_forall_ne_some.mpr fun q hq => ?_
    obtain ⟨below, d, rfl, hd, -⟩ := ofLiteral?_object.mp hq
    have hlinks := hd.links
    rw [Field.given_mid, if_pos h] at hlinks
    obtain ⟨-, -, ls, hls, -⟩ := One.of_mid hlinks
    cases below with
    | zero => simp [readLinks?, Json.toLiteral] at hls
    | succ below => simp [readLinks?, Json.toLiteral, readQueries?_of_none (ih below)] at hls

end Query

namespace Document

/-- A document one query of which is written in another way. -/
inductive Respelling : Json → Json → Prop
  | query {queries queries' : List (String × Json)} {name : String} {q q' : Json}
    (hq : Query.Respelling q q') :
    Respelling (.object (queries ++ (name, q) :: queries')) (.object (queries ++ (name, q') :: queries'))

/-- Somewhere, a query of the document gives a field twice. -/
inductive Doubled : Json → Prop
  | query {queries queries' : List (String × Json)} {name : String} {q : Json} (hq : Query.Doubled q) :
    Doubled (.object (queries ++ (name, q) :: queries'))

/-- **In another spelling, a document is read as the same.** -/
theorem Respelling.ofLiteral? {j j' : Json} (h : Respelling j j') {depth : Nat} {d : Document}
    (hd : Document.ofLiteral? depth j.toLiteral = some d) :
    Document.ofLiteral? depth j'.toLiteral = some d := by
  cases h with
  | query hq =>
    rw [Json.toLiteral] at hd ⊢
    cases depth with
    | zero => cases hd
    | succ below =>
      rw [Document.ofLiteral?, Option.map_eq_some_iff] at hd ⊢
      obtain ⟨qs, hqs, rfl⟩ := hd
      exact ⟨qs, Query.readQueries?_mid hq.ofLiteral? hqs, rfl⟩

/-- **A document with a query that gives a field twice is refused.** -/
theorem Doubled.ofLiteral? {j : Json} (h : Doubled j) (depth : Nat) :
    Document.ofLiteral? depth j.toLiteral = none := by
  cases h with
  | query hq =>
    rw [Json.toLiteral]
    cases depth with
    | zero => rfl
    | succ below => rw [Document.ofLiteral?, Query.readQueries?_of_none (hq.ofLiteral? below)]; rfl

end Document

end EntityQuery
