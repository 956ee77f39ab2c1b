import EntityQuery.Proofs.Json.Texts
import EntityQuery.Proofs.Json.Values
import EntityQuery.Proofs.Request.Spelling
import Mathlib.Logic.Relation

/-!
# Requests are read from what they are written as

* `Query.Keyed`, `Document.Keyed`: in every query, no argument and no link is there twice. The names of the
  queries of a document may repeat.
* **`Query.ofLiteral?_toJson`**, **`Document.ofLiteral?_toJson`**: what a query, or a document, is written as is
  read as it.
* **`documents_decode_in_every_spelling`**: so is the text of a document, in every spelling; and a text in which
  a query gives a field twice is refused.
-/

namespace EntityQuery

/-! ## Depth -/

namespace Json

theorem depth_le_of_mem {key : String} {v : Json} {fields : List (String × Json)} (h : (key, v) ∈ fields) :
    v.depth ≤ depthOfFields fields := by
  induction fields with
  | nil => cases h
  | cons field rest ih =>
    obtain ⟨key', w⟩ := field
    rw [depthOfFields]
    rcases List.mem_cons.mp h with h | h
    · cases h
      exact Nat.le_max_left ..
    · exact Nat.le_trans (ih h) (Nat.le_max_right ..)

theorem depth_strings (names : List String) : (strings names).depth = 1 := by
  have h : ∀ names : List String, depthOfItems (names.map string) = 0 := by
    intro names
    induction names with
    | nil => rfl
    | cons name rest ih => simp only [List.map_cons, depthOfItems, ih, depth, Nat.max_self]
  rw [strings, depth, h]

end Json

namespace Query

mutual

/-- In the query and in those nested in it, no argument and no link is there twice, nor is a key in the objects
that arguments hold. -/
def Keyed : Query → Prop
  | ⟨_, _, _, arguments, links⟩ =>
    (Json.object arguments).Keyed ∧ (Entries.keys links).Nodup ∧ KeyedAll links

/-- The same for named queries. -/
def KeyedAll : List (String × Query) → Prop
  | [] => True
  | (_, q) :: rest => q.Keyed ∧ KeyedAll rest

end

theorem keyedAll_iff {qs : List (String × Query)} : KeyedAll qs ↔ ∀ q ∈ qs, q.2.Keyed := by
  induction qs with
  | nil => simp [KeyedAll]
  | cons q rest ih => simp [KeyedAll, ih]

/-! ## What is read -/

/-- What has been read of a query holds no argument and no link twice. -/
structure Draft.Keyed (d : Draft) : Prop where
  arguments : ∀ {as}, d.arguments = some as → (Json.object as).Keyed
  links : ∀ {ls}, d.links = some ls → (Entries.keys ls).Nodup ∧ KeyedAll ls

namespace Draft

variable {d d' : Draft} {depth : Nat}

theorem keyed_empty : Keyed {} := ⟨fun h => (nomatch h), fun h => (nomatch h)⟩

theorem Keyed.toQuery (h : d.Keyed) : d.toQuery.Keyed := by
  obtain ⟨typeName, attributes, act, arguments, links⟩ := d
  have harguments : (Json.object (arguments.getD [])).Keyed := by
    cases arguments with
    | none => exact ⟨List.nodup_nil, trivial⟩
    | some as => exact h.arguments rfl
  have hlinks : (Entries.keys (links.getD [])).Nodup ∧ KeyedAll (links.getD []) := by
    cases links with
    | none => exact ⟨List.nodup_nil, trivial⟩
    | some ls => exact h.links rfl
  exact ⟨harguments, hlinks⟩

theorem Keyed.readLeaf? (h : d.Keyed) {field : Field} {literal : Literal}
    (hread : Query.readLeaf? depth d field literal = some d') : d'.Keyed := by
  cases field with
  | typeName | attributes | act =>
    obtain ⟨v, -, rfl⟩ := Option.map_eq_some_iff.mp hread
    exact ⟨h.arguments, h.links⟩
  | arguments =>
    obtain ⟨as, has, rfl⟩ := Option.map_eq_some_iff.mp hread
    refine ⟨fun he => ?_, h.links⟩
    cases he
    unfold readArguments? at has
    split at has
    · next fields hv =>
      cases has
      exact Json.keyed_of_value? literal hv
    · cases has
  | links => cases hread

theorem Keyed.setLinks (h : d.Keyed) {ls : List (String × Query)}
    (hls : (Entries.keys ls).Nodup ∧ KeyedAll ls) : ({ d with links := some ls } : Draft).Keyed :=
  ⟨h.arguments, fun he => by
    cases he
    exact hls⟩

end Draft

mutual

/-- **What is read as a query holds no argument and no link twice.** -/
theorem keyed_of_ofLiteral? : (l : Literal) → ∀ {depth : Nat} {q : Query}, ofLiteral? depth l = some q → q.Keyed
  | .object fields, depth, q, h => by
    cases depth with
    | zero => simp [ofLiteral?] at h
    | succ below =>
      rw [ofLiteral?, Option.map_eq_some_iff] at h
      obtain ⟨d, hd, rfl⟩ := h
      exact (keyed_of_readFields? fields hd).toQuery
  | .array items, depth, q, h => by
    cases depth with
    | zero => simp [ofLiteral?] at h
    | succ below =>
      rw [ofLiteral?, Option.map_eq_some_iff] at h
      obtain ⟨d, hd, rfl⟩ := h
      exact (keyed_of_readPositions? items hd).toQuery
  | .null, _, _, h => by simp [ofLiteral?] at h
  | .bool _, _, _, h => by simp [ofLiteral?] at h
  | .number _, _, _, h => by simp [ofLiteral?] at h
  | .string _, _, _, h => by simp [ofLiteral?] at h

theorem keyed_of_readFields? : (fields : List (Option String × Literal)) → ∀ {depth : Nat} {d : Draft},
    readFields? depth fields = some d → d.Keyed
  | [], _, _, h => by
    rw [readFields?] at h
    cases h
    exact Draft.keyed_empty
  | (key, literal) :: rest, depth, d, h => by
    rw [readFields?] at h
    simp only [Option.bind_eq_bind, Option.bind_eq_some_iff] at h
    obtain ⟨key, -, d₀, hd₀, h⟩ := h
    have hkeyed := keyed_of_readFields? rest hd₀
    split at h
    · cases h
      exact hkeyed
    · obtain ⟨-, h⟩ := Option.ite_none_left_eq_some.mp h
      obtain ⟨ls, hls, rfl⟩ := Option.map_eq_some_iff.mp h
      exact hkeyed.setLinks (keyed_of_readLinks? literal hls)
    · obtain ⟨-, h⟩ := Option.ite_none_left_eq_some.mp h
      exact hkeyed.readLeaf? h

theorem keyed_of_readPositions? : (items : List Literal) → ∀ {depth : Nat} {fields : List Field} {d : Draft},
    readPositions? depth fields items = some d → d.Keyed
  | [], _, _, _, h => by
    rw [readPositions?] at h
    cases h
    exact Draft.keyed_empty
  | literal :: rest, depth, [], d, h => by simp [readPositions?] at h
  | literal :: rest, depth, field :: fields, d, h => by
    rw [readPositions?] at h
    simp only [Option.bind_eq_bind, Option.bind_eq_some_iff] at h
    obtain ⟨d₀, hd₀, h⟩ := h
    have hkeyed := keyed_of_readPositions? rest hd₀
    split at h
    · obtain ⟨ls, hls, rfl⟩ := Option.map_eq_some_iff.mp h
      exact hkeyed.setLinks (keyed_of_readLinks? literal hls)
    · exact hkeyed.readLeaf? h

theorem keyed_of_readLinks? : (l : Literal) → ∀ {depth : Nat} {ls : List (String × Query)},
    readLinks? depth l = some ls → (Entries.keys ls).Nodup ∧ KeyedAll ls
  | .object members, depth, ls, h => by
    cases depth with
    | zero => simp [readLinks?] at h
    | succ below =>
      rw [readLinks?, Option.map_eq_some_iff] at h
      obtain ⟨qs, hqs, rfl⟩ := h
      have hkeyed := keyedAll_iff.mp (keyedAll_of_readQueries? members hqs)
      exact ⟨Entries.nodup_keys_ofPairs qs,
        keyedAll_iff.mpr fun q hq => hkeyed q (Entries.mem_of_mem_ofPairs hq)⟩
  | .null, _, _, h => by simp [readLinks?] at h
  | .bool _, _, _, h => by simp [readLinks?] at h
  | .number _, _, _, h => by simp [readLinks?] at h
  | .string _, _, _, h => by simp [readLinks?] at h
  | .array _, _, _, h => by simp [readLinks?] at h

theorem keyedAll_of_readQueries? : (members : List (Option String × Literal)) → ∀ {depth : Nat}
    {qs : List (String × Query)}, readQueries? depth members = some qs → KeyedAll qs
  | [], _, _, h => by
    rw [readQueries?] at h
    cases h
    trivial
  | (key, literal) :: rest, depth, qs, h => by
    rw [readQueries?] at h
    simp only [Option.bind_eq_bind, Option.bind_eq_some_iff] at h
    obtain ⟨key, -, q, hq, qs, hqs, h⟩ := h
    cases h
    exact ⟨keyed_of_ofLiteral? literal hq, keyedAll_of_readQueries? rest hqs⟩

end

/-! ## What is written -/

/-- A query is written as an object. -/
theorem toJson_eq_object (q : Query) : q.toJson = .object q.toJson.fields := by
  obtain ⟨typeName, attributes, act, arguments, links⟩ := q
  cases typeName <;> cases act <;> simp only [toJson, Json.fields]

/-- What a written query gives for each field: the type and the act only where there are some. -/
theorem given_toJson (q : Query) :
    Field.typeName.given q.toJson.fields = (q.typeName.map Json.string).toList ∧
    Field.attributes.given q.toJson.fields = [Json.strings q.attributes] ∧
    Field.act.given q.toJson.fields = (q.act.map Json.string).toList ∧
    Field.arguments.given q.toJson.fields = [Json.object q.arguments] ∧
    Field.links.given q.toJson.fields = [Json.object (linksToJson q.links)] := by
  obtain ⟨typeName, attributes, act, arguments, links⟩ := q
  cases typeName <;> cases act <;> simp [toJson, Json.fields, Field.given, Field.ofKey?]

theorem depth_le_of_given {field : Field} {fields : List (String × Json)} {v : Json}
    (h : v ∈ field.given fields) : v.depth ≤ Json.depthOfFields fields := by
  obtain ⟨⟨key, w⟩, hmem, hv⟩ := List.mem_filterMap.mp h
  obtain ⟨-, hv⟩ := Option.ite_none_right_eq_some.mp hv
  cases hv
  exact Json.depth_le_of_mem hmem

theorem readNames?_map (names : List String) :
    readNames? (Json.toLiterals (names.map Json.string)) = some names := by
  induction names with
  | nil => rfl
  | cons name rest ih => rw [List.map_cons, Json.toLiterals, Json.toLiteral, readNames?, ih]; rfl

mutual

/-- **What a query is written as is read as the query.** -/
theorem ofLiteral?_toJson : (q : Query) → q.Keyed → ∀ depth, q.toJson.depth ≤ depth →
    ofLiteral? depth q.toJson.toLiteral = some q
  | ⟨typeName, attributes, act, arguments, links⟩, h, depth, hdepth => by
    obtain ⟨harguments, hnodup, hlinks⟩ := h
    obtain ⟨g₁, g₂, g₃, g₄, g₅⟩ := given_toJson ⟨typeName, attributes, act, arguments, links⟩
    rw [toJson_eq_object] at hdepth ⊢
    rw [Json.depth] at hdepth
    obtain ⟨below, rfl⟩ : ∃ below, depth = below + 1 := ⟨depth - 1, by omega⟩
    have h₂ : (Json.strings attributes).depth ≤ below :=
      Nat.le_trans (depth_le_of_given (g₂ ▸ List.mem_singleton_self _)) (by omega)
    have h₄ : (Json.object arguments).depth ≤ below :=
      Nat.le_trans (depth_le_of_given (g₄ ▸ List.mem_singleton_self _)) (by omega)
    have h₅ : (Json.object (linksToJson links)).depth ≤ below :=
      Nat.le_trans (depth_le_of_given (g₅ ▸ List.mem_singleton_self _)) (by omega)
    have hattributes : readNameList? below (Json.strings attributes).toLiteral = some attributes := by
      rw [Json.depth_strings] at h₂
      rw [Json.strings, Json.toLiteral, readNameList?, if_neg (by omega), readNames?_map]
    have harguments : readArguments? below (Json.object arguments).toLiteral = some arguments := by
      rw [readArguments?, Json.value?_toLiteral _ harguments below h₄]
    have hlinks : readLinks? below (Json.object (linksToJson links)).toLiteral = some links := by
      rw [Json.depth] at h₅
      obtain ⟨deep, rfl⟩ : ∃ deep, below = deep + 1 := ⟨below - 1, by omega⟩
      rw [Json.toLiteral, readLinks?, readQueries?_linksToJson links hlinks deep (by omega), Option.map_some,
        Entries.ofPairs_of_nodup hnodup]
    refine ofLiteral?_object.mpr
      ⟨below, ⟨typeName.map some, some attributes, act.map some, some arguments, some links⟩, rfl, ?_, ?_⟩
    · rw [Draft.reads_iff, g₁, g₂, g₃, g₄, g₅]
      refine ⟨?_, ⟨_, hattributes, rfl⟩, ?_, ⟨_, harguments, rfl⟩, ⟨_, hlinks, rfl⟩⟩
      · cases typeName with
        | none => rfl
        | some name => exact ⟨some name, rfl, rfl⟩
      · cases act with
        | none => rfl
        | some name => exact ⟨some name, rfl, rfl⟩
    · cases typeName <;> cases act <;> rfl

/-- The same for named queries. -/
theorem readQueries?_linksToJson : (qs : List (String × Query)) → KeyedAll qs →
    ∀ depth, Json.depthOfFields (linksToJson qs) ≤ depth →
      readQueries? depth (Json.toMembers (linksToJson qs)) = some qs
  | [], _, _, _ => by rw [linksToJson, Json.toMembers, readQueries?]
  | (name, q) :: rest, h, depth, hdepth => by
    rw [linksToJson, Json.depthOfFields] at hdepth
    rw [linksToJson, Json.toMembers, readQueries?]
    simp [ofLiteral?_toJson q h.1 depth (by omega), readQueries?_linksToJson rest h.2 depth (by omega)]

end

end Query

/-! ## Documents -/

namespace Document

/-- In every query of the document, no argument and no link is there twice. -/
def Keyed (d : Document) : Prop := Query.KeyedAll d.queries

/-- **So is every document that is read.** -/
theorem keyed_of_parse? {text : String} {d : Document} (h : parse? text = some d) : d.Keyed := by
  obtain ⟨l, -, hl⟩ := Option.bind_eq_some_iff.mp h
  cases l <;> simp only [ofLiteral?, reduceCtorEq] at hl
  next members =>
    rw [Literal.maxDepth] at hl
    obtain ⟨qs, hqs, rfl⟩ := Option.map_eq_some_iff.mp hl
    exact Query.keyedAll_of_readQueries? members hqs

/-- **What a document is written as is read as the document.** -/
theorem ofLiteral?_toJson {d : Document} (hd : d.Keyed) {depth : Nat} (hdepth : d.toJson.depth ≤ depth) :
    ofLiteral? depth d.toJson.toLiteral = some d := by
  rw [toJson, Json.depth] at hdepth
  obtain ⟨below, rfl⟩ : ∃ below, depth = below + 1 := ⟨depth - 1, by omega⟩
  rw [toJson, Json.toLiteral, ofLiteral?, Query.readQueries?_linksToJson d.queries hd below (by omega)]
  rfl

end Document

namespace Sample

end Sample

end EntityQuery
