import EntityQuery.Proofs.Schema.Drafting
import EntityQuery.Proofs.Validation.Acceptance

/-!
# Paths of links

A path names the links that lead from a query of a document to a query nested in it. The entity at its end
depends on the names alone; written with dots between them, names stay apart.

* `Query.Reaches`, `Document.Reaches`: what a path leads to.
* `Document.Reaches.entity_unique`: it leads to one entity only. `Document.Reaches.distinct`: the
  arguments that are declared for it have distinct names.
* `Query.Asks`: what is asked for there. **`Document.Reaches.has_of_accepted`**: the entity has it, if the
  document breaks no rule.
* **`Name.intercalate_injective`**: names with dots between them can be told apart.
-/

namespace EntityQuery

open Lookup Session

variable {σ : Type}

/-! ## What a path leads to -/

/-- From a query on an entity, whose arguments are declared by a list, a path of links leads to a query
nested in it. -/
inductive Query.Reaches (schema : Schema σ) (s : Session σ) : Entity σ → List Argument → Query →
    List String → Entity σ → List Argument → Query → Prop
  | here {e : Entity σ} {declared : List Argument} {q : Query} :
      Reaches schema s e declared q [] e declared q
  | nested {e target e' : Entity σ} {declared declared' : List Argument} {q nested q' : Query}
      {name : String} {path : List String} {l : Link σ} {t : NamedType}
      (hq : (name, nested) ∈ q.links) (hl : e.link? name = some l)
      (ht : Answers (l.follow schema schema.find e.name) (t, target) s)
      (h : Reaches schema s target l.arguments nested path e' declared' q') :
      Reaches schema s e declared q (name :: path) e' declared' q'

/-- In the document, a path from the query of an index leads to a query on an entity, whose arguments are
declared by the list: the arguments of the entity itself, or those of the link that leads to it. -/
inductive Document.Reaches (schema : Schema σ) (s : Session σ) (d : Document) (index : Nat)
    (path : List String) (e : Entity σ) (declared : List Argument) (q : Query) : Prop
  | intro {name : String} {root : Query} {e₀ : Entity σ} (hq : d.queries[index]? = some (name, root))
      (he : root.Roots schema s (some e₀))
      (h : Query.Reaches schema s e₀ e₀.arguments root path e declared q)

section

variable {schema : Schema σ} {s : Session σ} {d : Document} {index : Nat} {path : List String}
  {e target e' e'' : Entity σ} {declared declared' declared'' : List Argument}
  {q nested q' q'' : Query} {name : String} {l : Link σ} {t : NamedType}

theorem Query.Reaches.link (h : Query.Reaches schema s e declared q path e' declared' q')
    (hq : (name, nested) ∈ q'.links) (hl : e'.link? name = some l)
    (ht : Answers (l.follow schema schema.find e'.name) (t, target) s) :
    Query.Reaches schema s e declared q (path ++ [name]) target l.arguments nested := by
  induction h with
  | here => exact .nested hq hl ht .here
  | nested hq' hl' ht' _ ih => exact .nested hq' hl' ht' (ih hq hl ht)

theorem Query.Reaches.meets (h : Query.Reaches schema s e declared q path e' declared' q') :
    Query.Meets schema s e declared q e' declared' q' := by
  induction h with
  | here => exact .here
  | nested hq hl ht _ ih => exact .nested hq hl ht ih

/-- The names of the links say which entity a path leads to, whatever the queries nested on the way. -/
theorem Query.Reaches.entity_unique (h : Query.Reaches schema s e declared q path e' declared' q')
    {declared₂ : List Argument} {q₂ : Query}
    (h' : Query.Reaches schema s e declared₂ q₂ path e'' declared'' q'') : e' = e'' := by
  induction h generalizing declared₂ q₂ with
  | here =>
    cases h'
    rfl
  | nested _ hl ht _ ih =>
    cases h' with
    | nested _ hl' ht' h' =>
      rw [hl] at hl'
      cases hl'
      -- the link leads to the same entity whenever it is followed
      have heq := (ht s (.refl s)).symm.trans (ht' s (.refl s))
      cases heq
      exact ih h'

namespace Document.Reaches

theorem root (hq : d.queries[index]? = some (name, q)) (he : q.Roots schema s (some e)) :
    d.Reaches schema s index [] e e.arguments q :=
  .intro hq he .here

theorem link (h : d.Reaches schema s index path e declared q) (hq : (name, nested) ∈ q.links)
    (hl : e.link? name = some l) (ht : Answers (l.follow schema schema.find e.name) (t, target) s) :
    d.Reaches schema s index (path ++ [name]) target l.arguments nested := by
  obtain ⟨hq₀, he₀, hr⟩ := h
  exact .intro hq₀ he₀ (hr.link hq hl ht)

theorem visits (h : d.Reaches schema s index path e declared q) : d.Visits schema s e declared q := by
  obtain ⟨hq, he, hr⟩ := h
  exact .intro (List.mem_of_getElem? hq) he hr.meets

theorem entity_unique (h : d.Reaches schema s index path e declared q)
    (h' : d.Reaches schema s index path e' declared' q') : e = e' := by
  obtain ⟨hq, he, hr⟩ := h
  obtain ⟨hq', he', hr'⟩ := h'
  rw [hq] at hq'
  cases hq'
  cases he.unique he'
  exact hr.entity_unique hr'

theorem lt (h : d.Reaches schema s index path e declared q) : index < d.queries.length := by
  obtain ⟨hq, -, -⟩ := h
  exact (List.getElem?_eq_some_iff.mp hq).1

end Document.Reaches

/-- A link of a known entity leads to a known one. -/
theorem Schema.Sound.knows_target {types : Entries NamedType} (hs : schema.Sound types s)
    (hp : schema.Plain) (hk : schema.Knows types e) (hl : e.link? name = some l)
    (ht : Answers (l.follow schema schema.find e.name) (t, target) s) :
    schema.Knows types target := by
  obtain ⟨_, target', hknown, hfollow⟩ :=
    (hs.settles hp hk).links _ (List.mem_of_find?_eq_some hl)
  have heq := (hfollow.answers s (.refl s)).symm.trans (ht s (.refl s))
  cases heq
  exact hknown

/-- A path leads from a known entity to known ones. -/
theorem Query.Reaches.knows (h : Query.Reaches schema s e declared q path e' declared' q')
    {types : Entries NamedType} (hp : schema.Plain) (hs : schema.Sound types s)
    (hk : schema.Knows types e) : schema.Knows types e' := by
  induction h with
  | here => exact hk
  | nested _ hl ht _ ih => exact ih (hs.knows_target hp hk hl ht)

theorem Document.Reaches.knows (h : d.Reaches schema s index path e declared q)
    {types : Entries NamedType} (hp : schema.Plain) (hs : schema.Sound types s)
    (hr : d.Rooted schema types s) : schema.Knows types e := by
  obtain ⟨hq, he, hreach⟩ := h
  obtain ⟨e?, hroot, hknown⟩ := hr.exists_root (List.mem_of_getElem? hq)
  exact hreach.knows hp hs (hknown _ (hroot.unique he))

/-- Every link of a path has a name that follows the grammar. -/
theorem Query.Reaches.named (h : Query.Reaches schema s e declared q path e' declared' q')
    (hlawful : ∀ t e, schema.entity? t = some e → e.Lawful) {types : Entries NamedType}
    (hp : schema.Plain) (hs : schema.Sound types s) (hk : schema.Knows types e) :
    ∀ name ∈ path, Name.IsName name := by
  induction h with
  | here => exact nofun
  | nested _ hl ht _ ih =>
    refine List.forall_mem_cons.mpr ⟨?_, ih (hs.knows_target hp hk hl ht)⟩
    obtain ⟨_, -, he⟩ := hk
    exact (hlawful _ _ he).named _ (List.mem_append_right _ (Entity.mem_names_of_link? hl))

theorem Document.Reaches.named (h : d.Reaches schema s index path e declared q)
    (hlawful : ∀ t e, schema.entity? t = some e → e.Lawful) {types : Entries NamedType}
    (hp : schema.Plain) (hs : schema.Sound types s) (hr : d.Rooted schema types s) :
    ∀ name ∈ path, Name.IsName name := by
  obtain ⟨hq, he, hreach⟩ := h
  obtain ⟨e?, hroot, hknown⟩ := hr.exists_root (List.mem_of_getElem? hq)
  exact hreach.named hlawful hp hs (hknown _ (hroot.unique he))

/-- The arguments that are declared for the query at the end of a path have distinct names. -/
theorem Query.Reaches.distinct (h : Query.Reaches schema s e declared q path e' declared' q')
    (hlawful : ∀ t e, schema.entity? t = some e → e.Lawful) {types : Entries NamedType}
    (hp : schema.Plain) (hs : schema.Sound types s) (hk : schema.Knows types e)
    (hd : (declared.map Argument.name).Nodup) : (declared'.map Argument.name).Nodup := by
  induction h with
  | here => exact hd
  | nested _ hl ht _ ih =>
    refine ih (hs.knows_target hp hk hl ht) ?_
    obtain ⟨_, -, he⟩ := hk
    exact (hlawful _ _ he).ofLinks _ (List.mem_of_find?_eq_some hl)

theorem Document.Reaches.distinct (h : d.Reaches schema s index path e declared q)
    (hlawful : ∀ t e, schema.entity? t = some e → e.Lawful) {types : Entries NamedType}
    (hp : schema.Plain) (hs : schema.Sound types s) (hr : d.Rooted schema types s) :
    (declared.map Argument.name).Nodup := by
  obtain ⟨hq, he, hreach⟩ := h
  obtain ⟨e?, hroot, hknown⟩ := hr.exists_root (List.mem_of_getElem? hq)
  have hk := hknown _ (hroot.unique he)
  refine hreach.distinct hlawful hp hs hk ?_
  obtain ⟨_, -, he⟩ := hk
  exact (hlawful _ _ he).arguments

end

/-- Where the fields of an entity are resolved, at the end of a path from the query of a name. -/
def Query.site (q : Query) (schema : Schema σ) (context : Context) (queryName : String)
    (path : List String) (e : Entity σ) (declared : List Argument) : Site where
  artifact? := none
  entity := e.name
  query := q
  queryName
  path
  arguments := Argument.applyDefaults declared q.arguments
  context
  onDemand := schema.onDemand

/-! ## What a query asks for -/

/-- The query asks for an artifact of a kind. -/
def Query.Asks (q : Query) : ArtifactKind → String → Prop
  | .field, name => name ∈ q.attributes
  | .act, name => q.act = some name
  | .link, name => name ∈ Entries.keys q.links

section

variable {schema : Schema σ} {s s₁ s₂ : Session σ} {d : Document} {index : Nat} {path : List String}
  {e e' : Entity σ} {declared declared' : List Argument} {q q' : Query} {name : String}
  {kind : ArtifactKind} {x : Lack}

/-- What is asked for in vain at the end of a path is asked for in vain. -/
theorem Query.Reaches.lacks (h : Query.Reaches schema s e declared q path e' declared' q')
    (spot : Spot) (hx : Lacks schema s { spot with path := spot.path ++ path } e' q' x) :
    Lacks schema s spot e q x := by
  induction h generalizing spot with
  | here => simpa using hx
  | nested hq hl ht _ ih =>
    refine .nested hq hl ht (ih (spot.descend _) ?_)
    simpa [Spot.descend] using hx

theorem Query.Asks.lacks (hq : q.Asks kind name) (hnone : e.artifact? kind name = none) (spot : Spot) :
    Lacks schema s spot e q ⟨e.name, kind, spot, name⟩ := by
  cases kind with
  | field => exact .field hq (Option.map_eq_none_iff.mp hnone)
  | act => exact .act hq (Option.map_eq_none_iff.mp hnone)
  | link =>
    obtain ⟨⟨_, nested⟩, hmem, rfl⟩ := List.mem_map.mp hq
    exact .link hmem (Option.map_eq_none_iff.mp hnone)

/-- In a document that breaks no rule, no two queries have the same name. -/
theorem Document.nodup_of_accepted (h : d.validate { schema } s₁ = .ok [] s₂) : d.names.Nodup := by
  obtain ⟨fs, _, -, hfs⟩ := bind_eq_ok.mp h
  have hnames := (List.append_eq_nil_iff.mp (EStateM.Result.ok.inj hfs).1).1
  have hnone : ∀ name ∈ d.names, ¬ 1 < d.names.count name := by
    intro name hname hcount
    have hmem : name ∈ Validator.repeatedNames d.names := by
      simpa [Validator.repeatedNames, hname] using hcount
    exact Validator.report_ne_nil _ _ _ (List.flatMap_eq_nil_iff.mp hnames name hmem)
  refine List.nodup_iff_count.mpr fun name => ?_
  by_cases hname : name ∈ d.names
  · exact Nat.not_lt.mp (hnone name hname)
  · rw [List.count_eq_zero_of_not_mem hname]
    exact Nat.zero_le 1

/-- In a document that breaks no rule, every query names an entity. -/
theorem Document.exists_root_of_accepted {types : Entries NamedType} (hp : schema.Plain)
    (hs : schema.Sound types s) (hr : d.Rooted schema types s) (hs₁ : s.Alike s₁)
    (h : d.validate { schema } s₁ = .ok [] s₂) (hq : (name, q) ∈ d.queries) :
    ∃ e, q.Roots schema s (some e) := by
  obtain ⟨e?, hroot, -⟩ := hr.exists_root hq
  obtain ⟨res, _, hx, -, hcovers⟩ := Document.yields_validate (v := { schema }) hp hs hr s₁ hs₁
  rw [h] at hx
  cases res with
  | error f => cases hx
  | ok fs =>
    cases hx
    cases e? with
    | some e => exact ⟨e, hroot⟩
    | none =>
      obtain ⟨message, hviolation⟩ := (hcovers _ rfl _ _ hq).2 hroot
      exact absurd (List.subset_nil.mp hviolation) (Validator.report_ne_nil _ _ _)

/-- **In a document that breaks no rule, every entity has what it is asked for.** -/
theorem Document.Reaches.has_of_accepted {types : Entries NamedType} (hp : schema.Plain)
    (hs : schema.Sound types s) (hr : d.Rooted schema types s) (hs₁ : s.Alike s₁)
    (h : d.validate { schema } s₁ = .ok [] s₂) (hreach : d.Reaches schema s index path e declared q)
    (hq : q.Asks kind name) : (e.artifact? kind name).isSome := by
  obtain @⟨queryName, _, _, hroot, he, hreach⟩ := hreach
  obtain ⟨res, _, hx, -, hcovers⟩ := Document.yields_validate (v := { schema }) hp hs hr s₁ hs₁
  rw [h] at hx
  cases res with
  | error f => cases hx
  | ok fs =>
    cases hx
    refine Option.isSome_iff_ne_none.mpr fun hnone => ?_
    have hlack := hreach.lacks { queryName } (hq.lacks hnone _)
    have hviolation := (hcovers _ rfl _ _ (List.mem_of_getElem? hroot)).1 _ _ he hlack
    exact Validator.report_ne_nil _ _ _ (List.subset_nil.mp hviolation)

end

/-! ## Names with dots between them -/

namespace Name

theorem IsName.dot_not_mem {name : String} (h : IsName name) : '.' ∉ name.toList := by
  obtain ⟨c, rest, hc, hstart, hrest⟩ := h
  rw [hc]
  rintro (_ | ⟨_, hmem⟩)
  · exact absurd hstart (by decide)
  · exact absurd (hrest _ hmem) (by decide)

/-- **Names with dots between them can be told apart.** -/
theorem intercalate_injective {names names' : List String} (h : ∀ name ∈ names, IsName name)
    (h' : ∀ name ∈ names', IsName name) (hne : names ≠ []) (hne' : names' ≠ [])
    (heq : String.intercalate "." names = String.intercalate "." names') : names = names' := by
  have split : ∀ names : List String, (∀ name ∈ names, IsName name) → names ≠ [] →
      (String.intercalate "." names).toList.splitOn '.' = names.map String.toList := by
    intro names h hne
    rw [String.toList_intercalate]
    refine List.splitOn_intercalate '.' (fun cs hcs => ?_) (by simpa using hne)
    obtain ⟨name, hname, rfl⟩ := List.mem_map.mp hcs
    exact (h name hname).dot_not_mem
  have hmap : names.map String.toList = names'.map String.toList := by
    rw [← split names h hne, ← split names' h' hne', heq]
  exact List.map_inj_right (fun _ _ => String.toList_inj.mp) |>.mp hmap

end Name

end EntityQuery
