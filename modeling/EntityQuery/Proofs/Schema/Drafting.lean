import EntityQuery.Proofs.Schema.Recording
import EntityQuery.Typing.Draft

/-!
# Entities that are built from drafts

Building an entity checks the names that were declared: every name follows the grammar, and no two
artifacts of the entity share one, whatever their kinds.

* `Entity.Lawful`: what the checks make sure of. **`Draft.lawful_of_build`**: they do.
* `Schema.Drafted`: a schema all of whose entities are built from drafts.
* `Entity.Lawful.kind_unique`: a name is that of an artifact of one kind only.
-/

namespace EntityQuery

variable {σ : Type}

/-- Arguments whose names follow the grammar, no name declared twice. -/
structure Argument.WellNamed (arguments : List Argument) : Prop where
  named : ∀ a ∈ arguments, Name.IsName a.name
  distinct : (arguments.map Argument.name).Nodup

/-! ## Checks that pass -/

namespace Draft

variable {owner entity name : String} {seen taken names : List String} {arguments : List Argument}
  {artifacts : List (String × List Argument)}

theorem bind_eq_ok {ε α β : Type} {x : Except ε α} {f : α → Except ε β} {b : β} :
    x >>= f = .ok b ↔ ∃ a, x = .ok a ∧ f a = .ok b := by
  cases x with
  | error e => exact ⟨nofun, fun ⟨_, h, _⟩ => nomatch h⟩
  | ok a => exact ⟨fun h => ⟨a, rfl, h⟩, fun ⟨_, h, hf⟩ => by cases h; exact hf⟩

theorem seq_eq_ok {ε α : Type} {x : Except ε Unit} {f : Unit → Except ε α} {b : α} :
    x >>= f = .ok b ↔ x = .ok () ∧ f () = .ok b :=
  bind_eq_ok.trans ⟨fun ⟨_, h, h'⟩ => ⟨h, h'⟩, fun ⟨h, h'⟩ => ⟨(), h, h'⟩⟩

theorem checkName_iff : checkName owner name = .ok () ↔ Name.IsName name := by
  rw [← Name.check_eq_ok_iff, checkName]
  cases Name.check name with
  | ok u => exact ⟨fun _ => rfl, fun _ => rfl⟩
  | error f => exact ⟨nofun, nofun⟩

theorem checkNames_iff : (arguments.forM fun a => checkName owner a.name) = .ok () ↔
    ∀ a ∈ arguments, Name.IsName a.name := by
  induction arguments with
  | nil => exact ⟨nofun, fun _ => rfl⟩
  | cons a rest ih =>
    have hname : checkName owner a.name = .ok () ↔ Name.IsName a.name := checkName_iff
    rw [List.forall_mem_cons, ← ih, ← hname]
    exact seq_eq_ok

/-- Names that are distinct, and new where some have been seen. -/
def Fresh (seen names : List String) : Prop := names.Nodup ∧ ∀ name ∈ names, name ∉ seen

theorem fresh_nil : Fresh seen [] := ⟨List.nodup_nil, nofun⟩

theorem fresh_cons : Fresh seen (name :: names) ↔ name ∉ seen ∧ Fresh (name :: seen) names := by
  simp only [Fresh, List.nodup_cons, List.mem_cons, not_or, forall_eq_or_imp]
  constructor
  · rintro ⟨⟨hname, hnodup⟩, hnew, hrest⟩
    exact ⟨hnew, hnodup, fun other h => ⟨fun heq => hname (heq ▸ h), hrest other h⟩⟩
  · rintro ⟨hnew, hnodup, hrest⟩
    exact ⟨⟨fun h => (hrest name h).1 rfl, hnodup⟩, hnew, fun other h => (hrest other h).2⟩

theorem firstRepeat_iff : firstRepeat seen names = none ↔ Fresh seen names := by
  induction names generalizing seen with
  | nil => exact ⟨fun _ => fresh_nil, fun _ => rfl⟩
  | cons name rest ih =>
    rw [fresh_cons, ← ih, firstRepeat]
    split
    · next hname => exact ⟨nofun, fun h => absurd (by simpa using hname) h.1⟩
    · next hname => exact ⟨fun h => ⟨by simpa using hname, h⟩, And.right⟩

theorem checkArguments_iff : checkArguments owner arguments = .ok () ↔ Argument.WellNamed arguments := by
  have hrepeat : firstRepeat [] (arguments.map Argument.name) = none ↔
      Fresh [] (arguments.map Argument.name) := firstRepeat_iff
  constructor
  · intro h
    obtain ⟨hnames, h⟩ := seq_eq_ok.mp h
    split at h
    · cases h
    · next hnone => exact ⟨checkNames_iff.mp hnames, (hrepeat.mp hnone).1⟩
  · rintro ⟨hnamed, hdistinct⟩
    refine seq_eq_ok.mpr ⟨checkNames_iff.mpr hnamed, ?_⟩
    rw [hrepeat.mpr ⟨hdistinct, nofun⟩]
    rfl

/-- A check that no name is taken twice, and what comes after it. -/
theorem ite_throw_iff {d : Defect} {f : Unit → Except Defect Unit} {x : Except Defect Unit} :
    (if taken.contains name then throw d >>= f else x) = .ok () ↔ name ∉ taken ∧ x = .ok () := by
  split
  · next h => exact ⟨nofun, fun h' => absurd (by simpa using h) h'.1⟩
  · next h => exact ⟨fun h' => ⟨by simpa using h, h'⟩, And.right⟩

theorem checkArtifacts_iff : checkArtifacts entity taken artifacts = .ok () ↔
    Fresh taken (artifacts.map Prod.fst) ∧
      ∀ x ∈ artifacts, Name.IsName x.1 ∧ Argument.WellNamed x.2 := by
  induction artifacts generalizing taken with
  | nil => exact ⟨fun _ => ⟨fresh_nil, nofun⟩, fun _ => rfl⟩
  | cons x rest ih =>
    obtain ⟨name, arguments⟩ := x
    rw [List.map_cons, fresh_cons, List.forall_mem_cons, checkArtifacts]
    rw [seq_eq_ok, ite_throw_iff, seq_eq_ok, ih, checkName_iff, checkArguments_iff]
    exact ⟨fun ⟨hname, hnew, harguments, hfresh, hrest⟩ => ⟨⟨hnew, hfresh⟩, ⟨hname, harguments⟩, hrest⟩,
      fun ⟨⟨hnew, hfresh⟩, ⟨hname, harguments⟩, hrest⟩ => ⟨hname, hnew, harguments, hfresh, hrest⟩⟩

theorem checkOwnArguments_iff : checkOwnArguments entity taken arguments = .ok () ↔
    Fresh taken (arguments.map Argument.name) ∧ ∀ a ∈ arguments, Name.IsName a.name := by
  induction arguments generalizing taken with
  | nil => exact ⟨fun _ => ⟨fresh_nil, nofun⟩, fun _ => rfl⟩
  | cons a rest ih =>
    rw [List.map_cons, fresh_cons, List.forall_mem_cons, checkOwnArguments]
    rw [seq_eq_ok, ite_throw_iff, ih, checkName_iff]
    exact ⟨fun ⟨hname, hnew, hfresh, hrest⟩ => ⟨⟨hnew, hfresh⟩, hname, hrest⟩,
      fun ⟨⟨hnew, hfresh⟩, hname, hrest⟩ => ⟨hname, hnew, hfresh, hrest⟩⟩

end Draft

/-! ## Lawful entities -/

namespace Entity

/-- The names of the artifacts: attributes, then acts, then links. -/
def names (e : Entity σ) : List String :=
  e.attributes.map (fun a => a.label.name) ++ e.acts.map (fun a => a.label.name) ++
    e.links.map (fun l => l.label.name)

/-- The names of the entity have passed their checks. -/
structure Lawful (e : Entity σ) : Prop where
  named : ∀ name ∈ e.names, Name.IsName name
  distinct : e.names.Nodup
  arguments : (e.arguments.map Argument.name).Nodup
  ofActs : ∀ a ∈ e.acts, (a.arguments.map Argument.name).Nodup
  ofLinks : ∀ l ∈ e.links, (l.arguments.map Argument.name).Nodup

variable {e : Entity σ} {name : String} {kind kind' : ArtifactKind}

theorem mem_names_of_attribute? {a : Attribute σ} (h : e.attribute? name = some a) :
    name ∈ e.attributes.map fun a => a.label.name :=
  List.mem_map.mpr ⟨a, List.mem_of_find?_eq_some h, by simpa using List.find?_some h⟩

theorem mem_names_of_act? {a : Act σ} (h : e.act? name = some a) :
    name ∈ e.acts.map fun a => a.label.name :=
  List.mem_map.mpr ⟨a, List.mem_of_find?_eq_some h, by simpa using List.find?_some h⟩

theorem mem_names_of_link? {l : Link σ} (h : e.link? name = some l) :
    name ∈ e.links.map fun l => l.label.name :=
  List.mem_map.mpr ⟨l, List.mem_of_find?_eq_some h, by simpa using List.find?_some h⟩

/-- The names of the artifacts of a kind. -/
def namesOf (e : Entity σ) : ArtifactKind → List String
  | .field => e.attributes.map fun a => a.label.name
  | .act => e.acts.map fun a => a.label.name
  | .link => e.links.map fun l => l.label.name

theorem mem_namesOf (h : (e.artifact? kind name).isSome) : name ∈ e.namesOf kind := by
  cases kind with
  | field =>
    obtain ⟨a, ha⟩ := Option.isSome_iff_exists.mp (Option.isSome_map.symm.trans h)
    exact mem_names_of_attribute? ha
  | act =>
    obtain ⟨a, ha⟩ := Option.isSome_iff_exists.mp (Option.isSome_map.symm.trans h)
    exact mem_names_of_act? ha
  | link =>
    obtain ⟨l, hl⟩ := Option.isSome_iff_exists.mp (Option.isSome_map.symm.trans h)
    exact mem_names_of_link? hl

theorem mem_names (h : (e.artifact? kind name).isSome) : name ∈ e.names := by
  have hmem := mem_namesOf h
  cases kind with
  | field => exact List.mem_append_left _ (List.mem_append_left _ hmem)
  | act => exact List.mem_append_left _ (List.mem_append_right _ hmem)
  | link => exact List.mem_append_right _ hmem

/-- **A name is that of an artifact of one kind only.** -/
theorem Lawful.kind_unique (he : e.Lawful) (h : (e.artifact? kind name).isSome)
    (h' : (e.artifact? kind' name).isSome) : kind = kind' := by
  have hd := he.distinct
  rw [names, List.nodup_append, List.nodup_append] at hd
  obtain ⟨⟨-, -, hfa⟩, -, hfl⟩ := hd
  have hm := mem_namesOf h
  have hm' := mem_namesOf h'
  cases kind <;> cases kind' <;> first
    | rfl
    | exact absurd rfl (hfa _ hm _ hm')
    | exact absurd rfl (hfa _ hm' _ hm)
    | exact absurd rfl (hfl _ (List.mem_append_left _ hm) _ hm')
    | exact absurd rfl (hfl _ (List.mem_append_left _ hm') _ hm)
    | exact absurd rfl (hfl _ (List.mem_append_right _ hm) _ hm')
    | exact absurd rfl (hfl _ (List.mem_append_right _ hm') _ hm)

theorem names_recorded (e : Entity σ) : e.recorded.names = e.names := by
  simp only [names, recorded, List.map_map]
  rfl

/-- Recording keeps the names of an entity. -/
theorem Lawful.recorded (h : e.Lawful) : e.recorded.Lawful where
  named := e.names_recorded ▸ h.named
  distinct := e.names_recorded ▸ h.distinct
  arguments := h.arguments
  ofActs a ha := by
    obtain ⟨b, hb, rfl⟩ := List.mem_map.mp ha
    exact h.ofActs b hb
  ofLinks l hl := by
    obtain ⟨l', hl', rfl⟩ := List.mem_map.mp hl
    exact h.ofLinks l' hl'

end Entity

theorem Draft.names_eq (d : Draft σ) : d.artifacts.map Prod.fst =
    d.attributes.map (fun a => a.label.name) ++ d.acts.map (fun a => a.label.name) ++
      d.links.map (fun l => l.label.name) := by
  simp only [artifacts, List.map_append, List.map_map]
  rfl

/-- **What building an entity makes sure of.** -/
theorem Draft.lawful_of_build {d : Draft σ} {e : Entity σ} (h : d.build = .ok e) : e.Lawful := by
  obtain ⟨_, h⟩ := seq_eq_ok.mp h
  split at h
  · cases h
  · obtain ⟨hartifacts, h⟩ := seq_eq_ok.mp h
    obtain ⟨hown, h⟩ := seq_eq_ok.mp h
    obtain ⟨⟨hnodup, -⟩, hall⟩ := checkArtifacts_iff.mp hartifacts
    cases h
    refine ⟨fun name hname => ?_, ?_, (checkOwnArguments_iff.mp hown).1.1, fun a ha => ?_,
      fun l hl => ?_⟩
    · rw [Entity.names, ← Draft.names_eq] at hname
      obtain ⟨x, hx, rfl⟩ := List.mem_map.mp hname
      exact (hall x hx).1
    · rw [Entity.names, ← Draft.names_eq]
      exact hnodup
    · refine (hall (a.label.name, a.arguments) ?_).2.distinct
      exact List.mem_append_left _ (List.mem_append_right _ (List.mem_map.mpr ⟨a, ha, rfl⟩))
    · refine (hall (l.label.name, l.arguments) ?_).2.distinct
      exact List.mem_append_right _ (List.mem_map.mpr ⟨l, hl, rfl⟩)

/-! ## Schemas of drafts -/

/-- Every entity of the schema is built from a draft. -/
def Schema.Drafted (schema : Schema σ) : Prop :=
  ∀ t e, schema.entity? t = some e → ∃ d : Draft σ, d.build = .ok e

namespace Schema

variable {schema : Schema σ}

theorem Drafted.lawful (h : schema.Drafted) {t : NamedType} {e : Entity σ}
    (he : schema.entity? t = some e) : e.Lawful :=
  let ⟨_, hd⟩ := h t e he
  Draft.lawful_of_build hd

theorem Drafted.lawful_recorded (h : schema.Drafted) {t : NamedType} {e : Entity (Recorded σ)}
    (he : schema.recorded.entity? t = some e) : e.Lawful := by
  rw [entity?_recorded] at he
  obtain ⟨e', he', rfl⟩ := Option.map_eq_some_iff.mp he
  exact (h.lawful he').recorded

end Schema

end EntityQuery
