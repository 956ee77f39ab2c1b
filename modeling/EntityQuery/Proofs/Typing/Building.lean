import EntityQuery.Proofs.Json.Values
import EntityQuery.Proofs.Schema.Drafting
import EntityQuery.Typing.Builder
import Mathlib.Data.List.Induction

/-!
# What is built from clauses

Building an entity fills tables, each name by a check of its own. The checks are such that no name is ever
entered twice, so a table holds what was declared, in order and in full.

* `Declared.table_eq`, `Draft.enter_eq`, `Draft.enterArguments_eq`: a table is what was declared, once the
  names have passed their checks.
* **`Draft.blueprint_eq`**, **`Draft.assemble_eq_build`**: the tables of an entity, and the entity.
* `WellNamed`: clauses whose names follow the grammar and are distinct where they have to be.
* **`Draft.blueprint_of_clauses`**: which clauses an entity is built from, and what its tables hold.
-/

namespace EntityQuery

variable {σ α β γ : Type}

/-- Items in order, each under its name. -/
def Entries.listed (name : α → String) (items : List α) : Entries α := items.map fun a => (name a, a)

/-! ## Checks one after the other -/

namespace Draft

variable {owner entity name : String} {seen taken taken' names : List String}

theorem map_bind (f : α → β) (x : Except Defect α) (g : β → Except Defect γ) :
    x.map f >>= g = x >>= fun a => g (f a) := by
  cases x <;> rfl

theorem bind_map (f : β → γ) (x : Except Defect α) (g : α → Except Defect β) :
    (x >>= g).map f = x >>= fun a => (g a).map f := by
  cases x <;> rfl

theorem firstRepeat_append (seen names rest : List String) : firstRepeat seen (names ++ rest) =
    (firstRepeat seen names).or (firstRepeat (names.reverse ++ seen) rest) := by
  induction names generalizing seen with
  | nil => rfl
  | cons name names ih =>
    rw [List.cons_append, firstRepeat, firstRepeat]
    split
    · rfl
    · rw [ih, List.reverse_cons, List.append_assoc]
      rfl

/-- Only which names are taken counts, not in which order. -/
theorem checkArtifacts_congr (artifacts : List (String × List Argument))
    (h : ∀ name, name ∈ taken ↔ name ∈ taken') :
    checkArtifacts entity taken artifacts = checkArtifacts entity taken' artifacts := by
  induction artifacts generalizing taken taken' with
  | nil => rfl
  | cons x rest ih =>
    obtain ⟨name, arguments⟩ := x
    have hcontains : taken.contains name = taken'.contains name := by
      rw [Bool.eq_iff_iff]
      simpa using h name
    have hrest := @ih (name :: taken) (name :: taken') (by simp [h])
    rw [checkArtifacts, checkArtifacts, hcontains, hrest]

theorem checkArtifacts_append (xs ys : List (String × List Argument)) :
    checkArtifacts entity taken (xs ++ ys) = checkArtifacts entity taken xs >>= fun _ =>
      checkArtifacts entity (taken ++ xs.map Prod.fst) ys := by
  induction xs generalizing taken with
  | nil =>
    rw [List.map_nil, List.append_nil]
    rfl
  | cons x rest ih =>
    obtain ⟨name, arguments⟩ := x
    have hrest : checkArtifacts entity (name :: taken) (rest ++ ys) =
        checkArtifacts entity (name :: taken) rest >>= fun _ =>
          checkArtifacts entity (taken ++ name :: rest.map Prod.fst) ys := by
      rw [ih]
      refine bind_congr fun _ => checkArtifacts_congr ys fun other => ?_
      simp [or_left_comm]
    rw [List.cons_append, List.map_cons, checkArtifacts, checkArtifacts, hrest]
    cases checkName (entity ++ "." ++ name) name with
    | error d => rfl
    | ok _ =>
      by_cases hname : taken.contains name = true
      · simp only [hname, if_true]
        rfl
      · simp only [hname]
        cases checkArguments (entity ++ "." ++ name) arguments <;> rfl

end Draft

/-! ## The arguments of an act or a link -/

namespace Declared

variable {arguments : List Argument} {a : Argument} {owner : String}

theorem ofList_snoc : ofList (arguments ++ [a]) = (ofList arguments).add a := by
  simp [ofList]

/-- A name is kept as soon as it has been declared. -/
theorem mem_keys_kept (arguments : List Argument) (name : String) :
    name ∈ Entries.keys (ofList arguments).kept ↔ name ∈ arguments.map Argument.name := by
  induction arguments using List.reverseRecOn with
  | nil => rfl
  | append_singleton arguments a ih =>
    rw [ofList_snoc, add, List.map_append, List.mem_append]
    split
    · next hhas =>
      have ha := (Entries.mem_keys_iff _ _).mpr hhas
      refine ⟨fun h => .inl (ih.mp h), fun h => h.elim ih.mpr fun hname => ?_⟩
      rwa [List.mem_singleton.mp hname]
    · next hhas =>
      have ha := mt (Entries.mem_keys_iff _ _).mp hhas
      rw [Entries.insert_of_not_mem ha, Entries.keys, List.map_append, List.mem_append]
      exact or_congr_left ih

theorem add_of_mem (h : a.name ∈ arguments.map Argument.name) :
    (ofList arguments).add a =
      { ofList arguments with repeated := (ofList arguments).repeated ++ [a.name] } :=
  if_pos ((Entries.mem_keys_iff _ _).mp ((mem_keys_kept arguments a.name).mpr h))

theorem add_of_not_mem (h : a.name ∉ arguments.map Argument.name) :
    (ofList arguments).add a =
      { ofList arguments with kept := (ofList arguments).kept ++ [(a.name, a)] } := by
  have hkeys : a.name ∉ Entries.keys (ofList arguments).kept := mt (mem_keys_kept _ _).mp h
  rw [add, if_neg (mt (Entries.mem_keys_iff _ _).mpr hkeys), Entries.insert_of_not_mem hkeys]

/-- The repeats that are noted begin with the first name to come again. -/
theorem head?_repeated (arguments : List Argument) : (ofList arguments).repeated.head? =
    Draft.firstRepeat [] (arguments.map Argument.name) := by
  induction arguments using List.reverseRecOn with
  | nil => rfl
  | append_singleton arguments a ih =>
    rw [ofList_snoc, List.map_append, Draft.firstRepeat_append, ← ih, List.append_nil]
    by_cases ha : a.name ∈ arguments.map Argument.name
    · rw [add_of_mem ha, List.head?_append, List.map_cons, Draft.firstRepeat, if_pos (by simpa using ha)]
      rfl
    · rw [add_of_not_mem ha, List.map_cons, Draft.firstRepeat, if_neg (by simpa using ha)]
      exact Option.or_none.symm

/-- Where no name came again, every argument is kept. -/
theorem kept_of_nodup (h : (arguments.map Argument.name).Nodup) :
    (ofList arguments).kept = Entries.listed Argument.name arguments := by
  induction arguments using List.reverseRecOn with
  | nil => rfl
  | append_singleton arguments a ih =>
    rw [List.map_append, List.nodup_append] at h
    obtain ⟨hnodup, -, hnew⟩ := h
    have ha : a.name ∉ arguments.map Argument.name := fun hmem =>
      hnew _ hmem _ List.mem_cons_self rfl
    rw [ofList_snoc, add_of_not_mem ha, ih hnodup, Entries.listed, Entries.listed, List.map_append]
    rfl

/-- Checking the names that are kept is checking all of them: one that came again has been checked. -/
theorem forM_kept (owner : String) (arguments : List Argument) :
    (ofList arguments).kept.forM (fun (_, a) => Draft.checkName owner a.name) =
      arguments.forM fun a => Draft.checkName owner a.name := by
  induction arguments using List.reverseRecOn with
  | nil => rfl
  | append_singleton arguments a ih =>
    rw [List.forM_eq_forM, List.forM_eq_forM] at ih ⊢
    rw [ofList_snoc, List.forM_append]
    by_cases ha : a.name ∈ arguments.map Argument.name
    · rw [add_of_mem ha, ih]
      cases hnames : forM arguments fun a => Draft.checkName owner a.name with
      | error d => rfl
      | ok _ =>
        obtain ⟨b, hb, hname⟩ := List.mem_map.mp ha
        refine (Draft.checkNames_iff.mpr fun c hc => ?_).symm
        rw [List.mem_singleton.mp hc, ← hname]
        exact Draft.checkNames_iff.mp hnames b hb
    · rw [add_of_not_mem ha, List.forM_append, ih]
      rfl

/-- The table of an act or a link holds what was declared, once the names have passed their checks. -/
theorem table_eq (owner : String) (arguments : List Argument) :
    (ofList arguments).table owner =
      (Draft.checkArguments owner arguments).map fun _ => Entries.listed Argument.name arguments := by
  rw [table, Draft.checkArguments, forM_kept, head?_repeated]
  cases arguments.forM fun a => Draft.checkName owner a.name with
  | error d => rfl
  | ok _ =>
    cases hrepeat : Draft.firstRepeat [] (arguments.map Argument.name) with
    | some name => rfl
    | none =>
      rw [kept_of_nodup (Draft.firstRepeat_iff.mp hrepeat).1]
      rfl

end Declared

/-! ## The tables of an entity -/

/-- The tables of an entity: each holds what the entity has, in order. -/
def Entity.tables (e : Entity σ) : Blueprint σ where
  name := e.name
  description := e.description
  deprecated := e.deprecated
  reason := e.reason
  resolve := e.resolve
  attributes := Entries.listed (fun a => a.label.name) e.attributes
  acts := e.acts.map fun a => (a.label.name, a, Entries.listed Argument.name a.arguments)
  links := e.links.map fun l => (l.label.name, l, Entries.listed Argument.name l.arguments)
  arguments := Entries.listed Argument.name e.arguments

@[simp] theorem Entity.entity_tables (e : Entity σ) : e.tables.entity = e := by
  simp [Entity.tables, Blueprint.entity, Entries.listed, Function.comp_def]

namespace Draft

variable {entity : String} {name : α → String} {entry : α → Except Defect β} {value : α → β}

/-- Artifacts are entered as they are declared, once their names and arguments have passed the checks. -/
theorem enter_eq (arguments : α → List Argument) (hentry : ∀ a, entry a =
      (checkArguments (entity ++ "." ++ name a) (arguments a)).map fun _ => value a)
    (items : List α) {taken : List String} {table : Entries β}
    (htable : ∀ key ∈ Entries.keys table, key ∈ taken) :
    enter entity name entry items taken table =
      (checkArtifacts entity taken (items.map fun a => (name a, arguments a))).map fun _ =>
        (taken ++ items.map name, table ++ items.map fun a => (name a, value a)) := by
  induction items generalizing taken table with
  | nil =>
    rw [enter, List.map_nil, List.map_nil, List.append_nil, List.append_nil]
    rfl
  | cons a rest ih =>
    rw [List.map_cons, List.map_cons, List.map_cons, enter, checkArtifacts, claim, hentry]
    cases checkName (entity ++ "." ++ name a) (name a) with
    | error d => rfl
    | ok _ =>
      by_cases hname : taken.contains (name a) = true
      · simp only [hname, if_true]
        rfl
      · simp only [hname]
        cases checkArguments (entity ++ "." ++ name a) (arguments a) with
        | error d => rfl
        | ok _ =>
          have hkey : name a ∉ Entries.keys table := fun h => hname (by simpa using htable _ h)
          have hrest := @ih (taken ++ [name a]) (table ++ [(name a, value a)]) fun key h => by
            rw [Entries.keys, List.map_append] at h
            exact (List.mem_append.mp h).elim (fun h => List.mem_append_left _ (htable key h))
              (List.mem_append_right _)
          have hswap : ∀ other, other ∈ taken ++ [name a] ↔ other ∈ name a :: taken := by
            simp [or_comm]
          rw [List.append_assoc, List.append_assoc, checkArtifacts_congr _ hswap] at hrest
          refine (congrArg (enter entity name entry rest _) (Entries.insert_of_not_mem hkey _)).trans hrest

theorem enter_pure (entity : String) (name : α → String) (items : List α) (taken : List String) :
    enter entity name pure items taken [] =
      (checkArtifacts entity taken (items.map fun a => (name a, []))).map fun _ =>
        (taken ++ items.map name, Entries.listed name items) :=
  enter_eq (fun _ => []) (fun _ => rfl) items nofun

theorem enter_entryOf (entity : String) (name : α → String) (arguments : α → List Argument)
    (items : List α) (taken : List String) :
    enter entity name (entryOf entity name arguments) items taken [] =
      (checkArtifacts entity taken (items.map fun a => (name a, arguments a))).map fun _ =>
        (taken ++ items.map name,
          items.map fun a => (name a, a, Entries.listed Argument.name (arguments a))) := by
  refine enter_eq arguments (fun a => ?_) items nofun
  rw [entryOf, Declared.table_eq]
  cases checkArguments (entity ++ "." ++ name a) (arguments a) <;> rfl

/-- The arguments of the entity are entered as they are declared, once they have passed the checks. -/
theorem enterArguments_eq (entity : String) (items : List Argument) {taken : List String}
    {table : Entries Argument} (htable : ∀ key, key ∈ Entries.keys table ↔ key ∈ taken) :
    enterArguments entity items table =
      (checkOwnArguments entity taken items).map fun _ => table ++ Entries.listed Argument.name items := by
  induction items generalizing taken table with
  | nil => exact congrArg Except.ok (List.append_nil table).symm
  | cons a rest ih =>
    have hhas : Entries.has table a.name = taken.contains a.name := by
      rw [Bool.eq_iff_iff, ← Entries.mem_keys_iff, htable]
      simp
    rw [enterArguments, checkOwnArguments, hhas]
    cases checkName entity a.name with
    | error d => rfl
    | ok _ =>
      by_cases hname : taken.contains a.name = true
      · simp only [hname, if_true]
        rfl
      · simp only [hname]
        have hkey : a.name ∉ Entries.keys table := fun h => hname (by simpa using (htable _).mp h)
        have hrest := @ih (a.name :: taken) (table ++ [(a.name, a)]) fun key => by
          rw [Entries.keys, List.map_append, List.mem_append, List.mem_cons, or_comm, ← htable]
          exact or_congr_left List.mem_singleton
        rw [List.append_assoc] at hrest
        exact (congrArg (enterArguments entity rest) (Entries.insert_of_not_mem hkey a)).trans hrest

/-- **The tables of an entity hold what it was declared with.** -/
theorem blueprint_eq (d : Draft σ) : d.blueprint = d.build.map Entity.tables := by
  rw [blueprint, build]
  cases checkName "Entity" d.name with
  | error f => rfl
  | ok _ =>
    cases d.resolve? with
    | none => rfl
    | some resolve =>
      have harguments : enterArguments d.name d.arguments [] = (checkOwnArguments d.name [] d.arguments).map
          fun _ => [] ++ Entries.listed Argument.name d.arguments :=
        enterArguments_eq d.name d.arguments fun _ => .rfl
      simp only [enter_pure, enter_entryOf, harguments, artifacts, checkArtifacts_append, map_bind, bind_map,
        bind_assoc, List.map_append, List.map_map, List.nil_append, Function.comp_def]
      rfl

/-- Filling tables and checking the names beforehand come to the same entity. -/
theorem assemble_eq_build (d : Draft σ) : d.assemble = d.build := by
  rw [assemble, blueprint_eq]
  cases d.build with
  | error e => rfl
  | ok e => exact congrArg Except.ok e.entity_tables

end Draft

/-! ## What clauses declare -/

namespace Clause

/-- The attribute that a clause declares. -/
def attribute? : Clause σ → Option (Attribute σ)
  | .attribute a => some a
  | _ => none

/-- The act that a clause declares. -/
def act? : Clause σ → Option (Act σ)
  | .act a => some a
  | _ => none

/-- The link that a clause declares. -/
def link? : Clause σ → Option (Link σ)
  | .link l => some l
  | _ => none

/-- The argument of the entity that a clause declares. -/
def argument? : Clause σ → Option Argument
  | .argument a => some a
  | _ => none

/-- The name of the artifact that a clause declares, of whichever kind. -/
def artifact? : Clause σ → Option String
  | .attribute a => some a.label.name
  | .act a => some a.label.name
  | .link l => some l.label.name
  | _ => none

end Clause

/-- An entity's name and clauses in which every name follows the grammar, and is declared once: an artifact's
in the entity, an argument's with what it belongs to. -/
structure WellNamed (name : String) (clauses : List (Clause σ)) : Prop where
  name : Name.IsName name
  artifacts : ∀ artifact ∈ clauses.filterMap Clause.artifact?, Name.IsName artifact
  distinct : (clauses.filterMap Clause.artifact?).Nodup
  arguments : Argument.WellNamed (clauses.filterMap Clause.argument?)
  ofActs : ∀ a, .act a ∈ clauses → Argument.WellNamed a.arguments
  ofLinks : ∀ l, .link l ∈ clauses → Argument.WellNamed l.arguments

/-- The tables hold what the clauses declare, all of it, in order, each under its own name. -/
structure Blueprint.Holds (b : Blueprint σ) (clauses : List (Clause σ)) : Prop where
  attributes : b.attributes = (clauses.filterMap Clause.attribute?).map fun a => (a.label.name, a)
  acts : b.acts = (clauses.filterMap Clause.act?).map fun a =>
    (a.label.name, a, a.arguments.map fun x => (x.name, x))
  links : b.links = (clauses.filterMap Clause.link?).map fun l =>
    (l.label.name, l, l.arguments.map fun x => (x.name, x))
  arguments : b.arguments = (clauses.filterMap Clause.argument?).map fun x => (x.name, x)

namespace Draft

variable {name : String} {d : Draft σ} {clauses : List (Clause σ)}

/-- What a draft holds after some clauses, list by list. -/
theorem foldl_say (d : Draft σ) (clauses : List (Clause σ)) :
    (clauses.foldl say d).name = d.name ∧
      (clauses.foldl say d).attributes = d.attributes ++ clauses.filterMap Clause.attribute? ∧
      (clauses.foldl say d).acts = d.acts ++ clauses.filterMap Clause.act? ∧
      (clauses.foldl say d).links = d.links ++ clauses.filterMap Clause.link? ∧
      (clauses.foldl say d).arguments = d.arguments ++ clauses.filterMap Clause.argument? := by
  induction clauses generalizing d with
  | nil => simp
  | cons c rest ih =>
    obtain ⟨hname, hattributes, hacts, hlinks, harguments⟩ := ih (d.say c)
    rw [List.foldl_cons, hname, hattributes, hacts, hlinks, harguments]
    cases c <;> simp only [say, List.append_assoc, true_and] <;> exact ⟨rfl, rfl, rfl, rfl⟩

/-- Something resolves the entity as soon as one clause says what. -/
theorem isSome_resolve?_foldl_say (d : Draft σ) (clauses : List (Clause σ)) :
    (clauses.foldl say d).resolve?.isSome ↔ d.resolve?.isSome ∨ ∃ f, .resolve f ∈ clauses := by
  induction clauses generalizing d with
  | nil => simp
  | cons c rest ih =>
    rw [List.foldl_cons, ih]
    cases c <;> simp [say]

/-- The artifacts of a draft are those of its clauses, kind after kind. -/
theorem artifacts_perm (clauses : List (Clause σ)) :
    ((clauses.filterMap Clause.attribute?).map (fun a => a.label.name) ++
      (clauses.filterMap Clause.act?).map (fun a => a.label.name) ++
      (clauses.filterMap Clause.link?).map fun l => l.label.name).Perm
    (clauses.filterMap Clause.artifact?) := by
  induction clauses with
  | nil => exact .nil
  | cons c rest ih =>
    cases c with
    | «attribute» a => exact ih.cons _
    | act a => exact ((List.perm_middle.append_right _).trans (ih.cons _))
    | link l => exact List.perm_middle.trans (ih.cons _)
    | _ => exact ih

theorem ofClauses_eq (name : String) (clauses : List (Clause σ)) :
    (ofClauses name clauses).name = name ∧
      (ofClauses name clauses).attributes = clauses.filterMap Clause.attribute? ∧
      (ofClauses name clauses).acts = clauses.filterMap Clause.act? ∧
      (ofClauses name clauses).links = clauses.filterMap Clause.link? ∧
      (ofClauses name clauses).arguments = clauses.filterMap Clause.argument? :=
  foldl_say { name } clauses

theorem mem_acts {a : Act σ} : a ∈ clauses.filterMap Clause.act? ↔ .act a ∈ clauses := by
  rw [List.mem_filterMap]
  refine ⟨fun ⟨c, hc, h⟩ => ?_, fun h => ⟨_, h, rfl⟩⟩
  cases c with
  | act b => exact Option.some.inj h ▸ hc
  | _ => cases h

theorem mem_links {l : Link σ} : l ∈ clauses.filterMap Clause.link? ↔ .link l ∈ clauses := by
  rw [List.mem_filterMap]
  refine ⟨fun ⟨c, hc, h⟩ => ?_, fun h => ⟨_, h, rfl⟩⟩
  cases c with
  | link b => exact Option.some.inj h ▸ hc
  | _ => cases h

/-- When an entity is built from a draft. -/
theorem build_iff (d : Draft σ) : (∃ e, d.build = .ok e) ↔ d.resolve?.isSome ∧ Name.IsName d.name ∧
    Fresh [] (d.artifacts.map Prod.fst) ∧
    (∀ x ∈ d.artifacts, Name.IsName x.1 ∧ Argument.WellNamed x.2) ∧
    Argument.WellNamed d.arguments := by
  have hartifacts : checkArtifacts d.name [] d.artifacts = .ok () ↔ _ := checkArtifacts_iff
  have hown : checkOwnArguments d.name [] d.arguments = .ok () ↔ _ := checkOwnArguments_iff
  constructor
  · rintro ⟨e, h⟩
    obtain ⟨hname, h⟩ := seq_eq_ok.mp h
    split at h
    · cases h
    · next hresolve =>
      obtain ⟨hchecked, h⟩ := seq_eq_ok.mp h
      obtain ⟨hfresh, hall⟩ := hartifacts.mp hchecked
      obtain ⟨⟨hdistinct, -⟩, hnamed⟩ := hown.mp (seq_eq_ok.mp h).1
      exact ⟨hresolve ▸ rfl, checkName_iff.mp hname, hfresh, hall, hnamed, hdistinct⟩
  · rintro ⟨hresolve, hname, hfresh, hall, hnamed, hdistinct⟩
    obtain ⟨resolve, hresolve⟩ := Option.isSome_iff_exists.mp hresolve
    simp only [build, hresolve, seq_eq_ok]
    exact ⟨_, checkName_iff.mpr hname, hartifacts.mpr ⟨hfresh, hall⟩,
      hown.mpr ⟨⟨hdistinct, nofun⟩, hnamed⟩, rfl⟩

theorem mem_artifacts {x : String × List Argument} : x ∈ d.artifacts ↔
    (∃ a ∈ d.attributes, (a.label.name, []) = x) ∨ (∃ a ∈ d.acts, (a.label.name, a.arguments) = x) ∨
      ∃ l ∈ d.links, (l.label.name, l.arguments) = x := by
  simp only [artifacts, List.mem_append, List.mem_map, or_assoc]

/-- The checks of a draft are about what its clauses declare. -/
theorem wellNamed_iff (name : String) (clauses : List (Clause σ)) : WellNamed name clauses ↔
    Name.IsName (ofClauses name clauses).name ∧
    Fresh [] ((ofClauses name clauses).artifacts.map Prod.fst) ∧
    (∀ x ∈ (ofClauses name clauses).artifacts, Name.IsName x.1 ∧ Argument.WellNamed x.2) ∧
    Argument.WellNamed (ofClauses name clauses).arguments := by
  obtain ⟨hname, hattributes, hacts, hlinks, harguments⟩ := ofClauses_eq name clauses
  have hnames : ((ofClauses name clauses).artifacts.map Prod.fst).Perm
      (clauses.filterMap Clause.artifact?) := by
    rw [names_eq, hattributes, hacts, hlinks]
    exact artifacts_perm clauses
  rw [hname, harguments]
  constructor
  · intro h
    refine ⟨h.name, ⟨hnames.nodup_iff.mpr h.distinct, nofun⟩, fun x hx => ⟨?_, ?_⟩, h.arguments⟩
    · exact h.artifacts _ (hnames.mem_iff.mp (List.mem_map_of_mem hx))
    · rw [mem_artifacts, hacts, hlinks] at hx
      obtain ⟨a, -, rfl⟩ | ⟨a, ha, rfl⟩ | ⟨l, hl, rfl⟩ := hx
      · exact ⟨nofun, List.nodup_nil⟩
      · exact h.ofActs a (mem_acts.mp ha)
      · exact h.ofLinks l (mem_links.mp hl)
  · rintro ⟨hname, ⟨hdistinct, -⟩, hall, harguments⟩
    refine ⟨hname, fun artifact h => ?_, hnames.nodup_iff.mp hdistinct, harguments, fun a ha => ?_,
      fun l hl => ?_⟩
    · obtain ⟨x, hx, rfl⟩ := List.mem_map.mp (hnames.mem_iff.mpr h)
      exact (hall x hx).1
    · exact (hall _ (mem_artifacts.mpr (.inr (.inl ⟨a, hacts ▸ mem_acts.mpr ha, rfl⟩)))).2
    · exact (hall _ (mem_artifacts.mpr (.inr (.inr ⟨l, hlinks ▸ mem_links.mpr hl, rfl⟩)))).2

/-- What is built has the lists of the draft. -/
theorem eq_of_build {e : Entity σ} (h : d.build = .ok e) : e.name = d.name ∧
    e.attributes = d.attributes ∧ e.acts = d.acts ∧ e.links = d.links ∧ e.arguments = d.arguments := by
  obtain ⟨-, h⟩ := seq_eq_ok.mp h
  split at h
  · cases h
  · obtain ⟨-, h⟩ := seq_eq_ok.mp h
    obtain ⟨-, h⟩ := seq_eq_ok.mp h
    cases h
    exact ⟨rfl, rfl, rfl, rfl, rfl⟩

/-- **An entity is built from clauses exactly if one of them resolves it and they are well-named, and its
tables hold then what the clauses declare.** -/
theorem blueprint_of_clauses (name : String) (clauses : List (Clause σ)) :
    ((∃ b, (ofClauses name clauses).blueprint = .ok b) ↔
      (∃ f, .resolve f ∈ clauses) ∧ WellNamed name clauses) ∧
    ∀ b, (ofClauses name clauses).blueprint = .ok b →
      b.name = name ∧ b.Holds clauses ∧ (ofClauses name clauses).assemble = .ok b.entity := by
  have hmap : ∀ b, (ofClauses name clauses).blueprint = .ok b ↔
      ∃ e, (ofClauses name clauses).build = .ok e ∧ e.tables = b := fun b => by
    rw [blueprint_eq]
    cases (ofClauses name clauses).build <;> simp [Except.map]
  constructor
  · have hresolve := isSome_resolve?_foldl_say { name } clauses
    rw [wellNamed_iff, ← show _ ↔ _ from hresolve.trans (or_iff_right nofun)]
    refine Iff.trans ?_ (build_iff (ofClauses name clauses))
    simp only [hmap]
    exact ⟨fun ⟨_, e, h, _⟩ => ⟨e, h⟩, fun ⟨e, h⟩ => ⟨_, e, h, rfl⟩⟩
  · intro b hb
    obtain ⟨e, he, rfl⟩ := (hmap b).mp hb
    obtain ⟨hname, hattributes, hacts, hlinks, harguments⟩ := ofClauses_eq name clauses
    obtain ⟨h₁, h₂, h₃, h₄, h₅⟩ := eq_of_build he
    rw [assemble_eq_build, he, Entity.entity_tables]
    refine ⟨h₁.trans hname, ⟨?_, ?_, ?_, ?_⟩, rfl⟩
    · exact congrArg (Entries.listed _) (h₂.trans hattributes)
    · exact congrArg (List.map _) (h₃.trans hacts)
    · exact congrArg (List.map _) (h₄.trans hlinks)
    · exact congrArg (Entries.listed _) (h₅.trans harguments)

end Draft

end EntityQuery
