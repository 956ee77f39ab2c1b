import EntityQuery.Proofs.Execution.Auditing
import EntityQuery.Proofs.Execution.Gaps
import EntityQuery.Proofs.Request.Roundtrip
import Mathlib.Data.List.Induction

/-!
# Slots of the data

In the data of a document that breaks no rule, every query, attribute, act and link has a slot of its own.
Attributes, the act and links share the keys of one object, which is filled from left to right; nothing is
overwritten but an attribute that is asked for again, by its own value.

* `Entries.keys_ofPairs`, `Entries.find?_ofPairs`: a table that is filled from left to right.
* `FieldShows`: what a slot shows, by the log. `ShowsInOrder`: slots of fields that are called in order.
* `Schema.Shows`: an object shows the fields of an entity, at any depth.
* `Schema.shows_entity`: the value in an account of an entity does.
* **`slots_show_their_artifacts`**.
-/

namespace EntityQuery

open Lookup Session Execution Schema

variable {σ : Type}

/-! ## Tables filled from left to right -/

namespace Entries

variable {α : Type}

theorem keys_append (es es' : Entries α) : keys (es ++ es') = keys es ++ keys es' := List.map_append

theorem ofPairs_concat (pairs : List (String × α)) (key : String) (v : α) :
    ofPairs (pairs ++ [(key, v)]) = insert (ofPairs pairs) key v := by
  rw [ofPairs, insertAll, List.foldl_append]
  rfl

/-- The names of a table are in the order in which they first appear. -/
theorem keys_ofPairs (pairs : List (String × α)) : keys (ofPairs pairs) = (keys pairs).eraseDups := by
  induction pairs using List.reverseRecOn with
  | nil => rfl
  | append_singleton pairs pair ih =>
    obtain ⟨key, v⟩ := pair
    rw [ofPairs_concat, keys_insert, ih, keys_append, List.eraseDups_append]
    change _ = (keys pairs).eraseDups ++ ([key].removeAll (keys pairs)).eraseDups
    by_cases hk : key ∈ keys pairs <;> simp [List.removeAll, List.eraseDups_cons, hk]

/-- Under a name is the value of the last pair with that name. -/
theorem find?_ofPairs (pairs : List (String × α)) {rest : List (String × α)} {key : String} (v : α)
    (h : key ∉ keys rest) : find? (ofPairs (pairs ++ (key, v) :: rest)) key = some v := by
  induction rest using List.reverseRecOn with
  | nil => rw [ofPairs_concat, find?_insert, if_pos rfl]
  | append_singleton rest pair ih =>
    obtain ⟨other, w⟩ := pair
    rw [keys_append, List.mem_append, not_or] at h
    have hother : other ≠ key := fun heq => h.2 (List.mem_singleton.mpr heq.symm)
    rw [← List.cons_append, ← List.append_assoc, ofPairs_concat, find?_insert, if_neg hother]
    exact ih h.1

/-- Among pairs with distinct names, each is in the table. -/
theorem find?_ofPairs_of_mem {pairs : List (String × α)} (hn : (keys pairs).Nodup) {key : String} {v : α}
    (h : (key, v) ∈ pairs) : find? (ofPairs pairs) key = some v := by
  obtain ⟨before, rest, rfl⟩ := List.append_of_mem h
  refine find?_ofPairs before v fun hmem => ?_
  rw [keys_append] at hn
  exact (List.nodup_cons.mp (List.nodup_append.mp hn).2.1).1 hmem

theorem keys_zip_subset (names : List String) (vs : List α) : keys (names.zip vs) ⊆ names := by
  intro name hname
  obtain ⟨⟨_, v⟩, hmem, rfl⟩ := List.mem_map.mp hname
  exact (List.of_mem_zip hmem).1

theorem keys_zip {names : List String} {vs : List α} (h : vs.length = names.length) :
    keys (names.zip vs) = names :=
  List.map_fst_zip h.ge

end Entries

/-! ## What slots show -/

/-- The slot of a field shows what its call, at a place of the log, has come to: the completed value, or
null where the call or the completion has failed. -/
inductive FieldShows (log : Multiset Entry) (call : Call)
    (completes : Json → Except Failure Json → Prop) (n : Nat) : Json → Prop
  | unresolved {f : Failure} (h : call.CameTo log n (.error f)) : FieldShows log call completes n .null
  | failed {w : Json} {f : Failure} (h : call.CameTo log n (.ok w)) (hc : completes w (.error f)) :
      FieldShows log call completes n .null
  | completed {w v : Json} (h : call.CameTo log n (.ok w)) (hc : completes w (.ok v)) :
      FieldShows log call completes n v

/-- What a link leads to is shown: nothing, one entity, or a list of them, each at its place. -/
inductive LinkedShows (complete : Json → Json → Prop) : Json → Json → Prop
  | null : LinkedShows complete .null .null
  | array {references vs : List Json} (h : List.Forall₂ complete references vs) :
      LinkedShows complete (.array references) (.array vs)
  | one {w v : Json} (hn : w.isNull = false) (ha : ∀ references, w ≠ .array references)
      (h : complete w v) : LinkedShows complete w v

/-- Fields that are called in order, at the places `ns`, have the slots of their names; where a name is
there again, the slot is that of its last field. -/
inductive ShowsInOrder (shows : String → Nat → Json → Prop) (fields : Entries Json) :
    List String → List Nat → Prop
  | nil : ShowsInOrder shows fields [] []
  | cons {name : String} {names : List String} {n : Nat} {ns : List Nat} {v : Json}
      (hv : shows name n v) (hlast : name ∉ names → Entries.find? fields name = some v)
      (hlt : ∀ m ∈ ns, n < m) (h : ShowsInOrder shows fields names ns) :
      ShowsInOrder shows fields (name :: names) (n :: ns)

/-- The slot of an act. -/
def ActShows (log : Multiset Entry) (e : Entity σ) (reference : Json) (supplied : Entries Json)
    (name : String) (n : Nat) (v : Json) : Prop :=
  ∃ a, e.act? name = some a ∧
    FieldShows log (.act e.name a.label reference (Argument.applyDefaults a.arguments supplied))
      (fun w r => r = .ok w) n v

namespace Schema

variable (schema : Schema σ) (s : Session σ) (log : Multiset Entry)

/-- The slot of an attribute. -/
def AttributeShows (site : Site) (e : Entity σ) (reference : Json) (name : String) (n : Nat) (v : Json) :
    Prop :=
  ∃ a, e.attribute? name = some a ∧
    FieldShows log (.attribute e.name a.label reference (site.focus .field a.label))
      (fun w r => schema.AttributeMeans s a w r 0) n v

/-- The slot of a link, given what completed entities show. -/
def LinkShows (site : Site) (e : Entity σ) (reference : Json) (name : String) (nested : Query)
    (complete : Site → Entity σ → Json → Json → Prop) (n : Nat) (v : Json) : Prop :=
  ∃ l t target, e.link? name = some l ∧
    Answers (l.follow schema schema.find e.name) (t, target) s ∧
      let arguments := Argument.applyDefaults l.arguments nested.arguments
      let here := { site.focus .link l.label with arguments }
      let there := site.descend name target.name nested arguments
      FieldShows log (.link e.name l.label reference here)
        (fun w r => ∃ u, r = .ok u ∧ LinkedShows (complete there target) w u) n v

mutual

/-- The value is an object, which shows the fields of an entity on a reference: under the name of each
attribute that is asked for, of the act and of each link is what that has come to. -/
def Shows (site : Site) (e : Entity σ) (reference : Json) : Query → Json → Prop
  | ⟨_, attributes, act?, arguments, links⟩, v => ∃ fields, v = .object fields ∧
      Entries.keys fields = attributes.eraseDups ++ act?.toList ++ Entries.keys links ∧
      (Entries.keys fields).Nodup ∧
      (∃ ns, ShowsInOrder (schema.AttributeShows s log site e reference) fields attributes ns) ∧
      (∃ ns, ShowsInOrder (ActShows log e reference arguments) fields act?.toList ns) ∧
      LinksShow site e reference fields links

/-- Under the name of each link is what that has come to. -/
def LinksShow (site : Site) (e : Entity σ) (reference : Json) (fields : Entries Json) :
    List (String × Query) → Prop
  | [] => True
  | (name, nested) :: rest =>
    (∃ n v, schema.LinkShows s log site e reference name nested
      (fun there target linked => Shows there target linked nested) n v ∧
        Entries.find? fields name = some v) ∧ LinksShow site e reference fields rest

end

end Schema

/-- The data has an entry for each query of the document, in order, which shows its entity. -/
structure Document.Shows (d : Document) (schema : Schema σ) (s : Session σ) (context : Context)
    (log : Multiset Entry) (data : Entries Json) : Prop where
  names : Entries.keys data = d.names
  once : d.names.Nodup
  shows : ∀ name q, (name, q) ∈ d.queries → ∃ e n v, q.Roots schema s (some e) ∧
    Entries.find? data name = some v ∧
      FieldShows log (.entity e.name (Argument.applyDefaults e.arguments q.arguments) context)
        (fun w r => ∃ u, r = .ok u ∧
          schema.Shows s log (rootSite schema context name q e) e w q u) n v

/-! ## From accounts to slots -/

section

variable {log : Multiset Entry}

theorem FieldAccount.shows {place : Location} {call : Call}
    {completes : Json → Except Failure Json → Books → Prop}
    {completes' : Json → Except Failure Json → Prop} {ns : List Nat} {v : Json} {d : Books}
    (h : FieldAccount place call completes ns v d) (hd : d.1 ≤ log)
    (hc : ∀ w r d, completes w r d → d.1 ≤ log → completes' w r) :
    ∃ n, ns = [n] ∧ FieldShows log call completes' n v := by
  cases h with
  | unresolved h => exact ⟨_, rfl, .unresolved ⟨_, hd, h⟩⟩
  | failed h hw =>
    exact ⟨_, rfl, .failed ⟨_, (Multiset.le_add_right _ _).trans hd, h⟩
      (hc _ _ _ hw ((Multiset.le_add_left _ _).trans hd))⟩
  | completed h hw =>
    exact ⟨_, rfl, .completed ⟨_, (Multiset.le_add_right _ _).trans hd, h⟩
      (hc _ _ _ hw ((Multiset.le_add_left _ _).trans hd))⟩

/-- What holds of each part, where that is in the log, holds of each value. -/
theorem Series.forall₂ {α : Type} {P : α → Account} {R : α → Json → Prop}
    (hP : ∀ a ns v d, P a ns v d → d.1 ≤ log → R a v) {items : List α} {ns : List Nat}
    {vs : List Json} {d : Books} (h : Series (items.map P) ns vs d) (hd : d.1 ≤ log) :
    List.Forall₂ R items vs := by
  induction items generalizing ns vs d with
  | nil =>
    cases h
    exact .nil
  | cons a rest ih =>
    cases h with
    | cons h hs _ =>
      exact .cons (hP _ _ _ _ h ((Multiset.le_add_right _ _).trans hd))
        (ih hs ((Multiset.le_add_left _ _).trans hd))

theorem LinkedAccount.shows {complete : Json → Account} {complete' : Json → Json → Prop}
    (hc : ∀ w ns v d, complete w ns v d → d.1 ≤ log → complete' w v) {w v : Json} {d : Books}
    (h : LinkedAccount complete w v d) (hd : d.1 ≤ log) : LinkedShows complete' w v := by
  cases h with
  | null => exact .null
  | one hn ha h => exact .one hn ha (hc _ _ _ _ h hd)
  | array hs => exact .array (hs.forall₂ hc hd)

/-- What holds of each part, where that is in the log, shows in order. -/
theorem Series.showsInOrder {P : String → Account} {shows : String → Nat → Json → Prop}
    {names : List String} (hP : ∀ name ∈ names, ∀ ns v d, P name ns v d → d.1 ≤ log →
      ∃ n, ns = [n] ∧ shows name n v) {ns : List Nat} {vs : List Json} {d : Books}
    (h : Series (names.map P) ns vs d) (hd : d.1 ≤ log) {rest : List (String × Json)}
    (hrest : ∀ name ∈ names, name ∉ Entries.keys rest) (before : List (String × Json)) :
    ShowsInOrder shows (Entries.ofPairs (before ++ (names.zip vs ++ rest))) names ns := by
  induction names generalizing ns vs d before with
  | nil =>
    cases h
    exact .nil
  | cons name names ih =>
    obtain ⟨hname, hnames⟩ := List.forall_mem_cons.mp hP
    obtain ⟨hother, hothers⟩ := List.forall_mem_cons.mp hrest
    cases h with
    | @cons _ _ ms ms' v vs d d' h hs hlt =>
      obtain ⟨n, rfl, hv⟩ := hname _ _ _ h ((Multiset.le_add_right _ _).trans hd)
      have htail := ih hnames hs ((Multiset.le_add_left _ _).trans hd) hothers (before ++ [(name, v)])
      rw [List.append_assoc] at htail
      refine .cons hv (fun hlast => ?_) (fun m hm => hlt n (List.mem_singleton_self n) m hm) htail
      have hnone : name ∉ Entries.keys (names.zip vs ++ rest) := by
        rw [Entries.keys_append, List.mem_append]
        exact fun hmem => hmem.elim (fun hmem => hlast (Entries.keys_zip_subset _ _ hmem)) hother
      exact Entries.find?_ofPairs before v hnone

/-- Accounts one after another are those of the first, and then those of the others. -/
theorem Series.split {Ps Qs : List Account} {ns : List Nat} {vs : List Json} {d : Books}
    (h : Series (Ps ++ Qs) ns vs d) : ∃ ns₁ ns₂ vs₁ vs₂ d₁ d₂, ns = ns₁ ++ ns₂ ∧ vs = vs₁ ++ vs₂ ∧
      d = d₁ + d₂ ∧ Series Ps ns₁ vs₁ d₁ ∧ Series Qs ns₂ vs₂ d₂ := by
  induction Ps generalizing ns vs d with
  | nil => exact ⟨[], ns, [], vs, 0, d, rfl, rfl, (zero_add d).symm, .nil, h⟩
  | cons P Ps ih =>
    cases h with
    | @cons _ _ ms ms' v vs d d' h hs hlt =>
      obtain ⟨ns₁, ns₂, vs₁, vs₂, d₁, d₂, rfl, rfl, rfl, h₁, h₂⟩ := ih hs
      refine ⟨ms ++ ns₁, ns₂, v :: vs₁, vs₂, d + d₁, d₂, (List.append_assoc ..).symm, rfl,
        (add_assoc _ _ _).symm, .cons h h₁ fun n hn m hm => ?_, h₂⟩
      exact hlt n hn m (List.mem_append_left _ hm)

theorem Series.length_values {Ps : List Account} {ns : List Nat} {vs : List Json} {d : Books}
    (h : Series Ps ns vs d) : vs.length = Ps.length := by
  induction h with
  | nil => rfl
  | cons _ _ _ ih => exact congrArg _ ih

end

/-! ## Entities -/

section

variable {schema : Schema σ} {s : Session σ} {log : Multiset Entry} {types : Entries NamedType}
  {d : Document} {index : Nat}

theorem shows_attribute {site : Site} {e : Entity σ} {reference : Json} {name : String}
    (he : (e.artifact? .field name).isSome) {ns : List Nat} {v : Json} {d : Books}
    (h : schema.attributeAccount s site e reference name ns v d) (hd : d.1 ≤ log) :
    ∃ n, ns = [n] ∧ schema.AttributeShows s log site e reference name n v := by
  obtain ⟨a, ha⟩ := Option.isSome_iff_exists.mp (Option.isSome_map.symm.trans he)
  rw [attributeAccount, ha] at h
  obtain ⟨n, rfl, hv⟩ := h.shows hd fun w r d ⟨hm, _⟩ _ => hm
  exact ⟨n, rfl, a, ha, hv⟩

theorem shows_act {site : Site} {e : Entity σ} {reference : Json} {supplied : Entries Json}
    {name : String} (he : (e.artifact? .act name).isSome) {ns : List Nat} {v : Json} {d : Books}
    (h : actAccount site e reference supplied name ns v d) (hd : d.1 ≤ log) :
    ∃ n, ns = [n] ∧ ActShows log e reference supplied name n v := by
  obtain ⟨a, ha⟩ := Option.isSome_iff_exists.mp (Option.isSome_map.symm.trans he)
  rw [actAccount, ha] at h
  obtain ⟨n, rfl, hv⟩ := h.shows hd fun w r d ⟨hw, _⟩ _ => hw
  exact ⟨n, rfl, a, ha, hv⟩

theorem shows_link {site : Site} {e : Entity σ} {reference : Json} {name : String} {nested : Query}
    {complete : Site → Entity σ → Json → Account} {complete' : Site → Entity σ → Json → Json → Prop}
    (hc : ∀ l t target, e.link? name = some l →
      Answers (l.follow schema schema.find e.name) (t, target) s → ∀ there w ns v d,
        complete there target w ns v d → d.1 ≤ log → complete' there target w v)
    (he : (e.artifact? .link name).isSome) {ns : List Nat} {v : Json} {d : Books}
    (h : schema.linkAccount s site e reference name nested complete ns v d) (hd : d.1 ≤ log) :
    ∃ n, schema.LinkShows s log site e reference name nested complete' n v := by
  obtain ⟨l, hl⟩ := Option.isSome_iff_exists.mp (Option.isSome_map.symm.trans he)
  rw [linkAccount, hl] at h
  obtain ⟨t, target, hfollow, h⟩ := h
  let there := site.descend name target.name nested
    (Argument.applyDefaults l.arguments nested.arguments)
  have hshows : ∃ n, ns = [n] ∧ FieldShows log _
      (fun w r => ∃ u, r = .ok u ∧ LinkedShows (complete' there target) w u) n v :=
    h.shows hd fun w r d ⟨u, hu, hlinked⟩ hd => ⟨u, hu, hlinked.shows (hc l t target hl hfollow _) hd⟩
  obtain ⟨n, -, hv⟩ := hshows
  exact ⟨n, l, t, target, hl, hfollow, hv⟩

/-- In a table with names asked for more than once, each of the others has its place. -/
theorem eraseDups_append_of_disjoint {names others : List String} (hn : others.Nodup)
    (hd : ∀ name ∈ others, name ∉ names) : (names ++ others).eraseDups = names.eraseDups ++ others := by
  have hall : others.removeAll names = others :=
    List.filter_eq_self.mpr fun name h => by simpa using hd name h
  have once : ∀ names : List String, names.Nodup → names.eraseDups = names := by
    intro names h
    induction names with
    | nil => rfl
    | cons name rest ih =>
      obtain ⟨hname, hrest⟩ := List.nodup_cons.mp h
      have hother : rest.filter (fun other => !other == name) = rest :=
        List.filter_eq_self.mpr fun other h => by
          simpa using fun heq : other = name => hname (heq ▸ h)
      rw [List.eraseDups_cons, hother, ih hrest]
  rw [List.eraseDups_append, hall, once others hn]

theorem length_linksAccounts (site : Site) (e : Entity σ) (reference : Json)
    (links : List (String × Query)) :
    (schema.linksAccounts s site e reference links).length = links.length := by
  induction links with
  | nil =>
    rw [linksAccounts]
    rfl
  | cons link rest ih =>
    rw [linksAccounts, List.length_cons, List.length_cons, ih]

/-- The names of the act and of the links that are asked for are distinct, and are not those of attributes
that are asked for. -/
theorem Query.others_of_lawful {e : Entity σ} (he : e.Lawful) {q : Query}
    (has : ∀ kind name, q.Asks kind name → (e.artifact? kind name).isSome)
    (hlinks : (Entries.keys q.links).Nodup) : (q.act.toList ++ Entries.keys q.links).Nodup ∧
      ∀ name ∈ q.act.toList ++ Entries.keys q.links, name ∉ q.attributes := by
  have apart : ∀ {kind kind' name}, q.Asks kind name → q.Asks kind' name → kind = kind' :=
    fun h h' => he.kind_unique (has _ _ h) (has _ _ h')
  refine ⟨List.nodup_append.mpr ⟨?_, hlinks, ?_⟩, fun name hname hattribute => ?_⟩
  · cases q.act <;> simp
  · rintro name hact _ hlink rfl
    have hact : q.Asks .act name := Option.mem_toList.mp hact
    have hlink : q.Asks .link name := hlink
    cases apart hact hlink
  · have hattribute : q.Asks .field name := hattribute
    rcases List.mem_append.mp hname with hact | hlink
    · have hact : q.Asks .act name := Option.mem_toList.mp hact
      cases apart hattribute hact
    · have hlink : q.Asks .link name := hlink
      cases apart hattribute hlink

variable (hfits : ∀ path e declared q, d.Reaches schema s index path e declared q →
  e.Lawful ∧ ∀ kind name, q.Asks kind name → (e.artifact? kind name).isSome)

include hfits

mutual

/-- **The value in an account of an entity shows its fields**, where the entity has all that it is asked
for. -/
theorem shows_entity (site : Site) {e : Entity σ} (reference : Json) :
    (q : Query) → q.Keyed → ∀ path declared, d.Reaches schema s index path e declared q →
      ∀ ns v books, schema.entityAccount s site e reference q ns v books → books.1 ≤ log →
        schema.Shows s log site e reference q v
  | ⟨typeName, attributes, act?, arguments, links⟩ => by
    intro hkeyed path declared hreach ns v books h hbooks
    obtain ⟨-, hnodup, hkeyed⟩ := hkeyed
    rw [entityAccount] at h
    obtain ⟨vs, hseries, rfl⟩ := h
    obtain ⟨nsₐ, ns₃, vsₐ, vs₃, d₁, d₃, rfl, rfl, rfl, hseries, ofLinks⟩ := hseries.split
    obtain ⟨ns₁, ns₂, vs₁, vs₂, d₁, d₂, rfl, rfl, rfl, ofAttributes, ofAct⟩ := hseries.split
    have hd₁₂ : (d₁ + d₂).1 ≤ log := (Multiset.le_add_right _ _).trans hbooks
    have hd₁ : d₁.1 ≤ log := (Multiset.le_add_right _ _).trans hd₁₂
    have hd₂ : d₂.1 ≤ log := (Multiset.le_add_left _ _).trans hd₁₂
    have hd₃ : d₃.1 ≤ log := (Multiset.le_add_left _ _).trans hbooks
    obtain ⟨hlawful, has⟩ := hfits _ _ _ _ hreach
    have hasAct : ∀ name ∈ act?.toList, (e.artifact? .act name).isSome := fun name hname =>
      has .act name (Option.mem_toList.mp hname)
    obtain ⟨hothers, hapart⟩ := Query.others_of_lawful hlawful has hnodup
    -- the values of attributes, of the act and of links beside their names
    have hlen₁ : attributes.length = vs₁.length := by simpa using ofAttributes.length_values.symm
    have hlen₂ : act?.toList.length = vs₂.length := by simpa using ofAct.length_values.symm
    have hlen₃ : (Entries.keys links).length = vs₃.length := by
      simpa [length_linksAccounts, Entries.keys] using ofLinks.length_values.symm
    have hzip : (attributes ++ act?.toList ++ Entries.keys links).zip (vs₁ ++ vs₂ ++ vs₃) =
        attributes.zip vs₁ ++ (act?.toList.zip vs₂ ++ (Entries.keys links).zip vs₃) := by
      rw [List.zip_append (by simp [hlen₁, hlen₂]), List.zip_append hlen₁, List.append_assoc]
    have hkeys : Entries.keys (attributes.zip vs₁ ++ (act?.toList.zip vs₂ ++
        (Entries.keys links).zip vs₃)) = attributes ++ (act?.toList ++ Entries.keys links) := by
      rw [← hzip, Entries.keys_zip (by simp [hlen₁, hlen₂, hlen₃]), List.append_assoc]
    rw [hzip, Shows]
    refine ⟨_, rfl, ?_, Entries.nodup_keys_ofPairs _, ⟨ns₁, ?_⟩, ⟨ns₂, ?_⟩, ?_⟩
    · rw [Entries.keys_ofPairs, hkeys, eraseDups_append_of_disjoint hothers hapart, List.append_assoc]
    · refine ofAttributes.showsInOrder (fun name hname ns v d h hd =>
        shows_attribute (has .field name hname) h hd) hd₁ (fun name hname hmem => ?_) []
      rw [Entries.keys_append, Entries.keys_zip hlen₂.symm, Entries.keys_zip hlen₃.symm] at hmem
      exact hapart name hmem hname
    · refine ofAct.showsInOrder (fun name hname ns v d h hd => shows_act (hasAct name hname) h hd) hd₂
        (fun name hname hmem => ?_) _
      exact (List.nodup_append.mp hothers).2.2 name hname name (Entries.keys_zip_subset _ _ hmem) rfl
    · rw [← List.append_assoc]
      exact shows_links site reference links hkeyed hnodup path declared _ hreach (fun x hx => hx) ns₃
        vs₃ d₃ ofLinks hd₃ _

theorem shows_links (site : Site) {e : Entity σ} (reference : Json) :
    (links : List (String × Query)) → Query.KeyedAll links → (Entries.keys links).Nodup →
      ∀ path declared q, d.Reaches schema s index path e declared q → (∀ x ∈ links, x ∈ q.links) →
      ∀ ns vs books, Series (schema.linksAccounts s site e reference links) ns vs books →
        books.1 ≤ log → ∀ before, schema.LinksShow s log site e reference
          (Entries.ofPairs (before ++ (Entries.keys links).zip vs)) links
  | [] => by
    intros
    rw [LinksShow]
    trivial
  | (name, nested) :: rest => by
    intro hkeyed hnodup path declared q hreach hsub ns vs books h hbooks before
    obtain ⟨hnested, hkeyed⟩ := hkeyed
    obtain ⟨hname, hnodup⟩ := List.nodup_cons.mp hnodup
    obtain ⟨hlink, hsub⟩ := List.forall_mem_cons.mp hsub
    rw [linksAccounts] at h
    cases h with
    | @cons _ _ ms ms' v vs d₁ d₂ h hs' hlt =>
      have hasked : (e.artifact? .link name).isSome :=
        (hfits _ _ _ _ hreach).2 .link name (List.mem_map.mpr ⟨_, hlink, rfl⟩)
      have hshows : ∃ n, schema.LinkShows s log site e reference name nested
          (fun there target linked => schema.Shows s log there target linked nested) n v :=
        shows_link (fun l t target hl hfollow there w ns v d hv hd =>
            shows_entity there w nested hnested _ _ (hreach.link hlink hl hfollow) ns v d hv hd)
          hasked h ((Multiset.le_add_right _ _).trans hbooks)
      obtain ⟨n, hv⟩ := hshows
      have hrest := shows_links site reference rest hkeyed hnodup path declared q hreach hsub ms' vs d₂
        hs' ((Multiset.le_add_left _ _).trans hbooks) (before ++ [(name, v)])
      rw [List.append_assoc] at hrest
      rw [LinksShow]
      exact ⟨⟨n, v, hv, Entries.find?_ofPairs before v fun hmem =>
        hname (Entries.keys_zip_subset _ _ hmem)⟩, hrest⟩

end

end

/-! ## Documents -/

section

variable {schema : Schema σ} {s : Session σ} {types : Entries NamedType} {d : Document}

/-- What is related to a member of a list is beside its name. -/
theorem exists_mem_zip_of_forall₂ {α β : Type} {R : α → β → Prop} (name : α → String) {items : List α}
    {vs : List β} (h : List.Forall₂ R items vs) {a : α} (ha : a ∈ items) :
    ∃ v, R a v ∧ (name a, v) ∈ (items.map name).zip vs := by
  induction h with
  | nil => cases ha
  | cons hv _ ih =>
    rcases List.mem_cons.mp ha with rfl | ha
    · exact ⟨_, hv, List.mem_cons_self⟩
    · obtain ⟨v, hv, hmem⟩ := ih ha
      exact ⟨v, hv, List.mem_cons_of_mem _ hmem⟩

/-- **The data in an account of a document shows its entities**, where every entity has all that it is
asked for. -/
theorem Document.Account.shows (hkeyed : d.Keyed) (hnames : d.names.Nodup)
    (hroots : ∀ name q, (name, q) ∈ d.queries → ∃ e, q.Roots schema s (some e))
    (hfits : ∀ index path e declared q, d.Reaches schema s index path e declared q →
      e.Lawful ∧ ∀ kind name, q.Asks kind name → (e.artifact? kind name).isSome)
    {context : Context} {data : Entries Json} {books : Books}
    (h : d.Account schema s context data books) : d.Shows schema s context books.1 data := by
  obtain ⟨ns, vs, hseries, rfl⟩ := h
  have hlen : vs.length = d.names.length := by
    simpa [Document.names, Entries.keys] using hseries.length_values
  have hpairs : (Entries.keys (d.names.zip vs)).Nodup := by rwa [Entries.keys_zip hlen]
  have hqueries : List.Forall₂ (fun (nq : String × Query) v => ∃ ns d,
      schema.QueryAccount s context nq.1 nq.2 ns v d ∧ d.1 ≤ books.1) d.queries vs :=
    hseries.forall₂ (fun nq ns v d hq hd => ⟨ns, d, hq, hd⟩) le_rfl
  refine ⟨?_, hnames, fun name q hq => ?_⟩
  · rw [Entries.ofPairs_of_nodup hpairs, Entries.keys_zip hlen]
  · obtain ⟨e, hroot⟩ := hroots name q hq
    obtain ⟨v, ⟨ns, d', haccount, hd⟩, hmem⟩ := exists_mem_zip_of_forall₂ Prod.fst hqueries hq
    obtain ⟨index, hindex⟩ := List.getElem?_of_mem hq
    have hfind := Entries.find?_ofPairs_of_mem hpairs hmem
    refine ⟨e, ?_⟩
    cases haccount with
    | unknown hnone => cases hroot.unique hnone
    | unresolved hroot' hcome =>
      cases hroot.unique hroot'
      exact ⟨_, _, hroot, hfind, .unresolved ⟨_, hd, hcome⟩⟩
    | resolved hroot' hcome hv =>
      cases hroot.unique hroot'
      have hshows := shows_entity (hfits index) _ _ q (Query.keyedAll_iff.mp hkeyed _ hq) [] _
        (.root hindex hroot) _ _ _ hv ((Multiset.le_add_left _ _).trans hd)
      exact ⟨_, _, hroot, hfind, .completed ⟨_, (Multiset.le_add_right _ _).trans hd, hcome⟩
        ⟨_, rfl, hshows⟩⟩

end

/-- **No slot of the data of a document that breaks no rule is overwritten by another artifact.** -/
theorem slots_show_their_artifacts {schema : Schema σ} (hl : schema.loader? = none)
    (hdrafted : schema.Drafted) {declared : List Ty} {app : Recorded σ} {s : Session (Recorded σ)}
    (hbuild : schema.recorded.build declared false { app } = .ok () s) {d : Document}
    (hkeyed : d.Keyed) {s₁ s₂ : Session (Recorded σ)} (hs₁ : s.Alike s₁)
    (haccepted : d.validate { schema := schema.recorded } s₁ = .ok [] s₂) (context : Context)
    {m m' : Machine Payload (World (Recorded σ))} (hm : s.Alike m.world.session)
    {q : QueueId} {ticks limit : Nat} (hq : m.queues[q.index]? = some ⟨[], ticks⟩) {report : Report}
    (hrun : m.run limit (do
        Attempt.ofRun (Report.wait q (← Request.execute schema.recorded q d context)) :
          Attempt (Recorded σ) (Except EngineFault Report)).run = .done (.ok (.ok report)) m') :
    ∃ data added, report.data = some data ∧
      m'.world.session.log = m.world.session.log ++ added ∧
      d.Shows schema.recorded s context
        (History.placed m.world.session.log.length (added.map .event) : Multiset Entry) data := by
  obtain ⟨hp, types, hs, hr⟩ := Schema.serves_of_build (schema.loader?_recorded hl) hbuild
  have hends := (ends_execute_audited hp schema.records_recorded hs (hr d) hm
    (Machine.heap_of_queues hq) context).of_done hrun
  obtain ⟨data, added, notes, haudited⟩ := hends report rfl
  refine ⟨data, added, haudited.reports, haudited.log, haudited.account.shows hkeyed
    (Document.nodup_of_accepted haccepted)
    (fun name q hq => Document.exists_root_of_accepted hp hs (hr d) hs₁ haccepted hq) ?_⟩
  intro index path e declared q hreach
  obtain ⟨t, -, ht⟩ := hreach.knows hp hs (hr d)
  exact ⟨hdrafted.lawful_recorded ht,
    fun kind name hasked => hreach.has_of_accepted hp hs (hr d) hs₁ haccepted hasked⟩

namespace Sample

/-- A document that asks for the name of a person twice. -/
def repeating : Document where
  queries := [("people", {
    typeName := some "User"
    attributes := ["name", "key", "name"]
    act := none
    arguments := []
    links := [("friends", {
      typeName := none
      attributes := ["name"]
      act := none
      arguments := []
      links := [] })] })]

theorem repeating_keyed : repeating.Keyed := by
  simp [Document.Keyed, repeating, Query.KeyedAll, Query.Keyed, Json.Keyed, Json.KeyedFields,
    Entries.keys]

theorem repeating_accepted :
    ∃ s, repeating.validate { schema := (schema "key").recorded } recordedSession = .ok [] s :=
  exists_of_accepts (by decide +kernel)

/-- An execution of the document on an idle queue. -/
def repeated : Ended Payload (World (Recorded Unit)) (Except Fault (Except EngineFault Report)) :=
  (Machine.start { session := recordedSession }).newQueue.2.run 100 (do
    let p ← Request.execute (schema "key").recorded ⟨0⟩ repeating {}
    Attempt.ofRun (Report.wait ⟨0⟩ p) : Attempt (Recorded Unit) (Except EngineFault Report)).run

/-- What it comes to. -/
def expected : Entries Json :=
  [("people", .object [("name", .string "ada"), ("key", .null),
    ("friends", .array [.object [("name", .string "bob")], .object [("name", .null)]])])]

theorem repeated_eq : ∃ report m, repeated = .done (.ok (.ok report)) m ∧
    report.data.map (fun data => (Json.object data).render) = some (Json.object expected).render := by
  have hreport : repeated.report?.bind
      (fun r => r.data.map fun data => (Json.object data).render) = some (Json.object expected).render := by
    decide +kernel
  obtain ⟨report, hsome, hdata⟩ := Option.bind_eq_some_iff.mp hreport
  obtain ⟨m, hrun⟩ := Ended.exists_of_report? hsome
  exact ⟨report, m, hrun, hdata⟩

end Sample

/-- The name that is asked for twice has one slot, and each of two friends has a place of its own. -/
theorem slots_show_their_artifacts_sample : ∃ report m data added,
    Sample.repeated = .done (.ok (.ok report)) m ∧ report.data = some data ∧
      (Json.object data).render = (Json.object Sample.expected).render ∧
      m.world.session.log = added ∧
      Sample.repeating.Shows (Sample.schema "key").recorded Sample.recordedSession {}
        (History.placed 0 (added.map .event) : Multiset Entry) data := by
  obtain ⟨report, m, hrun, hrender⟩ := Sample.repeated_eq
  obtain ⟨s, haccepted⟩ := Sample.repeating_accepted
  obtain ⟨data, added, hdata, hlog, hshows⟩ := slots_show_their_artifacts rfl
    (Sample.schema_drafted "key") (Sample.recorded_built "key") Sample.repeating_keyed
    (.refl Sample.recordedSession) haccepted {} (.refl Sample.recordedSession) (q := ⟨0⟩) rfl hrun
  rw [hdata] at hrender
  exact ⟨report, m, data, added, hrun, hdata, Option.some.inj hrender, hlog, hshows⟩

end EntityQuery
