import EntityQuery.Proofs.Execution.Gaps
import EntityQuery.Proofs.Execution.Trails

/-!
# What resolvers see

The resolver of an attribute or a link gets to see where it is called: for which query, at the end of which
path, on which entity, for which artifact, and with which arguments. A reference that it is called on is what
an earlier call has come to: that of the entity of the query, or that of the link at the end of the path.

* `Argument.omitted`: the defaults of the arguments that were left out. **`Argument.applyDefaults_eq`**.
* `Document.Produces`: by the entries of a log, a call has produced a reference at the end of a path.
* `Document.Sees`: what is seen of a place. `Call.Informed`: a call whose resolver sees that, and the
  arguments of the call that has produced its reference.
-/

namespace EntityQuery

open Lookup Session

variable {σ : Type}

/-! ## Arguments -/

namespace Argument

/-- The defaults of the arguments that were left out, in order of declaration. -/
def omitted (declared : List Argument) (supplied : Entries Json) : Entries Json :=
  declared.filterMap fun a =>
    if Entries.has supplied a.name then none else a.default?.map fun v => (a.name, v)

theorem has_concat (es : Entries Json) (key name : String) (v : Json) :
    Entries.has (es ++ [(key, v)]) name = (Entries.has es name || decide (key = name)) := by
  rw [Bool.eq_iff_iff, Bool.or_eq_true, decide_eq_true_iff, ← Entries.mem_keys_iff, ← Entries.mem_keys_iff]
  simp [Entries.keys, eq_comm]

/-- An entry for another argument changes nothing of what was left out. -/
theorem omitted_concat {declared : List Argument} {key : String} (h : key ∉ declared.map Argument.name)
    (supplied : Entries Json) (v : Json) :
    omitted declared (supplied ++ [(key, v)]) = omitted declared supplied := by
  refine List.filterMap_congr fun a ha => ?_
  have hne : key ≠ a.name := fun heq => h (heq ▸ List.mem_map_of_mem ha)
  rw [has_concat, decide_eq_false hne, Bool.or_false]

/-- **What was supplied is kept as it is, and the defaults of what was left out are added to it.** -/
theorem applyDefaults_eq {declared : List Argument} (h : (declared.map Argument.name).Nodup)
    (supplied : Entries Json) : applyDefaults declared supplied = supplied ++ omitted declared supplied := by
  induction declared generalizing supplied with
  | nil => exact (List.append_nil supplied).symm
  | cons a rest ih =>
    obtain ⟨ha, hrest⟩ := List.nodup_cons.mp h
    change applyDefaults rest _ = _
    rw [ih hrest]
    cases hd : a.default? with
    | none => simp [omitted, hd]
    | some v =>
      by_cases hs : Entries.has supplied a.name = true
      · simp [omitted, hd, hs]
      · simp only [hd, hs, Bool.false_eq_true, if_false]
        rw [omitted_concat ha]
        simp [omitted, hd, hs]

end Argument

/-! ## References -/

/-- The arguments that the callback of a call sees, defaults included. -/
def Call.arguments : Call → Entries Json
  | .entity _ arguments _ => arguments
  | .attribute _ _ _ site => site.arguments
  | .act _ _ _ arguments => arguments
  | .link _ _ _ site => site.arguments

/-- The references that a link leads to which has come to the value: none, one, or the items of a list. -/
def Json.linked : Json → List Json
  | .null => []
  | .array references => references
  | reference => [reference]

/-- By the entries of a log, a call has produced a reference on which a query is completed, at the end of a path
of links: the resolver of the entity that the document names has come to it; or the resolver of the last link
has, or to a list with it, on a reference that was produced at the end of the path before. -/
inductive Document.Produces (schema : Schema σ) (s : Session σ) (d : Document) (context : Context)
    (log : Multiset Entry) (index : Nat) :
    List String → Entity σ → List Argument → Query → Call → Json → Prop
  | root {name : String} {q : Query} {e : Entity σ} {n : Nat} {reference : Json}
      (hq : d.queries[index]? = some (name, q)) (he : q.Roots schema s (some e))
      (h : (Call.entity e.name (Argument.applyDefaults e.arguments q.arguments) context).CameTo log n
        (.ok reference)) :
      Produces schema s d context log index [] e e.arguments q
        (.entity e.name (Argument.applyDefaults e.arguments q.arguments) context) reference
  | link {path : List String} {e target : Entity σ} {declared : List Argument} {q nested : Query}
      {producer : Call} {reference w linked : Json} {name : String} {l : Link σ} {t : NamedType} {n : Nat}
      {site : Site} (h : Produces schema s d context log index path e declared q producer reference)
      (hn : (name, nested) ∈ q.links) (hl : e.link? name = some l)
      (ht : Answers (l.follow schema schema.find e.name) (t, target) s)
      (hsite : site = { (q.site schema context (d.nameOf index) path e declared).focus .link l.label with
        arguments := Argument.applyDefaults l.arguments nested.arguments })
      (hcall : (Call.link e.name l.label reference site).CameTo log n (.ok w)) (hw : linked ∈ w.linked) :
      Produces schema s d context log index (path ++ [name]) target l.arguments nested
        (.link e.name l.label reference site) linked

section

variable {schema : Schema σ} {s : Session σ} {d : Document} {context : Context}
  {log log' : Multiset Entry} {index : Nat} {path : List String} {e : Entity σ} {declared : List Argument}
  {q : Query} {producer : Call} {reference : Json}

namespace Document.Produces

theorem mono (h : d.Produces schema s context log index path e declared q producer reference)
    (hle : log ≤ log') : d.Produces schema s context log' index path e declared q producer reference := by
  induction h with
  | root hq he h => exact .root hq he (h.mono hle)
  | link _ hn hl ht hsite hcall hw ih => exact .link ih hn hl ht hsite (hcall.mono hle) hw

theorem reaches (h : d.Produces schema s context log index path e declared q producer reference) :
    d.Reaches schema s index path e declared q := by
  induction h with
  | root hq he => exact .root hq he
  | link _ hn hl ht _ _ _ ih => exact ih.link hn hl ht

/-- The call that has produced the reference saw the arguments of the query, with the defaults that the entity
or the link declares. -/
theorem arguments_eq (h : d.Produces schema s context log index path e declared q producer reference) :
    producer.arguments = Argument.applyDefaults declared q.arguments := by
  cases h with
  | root => rfl
  | link _ _ _ _ hsite => exact congrArg Site.arguments hsite

end Document.Produces

/-! ## Places -/

/-- What the resolver of an artifact of the entity at the end of a path sees of its place. -/
structure Document.Sees (d : Document) (schema : Schema σ) (s : Session σ) (context : Context) (index : Nat)
    (path : List String) (e : Entity σ) (declared : List Argument) (q : Query) (kind : ArtifactKind)
    (label : Label) (site : Site) : Prop where
  reaches : d.Reaches schema s index path e declared q
  queryName : d.names[index]? = some site.queryName
  path : site.path = path
  entity : site.entity = e.name
  query : site.query = q
  artifact : site.artifact? = some (kind, label)
  owned : e.artifact? kind label.name = some label
  asked : q.Asks kind label.name
  context : site.context = context

/-- The resolver that is called sees the arguments that go with its place: that of an entity, those of a query
of the document; that of an attribute, those that were seen by the call that has produced its reference; that
of a link, those of the query that is nested under it. They are what the query supplies, and after that the
defaults of what it leaves out. Those of attributes and links see their place, too. -/
inductive Call.Informed (schema : Schema σ) (s : Session σ) (d : Document) (context : Context)
    (log : Multiset Entry) : Call → Prop
  | entity {name : String} {q : Query} {e : Entity σ} {arguments : Entries Json}
      (hq : (name, q) ∈ d.queries) (he : q.Roots schema s (some e))
      (hd : arguments = q.arguments ++ Argument.omitted e.arguments q.arguments) :
      Informed schema s d context log (.entity e.name arguments context)
  | attribute {index : Nat} {path : List String} {e : Entity σ} {declared : List Argument} {q : Query}
      {producer : Call} {reference : Json} {label : Label} {site : Site}
      (hp : d.Produces schema s context log index path e declared q producer reference)
      (hs : d.Sees schema s context index path e declared q .field label site)
      (ha : site.arguments = producer.arguments)
      (hd : site.arguments = q.arguments ++ Argument.omitted declared q.arguments) :
      Informed schema s d context log (.attribute e.name label reference site)
  | act (entity : String) (label : Label) (reference : Json) (arguments : Entries Json) :
      Informed schema s d context log (.act entity label reference arguments)
  | link {index : Nat} {path : List String} {e : Entity σ} {declared : List Argument} {q nested : Query}
      {producer : Call} {reference : Json} {l : Link σ} {site : Site}
      (hp : d.Produces schema s context log index path e declared q producer reference)
      (hs : d.Sees schema s context index path e declared q .link l.label site)
      (hn : (l.label.name, nested) ∈ q.links) (hl : e.link? l.label.name = some l)
      (hd : site.arguments = nested.arguments ++ Argument.omitted l.arguments nested.arguments) :
      Informed schema s d context log (.link e.name l.label reference site)

/-- The place of an artifact that is asked for, at the end of a path. -/
theorem Document.Reaches.sees (h : d.Reaches schema s index path e declared q) (context : Context)
    {kind : ArtifactKind} {label : Label} (howned : e.artifact? kind label.name = some label)
    (hasked : q.Asks kind label.name) (arguments : Entries Json) :
    d.Sees schema s context index path e declared q kind label
      { (q.site schema context (d.nameOf index) path e declared).focus kind label with arguments } where
  reaches := h
  queryName := by
    have hlt : index < d.names.length := by simpa [Document.names, Entries.keys] using h.lt
    simp [Query.site, Site.focus, Document.nameOf, hlt]
  path := rfl
  entity := rfl
  query := rfl
  artifact := rfl
  owned := howned
  asked := hasked
  context := rfl

end

end EntityQuery
