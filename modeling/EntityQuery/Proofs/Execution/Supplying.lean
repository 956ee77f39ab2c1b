import EntityQuery.Proofs.Execution.Calling
import EntityQuery.Proofs.Execution.Defects
import EntityQuery.Proofs.Promise.Reactions

/-!
# What resolvers are given

Executing a document that a full validation accepts gives each resolver the arguments that it declares as
required, and gives it values that the declared types accept. There is one exception: an act is given the
values that were supplied to its entity, or to the link that leads there, and a name that these declare as
well is only checked against their declaration.

* `Schema.Equips`: what a resolver with declared arguments is given.
* `Call.Supplied`: a call that the document asks for, with what it is given.
* **`resolvers_are_supplied`**: all calls of an execution are of this kind.
* `shadowed_argument_unchecked`: the exception.
-/

namespace EntityQuery

open Lookup Session Execution Schema

variable {σ : Type}

/-- A resolver is given what was supplied, with the defaults of what was left out: all that it declares as
required, and values that the declared types accept, but for names that other declarations shadow. -/
structure Schema.Equips (schema : Schema σ) (s : Session σ) (declared shadow : List Argument)
    (supplied given : Entries Json) : Prop where
  filled : given = Argument.applyDefaults declared supplied
  required : ∀ a ∈ declared, ∀ s' s'', s.Alike s' →
    a.isRequired schema schema.find s' = .ok true s'' → Entries.has given a.name = true
  accepted : ∀ name v, (name, v) ∈ supplied → ∀ a, Argument.find? declared name = some a →
    Argument.find? shadow name = none → schema.Accepts s a v

/-- A call that the document asks for, of a resolver that is given what it declares. The arguments of
an act are shadowed by those of its entity, or of the link that leads there. -/
inductive Call.Supplied (schema : Schema σ) (s : Session σ) (d : Document) : Call → Prop
  | entity {name : String} {q : Query} {e : Entity σ} {arguments : Entries Json}
      (hq : (name, q) ∈ d.queries) (he : q.Roots schema s (some e)) (context : Context)
      (h : schema.Equips s e.arguments [] q.arguments arguments) :
      Supplied schema s d (.entity e.name arguments context)
  | attribute {e : Entity σ} {declared : List Argument} {q : Query} {name : String}
      {a : Attribute σ} (hv : d.Visits schema s e declared q) (hn : name ∈ q.attributes)
      (ha : e.attribute? name = some a) (reference : Json) (site : Site) :
      Supplied schema s d (.attribute e.name a.label reference site)
  | act {e : Entity σ} {declared : List Argument} {q : Query} {name : String} {a : Act σ}
      {arguments : Entries Json} (hv : d.Visits schema s e declared q) (hn : q.act = some name)
      (ha : e.act? name = some a) (reference : Json)
      (h : schema.Equips s a.arguments declared q.arguments arguments) :
      Supplied schema s d (.act e.name a.label reference arguments)
  | link {e : Entity σ} {declared : List Argument} {q nested : Query} {name : String} {l : Link σ}
      (hv : d.Visits schema s e declared q) (hn : (name, nested) ∈ q.links)
      (hl : e.link? name = some l) (reference : Json) (site : Site)
      (h : schema.Equips s l.arguments [] nested.arguments site.arguments) :
      Supplied schema s d (.link e.name l.label reference site)

/-- What was supplied is among what is given. -/
theorem Argument.has_applyDefaults {declared : List Argument} {supplied : Entries Json}
    {name : String} (h : Entries.has supplied name = true) :
    Entries.has (applyDefaults declared supplied) name = true := by
  obtain ⟨v, hv⟩ := Option.isSome_iff_exists.mp h
  exact Option.isSome_iff_exists.mpr ⟨v, find?_applyDefaults_of_has hv⟩

theorem Schema.Fits.equips {schema : Schema σ} {s : Session σ} {declared shadow : List Argument}
    {supplied : Entries Json} (h : schema.Fits s declared shadow supplied) :
    schema.Equips s declared shadow supplied (Argument.applyDefaults declared supplied) where
  filled := rfl
  required a ha s' s'' hs hreq := Argument.has_applyDefaults (h.required a ha s' s'' hs hreq)
  accepted := h.accepted

/-- Where the arguments of all queries fit, the document asks for calls that are supplied. -/
theorem Document.allows_supplied {schema : Schema (Recorded σ)} {types : Entries NamedType}
    {s : Session (Recorded σ)} {d : Document} (hp : schema.Plain) (hs : schema.Sound types s)
    (hr : d.Rooted schema types s)
    (hfeeds : ∀ e declared q, d.Visits schema s e declared q → schema.Feeds s e declared q) :
    d.Allows schema s (Call.Supplied schema s d) where
  entities hq he context :=
    .entity hq he context (hfeeds _ _ _ (.root hq he)).1.equips
  attributes hv hn ha reference site := .attribute hv hn ha reference site
  acts hv hn ha reference :=
    .act hv hn ha reference ((hfeeds _ _ _ hv).2 _ _ hn ha).equips
  links {e _ _ nested _ l} hv hn hl reference site harguments := by
    obtain ⟨t', target, -, hfollow⟩ := (hs.settles hp (hv.knows hp hs hr)).links l
      (List.mem_of_find?_eq_some hl)
    have hfits := (hfeeds _ _ _ (hv.link hn hl hfollow.answers)).1.equips
    exact .link hv hn hl reference site (harguments ▸ hfits)

/-- **Resolvers are given what they declare.** Once the schema has been built, and a full validation at
any later time has accepted the document, executing the document at any later time calls resolvers only
where the document asks for it, and gives them what they declare, but for what acts declare under the name
of an argument of their entity, or of the link that leads there. -/
theorem resolvers_are_supplied {schema : Schema σ} {types : List Ty} {app : Recorded σ}
    {s₀ s₁ s₂ s : Session (Recorded σ)} {d : Document} (hl : schema.loader? = none)
    (hbuild : schema.recorded.build types false { app } = .ok () s₀) (hs₁ : s₀.Alike s₁)
    (hvalid : d.validate { schema := schema.recorded } s₁ = .ok [] s₂) (hs : s₀.Alike s)
    (hlog : s.log = []) (context : Context) (options : Options) (limit : Nat) :
    ∀ call reply,
      .called call reply ∈ ((Machine.start { session := s }).run limit
        (Request.perform ⟨d, context, options⟩ schema.recorded).run).machine.world.session.log →
      call.Supplied schema.recorded s₁ d := by
  obtain ⟨hp, sorts, hsound, hr⟩ := (Checked.built (schema.loader?_recorded hl) hbuild hs₁).sound
  have hall := Document.allows_supplied hp hsound hr fun e declared q hv =>
    Document.fits_of_accepted hp hsound hr hvalid hv
  have hstart : World.Heeds s₁ (Call.Supplied schema.recorded s₁ d) { session := s } :=
    ⟨hs₁.symm.trans hs, fun call reply h => by rw [hlog] at h; cases h⟩
  have hkeeps := Request.keeps_perform (r := ⟨d, context, options⟩) hp schema.records_recorded hsound
    hall hr
  exact ((Machine.Keeps.start hstart).run limit hkeeps).machine.world.calls

namespace Sample

/-- An entity and an act on it that declare an argument of one name, as a text and as a whole number; the
act and a link declare required ones. -/
def shadowing : Schema Unit where
  define _ := .entity {
    name := "User"
    resolve _ _ := pure (.ready (.string "ada"))
    arguments := [{ name := "x", type := .direct (.base (.standard .string)) }]
    acts := [{
      label := { name := "rename" }
      perform := fun _ arguments => pure (.ready (.object arguments))
      arguments := [{ name := "x", type := .direct (.base (.standard .int)) }, {
        name := "y", type := .direct (.nonNull ⟨⟨0, 0⟩, [0]⟩ (.named "Int")) }] }]
    links := [{
      label := { name := "friends" }
      target := .named "User"
      resolve := fun reference _ => pure (.settling .own 1 (pure reference))
      arguments := [{ name := "n", type := .direct (.nonNull ⟨⟨0, 0⟩, [1]⟩ (.named "Int")) }] }] }
  target _ := .base (.standard .string)
  limit := 30

/-- The session that the schema starts with. -/
def shadowingSession : Session (Recorded Unit) where
  registry := session.registry
  complete := true
  app := { app := () }

/-- A document that supplies all arguments, one of them as a text. -/
def shadowed : Document where
  queries := [("q", {
    typeName := some "User"
    attributes := []
    act := some "rename"
    arguments := [("x", .string "abc"), ("y", .nat 1)]
    links := [("friends", {
      typeName := none
      attributes := []
      act := none
      arguments := [("n", .nat 2)]
      links := [] })] })]

theorem shadowing_built :
    shadowing.recorded.build [.base (.defined ⟨0, 0⟩)] false { app := { app := () } } =
      .ok () shadowingSession := by
  unfold Schema.build Schema.check Schema.checkFound Schema.scan
  rw [Schema.find_eq_of_eager rfl]
  rfl

theorem shadowed_accepted :
    ∃ s, shadowed.validate { schema := shadowing.recorded } shadowingSession = .ok [] s :=
  exists_of_accepts (by decide +kernel)

/-- The log of an execution. -/
def shadowedLog : List Event :=
  ((Machine.start { session := shadowingSession }).run 100
    (Request.perform ⟨shadowed, {}, {}⟩ shadowing.recorded).run).machine.world.session.log

/-- The entry is a call of the act, which is given a text under the name. -/
def Renames (e : Event) : Prop :=
  ∃ reference arguments reply text,
    e = .called (.act "User" { name := "rename" } reference arguments) reply ∧
      Entries.find? arguments "x" = some (.string text)

/-- Whether the entry is such a call. -/
def isRenaming : Event → Bool
  | .called (.act "User" ⟨"rename", none, false, none⟩ _ arguments) _ =>
    match Entries.find? arguments "x" with
    | some (.string _) => true
    | _ => false
  | _ => false

/-- A text is no whole number. -/
theorem not_accepts_text (text : String) :
    ¬ shadowing.recorded.Accepts shadowingSession
      { name := "x", type := .direct (.base (.standard .int)) } (.string text) := by
  rintro ⟨t, w, s₁, s₂, ht, -, hparse⟩
  have hresolve := ht shadowingSession (.refl _)
  cases hresolve
  have hrefused : ∃ f, Ty.parse shadowing.recorded shadowing.recorded.find
      (.base (.standard .int)) (.string text) s₁ = .error (.fault (.failure f)) s₁ := by
    rw [Ty.parse, Ty.parseSingle]
    · exact ⟨_, rfl⟩
    · exact fun _ h => by cases h
  obtain ⟨f, hrefused⟩ := hrefused
  rw [hrefused] at hparse
  cases hparse

theorem renames : ∃ e ∈ shadowedLog, Renames e := by
  have hany : shadowedLog.any isRenaming = true := by decide +kernel
  obtain ⟨e, he, hrenames⟩ := List.any_eq_true.mp hany
  refine ⟨e, he, ?_⟩
  unfold isRenaming at hrenames
  split at hrenames
  · split at hrenames
    · next text htext => exact ⟨_, _, _, text, rfl, htext⟩
    · cases hrenames
  · cases hrenames

end Sample

theorem resolvers_are_supplied_sample :
    (∃ e ∈ Sample.shadowedLog, Sample.Renames e) ∧
    ∀ call reply, .called call reply ∈ Sample.shadowedLog →
      call.Supplied Sample.shadowing.recorded Sample.shadowingSession Sample.shadowed := by
  obtain ⟨s, hvalid⟩ := Sample.shadowed_accepted
  exact ⟨Sample.renames, resolvers_are_supplied rfl Sample.shadowing_built (.refl _) hvalid (.refl _)
    rfl {} {} 100⟩

/-- **What an act declares under the name of an argument of its entity is not checked**: the document is
accepted, and the act is given a text, which its own declaration does not accept. -/
theorem shadowed_argument_unchecked :
    (∃ s, Sample.shadowed.validate { schema := Sample.shadowing.recorded } Sample.shadowingSession =
      .ok [] s) ∧
    ∃ e a arg, Sample.shadowing.recorded.entity? (.defined ⟨0, 0⟩) = some e ∧
      e.act? "rename" = some a ∧ Argument.find? a.arguments "x" = some arg ∧
      ∃ reference arguments reply v,
        .called (.act e.name a.label reference arguments) reply ∈ Sample.shadowedLog ∧
        Entries.find? arguments "x" = some v ∧
        ¬ Sample.shadowing.recorded.Accepts Sample.shadowingSession arg v := by
  obtain ⟨_, he, reference, arguments, reply, text, rfl, htext⟩ := Sample.renames
  exact ⟨Sample.shadowed_accepted, _, _, _, rfl, rfl, rfl, reference, arguments, reply, .string text, he,
    htext, Sample.not_accepts_text text⟩

end EntityQuery
