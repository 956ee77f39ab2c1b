import EntityQuery.Execution.Engine
import EntityQuery.Proofs.Promise.Keeping
import EntityQuery.Proofs.Schema.Quiet
import EntityQuery.Proofs.Validation.Acceptance
import EntityQuery.Proofs.Validation.Quiet

/-!
# The calls of an execution

An execution calls a resolver only where the document asks for it. This is an invariant of the log of
calls: it holds at every moment of every run, also of one that panics or waits forever.

* `Attempt.Keeps`: steps that may end at a fault and keep an invariant of the world.
* `Document.Allows`: a condition that holds of all calls that a document asks for.
* `keeps_completeEntity`, `keeps_query`: one lemma for each function of an execution.
* **`Request.keeps_perform`**: all calls of a request meet the condition.
-/

namespace EntityQuery

open Lookup Session Execution Schema

variable {σ α β : Type}

/-! ## Steps that may end at a fault -/

section

variable {I : World σ → Prop} {Q : α → Prop} {R : β → Prop}

/-- Steps that keep the world in `I`, and whose answer meets `Q` unless they end at a fault. -/
def Attempt.Keeps (I : World σ → Prop) (Q : α → Prop) (a : Attempt σ α) : Prop :=
  Steps.Keeps I (fun r => ∀ v, r = .ok v → Q v) a.run

namespace Attempt.Keeps

variable {a : Attempt σ α}

theorem bind {k : α → Attempt σ β} (h : a.Keeps I Q) (hk : ∀ v, Q v → (k v).Keeps I R) :
    Attempt.Keeps I R (a >>= k) := by
  refine Steps.Keeps.bind h fun r hr => ?_
  cases r with
  | ok v => exact hk v (hr v rfl)
  | error f => exact .pure fun _ he => by cases he

theorem caught (h : a.Keeps I Q) : a.caught.Keeps I fun r => ∀ v, r = .ok v → Q v := by
  refine Steps.Keeps.bind h fun r hr => .pure ?_
  cases r with
  | ok v => exact fun w he => by cases he; exact hr v rfl
  | error f => exact fun w he => by cases he

theorem exposed (h : a.Keeps I Q) : a.exposed.Keeps I fun r => ∀ v, r = .ok v → Q v := by
  refine Steps.Keeps.bind h fun r hr => ?_
  obtain (f | p) | v := r
  · exact .pure fun w he => by cases he
  · exact .halt _
  · exact .pure fun w he => by cases he; exact hr v rfl

theorem orFailure (h : a.Keeps I Q) :
    a.orFailure.Keeps I fun r => ∀ v, r = .ok v → Q v := by
  refine Steps.Keeps.bind h fun r hr => ?_
  obtain (f | p) | v := r
  · exact .pure fun r he => by cases he; exact fun w he => by cases he
  · exact .pure fun r he => by cases he
  · exact .pure fun r he => by cases he; exact fun w he => by cases he; exact hr v rfl

end Attempt.Keeps

theorem keeps_return {a : α} (h : Q a) : Attempt.Keeps I Q (pure a : Attempt σ α) :=
  .pure fun _ he => by cases he; exact h

theorem keeps_ofRun {w : Run σ α} (h : w.Keeps I Q) : (Attempt.ofRun w).Keeps I Q :=
  h.bind fun a ha => .pure fun _ he => by cases he; exact ha

theorem keeps_mapM {f : α → Attempt σ β} {items : List α} (h : ∀ a ∈ items, (f a).Keeps I R) :
    Attempt.Keeps I (fun _ => True) (items.mapM f) := by
  induction items with
  | nil => exact keeps_return trivial
  | cons a rest ih =>
    obtain ⟨ha, hrest⟩ := List.forall_mem_cons.mp h
    rw [List.mapM_cons]
    exact ha.bind fun _ _ => (ih hrest).bind fun _ _ => keeps_return trivial

theorem keeps_runMapM {f : α → Run σ β} {items : List α} (h : ∀ a ∈ items, (f a).Keeps I R) :
    (items.mapM f).Keeps I fun _ => True := by
  induction items with
  | nil => exact .pure trivial
  | cons a rest ih =>
    obtain ⟨ha, hrest⟩ := List.forall_mem_cons.mp h
    rw [List.mapM_cons]
    exact ha.bind fun _ _ => (ih hrest).bind fun _ _ => .pure trivial

end

/-! ## The log of calls -/

/-- The session is alike, and the calls noted so far meet the condition. -/
structure World.Heeds (s : Session (Recorded σ)) (P : Call → Prop) (w : World (Recorded σ)) :
    Prop where
  alike : s.Alike w.session
  calls : ∀ call reply, .called call reply ∈ w.session.log → P call

/-- The condition holds of every call that the document asks for. -/
structure Document.Allows (schema : Schema (Recorded σ)) (s : Session (Recorded σ)) (d : Document)
    (P : Call → Prop) : Prop where
  entities : ∀ {name : String} {q : Query} {e : Entity (Recorded σ)}, (name, q) ∈ d.queries →
    q.Roots schema s (some e) → ∀ context : Context,
      P (Call.entity e.name (Argument.applyDefaults e.arguments q.arguments) context)
  attributes : ∀ {e : Entity (Recorded σ)} {declared : List Argument} {q : Query} {name : String}
    {a : Attribute (Recorded σ)}, d.Visits schema s e declared q → name ∈ q.attributes →
      e.attribute? name = some a → ∀ (reference : Json) (site : Site),
        P (Call.attribute e.name a.label reference site)
  acts : ∀ {e : Entity (Recorded σ)} {declared : List Argument} {q : Query} {name : String}
    {a : Act (Recorded σ)}, d.Visits schema s e declared q → q.act = some name →
      e.act? name = some a → ∀ reference : Json,
        P (Call.act e.name a.label reference (Argument.applyDefaults a.arguments q.arguments))
  links : ∀ {e : Entity (Recorded σ)} {declared : List Argument} {q nested : Query} {name : String}
    {l : Link (Recorded σ)}, d.Visits schema s e declared q → (name, nested) ∈ q.links →
      e.link? name = some l → ∀ (reference : Json) (site : Site),
        site.arguments = Argument.applyDefaults l.arguments nested.arguments →
          P (Call.link e.name l.label reference site)

section

variable {x : Execution (Recorded σ)} {s : Session (Recorded σ)} {P : Call → Prop}
  {Q : α → Prop}

theorem keeps_update (execution : Nat) (change : Progress → Progress) :
    (Run.update execution change).Keeps (World.Heeds s P) fun _ => True :=
  .getWorld fun _ hw => .setWorld ⟨hw.alike, hw.calls⟩ (.pure trivial)

/-- Calling back into the application, given what that does to the log. -/
theorem keeps_call {c : Callback (Recorded σ) α}
    (h : ∀ app, match c app with
      | .ok a app' => (∃ added, app'.log = app.log ++ added ∧
          ∀ call reply, .called call reply ∈ added → P call) ∧ Q a
      | .error _ app' => ∃ added, app'.log = app.log ++ added ∧
          ∀ call reply, .called call reply ∈ added → P call) :
    (Attempt.call c).Keeps (World.Heeds s P) Q := by
  have heeds : ∀ {w : World (Recorded σ)} {app : Recorded σ}, w.Heeds s P →
      (∃ added, app.log = w.session.app.log ++ added ∧
        ∀ call reply, .called call reply ∈ added → P call) →
      World.Heeds s P { w with session := { w.session with app } } := by
    rintro w app hw ⟨added, hlog, hadded⟩
    refine ⟨hw.alike.trans (alike_setApp _ app), fun call reply hmem => ?_⟩
    have hmem' : Event.called call reply ∈ w.session.app.log ++ added := hlog ▸ hmem
    exact (List.mem_append.mp hmem').elim (hw.calls call reply) (hadded call reply)
  refine Steps.Keeps.stepWorld fun w hw => ?_
  have hc := h w.session.app
  split at hc
  · next hr =>
    simp only [hr]
    exact ⟨heeds hw hc.1, fun _ he => by cases he; exact hc.2⟩
  · next hr =>
    simp only [hr]
    exact ⟨heeds hw hc, fun _ he => by cases he⟩

theorem keeps_quiet {c : Callback (Recorded σ) α} (hc : c.Quiet) :
    (Attempt.call c).Keeps (World.Heeds s P) fun _ => True := by
  refine keeps_call fun app => ?_
  have h := hc app
  revert h
  cases c app with
  | ok a app' =>
    exact fun h => ⟨⟨[], by simpa using h, fun _ _ hn => absurd hn List.not_mem_nil⟩, trivial⟩
  | error f app' =>
    exact fun h => ⟨[], by simpa using h, fun _ _ hn => absurd hn List.not_mem_nil⟩

/-- Work that notes that it is done, which is not a call. -/
theorem keeps_notes {note : Except Fault α → Event} {c : Callback (Recorded σ) α}
    (hc : c.Notes note) (hn : ∀ r call reply, note r ≠ .called call reply) :
    (Attempt.call c).Keeps (World.Heeds s P) fun _ => True := by
  have hadded : ∀ r call reply, Event.called call reply ∈ [note r] → P call :=
    fun r call reply hmem => absurd (List.mem_singleton.mp hmem).symm (hn r call reply)
  refine keeps_call fun app => ?_
  have h := hc app
  revert h
  cases c app with
  | ok a app' => exact fun h => ⟨⟨_, h, hadded _⟩, trivial⟩
  | error f app' => exact fun h => ⟨_, h, hadded _⟩

/-- Calling a resolver that notes its call. -/
theorem keeps_logs {call : Call} {c : Callback (Recorded σ) (Answer (Recorded σ))}
    (hc : c.Logs call) (hP : P call) :
    (Attempt.call c).Keeps (World.Heeds s P) fun a => ∃ n, a.Notes n := by
  have hadded : ∀ reply call' reply', Event.called call' reply' ∈ [Event.called call reply] →
      P call' := by
    intro reply call' reply' hmem
    cases List.mem_singleton.mp hmem
    exact hP
  refine keeps_call fun app => ?_
  have h := hc app
  revert h
  cases c app with
  | ok a app' => exact fun h => ⟨⟨_, h.1, hadded _⟩, _, h.2⟩
  | error f app' => exact fun h => ⟨_, h, hadded _⟩

/-- Using the schema, where that leaves the log alone. -/
theorem keeps_attemptConsult {lookup : Lookup (Recorded σ) α} (hq : lookup.Quiet)
    (hy : Yields s Q lookup) :
    (Attempt.consult lookup).Keeps (World.Heeds s P) fun r => ∃ a, r = .ok a ∧ Q a := by
  refine .getWorld fun w hw => ?_
  obtain ⟨r, s', hx, hs, hr⟩ := hy w.session hw.alike
  have hlog : s'.log = w.session.log := by
    have h := hq w.session
    unfold Lookup.after at h
    rw [hx] at h
    cases r <;> exact h
  rw [hx]
  have heeds : World.Heeds s P { w with session := s' } :=
    ⟨hs, fun call reply hmem => hw.calls call reply (hlog ▸ hmem)⟩
  cases r with
  | ok a => exact .setWorld heeds (.pure fun _ he => by cases he; exact ⟨a, rfl, hr a rfl⟩)
  | error f => exact .setWorld heeds (.pure fun _ he => by cases he)

theorem keeps_consult {lookup : Lookup (Recorded σ) α} (hq : lookup.Quiet) (hy : Yields s Q lookup) :
    (x.consult lookup).Keeps (World.Heeds s P) Q := by
  refine (keeps_attemptConsult hq hy).bind ?_
  rintro _ ⟨a, rfl, ha⟩
  exact keeps_return ha

/-! ## Answers of resolvers -/

theorem keeps_guard {note : Except Fault α → Event} {c : Callback (Recorded σ) α}
    (hc : c.Notes note) (hn : ∀ r call reply, note r ≠ .called call reply) :
    (Attempt.call c.guard).Keeps (World.Heeds s P) fun _ => True := by
  have hadded : ∀ r call reply, Event.called call reply ∈ [note r] → P call :=
    fun r call reply hmem => absurd (List.mem_singleton.mp hmem).symm (hn r call reply)
  refine keeps_call fun app => ?_
  have h := hc app
  unfold Callback.guard
  cases hr : c app with
  | ok a app' =>
    rw [hr] at h
    exact ⟨⟨_, h, hadded _⟩, trivial⟩
  | error f app' =>
    rw [hr] at h
    cases f <;> exact ⟨_, h, hadded _⟩

theorem keeps_settleBy {p : Promise} {n : Nat} {finish : Callback (Recorded σ) Json}
    (hc : finish.Notes (.settled n)) :
    (settleBy p finish).Keeps (World.Heeds s P) fun _ => True :=
  (keeps_notes hc fun _ _ _ h => nomatch h).orFailure.bind fun _ _ =>
    (keeps_ofRun (keeps_settle _)).bind fun _ _ => keeps_return trivial

theorem keeps_afterHops {q : QueueId} {last : Run (Recorded σ) Unit}
    (hl : last.Keeps (World.Heeds s P) fun _ => True) (hops : Nat) :
    (afterHops q last hops).Keeps (World.Heeds s P) fun _ => True := by
  induction hops with
  | zero => exact hl
  | succ hops ih => exact .enqueue ih (.pure trivial)

/-- What becomes of an answer notes no further call. -/
theorem keeps_begin {q : QueueId} {n : Nat} {a : Answer (Recorded σ)} (ha : a.Notes n) :
    (a.guard.begin q).Keeps (World.Heeds s P) fun th => th.Keeps (World.Heeds s P) := by
  have home : ∀ home : Home, (Attempt.ofRun (home.queue q) : Attempt (Recorded σ) QueueId).Keeps
      (World.Heeds s P) fun _ => True := by
    intro home
    refine keeps_ofRun ?_
    cases home with
    | own => exact .pure trivial
    | foreign => exact .newQueue fun _ => .pure trivial
  have promise : ∀ q, (Attempt.ofRun (.newPromise q .pure) : Attempt (Recorded σ) Promise).Keeps
      (World.Heeds s P) fun _ => True :=
    fun q => keeps_ofRun (.newPromise fun _ => .pure trivial)
  cases a with
  | ready v => exact keeps_return trivial
  | deferred compute =>
    have guarded : (Attempt.call compute.guard).Keeps (World.Heeds s P) fun _ => True :=
      keeps_guard ha fun _ _ _ h => nomatch h
    exact keeps_return (guarded.exposed.bind fun _ _ => .pure trivial)
  | settling h hops finish =>
    refine (home h).bind fun q' _ => (promise q').bind fun p _ => ?_
    have followed : Attempt.Keeps (World.Heeds s P) (Thenable.Keeps (World.Heeds s P))
        (return .promise p : Attempt (Recorded σ) (Thenable Payload _)) := keeps_return trivial
    have finished : (settleBy p finish).Keeps (World.Heeds s P) fun _ => True := keeps_settleBy ha
    split
    · exact finished.bind fun _ _ => followed
    · exact (keeps_ofRun (keeps_afterHops (keeps_ignore finished.exposed) hops)).bind
        fun _ _ => followed
  | stuck h => exact (home h).bind fun q' _ => (promise q').bind fun p _ => keeps_return trivial

theorem keeps_answered {call : Call} {c : Callback (Recorded σ) (Answer (Recorded σ))}
    (hc : c.Logs call) (hP : P call) :
    (x.answered c).Keeps (World.Heeds s P) fun _ => True := by
  have begun : Attempt.Keeps (World.Heeds s P) (fun th => th.Keeps (World.Heeds s P)) (do
      let a ← Attempt.call c
      a.guard.begin x.queue) := (keeps_logs hc hP).bind fun a ⟨_, ha⟩ => keeps_begin ha
  refine begun.caught.bind fun r hr => ?_
  cases r with
  | ok th => exact keeps_adopt (hr th rfl)
  | error f => exact keeps_settled _

/-! ## Fields -/

theorem keeps_together {promises : List Promise} {join : List Json → Json} :
    (x.together promises join).Keeps (World.Heeds s P) fun _ => True := by
  refine (keeps_gather fun th hth => ?_).bind fun p _ => keeps_map fun v => .pure trivial
  obtain ⟨p, -, rfl⟩ := List.mem_map.mp hth
  trivial

theorem keeps_refuse (f : Failure) (place : Location) :
    (x.refuse f place).Keeps (World.Heeds s P) fun _ => True :=
  (keeps_update _ _).bind fun _ _ => keeps_settled _

theorem keeps_unknown (site : Site) (e : Entity (Recorded σ)) (kind : ArtifactKind) (name : String) :
    (x.unknown site e kind name).Keeps (World.Heeds s P) fun _ => True :=
  keeps_refuse _ _

theorem keeps_settleField {place : Location} {call : Call}
    {c : Callback (Recorded σ) (Answer (Recorded σ))}
    {complete : Json → Attempt (Recorded σ) (Thenable Payload (World (Recorded σ)))}
    (hc : c.Logs call) (hP : P call)
    (hcomplete : ∀ v, (complete v).Keeps (World.Heeds s P) fun th => th.Keeps (World.Heeds s P)) :
    (x.settleField place c complete).Keeps (World.Heeds s P) fun _ => True := by
  refine (keeps_answered hc hP).bind fun source _ => (keeps_update _ _).bind fun _ _ => ?_
  refine (keeps_andThen fun p => (hcomplete p.json).caught).bind fun completed _ => ?_
  refine keeps_thenOrElse (fun p => ?_) fun f => ?_
  · exact (keeps_update _ _).bind fun _ _ => .pure trivial
  · exact (keeps_update _ _).bind fun _ _ => (keeps_update _ _).bind fun _ _ => .pure trivial

variable {types : Entries NamedType} (hp : x.schema.Plain) (hrec : x.schema.Records)
  (hs : x.schema.Sound types s) {d : Document} (hall : d.Allows x.schema s P)
  {e : Entity (Recorded σ)} {declared : List Argument} {q : Query}

include hp hrec

theorem keeps_completeAttribute {a : Attribute (Recorded σ)}
    (hrule : ∀ v, Callback.Quiet (a.checkRule v))
    (ha : ∀ r, a.type? = some r → r.Fits x.schema s) (v : Json) :
    (x.completeAttribute a v).Keeps (World.Heeds s P) fun _ => True := by
  have ruled : ∀ w, Attempt.Keeps (World.Heeds s P) (fun _ => True) (do
      Attempt.call (a.checkRule w)
      return w : Attempt (Recorded σ) Json) := fun w =>
    (keeps_quiet (hrule w)).bind fun _ _ => keeps_return trivial
  unfold completeAttribute
  cases htype : a.type? with
  | none => exact ruled v
  | some r =>
    obtain ⟨t, hr, ht⟩ := (ha r htype).resolve hp
    have hresolve : Yields s (fun t' => t' = t) (r.resolve x.schema x.schema.find) :=
      hr.answers.comes fun _ he => by cases he; rfl
    have hserialize : Yields s (fun _ => True) (t.serialize x.schema x.schema.find v) :=
      (ht.serialize (K := .safe s) hp
        (fun sc n w _ => (comes_call _).mono fun _ _ => trivial) v).mono fun _ _ _ _ => trivial
    refine (keeps_consult (hrec.resolve r) hresolve).bind fun t' ht' => ?_
    rw [ht']
    exact (keeps_consult (hrec.serialize t v) hserialize).bind fun w _ => ruled w

include hs hall

theorem keeps_field (he : x.schema.Knows types e) (hv : d.Visits x.schema s e declared q)
    (site : Site) (reference : Json) {name : String} (hn : name ∈ q.attributes) :
    (x.field site e reference name).Keeps (World.Heeds s P) fun _ => True := by
  have hsettled := hs.settles hp he
  obtain ⟨t, -, ht⟩ := he
  have hlogs := hrec.entities t e ht
  unfold Execution.field
  cases ha : e.attribute? name with
  | none => exact keeps_unknown _ _ _ _
  | some a =>
    have hmem : a ∈ e.attributes := List.mem_of_find?_eq_some ha
    refine keeps_settleField (hlogs.attributes a hmem _ _) (hall.attributes hv hn ha _ _) fun v => ?_
    exact (keeps_completeAttribute hp hrec (hlogs.rules a hmem) (hsettled.attributes a hmem) v).bind
      fun w _ => keeps_return trivial

omit hp hs in
theorem keeps_act (he : x.schema.Knows types e) (hv : d.Visits x.schema s e declared q)
    (site : Site) (reference : Json) {name : String} (hn : q.act = some name) :
    (x.act site e reference q.arguments name).Keeps (World.Heeds s P) fun _ => True := by
  obtain ⟨t, -, ht⟩ := he
  unfold Execution.act
  cases ha : e.act? name with
  | none => exact keeps_unknown _ _ _ _
  | some a =>
    have hmem : a ∈ e.acts := List.mem_of_find?_eq_some ha
    exact keeps_settleField ((hrec.entities t e ht).acts a hmem _ _) (hall.acts hv hn ha _)
      fun v => keeps_return trivial

omit hp hrec hs hall in
theorem keeps_completeLinked {complete : Json → Attempt (Recorded σ) Promise}
    (hcomplete : ∀ v, (complete v).Keeps (World.Heeds s P) fun _ => True) (v : Json) :
    (x.completeLinked complete v).Keeps (World.Heeds s P) fun th => th.Keeps (World.Heeds s P) := by
  have one : ∀ v, Attempt.Keeps (World.Heeds s P) (fun th => th.Keeps (World.Heeds s P))
      (do return .promise (← complete v) : Attempt (Recorded σ) (Thenable Payload _)) :=
    fun v => (hcomplete v).bind fun p _ => keeps_return trivial
  cases v with
  | null => exact keeps_return trivial
  | array references =>
    refine (keeps_mapM fun r _ => hcomplete r).bind fun promises _ => ?_
    exact (keeps_ofRun keeps_together).bind fun p _ => keeps_return trivial
  | bool b => exact one _
  | number n => exact one _
  | string t => exact one _
  | object entries => exact one _

theorem keeps_link (he : x.schema.Knows types e) (hv : d.Visits x.schema s e declared q)
    (site : Site) (reference : Json) {name : String} {nested : Query}
    (hn : (name, nested) ∈ q.links)
    {complete : Site → Entity (Recorded σ) → Json → Attempt (Recorded σ) Promise}
    (hcomplete : ∀ (l : Link (Recorded σ)) target, x.schema.Knows types target →
      d.Visits x.schema s target l.arguments nested → ∀ there v,
        (complete there target v).Keeps (World.Heeds s P) fun _ => True) :
    (x.link site e reference name nested complete).Keeps (World.Heeds s P) fun _ => True := by
  have hsettled := hs.settles hp he
  obtain ⟨t, -, ht⟩ := he
  unfold Execution.link
  cases hl : e.link? name with
  | none => exact keeps_ofRun (keeps_unknown _ _ _ _)
  | some l =>
    have hmem : l ∈ e.links := List.mem_of_find?_eq_some hl
    obtain ⟨t', target, hknown, hfollow⟩ := hsettled.links l hmem
    have hyields : Yields s (fun r => r = (t', target))
        (l.follow x.schema x.schema.find e.name) :=
      hfollow.answers.comes fun _ he => by cases he; rfl
    refine (keeps_attemptConsult (hrec.follow e.name l) hyields).bind ?_
    rintro _ ⟨_, rfl, rfl⟩
    refine keeps_ofRun (keeps_settleField ((hrec.entities t e ht).links l hmem _ _)
      (hall.links hv hn hl _ _ rfl) (keeps_completeLinked fun v => ?_))
    exact hcomplete l target hknown (hv.link hn hl hfollow.answers) _ v

/-! ## Entities -/

omit hp hrec hs hall

mutual

/-- **Completing an entity makes the calls that the document asks for.** -/
theorem keeps_completeEntity (hp : x.schema.Plain) (hrec : x.schema.Records)
    (hs : x.schema.Sound types s) (hall : d.Allows x.schema s P) {e : Entity (Recorded σ)}
    (he : x.schema.Knows types e) {declared : List Argument} (site : Site) (reference : Json) :
    (q : Query) → d.Visits x.schema s e declared q →
      (x.completeEntity site e reference q).Keeps (World.Heeds s P) fun _ => True
  | ⟨typeName, attributes, act?, arguments, links⟩, hv => by
    rw [completeEntity]
    refine (keeps_ofRun (keeps_runMapM fun name hn =>
      keeps_field hp hrec hs hall he hv site reference hn)).bind fun _ _ => ?_
    refine (keeps_ofRun (keeps_runMapM fun name hn =>
      keeps_act hrec hall he hv site reference (Option.mem_toList.mp hn))).bind fun _ _ => ?_
    refine (keeps_completeLinks hp hrec hs hall he hv site reference links
      (List.Subset.refl _)).bind fun _ _ => ?_
    exact keeps_ofRun keeps_together

theorem keeps_completeLinks (hp : x.schema.Plain) (hrec : x.schema.Records)
    (hs : x.schema.Sound types s) (hall : d.Allows x.schema s P) {e : Entity (Recorded σ)}
    (he : x.schema.Knows types e) {declared : List Argument} {q : Query}
    (hv : d.Visits x.schema s e declared q) (site : Site) (reference : Json) :
    (links : List (String × Query)) → links ⊆ q.links →
      (x.completeLinks site e reference links).Keeps (World.Heeds s P) fun _ => True
  | [], _ => by
    rw [completeLinks]
    exact keeps_return trivial
  | (name, nested) :: rest, hsub => by
    rw [completeLinks]
    refine (keeps_link hp hrec hs hall he hv site reference (hsub List.mem_cons_self)
      fun l target hknown hvisits there v =>
        keeps_completeEntity hp hrec hs hall hknown there v nested hvisits).bind fun _ _ => ?_
    exact (keeps_completeLinks hp hrec hs hall he hv site reference rest
      fun _ h => hsub (List.mem_cons_of_mem _ h)).bind fun _ _ => keeps_return trivial

end

/-! ## Queries and documents -/

theorem Query.Roots.yields {q : Query} {e? : Option (Entity (Recorded σ))} (h : q.Roots x.schema s e?) :
    Yields s (fun r => r = e?) (x.root q) := by
  unfold Query.Roots at h
  unfold Execution.root
  cases hn : q.typeName with
  | none =>
    rw [hn] at h
    exact yields_pure h.symm
  | some name =>
    rw [hn] at h
    obtain ⟨t?, hfind, rfl⟩ := h
    exact hfind.yields_bind (yields_pure rfl)

variable (hr : d.Rooted x.schema types s)

include hp hrec hs hall

theorem keeps_queryOn {name : String} (hq : (name, q) ∈ d.queries)
    (he : x.schema.Knows types e) (hroot : q.Roots x.schema s (some e)) :
    (x.queryOn name q e).Keeps (World.Heeds s P) fun _ => True := by
  have hknown := he
  obtain ⟨t, -, ht⟩ := he
  refine (keeps_answered ((hrec.entities t e ht).resolve _ _) (hall.entities hq hroot _)).bind
    fun reference _ => ?_
  refine (keeps_andThen fun p => ?_).bind fun completed _ => ?_
  · refine (keeps_completeEntity hp hrec hs hall hknown _ p.json q (.root hq hroot)).exposed.bind
      fun r _ => .pure ?_
    cases r with
    | ok p => exact fun th he => by cases he; trivial
    | error f => exact fun th he => by cases he
  · exact keeps_recover fun f => (keeps_update _ _).bind fun _ _ => .pure trivial

include hr

/-- **A query makes the calls that the document asks for.** -/
theorem keeps_query {name : String} (hq : (name, q) ∈ d.queries) :
    (x.query name q).Keeps (World.Heeds s P) fun _ => True := by
  obtain ⟨e?, hroot, hknown⟩ := hr.exists_root hq
  refine (keeps_ofRun (keeps_update _ _)).bind fun _ _ => ?_
  refine (keeps_attemptConsult (hrec.root rfl q) hroot.yields).bind ?_
  rintro _ ⟨e', rfl, rfl⟩
  cases e' with
  | none => exact keeps_ofRun (keeps_refuse _ _)
  | some e => exact keeps_ofRun (keeps_queryOn hp hrec hs hall hq (hknown e rfl) hroot)

omit hp hrec hs hall hr in
theorem keeps_conclude (names : List String) (before : Nat) (values : List Json) :
    (x.conclude names before values).Keeps (World.Heeds s P) fun _ => True := by
  refine .getWorld fun w _ => ?_
  simp only [Steps.bind]
  split
  · exact .pure trivial
  · exact .ticks fun n => .pure trivial

theorem keeps_document : (x.document d).Keeps (World.Heeds s P) fun _ => True := by
  refine (keeps_ofRun (Q := fun _ => True) (.ticks fun n => .pure trivial)).bind fun before _ => ?_
  refine (keeps_mapM fun nq hnq => keeps_query hp hrec hs hall hr hnq).bind fun promises _ => ?_
  refine (keeps_ofRun (keeps_gather fun th hth => ?_)).bind fun all _ => ?_
  · obtain ⟨p, -, rfl⟩ := List.mem_map.mp hth
    trivial
  · exact keeps_ofRun (keeps_map fun p => keeps_conclude _ _ _)

end

/-! ## Requests -/

section

variable {schema : Schema (Recorded σ)} {s : Session (Recorded σ)} {P : Call → Prop}
  {types : Entries NamedType} {r : Request} {q : QueueId} (hp : schema.Plain)
  (hrec : schema.Records) (hs : schema.Sound types s) (hall : r.document.Allows schema s P)
  (hr : r.document.Rooted schema types s)

include hp hrec hs hall hr

theorem keeps_execute :
    (Request.execute schema q r.document r.context).Keeps (World.Heeds s P) fun _ => True := by
  refine Attempt.Keeps.bind (Q := fun x => x.schema = schema) ?_ ?_
  · refine keeps_ofRun (.getWorld fun w hw => .setWorld ⟨hw.alike, hw.calls⟩ (.pure rfl))
  · rintro x rfl
    exact keeps_document hp hrec hs hall hr

/-- **All calls of a request meet a condition that holds of what its document asks for.** -/
theorem Request.keeps_perform :
    (r.perform schema).Keeps (World.Heeds s P) fun _ => True := by
  refine (keeps_ofRun (Q := fun _ => True) (.newQueue fun _ => .pure trivial)).bind fun q _ => ?_
  refine Attempt.Keeps.bind (Q := fun _ => True) ?_ fun p _ => keeps_ofRun ?_
  · have executed : (r.executeMasked schema q).Keeps (World.Heeds s P) fun _ => True := by
      refine (keeps_execute hp hrec hs hall hr).bind fun p _ => keeps_ofRun (keeps_map fun v => ?_)
      cases v <;> exact .pure trivial
    unfold Request.start
    split
    · exact executed
    · have hyields := Document.yields_validate (v := { schema }) hp hs hr
      have hquiet : (r.document.validate { schema }).Quiet := Document.quiet_validate hrec _
      refine (keeps_attemptConsult hquiet hyields).bind ?_
      rintro _ ⟨failures, rfl, -⟩
      cases failures with
      | nil => exact executed
      | cons f rest => exact keeps_ofRun (keeps_settled _)
  · refine keeps_wait.bind fun o _ => ?_
    obtain fault | (v | report) := o <;> exact .pure trivial

end

end EntityQuery
