import EntityQuery.Proofs.Schema.Fitting

/-!
# Schemas that record how they are used

Beside the state of the application a log is kept of what an execution asks of it: each call of a
resolver with what it is given and what it answers at once, and each time that work which such an
answer has put off is done. Recording changes nothing of what the application does.

* `Event`: an entry of the log; `Recorded`: the state of an application with its log.
* `Schema.recorded`: a schema whose callbacks keep the log.
* `Schema.Records`: what a schema that keeps the log does to it. **`Schema.records_recorded`**: the
  recorded schema does so.
-/

namespace EntityQuery

variable {σ α : Type}

/-! ## Logs -/

/-- A call of a resolver, with what it is given. -/
inductive Call
  | entity (entity : String) (arguments : Entries Json) (context : Context)
  | attribute (entity : String) (label : Label) (reference : Json) (site : Site)
  | act (entity : String) (label : Label) (reference : Json) (arguments : Entries Json)
  | link (entity : String) (label : Label) (reference : Json) (site : Site)

/-- What a resolver answers at once. -/
inductive Reply
  | fault (f : Fault)
  | value (v : Json)
  | deferred
  | settling (home : Home) (hops : Nat)
  | stuck (home : Home)

/-- An entry of the log. Calls are named by their place in the log. -/
inductive Event
  | called (call : Call) (reply : Reply)
  /-- Work that a call has put off is done. -/
  | ran (call : Nat) (result : Except Fault Json)
  /-- The promise of a call is settled. -/
  | settled (call : Nat) (result : Except Fault Json)

/-- The state of an application, with the log so far. -/
structure Recorded (σ : Type) where
  app : σ
  log : List Event := []

/-- The log of a session. -/
def Session.log (s : Session (Recorded σ)) : List Event := s.app.log

/-! ## Keeping the log -/

/-- The same computation, beside a log that it leaves alone. -/
def Callback.unrecorded (c : Callback σ α) : Callback (Recorded σ) α := fun s =>
  match c s.app with
  | .ok a app => .ok a { s with app }
  | .error f app => .error f { s with app }

/-- The same computation; what it comes to is noted. -/
def Callback.noted (note : Except Fault α → Event) (c : Callback σ α) :
    Callback (Recorded σ) α := fun s =>
  match c s.app with
  | .ok a app => .ok a ⟨app, s.log ++ [note (.ok a)]⟩
  | .error f app => .error f ⟨app, s.log ++ [note (.error f)]⟩

namespace Answer

/-- What an answer is at once. -/
def reply : Answer σ → Reply
  | ready v => .value v
  | deferred _ => .deferred
  | settling home hops _ => .settling home hops
  | stuck home => .stuck home

/-- The answer to a call, that notes when the work that it puts off is done. -/
def recorded (call : Nat) : Answer σ → Answer (Recorded σ)
  | ready v => ready v
  | deferred compute => deferred (compute.noted (.ran call))
  | settling home hops finish => settling home hops (finish.noted (.settled call))
  | stuck home => stuck home

@[simp] theorem reply_recorded (call : Nat) (a : Answer σ) : (a.recorded call).reply = a.reply := by
  cases a <;> rfl

end Answer

/-- A resolver that notes its call. -/
def Callback.recorded (call : Call) (c : Callback σ (Answer σ)) :
    Callback (Recorded σ) (Answer (Recorded σ)) := fun s =>
  match c s.app with
  | .ok a app => .ok (a.recorded s.log.length) ⟨app, s.log ++ [.called call a.reply]⟩
  | .error f app => .error f ⟨app, s.log ++ [.called call (.fault f)]⟩

/-- A scalar beside a log that it leaves alone. -/
def Scalar.recorded (sc : Scalar σ) : Scalar (Recorded σ) where
  name := sc.name
  description := sc.description
  coercion :=
    match sc.coercion with
    | .standard k => .standard k
    | .custom serialize parse? =>
      .custom (fun v => (serialize v).unrecorded)
        (parse?.map fun parse v => (parse v).unrecorded)

/-- A field whose resolver notes its calls. -/
def Attribute.recorded (entity : String) (a : Attribute σ) : Attribute (Recorded σ) where
  label := a.label
  type? := a.type?
  resolve reference site :=
    (a.resolve reference site).recorded (.attribute entity a.label reference site)
  rule? := a.rule?.map fun rule v => (rule v).unrecorded

/-- An act that notes its calls. -/
def Act.recorded (entity : String) (a : Act σ) : Act (Recorded σ) where
  label := a.label
  perform reference arguments :=
    (a.perform reference arguments).recorded (.act entity a.label reference arguments)
  arguments := a.arguments

/-- A link whose resolver notes its calls. -/
def Link.recorded (entity : String) (l : Link σ) : Link (Recorded σ) where
  label := l.label
  target := l.target
  resolve reference site :=
    (l.resolve reference site).recorded (.link entity l.label reference site)
  arguments := l.arguments

/-- An entity whose resolvers note their calls. -/
def Entity.recorded (e : Entity σ) : Entity (Recorded σ) where
  name := e.name
  description := e.description
  deprecated := e.deprecated
  reason := e.reason
  resolve arguments context :=
    (e.resolve arguments context).recorded (.entity e.name arguments context)
  attributes := e.attributes.map (Attribute.recorded e.name)
  acts := e.acts.map (Act.recorded e.name)
  links := e.links.map (Link.recorded e.name)
  arguments := e.arguments

/-- A definition whose resolvers note their calls. -/
def Definition.recorded : Definition σ → Definition (Recorded σ)
  | scalar sc => scalar sc.recorded
  | entity e => entity e.recorded

/-- A loader beside a log that it leaves alone. -/
def Loading.recorded : Loading σ → Loading (Recorded σ)
  | done found => done found
  | panic p => panic p
  | step change next =>
    step (fun s => { s with app := change s.app }) fun s => (next s.app).recorded
  | find name next => find name fun found => (next found).recorded
  | scan next => scan fun found => (next found).recorded

/-- A schema whose resolvers note their calls. -/
def Schema.recorded (schema : Schema σ) : Schema (Recorded σ) where
  define id := (schema.define id).recorded
  target := schema.target
  onForce r s := { s with app := schema.onForce r s.app }
  loader? := schema.loader?.map fun loader name => (loader name).recorded
  limit := schema.limit

/-! ## What becomes of the log -/

/-- The callback leaves the log alone. -/
def Callback.Quiet (c : Callback (Recorded σ) α) : Prop :=
  ∀ s, match c s with
    | .ok _ s' => s'.log = s.log
    | .error _ s' => s'.log = s.log

/-- The callback notes what it comes to, and nothing else. -/
def Callback.Notes (note : Except Fault α → Event) (c : Callback (Recorded σ) α) : Prop :=
  ∀ s, match c s with
    | .ok a s' => s'.log = s.log ++ [note (.ok a)]
    | .error f s' => s'.log = s.log ++ [note (.error f)]

/-- Work that the answer to a call has put off is noted when it is done. -/
def Answer.Notes (call : Nat) : Answer (Recorded σ) → Prop
  | .deferred compute => Callback.Notes (.ran call) compute
  | .settling _ _ finish => Callback.Notes (.settled call) finish
  | _ => True

/-- The resolver notes its call, and nothing else. -/
def Callback.Logs (call : Call) (c : Callback (Recorded σ) (Answer (Recorded σ))) : Prop :=
  ∀ s, match c s with
    | .ok a s' => s'.log = s.log ++ [.called call a.reply] ∧ a.Notes s.log.length
    | .error f s' => s'.log = s.log ++ [.called call (.fault f)]

/-- The loader leaves the log alone. -/
inductive Loading.Quiet : Loading (Recorded σ) → Prop
  | done (found : Option Ty) : Quiet (.done found)
  | panic (p : Panic) : Quiet (.panic p)
  | step {change : Recorded σ → Recorded σ} {next : Recorded σ → Loading (Recorded σ)}
      (hc : ∀ s, (change s).log = s.log) (h : ∀ s, (next s).Quiet) : Quiet (.step change next)
  | find (name : String) {next : Except Defect (Option NamedType) → Loading (Recorded σ)}
      (h : ∀ found, (next found).Quiet) : Quiet (.find name next)
  | scan {next : Except Defect (Entries NamedType) → Loading (Recorded σ)}
      (h : ∀ found, (next found).Quiet) : Quiet (.scan next)

/-- The resolvers of an entity note their calls. -/
structure Entity.Records (e : Entity (Recorded σ)) : Prop where
  resolve : ∀ arguments context,
    Callback.Logs (.entity e.name arguments context) (e.resolve arguments context)
  attributes : ∀ a ∈ e.attributes, ∀ reference site,
    Callback.Logs (.attribute e.name a.label reference site) (a.resolve reference site)
  rules : ∀ a ∈ e.attributes, ∀ v, Callback.Quiet (a.checkRule v)
  acts : ∀ a ∈ e.acts, ∀ reference arguments,
    Callback.Logs (.act e.name a.label reference arguments) (a.perform reference arguments)
  links : ∀ l ∈ e.links, ∀ reference site,
    Callback.Logs (.link e.name l.label reference site) (l.resolve reference site)

/-- The resolvers of a schema note their calls; nothing else is noted. -/
structure Schema.Records (schema : Schema (Recorded σ)) : Prop where
  entities : ∀ t e, schema.entity? t = some e → e.Records
  scalars : ∀ t sc, schema.definition t = .scalar sc → ∀ v,
    Callback.Quiet (sc.serialize v) ∧ Callback.Quiet (sc.parse v)
  force : ∀ r s, (schema.onForce r s).log = s.log
  loader : ∀ loader, schema.loader? = some loader → ∀ name, (loader name).Quiet

/-! ## The recorded schema records -/

namespace Callback

theorem quiet_pure (a : α) : Quiet (pure a : Callback (Recorded σ) α) := fun _ => rfl

theorem quiet_lift (r : Except Failure α) : Quiet (Scalar.lift r : Callback (Recorded σ) α) := by
  cases r <;> exact fun _ => rfl

theorem quiet_unrecorded (c : Callback σ α) : c.unrecorded.Quiet := by
  intro s
  unfold unrecorded
  cases c s.app <;> rfl

theorem notes_noted (note : Except Fault α → Event) (c : Callback σ α) :
    (c.noted note).Notes note := by
  intro s
  unfold noted
  cases c s.app <;> rfl

theorem logs_recorded (call : Call) (c : Callback σ (Answer σ)) : (c.recorded call).Logs call := by
  intro s
  unfold recorded
  cases c s.app with
  | error f app => rfl
  | ok a app =>
    refine ⟨by rw [Answer.reply_recorded], ?_⟩
    cases a with
    | ready v => trivial
    | deferred compute => exact notes_noted _ compute
    | settling home hops finish => exact notes_noted _ finish
    | stuck home => trivial

end Callback

theorem Loading.quiet_recorded (l : Loading σ) : l.recorded.Quiet := by
  induction l with
  | done found => exact .done found
  | panic p => exact .panic p
  | step change next ih => exact .step (fun _ => rfl) fun s => ih s.app
  | find name next ih => exact .find name ih
  | scan next ih => exact .scan ih

theorem Scalar.quiet_recorded (sc : Scalar σ) (v : Json) :
    Callback.Quiet (sc.recorded.serialize v) ∧ Callback.Quiet (sc.recorded.parse v) := by
  obtain ⟨name, description, k | ⟨serialize, _ | parse⟩⟩ := sc
  · exact ⟨Callback.quiet_lift _, Callback.quiet_lift _⟩
  · exact ⟨Callback.quiet_unrecorded _, Callback.quiet_pure v⟩
  · exact ⟨Callback.quiet_unrecorded _, Callback.quiet_unrecorded _⟩

theorem Entity.records_recorded (e : Entity σ) : e.recorded.Records where
  resolve _ _ := Callback.logs_recorded _ _
  attributes a ha reference site := by
    obtain ⟨b, -, rfl⟩ := List.mem_map.mp ha
    exact Callback.logs_recorded _ _
  rules a ha v := by
    obtain ⟨⟨label, type?, resolve, _ | rule⟩, -, rfl⟩ := List.mem_map.mp ha
    · exact Callback.quiet_pure _
    · exact Callback.quiet_unrecorded _
  acts a ha reference arguments := by
    obtain ⟨b, -, rfl⟩ := List.mem_map.mp ha
    exact Callback.logs_recorded _ _
  links l hl reference site := by
    obtain ⟨b, -, rfl⟩ := List.mem_map.mp hl
    exact Callback.logs_recorded _ _

namespace Schema

variable (schema : Schema σ)

theorem definition_recorded (t : NamedType) :
    schema.recorded.definition t = (schema.definition t).recorded := by
  cases t <;> rfl

/-- The entities of a recorded schema. -/
theorem entity?_recorded (t : NamedType) :
    schema.recorded.entity? t = (schema.entity? t).map Entity.recorded := by
  unfold entity?
  rw [definition_recorded]
  cases schema.definition t <;> rfl

theorem loader?_recorded (h : schema.loader? = none) : schema.recorded.loader? = none := by
  unfold recorded
  rw [h]
  rfl

/-- **A recorded schema notes the calls of its resolvers, and nothing else.** -/
theorem records_recorded : schema.recorded.Records where
  entities t e he := by
    rw [entity?_recorded] at he
    obtain ⟨e, -, rfl⟩ := Option.map_eq_some_iff.mp he
    exact e.records_recorded
  scalars t sc hsc v := by
    rw [definition_recorded] at hsc
    cases hd : schema.definition t with
    | scalar sc' =>
      rw [hd] at hsc
      cases hsc
      exact sc'.quiet_recorded v
    | entity e =>
      rw [hd] at hsc
      cases hsc
  force _ _ := rfl
  loader loader hl name := by
    obtain ⟨l, -, rfl⟩ := Option.map_eq_some_iff.mp hl
    exact (l name).quiet_recorded

end Schema

end EntityQuery
