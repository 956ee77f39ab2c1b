import EntityQuery.Proofs.Execution.Meaning
import EntityQuery.Proofs.Schema.Tandem

/-!
# Schemas beside themselves

A schema goes together with itself, in two sessions, where its callbacks come to the same in both of them.

* `Schema.Callbacks`: what holds of all callbacks of a schema.
* `Answer.Timely`, `Schema.Timely`: tasks behind answers that do not panic.
* `Schema.Blind`: resolvers that do not look at whether types are loaded on demand.
* **`Pace.definitions_self`**: definitions stand in for themselves where the callbacks come to the same.
-/

namespace EntityQuery

variable {σ α β : Type}

/-- What holds of the work behind an answer. -/
def Answer.Holds (Q : Callback σ Json → Prop) : Answer σ → Prop
  | .deferred compute => Q compute
  | .settling _ _ finish => Q finish
  | _ => True

/-- What holds of all callbacks of a schema, and of the work behind the answers of its resolvers. -/
structure Schema.Callbacks (schema : Schema σ) (Q : ∀ {α : Type}, Callback σ α → Prop) : Prop where
  resolver : ∀ c, schema.Calls c → Q c ∧ ∀ a, c.Gives (.ok a) → a.Holds Q
  rule : ∀ t e a v, schema.entity? t = some e → a ∈ e.attributes → Q (a.checkRule v)
  serialize : ∀ t sc v, schema.definition t = .scalar sc → Q (sc.serialize v)
  parse : ∀ t sc v, schema.definition t = .scalar sc → Q (sc.parse v)

theorem Answer.Holds.mono {Q Q' : Callback σ Json → Prop} {a : Answer σ} (h : a.Holds Q)
    (hQ : ∀ {c}, Q c → Q' c) : a.Holds Q' := by
  cases a with
  | deferred compute => exact hQ h
  | settling home hops finish => exact hQ h
  | _ => trivial

theorem Schema.Callbacks.mono {schema : Schema σ} {Q Q' : ∀ {α : Type}, Callback σ α → Prop}
    (h : schema.Callbacks Q) (hQ : ∀ {α : Type} {c : Callback σ α}, Q c → Q' c) : schema.Callbacks Q' where
  resolver c hc := ⟨hQ (h.resolver c hc).1, fun a ha => ((h.resolver c hc).2 a ha).mono hQ⟩
  rule t e a v he ha := hQ (h.rule t e a v he ha)
  serialize t sc v hd := hQ (h.serialize t sc v hd)
  parse t sc v hd := hQ (h.parse t sc v hd)

/-- No task behind the answer panics. -/
def Answer.Timely : Answer σ → Prop
  | .settling _ hops finish => hops = 0 ∨ ∀ p, ¬finish.Gives (.error (.panic p))
  | _ => True

/-- No task behind an answer of a resolver panics. -/
def Schema.Timely (schema : Schema σ) : Prop := ∀ c, schema.Calls c → ∀ a, c.Gives (.ok a) → a.Timely

/-- The resolvers do not look at whether types are loaded on demand. -/
structure Schema.Blind (schema : Schema σ) : Prop where
  attributes : ∀ t e a, schema.entity? t = some e → a ∈ e.attributes → ∀ v (site : Site) b b',
    a.resolve v (site.seen b) = a.resolve v (site.seen b')
  links : ∀ t e l, schema.entity? t = some e → l ∈ e.links → ∀ v (site : Site) b b',
    l.resolve v (site.seen b) = l.resolve v (site.seen b')

namespace Pace

variable {P : Pace σ} {F F' : Fault → Fault → Prop} {A A' : α → β → Prop}

theorem Calls.mono {c : Callback σ α} {c' : Callback σ β} (h : P.Calls F A c c')
    (hF : ∀ {f f'}, F f f' → F' f f') (hA : ∀ {a b}, A a b → A' a b) : P.Calls F' A' c c' := by
  intro s s' hs
  obtain ⟨r, r', app, app', hc, hc', hs, hr⟩ := h s s' hs
  refine ⟨r, r', app, app', hc, hc', hs, ?_⟩
  cases hr with
  | ok h => exact .ok (hA h)
  | error h => exact .error (hF h)

theorem faults_self (f : Fault) : P.Faults f f := P.failure_refl f.toFailure

theorem paired_self (f : Fault) : P.Paired f f := by
  cases f with
  | failure f => exact .failure (P.failure_refl f)
  | panic p => exact .panic (P.failure_refl _)

/-- Calls that come to the same faults. -/
theorem Calls.faults {c : Callback σ α} {c' : Callback σ β} (h : P.Calls Eq A c c') :
    P.Calls P.Faults A c c' :=
  h.mono (fun he => he ▸ faults_self _) id

/-- An answer stands in for itself, where its work comes to the same and its tasks do not panic. -/
theorem answers_self {a : Answer σ} (h : a.Holds fun c => P.Calls Eq Eq c c)
    (htimely : P.halts ∨ a.Timely) : P.Answers a a := by
  cases a with
  | ready v => exact .ready v
  | stuck home => exact .stuck home
  | deferred c => exact .deferred (Calls.faults h)
  | settling home hops c =>
    have hc : P.Calls Eq Eq c c := h
    refine .settling home hops (fun _ => hc.mono (fun he => he ▸ paired_self _) id) fun hhops => ?_
    intro s s' hs
    obtain ⟨r, r', app, app', hr, hr', hs, he⟩ := hc s s' hs
    refine ⟨r, r', app, app', hr, hr', hs, ?_⟩
    cases he with
    | ok h => exact .ok h
    | @error f _ he =>
      subst he
      cases f with
      | failure f => exact .error (.failure (P.failure_refl f))
      | panic p =>
        refine .error (.panic (htimely.resolve_right fun ht => ?_))
        exact (Or.resolve_left ht hhops) p ⟨_, _, hr⟩

/-- A resolver stands in for itself. -/
theorem resolvers_self {c : Callback σ (Answer σ)} (h : P.Calls Eq Eq c c)
    (ha : ∀ a, c.Gives (.ok a) → P.Answers a a) : P.Resolvers c c := by
  intro s s' hs
  obtain ⟨r, r', app, app', hc, hc', hs, hr⟩ := h s s' hs
  rw [hc, hc']
  cases hr with
  | @ok a _ he =>
    subst he
    exact .answer hs (ha a ⟨_, _, hc⟩)
  | @error f _ he =>
    subst he
    exact .fault hs (faults_self f)

/-- **Definitions stand in for themselves** where the callbacks of the schema come to the same. -/
theorem definitions_self {schema : Schema σ} (hseen : P.onDemand = P.onDemand' ∨ schema.Blind)
    (h : schema.Callbacks fun c => P.Calls Eq Eq c c) (htimely : P.halts ∨ schema.Timely) (t : NamedType) :
    P.Definitions (schema.definition t) (schema.definition t) := by
  have hresolver : ∀ c, schema.Calls c → P.Resolvers c c := fun c hc => by
    obtain ⟨hself, hanswers⟩ := h.resolver c hc
    exact resolvers_self hself fun a ha =>
      answers_self (hanswers a ha) (htimely.imp id fun ht => ht c hc a ha)
  cases hd : schema.definition t with
  | scalar sc => exact .scalar ⟨fun v => (h.serialize t sc v hd).faults, fun v => h.parse t sc v hd⟩
  | entity e =>
    have he : schema.entity? t = some e := by simp [Schema.entity?, hd]
    refine .entity ⟨rfl, rfl, rfl, rfl, fun arguments context =>
      hresolver _ (.entity he arguments context), ?_, ?_, ?_⟩
    · refine List.forall₂_same.mpr fun a ha => ⟨rfl, rfl, fun reference site => ?_, fun v =>
        (h.rule t e a v he ha).mono (fun he => he ▸ faults_self _) fun _ => trivial⟩
      have hsame : a.resolve reference (site.seen P.onDemand) =
          a.resolve reference (site.seen P.onDemand') :=
        hseen.elim (fun hb => by rw [hb]) fun hb => hb.attributes t e a he ha reference site _ _
      exact hsame ▸ hresolver _ (.field he ha reference _)
    · exact List.forall₂_same.mpr fun a ha => ⟨rfl, rfl, fun reference arguments =>
        hresolver _ (.act he ha reference arguments)⟩
    · refine List.forall₂_same.mpr fun l hl => ⟨rfl, rfl, rfl, fun reference site => ?_⟩
      have hsame : l.resolve reference (site.seen P.onDemand) =
          l.resolve reference (site.seen P.onDemand') :=
        hseen.elim (fun hb => by rw [hb]) fun hb => hb.links t e l he hl reference site _ _
      exact hsame ▸ hresolver _ (.link he hl reference _)

end Pace

end EntityQuery
