import EntityQuery.Proofs.Execution.Following
import EntityQuery.Proofs.Execution.Meaning

/-!
# Settling fields and queries

A field is settled with its completed value, or with null where its resolver or its completion fails; a
query is settled likewise. What the promises come to is said on any terms, from what the resolver and the
completion come to.

* `Count`: what an execution counts.
* `Terms.Keep`: the terms are those of an execution, with the effects of counting work and of keeping a
  failure. `Terms.Serves`: counting work has no effect.
* `does_joined`: a promise of the values of promises.
* **`does_settleField`**, **`does_queryOn`**: a field, and a query on an entity.
-/

namespace EntityQuery

open Execution

variable {σ α E ι : Type} [AddCommMonoid E] {C : Terms (World σ) E} {x : Execution σ}

/-- What an execution counts: a query, a field whose resolver is called, a field that comes to a value, or
one that fails. -/
inductive Count
  | query
  | execution
  | completion
  | failure
  deriving DecidableEq, Repr

/-- Counts one more. -/
def Count.add : Count → Tally → Tally
  | query => Tally.addQuery
  | execution => Tally.addExecution
  | completion => Tally.addCompletion
  | failure => Tally.addFailure

/-- The terms are those of an execution: counting has the effect `counted`, and keeping a failure `f` has
the effect `met f`. -/
structure Terms.Keep (C : Terms (World σ) E) (x : Execution σ) (counted : Count → E)
    (met : Failure → E) : Prop where
  queue : x.queue = C.queue
  count : ∀ {α : Type} {c : Count} {next : Unit → Run σ α} {h : Parts σ}
    {Q : α → Tasks σ → Parts σ → E → Prop},
    (Does C h (next ()) fun a T h d => Q a T h (counted c + d)) →
    Does C h ((x.count c.add).bind next) Q
  fail : ∀ {α : Type} {f : Failure} {place : Location} {next : Unit → Run σ α} {h : Parts σ}
    {Q : α → Tasks σ → Parts σ → E → Prop},
    (Does C h (next ()) fun a T h d => Q a T h (met (f.located [place]) + d)) →
    Does C h ((x.fail f place).bind next) Q

/-- The terms are those of an execution: counting work has no effect, and keeping a failure `f` has the
effect `met f`. -/
abbrev Terms.Serves (C : Terms (World σ) E) (x : Execution σ) (met : Failure → E) : Prop :=
  C.Keep x (fun _ => 0) met

variable {counted : Count → E} {met : Failure → E} (hx : C.Keep x counted met)

include hx

/-- **A promise of the values of promises, made into one.** -/
theorem does_joined {ps : List Promise} {φs : List (Prospect (Outcome Payload) E)} {T : Tasks σ}
    {h : Parts σ} (hf : Futures C ps φs T h) (hok : ∀ φ ∈ φs, ∀ f e, ¬ φ.settles (.error f) e)
    {join : List Json → Json} {φ : Prospect (Outcome Payload) E}
    (htogether : ∀ vs e, Together (φs.map okPost) vs e →
      φ.settles (.ok (.value (join (vs.map Payload.json)))) e)
    (hwaits : ∀ ψ ∈ φs, ∀ e e', ψ.waits e' → φ.waits (e + e')) :
    Does C h (x.together ps join) fun p T' h' d => d = 0 ∧ Future C p φ (T + T') h' := by
  let bundled : Prospect (Outcome Payload) E := ⟨fun o e => ∃ vs,
    o = .ok (Payload.bundle vs) ∧ Together (φs.map okPost) vs e, φ.waits⟩
  have hgather : Does C h (Promise.gather x.queue Payload.bundle (ps.map .promise))
      fun p T' h' d => d = 0 ∧ Future C p bundled (T + T') h' := by
    rw [hx.queue]
    exact hf.does_gather hok (fun vs e hvs => ⟨vs, rfl, hvs⟩) hwaits
  refine Does.bind (hgather.mono ?_)
  rintro p T' h' _ ⟨rfl, hp⟩
  have hmap : Does C h' (p.map fun p => .pure (.ok (.value (join p.items))))
      fun q T'' h'' d => d = 0 ∧ Future C q φ (T + T' + T'') h'' := by
    refine hp.does_thenOrElse ?_ ?_
    · rintro v e ⟨vs, hv, hvs⟩
      cases hv
      exact does_pure ⟨rfl, by rw [add_zero, Payload.items_bundle]; exact htogether vs e hvs⟩
    · rintro f e ⟨vs, hv, -⟩
      cases hv
  refine hmap.mono ?_
  rintro q T'' h'' _ ⟨rfl, hq⟩
  exact ⟨add_zero _, by simpa only [add_assoc] using hq⟩

/-- A promise of null, with a failure that is kept. -/
theorem does_refuse (f : Failure) (place : Location) {φ : Prospect (Outcome Payload) E}
    (hφ : φ.settles (.ok (.value .null)) 0) :
    Does C .empty (x.refuse f place) fun p T h d => d = met (f.located [place]) ∧
      Future C p φ T h := by
  refine hx.fail ?_
  unfold Execution.null
  rw [hx.queue]
  refine (does_settled φ hφ).mono ?_
  rintro p T h _ ⟨rfl, hp⟩
  exact ⟨add_zero _, hp⟩

variable [C.Panics] {B : ι → E → Prop} {φ ψ χ : ι → Prospect (Outcome Payload) E}

/-- **A field, from the answer of its resolver to its value or to null.** The resolver comes to `φ`, its
completed value to `ψ`, and the field to `χ`. -/
theorem does_settleField {place : Location} {c : Callback σ (Answer σ)}
    {complete : Json → Attempt σ (Thenable Payload (World σ))} (hc : c.Acts C (Responds C B φ))
    (hcomplete : ∀ i v e, (φ i).settles (.ok v) e →
      Does C .empty (complete v.json).run fun r T h d =>
        match r with
        | .ok th => th.Leads C ((ψ i).later (e + d)) T h
        | .error f => T = 0 ∧ (ψ i).settles (.error f.toFailure) (e + d))
    (hfault : ∀ i f e, (φ i).settles (.error f) e → (ψ i).settles (.error f) e)
    (hvalue : ∀ i v e, (ψ i).settles (.ok v) e →
      (χ i).settles (.ok v) (counted .execution + (e + counted .completion)))
    (hnull : ∀ i f e, (ψ i).settles (.error f) e → (χ i).settles (.ok (.value .null))
      (counted .execution + (e + (counted .failure + met (f.located [place])))))
    (hwait : ∀ i e, (φ i).waits e → (ψ i).waits e)
    (hwait' : ∀ i e, (ψ i).waits e → (χ i).waits (counted .execution + e)) :
    Does C .empty (x.settleField place c complete) fun p T h d =>
      ∃ i e, B i e ∧ d = e + counted .execution ∧ Future C p ((χ i).later d) T h := by
  refine Does.bind ((does_answered hx.queue hc).mono ?_)
  rintro source T h d ⟨i, hB, hsource⟩
  refine hx.count (c := .execution) (Does.bind ?_)
  have hand : Does C h (source.andThen fun p => (complete p.json).caught)
      fun p T' h' d' => d' = 0 ∧ Future C p ((ψ i).later d) (T + T') h' := by
    refine hsource.does_andThen ?_ (fun f e => hfault i f (d + e)) fun e => hwait i (d + e)
    intro v e hv
    refine Does.caught ((hcomplete i v (d + e) hv).mono fun r T' h' d' hr => ?_)
    cases r with
    | ok th => simpa only [Except.mapError, Prospect.later_later, add_assoc] using hr
    | error f => simpa only [Except.mapError, Prospect.settles_later, add_assoc] using hr
  refine hand.mono ?_
  rintro p T' h' _ ⟨rfl, hp⟩
  have hend : Does C h'
      (p.thenOrElse
        (fun p => do
          x.count Tally.addCompletion
          return .ok p)
        (fun f => do
          x.count Tally.addFailure
          x.fail f place
          return .ok (.value .null)))
      fun q T'' h'' d' => d' = 0 ∧
        Future C q ((χ i).later (d + counted .execution)) (T + T' + T'') h'' := by
    have shift : ∀ e e', d + counted .execution + (e + e') = counted .execution + (d + e + e') :=
      fun e e' => by rw [add_comm d, add_assoc, add_assoc]
    refine hp.does_thenOrElse ?_ ?_ fun e hw => ?_
    · intro v e hv
      refine hx.count (c := .completion) (does_pure ⟨rfl, ?_⟩)
      rw [Prospect.settles_later, add_zero, shift]
      exact hvalue i v _ hv
    · intro f e hv
      refine hx.count (c := .failure) (hx.fail (does_pure ⟨rfl, ?_⟩))
      rw [Prospect.settles_later, add_zero, shift]
      exact hnull i f _ hv
    · rw [Prospect.waits_later, ← add_zero e, shift, add_zero]
      exact hwait' i _ hw
  refine hend.mono ?_
  rintro q T'' h'' _ ⟨rfl, hq⟩
  exact ⟨i, d, hB, by simp, by simpa [add_assoc] using hq⟩

/-- **A query on an entity.** Its resolver comes to `φ`, and the query to `χ`. -/
theorem does_queryOn {name : String} {q : Query} {e : Entity σ}
    (hc : (e.fetch q.arguments x.context).Acts C (Responds C B φ))
    (hcomplete : ∀ i v d, (φ i).settles (.ok v) d →
      Does C .empty
        (x.completeEntity (rootSite x.schema x.context name q e) e v.json q).run
        fun r T h d' => ∃ p, r = .ok p ∧ Future C p ((χ i).later (d + d')) T h)
    (hok : ∀ i f d, ¬ (χ i).settles (.error f) d)
    (hnull : ∀ i f d, (φ i).settles (.error f) d →
      (χ i).settles (.ok (.value .null)) (d + met (f.located [.ofQuery name])))
    (hwait : ∀ i d, (φ i).waits d → (χ i).waits d) :
    Does C .empty (x.queryOn name q e) fun p T h d =>
      ∃ i, B i d ∧ Future C p ((χ i).later d) T h := by
  let completed (i : ι) : Prospect (Outcome Payload) E :=
    ⟨fun o d => (χ i).settles o d ∨ ∃ f, o = .error f ∧ (φ i).settles o d, (χ i).waits⟩
  refine Does.bind ((does_answered hx.queue hc).mono ?_)
  rintro source T h d ⟨i, hB, hsource⟩
  refine Does.bind ?_
  have hand : Does C h
      (source.andThen fun p => do
        return (← (x.completeEntity (rootSite x.schema x.context name q e) e p.json q).exposed).map
          .promise)
      fun p T' h' d' => d' = 0 ∧ Future C p ((completed i).later d) (T + T') h' := by
    refine hsource.does_andThen ?_ (fun f d' hf => .inr ⟨f, rfl, hf⟩) fun d' => hwait i (d + d')
    intro v d' hv
    refine Does.bind (Does.exposed ((hcomplete i v (d + d') hv).mono ?_))
    rintro _ T' h' d'' ⟨p, rfl, hp⟩
    refine does_pure ?_
    rw [add_zero, add_zero, Prospect.later_later, Prospect.later_later, ← add_assoc]
    exact hp.mono fun o e ho => .inl ho
  refine hand.mono ?_
  rintro p T' h' _ ⟨rfl, hp⟩
  have hend : Does C h'
      (p.recover fun f => do
        x.fail f (.ofQuery name)
        return .ok (.value .null))
      fun q T'' h'' d' => d' = 0 ∧ Future C q ((χ i).later d) (T + T' + T'') h'' := by
    refine hp.does_thenOrElse ?_ ?_
    · rintro v d' (hv | ⟨f, hv, -⟩)
      · exact does_pure ⟨rfl, by simpa using hv⟩
      · cases hv
    · rintro f d' (hv | ⟨f, -, hv⟩)
      · exact absurd hv (hok i f _)
      · refine hx.fail (does_pure ⟨rfl, ?_⟩)
        simpa [add_assoc] using hnull i _ _ hv
  refine hend.mono ?_
  rintro q T'' h'' _ ⟨rfl, hq⟩
  exact ⟨i, by simpa using hB, by simpa [add_assoc] using hq⟩

end EntityQuery
