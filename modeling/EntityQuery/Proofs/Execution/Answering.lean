import EntityQuery.Proofs.Execution.Following
import EntityQuery.Proofs.Execution.Terms

/-!
# Answers of resolvers

The promise that an execution makes of the answer of a resolver comes to what the answer means.

* `Answer.Regular`: an answer that leaves the queue neither waiting forever nor in a panic.
* `Answer.post`, `resolverPost`: what a promise of an answer comes to.
* **`acts_resolver`**: calling a resolver comes to a promise of what it means.
-/

namespace EntityQuery

open Lookup Session Execution

variable {σ : Type}

/-- The answer is not a promise of the execution's own queue that nothing settles, and where a
promise is settled by later tasks, these do not panic. -/
def Answer.Regular : Answer σ → Prop
  | .ready _ => True
  | .deferred _ => True
  | .settling _ hops finish => hops = 0 ∨ ∀ p, ¬ finish.Gives (.error (.panic p))
  | .stuck home => home = .foreign

/-- What a promise of an answer comes to, without an effect. -/
def Answer.post (a : Answer σ) (o : Outcome Payload) (e : Multiset Failure) : Prop :=
  e = 0 ∧ ∃ r, a.Means r ∧ o = outcomeOf r

/-- What a promise of what a resolver answers comes to, without an effect. -/
def resolverPost (c : Callback σ (Answer σ)) (o : Outcome Payload) (e : Multiset Failure) : Prop :=
  e = 0 ∧ ∃ r, Resolves c r ∧ o = outcomeOf r

/-- The resolver answers regularly. -/
def RegularResolver (c : Callback σ (Answer σ)) : Prop := ∀ a, c.Gives (.ok a) → a.Regular

theorem Sample.regular (secret : String) :
    ∀ c, (Sample.schema secret).Calls c → RegularResolver c := by
  rintro c hc a ⟨⟨⟩, ⟨⟩, ha⟩
  cases hc with
  | entity he arguments context =>
    cases eq_of_entity? he
    cases ha
    trivial
  | field he hmem reference site =>
    cases eq_of_entity? he
    rcases List.mem_cons.mp hmem with rfl | hmem
    · cases ha
      refine .inr ?_
      rintro p ⟨⟨⟩, ⟨⟩, hp⟩
      cases hp
    · cases List.mem_singleton.mp hmem
      cases ha
      trivial
  | act he hmem reference arguments =>
    cases eq_of_entity? he
    cases hmem
  | link he hmem reference site =>
    cases eq_of_entity? he
    cases List.mem_singleton.mp hmem
    cases ha
    refine .inr ?_
    rintro p ⟨⟨⟩, ⟨⟩, hp⟩
    cases hp

section

variable {x : Execution σ} {s : Session σ} {lax : Prop}

/-- On lax terms, or where the answer is regular, it comes to what it means. -/
theorem Answer.heads (a : Answer σ) (hregular : lax ∨ a.Regular) :
    a.Heads (x.terms s lax) (fun d => d = 0) a.post := by
  have settles : ∀ c : Callback σ Json, (∀ r, c.Gives r → a.Means (r.mapError Fault.toFailure)) →
      ∀ r d, c.Gives r ∧ d = 0 → a.post (outcomeOf (r.mapError Fault.toFailure)) d :=
    fun c hc r d hr => ⟨hr.2, _, hc r hr.1, rfl⟩
  cases a with
  | ready v => exact .ready ⟨rfl, _, .ready v, rfl⟩
  | deferred compute =>
    exact .deferred (compute.acts.mono (settles compute fun r hr => .deferred hr))
  | settling home hops finish =>
    refine .settling (finish.acts.mono fun r d hr => ?_)
    refine ⟨settles finish (fun r hr => .settling hr) r d hr, hr.2, fun hhops p hp => ?_⟩
    refine hregular.resolve_right fun h => h.resolve_left hhops p ?_
    rw [← hp]
    exact hr.1
  | stuck home =>
    cases home with
    | own => exact .stuck (hregular.resolve_right fun h => by cases h) trivial
    | foreign => exact .dry ⟨rfl, _, .stuck, rfl⟩

/-- **Calling a resolver comes to a promise of what it means.** -/
theorem acts_resolver (c : Callback σ (Answer σ)) (hregular : lax ∨ RegularResolver c) :
    c.Acts (x.terms s lax) (Responds (x.terms s lax) (fun _ d => d = 0)
      fun _ : Unit => (resolverPost c : Prospect (Outcome Payload) (Multiset Failure))) := by
  refine c.acts.mono ?_
  rintro r _ ⟨hr, rfl⟩
  refine ⟨(), rfl, ?_⟩
  cases r with
  | error f => exact ⟨rfl, _, .fault hr, rfl⟩
  | ok a =>
    simp only [zero_add, Prospect.later_zero]
    refine (a.heads (hregular.imp_right fun h => h a hr)).mono ?_
    rintro o e ⟨he, r, hm, rfl⟩
    exact ⟨he, r, .answer hr hm, rfl⟩

end

end EntityQuery
