import EntityQuery.Proofs.Execution.Answering
import EntityQuery.Proofs.Execution.Settling

/-!
# Promises of fields

The promises that an execution makes for the fields of an entity come to what the fields mean.

* `Promises`: steps that give a promise of values with a meaning; `PromisesAll`: of a list of promises.
* `promisesAll_mapM`, `does_together`: lists of promises, and the promise of all their values.
* **`promises_settleField`**: a field, from the answer of its resolver to its value or to null.
-/

namespace EntityQuery

open Lookup Session Execution

variable {σ α β : Type}

/-- What the outcomes of executions come to. -/
abbrev Post := Outcome Payload → Multiset Failure → Prop

/-- What promises of executions come to. -/
abbrev Prospects := List (Prospect (Outcome Payload) (Multiset Failure))

/-- A value with a meaning, where the failures `d` have been met already. -/
def valuePost (P : Meaning) (d : Multiset Failure) : Post :=
  fun o e => ∃ v, o = .ok (.value v) ∧ P v (d + e)

/-- The conditions on a list of outcomes make them values with meanings, where the failures `d` have
been met already. -/
structure Fulfil (φs : Prospects) (d : Multiset Failure) (Ps : List Meaning) : Prop where
  ok : ∀ φ ∈ φs, ∀ f e, ¬ φ.settles (.error f) e
  together : ∀ vs e, Together (φs.map okPost) vs e →
    ∃ us, vs = us.map Payload.value ∧ Together Ps us (d + e)

/-- The steps give a promise of values with a meaning. -/
def Promises (C : Terms (World σ) (Multiset Failure)) (a : Attempt σ Promise) (P : Meaning) : Prop :=
  Does C .empty a.run fun r T h d => ∃ p, r = .ok p ∧ Future C p (valuePost P d) T h

/-- The steps give promises of values with meanings. -/
def PromisesAll (C : Terms (World σ) (Multiset Failure)) (a : Attempt σ (List Promise))
    (Ps : List Meaning) : Prop :=
  Does C .empty a.run fun r T h d => ∃ ps φs, r = .ok ps ∧ Futures C ps φs T h ∧ Fulfil φs d Ps

/-! ## Lists of promises -/

section

variable {Ps Ps' : List Meaning} {φs φs' : Prospects} {d d' : Multiset Failure}

theorem fulfil_nil : Fulfil [] 0 [] := by
  refine ⟨fun φ h => absurd h List.not_mem_nil, fun vs e h => ?_⟩
  cases h
  exact ⟨[], rfl, by simpa using Together.nil⟩

theorem fulfil_single (P : Meaning) (d : Multiset Failure) : Fulfil [valuePost P d] d [P] := by
  refine ⟨fun φ h f e hφ => ?_, fun vs e h => ?_⟩
  · obtain rfl := List.mem_singleton.mp h
    obtain ⟨v, hv, -⟩ := hφ
    cases hv
  · cases h with
    | cons hv hrest =>
      cases hrest
      obtain ⟨v, hv, hP⟩ := hv
      cases hv
      rw [← add_assoc]
      exact ⟨[v], rfl, .cons hP .nil⟩

theorem Fulfil.append (h : Fulfil φs d Ps) (h' : Fulfil φs' d' Ps') :
    Fulfil (φs ++ φs') (d + d') (Ps ++ Ps') := by
  refine ⟨fun φ hφ => ?_, fun vs e hvs => ?_⟩
  · rcases List.mem_append.mp hφ with hφ | hφ
    · exact h.ok φ hφ
    · exact h'.ok φ hφ
  · rw [List.map_append] at hvs
    obtain ⟨us, ws, e₁, e₂, rfl, rfl, h₁, h₂⟩ := together_append hvs
    obtain ⟨us', rfl, hus⟩ := h.together us e₁ h₁
    obtain ⟨ws', rfl, hws⟩ := h'.together ws e₂ h₂
    refine ⟨us' ++ ws', (List.map_append ..).symm, ?_⟩
    rw [add_add_add_comm]
    exact hus.append hws

variable {C : Terms (World σ) (Multiset Failure)} {ps ps' : List Promise} {T T' : Tasks σ}
  {h h' : Parts σ}

/-- Promises beside others. -/
theorem PromisesAll.beside {b : Attempt σ (List Promise)} (hb : PromisesAll C b Ps')
    (hf : Futures C ps φs T h) (hφ : Fulfil φs d Ps) :
    Does C h b.run fun r T' h' d' => ∃ ps' φs', r = .ok ps' ∧
      Futures C (ps ++ ps') φs' (T + T') h' ∧ Fulfil φs' (d + d') (Ps ++ Ps') := by
  refine (hf.beside (Q := fun r ps' φs' d' => r = .ok ps' ∧ Fulfil φs' d' Ps')
    (Does.mono hb ?_)).mono ?_
  · rintro r T' h' d' ⟨ps', φs', rfl, hf', hφ'⟩
    exact ⟨ps', φs', hf', rfl, hφ'⟩
  · rintro r T' h' d' ⟨ps', φs', hf', rfl, hφ'⟩
    exact ⟨ps', _, rfl, hf', hφ.append hφ'⟩

/-- One promise beside others. -/
theorem Promises.beside {a : Attempt σ Promise} {P : Meaning} (hp : Promises C a P)
    (hf : Futures C ps φs T h) (hφ : Fulfil φs d Ps) :
    Does C h a.run fun r T' h' d' => ∃ p φs', r = .ok p ∧
      Futures C (ps ++ [p]) φs' (T + T') h' ∧ Fulfil φs' (d + d') (Ps ++ [P]) := by
  refine (hf.beside (Q := fun r ps' φs' d' => ∃ p, r = .ok p ∧ ps' = [p] ∧
    Fulfil φs' d' [P]) (Does.mono hp ?_)).mono ?_
  · rintro r T' h' d' ⟨p, rfl, hf'⟩
    exact ⟨[p], _, hf'.single, p, rfl, rfl, fulfil_single P d'⟩
  · rintro r T' h' d' ⟨_, _, hf', p, rfl, rfl, hφ'⟩
    exact ⟨p, _, rfl, hf', hφ.append hφ'⟩

end

section

variable {x : Execution σ} {s : Session σ} {lax : Prop}

/-- Promises for each item of a list. -/
theorem promisesAll_mapM {f : β → Attempt σ Promise} {P : β → Meaning} (items : List β)
    (hf : ∀ b ∈ items, Promises (x.terms s lax) (f b) (P b)) :
    PromisesAll (x.terms s lax) (items.mapM f) (items.map P) := by
  induction items with
  | nil => exact does_return ⟨[], [], rfl, .nil _, fulfil_nil⟩
  | cons b rest ih =>
    obtain ⟨hb, hrest⟩ := List.forall_mem_cons.mp hf
    rw [List.mapM_cons]
    refine Does.attempt_bind ((hb.beside (.nil .empty) fulfil_nil).mono ?_)
    rintro _ T h d ⟨p, φs, rfl, hf, hφ⟩
    refine Does.attempt_bind (((ih hrest).beside hf hφ).mono ?_)
    rintro _ T' h' d' ⟨ps, φs', rfl, hf', hφ'⟩
    refine does_return ⟨p :: ps, φs', rfl, by simpa using hf', by simpa using hφ'⟩

theorem Attempt.ofRun_bind (w : Run σ α) (k : α → Run σ β) :
    Attempt.ofRun (w >>= k) = Attempt.ofRun w >>= fun a => Attempt.ofRun (k a) :=
  LawfulMonadLift.monadLift_bind (m := Run σ) (n := ExceptT Fault (Run σ)) w k

theorem Attempt.ofRun_mapM {f : β → Run σ Promise} (items : List β) :
    Attempt.ofRun (items.mapM f) = items.mapM fun b => Attempt.ofRun (f b) := by
  induction items with
  | nil => rfl
  | cons b rest ih =>
    rw [List.mapM_cons, List.mapM_cons, ofRun_bind]
    congr 1
    funext p
    rw [ofRun_bind, ih]
    rfl

theorem Execution.serves_terms : (x.terms s lax).Serves x fun f => {f} where
  queue := rfl
  count hnext := does_count (by simpa only [zero_add] using hnext)
  fail := does_fail

/-- **A promise of the values of promises, made into one.** -/
theorem does_together {ps : List Promise} {φs : Prospects} {T : Tasks σ} {h : Parts σ}
    {d : Multiset Failure} {Ps : List Meaning} (hf : Futures (x.terms s lax) ps φs T h)
    (hφ : Fulfil φs d Ps) {join : List Json → Json} {P : Meaning}
    (hP : ∀ us es, Together Ps us es → P (join us) es) :
    Does (x.terms s lax) h (x.together ps join) fun p T' h' d' => d' = 0 ∧
      Future (x.terms s lax) p (valuePost P d) (T + T') h' := by
  refine does_joined serves_terms hf hφ.ok (fun vs e hvs => ?_) fun _ _ _ _ _ => trivial
  obtain ⟨us, rfl, hus⟩ := hφ.together vs e hvs
  have hid : us.map (Payload.json ∘ Payload.value) = us := List.map_id us
  refine ⟨_, rfl, ?_⟩
  rw [List.map_map, hid]
  exact hP us _ hus

/-! ## Fields -/

/-- A promise of null, with a failure that is kept. -/
theorem promises_refuse (f : Failure) (place : Location) :
    Promises (x.terms s lax) (Attempt.ofRun (x.refuse f place)) fun v es =>
      v = .null ∧ es = {f.located [place]} := by
  let met : Multiset Failure := {f.located [place]}
  have hnull : valuePost (fun v es => v = .null ∧ es = met) met (.ok (.value .null)) 0 :=
    ⟨.null, rfl, rfl, add_zero _⟩
  refine Does.ofRun ((does_refuse serves_terms f place
    (φ := valuePost (fun v es => v = .null ∧ es = met) met) hnull).mono ?_)
  rintro p T h _ ⟨rfl, hp⟩
  exact ⟨p, rfl, hp⟩

/-- What completing the value of a resolver does. -/
def Completes (C : Terms (World σ) (Multiset Failure))
    (a : Attempt σ (Thenable Payload (World σ)))
    (completes : Except Failure Json → Multiset Failure → Prop) : Prop :=
  Does C .empty a.run fun r T h d =>
    match r with
    | .ok th => th.Leads C (valuePost (fun v es => completes (.ok v) es) d) T h
    | .error f => T = 0 ∧ completes (.error f.toFailure) d

/-- **A field, from the answer of its resolver to its value or to null.** -/
theorem promises_settleField {place : Location} {c : Callback σ (Answer σ)}
    {complete : Json → Attempt σ (Thenable Payload (World σ))}
    {completes : Json → Except Failure Json → Multiset Failure → Prop}
    (hregular : lax ∨ RegularResolver c)
    (hcomplete : ∀ w, Resolves c (.ok w) → Completes (x.terms s lax) (complete w) (completes w)) :
    Promises (x.terms s lax) (Attempt.ofRun (x.settleField place c complete))
      (FieldMeans place c completes) := by
  -- the value of the resolver, completed
  let completed : Post := fun o e =>
    (∃ w v, Resolves c (.ok w) ∧ o = .ok (.value v) ∧ completes w (.ok v) e) ∨
    (∃ w f, Resolves c (.ok w) ∧ o = .error f ∧ completes w (.error f) e) ∨
    ∃ f, o = .error f ∧ Resolves c (.error f) ∧ e = 0
  refine Does.ofRun ((does_settleField serves_terms (acts_resolver c hregular)
    (ψ := fun _ => completed) (χ := fun _ => valuePost (FieldMeans place c completes) 0)
    ?_ ?_ ?_ ?_ (fun _ _ h => h) fun _ _ h => h).mono ?_)
  · rintro ⟨⟩ v e ⟨rfl, r, hr, hv⟩
    cases r with
    | error f => cases hv
    | ok w =>
      cases hv
      refine (hcomplete w hr).mono fun r T h d hc => ?_
      cases r with
      | ok th =>
        refine Thenable.Leads.mono hc ?_
        rintro o e' ⟨v, rfl, hv⟩
        exact .inl ⟨w, v, hr, rfl, by simpa using hv⟩
      | error f =>
        obtain ⟨rfl, hc⟩ := hc
        exact ⟨rfl, .inr (.inl ⟨w, _, hr, rfl, by simpa using hc⟩)⟩
  · rintro ⟨⟩ f e ⟨rfl, r, hr, hv⟩
    cases r with
    | ok w => cases hv
    | error g =>
      cases hv
      exact .inr (.inr ⟨f, rfl, hr, rfl⟩)
  · rintro ⟨⟩ v e (⟨w, v, hr, hv, hc⟩ | ⟨w, f, -, hv, -⟩ | ⟨f, hv, -, -⟩)
    · cases hv
      exact ⟨v, rfl, by simpa using .completed hr hc⟩
    · cases hv
    · cases hv
  · rintro ⟨⟩ f e (⟨w, v, -, hv, -⟩ | ⟨w, f, hr, hv, hc⟩ | ⟨f, hv, hr, rfl⟩)
    · cases hv
    · cases hv
      exact ⟨.null, rfl, by simpa using .failed hr hc⟩
    · cases hv
      exact ⟨.null, rfl, by simpa using .unresolved hr⟩
  · rintro p T h _ ⟨⟨⟩, _, rfl, rfl, hp⟩
    exact ⟨p, rfl, by simpa using hp⟩

end

end EntityQuery
