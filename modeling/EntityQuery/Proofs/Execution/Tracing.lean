import EntityQuery.Proofs.Execution.Fields
import EntityQuery.Proofs.Execution.Logging

/-!
# Executions follow trails

What happens in an execution is a trail: each part of it calls what the document asks for there, once and
in order, or it meets a defect; and all that it has put off has been done by the time that its promise is
settled. The induction is on the query.

* `Chains`: a way to say what lists of promises come to, where the calls for one list follow those for the
  other. **`Chains.append`**, `Chains.mapM`: steps that give such lists.
* `Guide.Steers`: the schema leads where the guide says. `Traces`: steps that give a promise with a trail;
  `TracesAll`: of a list of promises.
* `traces_settleField`, `traces_link`: fields.
* **`traces_completeEntity`**: the fields of an entity. **`queries_trace`**: the queries of a document.
-/

namespace EntityQuery

open Execution Guide

variable {σ α β : Type}

/-! ## Lists of promises -/

theorem begun_nil (K : Event → Prop) : Begun K [] 0 :=
  ⟨fun _ h => absurd h List.not_mem_nil, fun _ _ h => absurd h (Multiset.notMem_zero _)⟩

/-- A defect is met before anything is called. -/
theorem begun_met (K : Event → Prop) (f : Defect) (k : Nat) : Begun K [] {(.met f, k)} :=
  ⟨fun _ h => absurd h List.not_mem_nil, fun _ _ h => nomatch Multiset.mem_singleton.mp h⟩

theorem Begun.append {K : Event → Prop} {ns ns' : List Nat} {d d' : Multiset Entry}
    (h : Begun K ns d) (h' : Begun K ns' d') : Begun K (ns ++ ns') (d + d') where
  places n hn := by
    rcases List.mem_append.mp hn with hn | hn
    · obtain ⟨e, he⟩ := h.places n hn
      exact ⟨e, Multiset.mem_add.mpr (.inl he)⟩
    · obtain ⟨e, he⟩ := h'.places n hn
      exact ⟨e, Multiset.mem_add.mpr (.inr he)⟩
  kind e n hn := (Multiset.mem_add.mp hn).elim (h.kind e n) (h'.kind e n)

section

variable {E A : Type} [AddCommMonoid E] {C : Terms (World (Recorded σ)) E} {entries : E →+ Multiset Entry}
  {K : Event → Prop} {of : A → List Nat → Prospect (Outcome Payload) E}
  {R : List (Prospect (Outcome Payload) E) → List Nat → E → List A → Prop}

variable (C entries K of R)

/-- A way to say what the prospects of a list of promises come to, with the places of their calls and after
what has had an effect by now: it says so of no promises, of a single one, and of one list after another,
if the calls for the second are later. -/
structure Chains : Prop where
  ordered : ∀ {d d' : E} {w w' w'' : World (Recorded σ)}, C.Step d w w' → C.Step d' w' w'' →
    Precedes (entries d) (entries d')
  none : R [] [] 0 []
  single : ∀ (P : A) (ns : List Nat) (d : E), R [(of P ns).later d] ns d [P]
  both : ∀ {φs φs' : List (Prospect (Outcome Payload) E)} {ns ns' : List Nat} {d d' : E} {Ps Ps' : List A},
    R φs ns d Ps → R φs' ns' d' Ps' → Begun K ns (entries d) → Begun K ns' (entries d') →
    Precedes (entries d) (entries d') → R (φs ++ φs') (ns ++ ns') (d + d') (Ps ++ Ps')

/-- The steps give a promise, and what it comes to is of a kind. -/
def Gives (a : Attempt (Recorded σ) Promise) (P : A) : Prop :=
  Does C .empty a.run fun r T h d => ∃ p ns, r = .ok p ∧ Future C p ((of P ns).later d) T h ∧
    Begun K ns (entries d)

/-- The steps give promises, whose calls are in order. -/
def GivesAll (a : Attempt (Recorded σ) (List Promise)) (Ps : List A) : Prop :=
  Does C .empty a.run fun r T h d => ∃ ps φs ns, r = .ok ps ∧ Futures C ps φs T h ∧ R φs ns d Ps ∧
    Begun K ns (entries d)

variable {C entries K of R} {Ps Ps' : List A}

/-- Promises beside others. -/
theorem GivesAll.beside {b : Attempt (Recorded σ) (List Promise)} {ps : List Promise}
    {φs : List (Prospect (Outcome Payload) E)} {T : Tasks (Recorded σ)} {h : Parts (Recorded σ)}
    (hb : GivesAll C entries K R b Ps) (hf : Futures C ps φs T h) :
    Does C h b.run fun r T' h' d => ∃ ps' φs' ns, r = .ok ps' ∧
      Futures C (ps ++ ps') (φs ++ φs') (T + T') h' ∧ R φs' ns d Ps ∧ Begun K ns (entries d) := by
  refine (hf.beside (Q := fun r ps' φs' d => ∃ ns, r = .ok ps' ∧ R φs' ns d Ps ∧
    Begun K ns (entries d)) (Does.mono hb ?_)).mono ?_
  · rintro r T' h' d ⟨ps', φs', ns, rfl, hf', hc, hbegun⟩
    exact ⟨ps', φs', hf', ns, rfl, hc, hbegun⟩
  · rintro r T' h' d ⟨ps', φs', hf', ns, rfl, hc, hbegun⟩
    exact ⟨ps', φs', ns, rfl, hf', hc, hbegun⟩

namespace Chains

variable (hR : Chains C entries K of R)

include hR

/-- **One list of promises after another**, and their calls likewise. -/
theorem append {a b : Attempt (Recorded σ) (List Promise)} (ha : GivesAll C entries K R a Ps)
    (hb : GivesAll C entries K R b Ps') :
    GivesAll C entries K R (do
      let ps ← a
      let ps' ← b
      return ps ++ ps') (Ps ++ Ps') := by
  refine Does.attempt_bind_of_steps hR.ordered (Does.mono ha ?_)
  rintro _ T h d ⟨ps, φs, ns, rfl, hf, hc, hbegun⟩
  refine Does.attempt_bind ((hb.beside hf).mono ?_)
  rintro _ T' h' d' ⟨ps', φs', ns', rfl, hf', hc', hbegun'⟩
  refine does_return fun hlt => ?_
  rw [add_zero] at hlt ⊢
  rw [add_zero]
  refine ⟨ps ++ ps', φs ++ φs', ns ++ ns', rfl, hf', hR.both hc hc' hbegun hbegun' hlt, ?_⟩
  rw [map_add]
  exact hbegun.append hbegun'

theorem nil : GivesAll C entries K R (pure []) [] := by
  refine does_return ⟨[], [], [], rfl, .nil _, hR.none, ?_⟩
  rw [map_zero]
  exact begun_nil K

/-- One promise, then a list of them. -/
theorem cons {a : Attempt (Recorded σ) Promise} {b : Attempt (Recorded σ) (List Promise)} {P : A}
    (ha : Gives C entries K of a P) (hb : GivesAll C entries K R b Ps) :
    GivesAll C entries K R (do
      let p ← a
      return p :: (← b)) (P :: Ps) := by
  have listed : GivesAll C entries K R (do return [← a]) [P] := by
    refine Does.attempt_bind (Does.mono ha ?_)
    rintro _ T h d ⟨p, ns, rfl, hf, hbegun⟩
    refine does_return ?_
    rw [add_zero, add_zero]
    exact ⟨[p], _, ns, rfl, hf.single, hR.single P ns d, hbegun⟩
  simpa only [bind_assoc, pure_bind, List.singleton_append] using hR.append listed hb

/-- Promises for each item of a list. -/
theorem mapM {f : β → Attempt (Recorded σ) Promise} {P : β → A} (items : List β)
    (hf : ∀ b ∈ items, Gives C entries K of (f b) (P b)) :
    GivesAll C entries K R (items.mapM f) (items.map P) := by
  induction items with
  | nil => exact hR.nil
  | cons b rest ih =>
    obtain ⟨hb, hrest⟩ := List.forall_mem_cons.mp hf
    rw [List.mapM_cons]
    exact hR.cons hb (ih hrest)

end Chains

end

/-! ## Promises with trails -/

/-- A promise of a value, once the log has the entries of a part; it may wait forever where an answer
keeps it waiting. -/
def Prospect.ofTrail (follows : Multiset Entry → Prop) :
    Prospect (Outcome Payload) (Multiset Entry) :=
  ⟨fun o t => (∃ v, o = .ok v) ∧ follows t, Stalled⟩

/-- The prospects, after the entries `d`, are those of trails with calls at the places `ns`. -/
structure Covers (φs : List (Prospect (Outcome Payload) (Multiset Entry))) (ns : List Nat)
    (d : Multiset Entry) (Ps : List Trail) : Prop where
  ok : ∀ φ ∈ φs, ∀ f t, ¬ φ.settles (.error f) t
  together : ∀ vs t, Together (φs.map okPost) vs t → Sequence Ps ns (d + t)
  waits : ∀ φ ∈ φs, ∀ t t', φ.waits t' → Stalled (d + (t + t'))

/-- The steps give a promise with a trail; what they begin with is of a kind. -/
def Traces (C : Terms (World (Recorded σ)) (Multiset Entry)) (K : Event → Prop)
    (a : Attempt (Recorded σ) Promise) (P : Trail) : Prop :=
  Does C .empty a.run fun r T h d => ∃ p ns, r = .ok p ∧
    Future C p ((Prospect.ofTrail (P ns)).later d) T h ∧ Begun K ns d

/-- The steps give promises with trails, whose calls are in order. -/
def TracesAll (C : Terms (World (Recorded σ)) (Multiset Entry)) (K : Event → Prop)
    (a : Attempt (Recorded σ) (List Promise)) (Ps : List Trail) : Prop :=
  Does C .empty a.run fun r T h d => ∃ ps φs ns, r = .ok ps ∧ Futures C ps φs T h ∧
    Covers φs ns d Ps ∧ Begun K ns d

section

variable {φs φs' : List (Prospect (Outcome Payload) (Multiset Entry))} {ns ns' : List Nat}
  {d d' : Multiset Entry} {Ps Ps' : List Trail} {K : Event → Prop}

theorem covers_nil : Covers [] [] 0 [] := by
  refine ⟨fun φ h => absurd h List.not_mem_nil, fun vs t h => ?_, fun φ h => absurd h List.not_mem_nil⟩
  cases h
  simpa using Sequence.nil

theorem covers_single (P : Trail) (ns : List Nat) (d : Multiset Entry) :
    Covers [(Prospect.ofTrail (P ns)).later d] ns d [P] := by
  refine ⟨fun φ h f t hφ => ?_, fun vs t h => ?_, fun φ h t t' hφ => ?_⟩
  · obtain rfl := List.mem_singleton.mp h
    obtain ⟨⟨v, hv⟩, -⟩ := hφ
    cases hv
  · cases h with
    | cons hv hrest =>
      cases hrest
      rw [add_zero]
      exact sequence_single hv.2
  · obtain rfl := List.mem_singleton.mp h
    refine Stalled.mono (t := d + t') hφ ?_
    rw [add_left_comm]
    exact Multiset.le_add_left _ _

theorem Covers.append (h : Covers φs ns d Ps) (h' : Covers φs' ns' d' Ps') (hb : Begun K ns d)
    (hb' : Begun K ns' d') (hlt : Precedes d d') :
    Covers (φs ++ φs') (ns ++ ns') (d + d') (Ps ++ Ps') := by
  refine ⟨fun φ hφ => ?_, fun vs t hvs => ?_, fun φ hφ t t' hw => ?_⟩
  · rcases List.mem_append.mp hφ with hφ | hφ
    · exact h.ok φ hφ
    · exact h'.ok φ hφ
  · rw [List.map_append] at hvs
    obtain ⟨us, ws, t₁, t₂, rfl, rfl, h₁, h₂⟩ := together_append hvs
    rw [add_add_add_comm]
    refine (h.together us t₁ h₁).append (h'.together ws t₂ h₂) fun n hn m hm => ?_
    obtain ⟨e, he⟩ := hb.places n hn
    obtain ⟨e', he'⟩ := hb'.places m hm
    exact hlt e n he _ he'
  · rcases List.mem_append.mp hφ with hφ | hφ
    · refine (h.waits φ hφ t t' hw).mono ?_
      rw [add_right_comm]
      exact Multiset.le_add_right _ _
    · refine (h'.waits φ hφ t t' hw).mono ?_
      rw [add_assoc]
      exact Multiset.le_add_left _ _

end

section

variable {x : Execution (Recorded σ)} {Good : Session (Recorded σ) → Prop} {K : Event → Prop}
  {Ps Ps' : List Trail}

theorem chains_logging : Chains (x.logging Good) (AddMonoidHom.id (Multiset Entry)) K
    (fun P ns => Prospect.ofTrail (P ns)) Covers where
  ordered := precedes_of_steps
  none := covers_nil
  single := covers_single
  both h h' hb hb' hlt := h.append h' hb hb' hlt

/-- **A promise of the values of promises, made into one.** -/
theorem traces_together {ps : List Promise}
    {φs : List (Prospect (Outcome Payload) (Multiset Entry))} {T : Tasks (Recorded σ)}
    {h : Parts (Recorded σ)} {ns : List Nat} {d : Multiset Entry}
    (hf : Futures (x.logging Good) ps φs T h) (hc : Covers φs ns d Ps) (join : List Json → Json) :
    Does (x.logging Good) h (x.together ps join) fun p T' h' d' => d' = 0 ∧
      Future (x.logging Good) p ((Prospect.ofTrail (Sequence Ps ns)).later d) (T + T') h' :=
  does_joined serves_logging hf hc.ok (fun vs t hvs => ⟨⟨_, rfl⟩, hc.together vs t hvs⟩)
    fun φ hφ t t' hw => hc.waits φ hφ t t' hw

theorem Traces.mono {a : Attempt (Recorded σ) Promise} {P P' : Trail}
    (ha : Traces (x.logging Good) K a P) (hP : ∀ ns t, P ns t → P' ns t) :
    Traces (x.logging Good) K a P' := by
  refine Does.mono ha ?_
  rintro _ T h d ⟨p, ns, rfl, hp, hbegun⟩
  exact ⟨p, ns, rfl, hp.mono fun o t ⟨hv, ht⟩ => ⟨hv, hP ns _ ht⟩, hbegun⟩

/-- A list of promises, made into one. -/
theorem TracesAll.together {a : Attempt (Recorded σ) (List Promise)}
    (ha : TracesAll (x.logging Good) K a Ps) (join : List Json → Json) :
    Traces (x.logging Good) K (do Attempt.ofRun (x.together (← a) join)) (Sequence Ps) := by
  refine Does.attempt_bind (Does.mono ha ?_)
  rintro _ T h d ⟨ps, φs, ns, rfl, hf, hc, hbegun⟩
  refine Does.ofRun ((traces_together hf hc join).mono ?_)
  rintro p T' h' _ ⟨rfl, hp⟩
  rw [add_zero]
  exact ⟨p, ns, rfl, hp, hbegun⟩

/-! ## Fields -/

/-- Nothing is called, and the promise is settled with null. -/
theorem traces_refuse (f : Failure) (place : Location) :
    Traces (x.logging Good) K (Attempt.ofRun (x.refuse f place)) nothing := by
  have hnull : (Prospect.ofTrail (nothing [])).settles (.ok (.value .null)) 0 :=
    ⟨⟨_, rfl⟩, rfl, rfl⟩
  refine Does.ofRun ((does_refuse serves_logging f place hnull).mono ?_)
  rintro p T h _ ⟨rfl, hp⟩
  exact ⟨p, [], rfl, by rwa [Prospect.later_zero], begun_nil K⟩

/-- Completing a value of a resolver adds the entries of a part to the log. -/
def CompletesBy (C : Terms (World (Recorded σ)) (Multiset Entry))
    (a : Attempt (Recorded σ) (Thenable Payload (World (Recorded σ))))
    (follows : Multiset Entry → Prop) : Prop :=
  Does C .empty a.run fun r T h d =>
    match r with
    | .ok th => th.Leads C ((Prospect.ofTrail follows).later d) T h
    | .error _ => T = 0 ∧ follows d

variable (hGood : ∀ s app, Good s → Good { s with app })

include hGood

/-- **A field, from the call of its resolver to its value or to null.** -/
theorem traces_settleField {place : Location} {call : Call}
    {c : Callback (Recorded σ) (Answer (Recorded σ))}
    {complete : Json → Attempt (Recorded σ) (Thenable Payload (World (Recorded σ)))}
    {follows : Json → Multiset Entry → Prop} (hc : c.Logs call)
    (hcalled : ∀ reply, K (.called call reply)) (hsettled : ∀ n r, K (.settled n r))
    (hcomplete : ∀ w, CompletesBy (x.logging Good) (complete w) (follows w)) :
    Traces (x.logging Good) K (Attempt.ofRun (x.settleField place c complete))
      (FieldTrail call follows) := by
  let completed (n : Nat) : Prospect (Outcome Payload) (Multiset Entry) :=
    ⟨fun _ t => FieldTrail call follows [n] t, Stalled⟩
  refine Does.ofRun ((does_settleField serves_logging (hc.responds hGood hcalled hsettled)
    (ψ := completed) (χ := fun n => Prospect.ofTrail (FieldTrail call follows [n]))
    ?_ ?_ ?_ ?_ (fun _ _ h => h) fun _ t h => by rwa [zero_add]).mono ?_)
  · rintro n v t ⟨r, hcome, hv⟩
    cases r with
    | error f => cases hv
    | ok w =>
      cases hv
      refine Does.mono (hcomplete w) fun r T h d hr => ?_
      cases r with
      | ok th =>
        refine Thenable.Leads.mono hr ?_ fun t' hw => ?_
        · rintro o t' ⟨-, hfollows⟩
          simp only [Prospect.settles_later, completed, add_assoc]
          exact .resolved hcome hfollows
        · simp only [Prospect.waits_later, completed, add_assoc] at hw ⊢
          exact hw.mono (Multiset.le_add_left _ _)
      | error f => exact ⟨hr.1, .resolved hcome hr.2⟩
  · rintro n f t ⟨r, hcome, hf⟩
    cases r with
    | ok w => cases hf
    | error g => exact .unresolved hcome
  · exact fun n v t h => ⟨⟨v, rfl⟩, by rwa [add_zero, zero_add]⟩
  · exact fun n f t h => ⟨⟨_, rfl⟩, by rwa [add_zero, add_zero, zero_add]⟩
  · rintro p T h _ ⟨n, d, hbegun, rfl, hp⟩
    rw [add_zero] at hp ⊢
    exact ⟨p, [n], rfl, hp, hbegun⟩

omit hGood

/-- Following what a link leads to. -/
theorem completes_linkedBy {complete : Json → Attempt (Recorded σ) Promise} {P : Json → Trail}
    (hc : ∀ w, Traces (x.logging Good) (fun _ => True) (complete w) (P w)) (w : Json) :
    CompletesBy (x.logging Good) (x.completeLinked complete w) (LinkedTrail P w) := by
  have one : ∀ w : Json, w.isNull = false → (∀ references, w ≠ .array references) →
      CompletesBy (x.logging Good) (do return .promise (← complete w)) (LinkedTrail P w) := by
    intro w hn ha
    refine Does.attempt_bind (Does.mono (hc w) ?_)
    rintro _ T h d ⟨p, ns, rfl, hp, -⟩
    refine does_return ?_
    rw [add_zero, add_zero]
    exact Future.mono hp fun o t ⟨hv, ht⟩ => ⟨hv, .one hn ha ht⟩
  cases w with
  | null => exact does_return ⟨rfl, ⟨_, rfl⟩, by simpa using .null⟩
  | array references =>
    refine Does.attempt_bind (Does.mono (chains_logging.mapM references fun w _ => hc w) ?_)
    rintro _ T h d ⟨ps, φs, ns, rfl, hf, hcovers, -⟩
    refine Does.attempt_bind (Does.ofRun ((traces_together hf hcovers .array).mono ?_))
    rintro p T' h' _ ⟨rfl, hp⟩
    refine does_return ?_
    rw [add_zero, add_zero, add_zero]
    exact Future.mono hp fun o t ⟨hv, ht⟩ => ⟨hv, .array ht⟩
  | bool b => exact one _ rfl fun _ h => by cases h
  | number n => exact one _ rfl fun _ h => by cases h
  | string t => exact one _ rfl fun _ h => by cases h
  | object fields => exact one _ rfl fun _ h => by cases h

end

/-! ## Guided executions -/

/-- The entry of the log is not a call of a field. -/
def Event.OfRoot (event : Event) : Prop :=
  ∀ call reply, event = .called call reply → ¬ call.OfField

/-- Following a link leads where the guide says: to an entity, or to a defect. -/
def Guide.Follows (G : Guide (Recorded σ)) (Known : Entity (Recorded σ) → Prop)
    (e : Entity (Recorded σ)) (l : Link (Recorded σ)) :
    Except Stop (NamedType × Entity (Recorded σ)) → Prop
  | .ok (_, target) => Known target ∧ G.leads e l (.ok target)
  | .error (.defect d) => G.leads e l (.error d)
  | .error (.fault _) => False
  | .error .exhausted => True

/-- What a query names is what the guide says: an entity, nothing, or a defect. -/
def Guide.Roots (G : Guide (Recorded σ)) (Known : Entity (Recorded σ) → Prop) (q : Query) :
    Except Stop (Option (Entity (Recorded σ))) → Prop
  | .ok e? => (∀ e, e? = some e → Known e) ∧ G.finds q (.ok e?)
  | .error (.defect d) => G.finds q (.error d)
  | .error (.fault _) => False
  | .error .exhausted => True

/-- Giving a value the type of an attribute meets the defect that the guide says, if any. -/
def Guide.Coerces (G : Guide (Recorded σ)) (a : Attribute (Recorded σ)) (v : Json) :
    Except Stop α → Prop
  | .ok _ => G.coerces a v none
  | .error (.defect d) => G.coerces a v (some d)
  | .error (.fault _) => G.coerces a v none
  | .error .exhausted => True

/-- Finding the type of an attribute for a value: then the value is given it. -/
def Guide.Types (G : Guide (Recorded σ)) (schema : Schema (Recorded σ))
    (Good : Session (Recorded σ) → Prop) (a : Attribute (Recorded σ)) (v : Json) :
    Except Stop Ty → Prop
  | .ok t => (t.serialize schema schema.find v).Upholds Good (G.Coerces a v)
  | .error e => G.Coerces a v (.error e : Except Stop Ty)

/-- In good sessions the schema leads where the guide says, from entities that are known. -/
structure Guide.Steers (G : Guide (Recorded σ)) (schema : Schema (Recorded σ))
    (Good : Session (Recorded σ) → Prop) (Known : Entity (Recorded σ) → Prop) : Prop where
  records : schema.Records
  setApp : ∀ s app, Good s → Good { s with app }
  known : ∀ e, Known e → ∃ t, schema.entity? t = some e
  untyped : ∀ e, Known e → ∀ a ∈ e.attributes, a.type? = none → ∀ v, G.coerces a v none
  resolve : ∀ e, Known e → ∀ a ∈ e.attributes, ∀ r, a.type? = some r → ∀ v,
    (r.resolve schema schema.find).Upholds Good (G.Types schema Good a v)
  follow : ∀ e, Known e → ∀ l ∈ e.links,
    (l.follow schema schema.find e.name).Upholds Good (G.Follows Known e l)

section

variable {x : Execution (Recorded σ)} {G : Guide (Recorded σ)}
  {Good : Session (Recorded σ) → Prop} {Known : Entity (Recorded σ) → Prop}
  {e : Entity (Recorded σ)}

/-- Using the schema in a completion. -/
theorem does_consultQuiet {lookup : Lookup (Recorded σ) α} {R : Except Stop α → Prop}
    {h : Parts (Recorded σ)} (hquiet : lookup.Quiet) (hl : lookup.Upholds Good R)
    {Q : Except Fault α → Tasks (Recorded σ) → Parts (Recorded σ) → Multiset Entry → Prop}
    (hok : ∀ a, R (.ok a) → Q (.ok a) 0 h 0)
    (hdefect : ∀ d, R (.error (.defect d)) → ∀ f k, Q (.error f) 0 h {(.met d, k)})
    (hfault : ∀ f, R (.error (.fault f)) → Q (.error f) 0 h 0) :
    Does (x.logging Good) h (x.consult lookup).run Q := by
  refine does_lookup enters_logging hquiet hl (fun a ha => does_return (hok a ha)) (fun d hd => ?_) hfault
  refine Does.attempt_bind (does_abort fun k => does_pure ?_)
  simpa using hdefect d hd _ k

/-- At a defect nothing is called, and the promise is settled with null. -/
theorem traces_abandon (K : Event → Prop) (d : Defect) :
    Traces (x.logging Good) K (do
      Attempt.ofRun (x.abort d)
      Attempt.ofRun x.null) (meets d) := by
  refine Does.attempt_bind (does_abort fun k => ?_)
  have hnull : ((Prospect.ofTrail (meets d [])).later {(.met d, k)}).settles (.ok (.value .null)) 0 :=
    ⟨⟨_, rfl⟩, rfl, k, add_zero _⟩
  refine Does.ofRun ((does_settled _ hnull).mono ?_)
  rintro p T h _ ⟨rfl, hp⟩
  rw [zero_add, add_zero]
  exact ⟨p, [], rfl, hp, begun_met K d k⟩

variable (hG : G.Steers x.schema Good Known)

include hG

theorem Guide.Steers.records_of_known (hk : Known e) : e.Records :=
  let ⟨t, ht⟩ := hG.known e hk
  hG.records.entities t e ht

/-- Completing an attribute calls no resolver, but may meet a defect. -/
theorem does_completeAttributeQuiet (hk : Known e) {a : Attribute (Recorded σ)}
    (ha : a ∈ e.attributes) (v : Json) (h : Parts (Recorded σ)) :
    Does (x.logging Good) h (x.completeAttribute a v).run
      fun _ T _ d => T = 0 ∧ G.CoercedTrail a v d := by
  have ruled : G.coerces a v none → ∀ w, Does (x.logging Good) h
      (do
        Attempt.call (a.checkRule w)
        return w : Attempt (Recorded σ) Json).run fun _ T _ d => T = 0 ∧ G.CoercedTrail a v d := by
    intro hnone w
    have hquiet := (hG.records_of_known hk).rules a ha w
    refine Does.attempt_bind (hquiet.acts enters_logging hG.setApp h _ ?_)
    rintro r _ ⟨-, rfl⟩
    cases r with
    | ok u => exact does_return ⟨by simp, by simpa using .done hnone⟩
    | error f => exact ⟨rfl, .done hnone⟩
  unfold Execution.completeAttribute
  cases ht : a.type? with
  | none => exact ruled (hG.untyped e hk a ha ht v) v
  | some r =>
    refine Does.attempt_bind (does_consultQuiet (hG.records.resolve r)
      (hG.resolve e hk a ha r ht v) (fun t ht => ?_) (fun d hd f k => ⟨rfl, .defect hd k⟩)
      fun f hf => ⟨rfl, .done hf⟩)
    refine Does.attempt_bind (does_consultQuiet (hG.records.serialize t v) ht
      (fun w hw => ?_) (fun d hd f k => ⟨by simp, by simpa using .defect hd k⟩)
      fun f hf => ⟨by simp, by simpa using .done hf⟩)
    exact (ruled hw w).mono fun r T h d ⟨hT, hd⟩ => ⟨by simpa using hT, by simpa using hd⟩

/-! ## Attributes, acts and links -/

theorem traces_field (site : Site) (hk : Known e) (reference : Json) (name : String) :
    Traces (x.logging Good) (fun _ => True) (Attempt.ofRun (x.field site e reference name))
      (G.attributeTrail site e reference name) := by
  unfold Execution.field Guide.attributeTrail
  cases ha : e.attribute? name with
  | none => exact traces_refuse _ _
  | some a =>
    have hmem : a ∈ e.attributes := List.mem_of_find?_eq_some ha
    refine traces_settleField hG.setApp
      ((hG.records_of_known hk).attributes a hmem reference (site.focus .field a.label))
      (fun _ => trivial) (fun _ _ => trivial) fun w => ?_
    refine Does.attempt_bind ((does_completeAttributeQuiet hG hk hmem w .empty).mono ?_)
    rintro (f | v) T h d ⟨rfl, hd⟩
    · exact ⟨rfl, hd⟩
    · refine does_return ⟨by simp, ⟨_, rfl⟩, ?_⟩
      simpa using hd

theorem traces_act (hk : Known e) (site : Site) (reference : Json) (supplied : Entries Json)
    (name : String) :
    Traces (x.logging Good) (fun _ => True) (Attempt.ofRun (x.act site e reference supplied name))
      (Guide.actTrail e reference supplied name) := by
  unfold Execution.act Guide.actTrail
  cases ha : e.act? name with
  | none => exact traces_refuse _ _
  | some a =>
    have hmem : a ∈ e.acts := List.mem_of_find?_eq_some ha
    exact traces_settleField hG.setApp ((hG.records_of_known hk).acts a hmem reference _)
      (fun _ => trivial) (fun _ _ => trivial) fun w => does_return ⟨rfl, ⟨_, rfl⟩, by simp⟩

theorem traces_link (site : Site) (hk : Known e) (reference : Json) (name : String)
    (nested : Query)
    {complete : Site → Entity (Recorded σ) → Json → Attempt (Recorded σ) Promise}
    {P : Site → Entity (Recorded σ) → Json → Trail}
    (hc : ∀ there target, Known target → ∀ w,
      Traces (x.logging Good) (fun _ => True) (complete there target w) (P there target w)) :
    Traces (x.logging Good) (fun _ => True) (x.link site e reference name nested complete)
      (G.linkTrail site e reference name nested P) := by
  unfold Execution.link
  cases hl : e.link? name with
  | none =>
    rw [show G.linkTrail site e reference name nested P = nothing by unfold linkTrail; rw [hl]]
    exact traces_refuse _ _
  | some l =>
    have hmem : l ∈ e.links := List.mem_of_find?_eq_some hl
    let arguments := Argument.applyDefaults l.arguments nested.arguments
    let here := { site.focus .link l.label with arguments }
    let there (target : Entity (Recorded σ)) := site.descend name target.name nested arguments
    have ends : ∀ d ns t, G.leads e l (.error d) → meets d ns t →
        G.linkTrail site e reference name nested P ns t := by
      intro d ns t hleads ht
      unfold linkTrail
      rw [hl]
      exact .inl ⟨d, hleads, ht⟩
    have leads : ∀ target ns t, G.leads e l (.ok target) →
        FieldTrail (.link e.name l.label reference here)
          (LinkedTrail (P (there target) target)) ns t →
        G.linkTrail site e reference name nested P ns t := by
      intro target ns t hleads ht
      unfold linkTrail
      rw [hl]
      exact .inr ⟨target, hleads, ht⟩
    refine does_lookup enters_logging (hG.records.follow e.name l) (hG.follow e hk l hmem) ?_
      (fun d hleads => (traces_abandon _ d).mono (ends d · · hleads)) fun f h => h.elim
    rintro ⟨t, target⟩ ⟨hknown, hleads⟩
    have hfield : Traces (x.logging Good) (fun _ => True)
        (Attempt.ofRun (x.settleField (place site .link name) (l.resolve reference here)
          (x.completeLinked (complete (there target) target)))) _ :=
      traces_settleField hG.setApp ((hG.records_of_known hk).links l hmem reference here)
        (fun _ => trivial) (fun _ _ => trivial)
        fun w => completes_linkedBy (hc (there target) target hknown) w
    exact hfield.mono (leads target · · hleads)

/-! ## Entities -/

omit hG

mutual

/-- **Completing an entity follows the trail of its fields.** -/
theorem traces_completeEntity (hG : G.Steers x.schema Good Known) (site : Site)
    {e : Entity (Recorded σ)} (hk : Known e) (reference : Json) : (q : Query) →
    Traces (x.logging Good) (fun _ => True) (x.completeEntity site e reference q)
      (G.entityTrail site e reference q)
  | ⟨_, attributes, act?, arguments, links⟩ => by
    rw [Execution.completeEntity, Guide.entityTrail]
    have ofAttributes : TracesAll (x.logging Good) (fun _ => True)
        (Attempt.ofRun (attributes.mapM (x.field site e reference)))
        (attributes.map (G.attributeTrail site e reference)) := by
      rw [Attempt.ofRun_mapM]
      exact chains_logging.mapM attributes fun name _ => traces_field hG site hk reference name
    have ofAct : TracesAll (x.logging Good) (fun _ => True)
        (Attempt.ofRun (act?.toList.mapM (x.act site e reference arguments)))
        (act?.toList.map (Guide.actTrail e reference arguments)) := by
      rw [Attempt.ofRun_mapM]
      exact chains_logging.mapM _ fun name _ => traces_act hG hk site reference arguments name
    have all : TracesAll (x.logging Good) (fun _ => True) _ _ :=
      chains_logging.append (chains_logging.append ofAttributes ofAct)
        (traces_completeLinks hG site hk reference links)
    have joined := all.together fun values =>
      .object (Entries.ofPairs ((attributes ++ act?.toList ++ Entries.keys links).zip values))
    simpa only [bind_assoc, pure_bind] using joined

/-- **Completing links follows their trails.** -/
theorem traces_completeLinks (hG : G.Steers x.schema Good Known) (site : Site)
    {e : Entity (Recorded σ)} (hk : Known e) (reference : Json) : (links : List (String × Query)) →
    TracesAll (x.logging Good) (fun _ => True) (x.completeLinks site e reference links)
      (G.linksTrail site e reference links)
  | [] => by
    rw [Execution.completeLinks, Guide.linksTrail]
    exact chains_logging.nil
  | (name, nested) :: rest => by
    rw [Execution.completeLinks, Guide.linksTrail]
    have first := traces_link hG site hk reference name nested fun there target hknown w =>
      traces_completeEntity hG there hknown w nested
    exact chains_logging.cons first (traces_completeLinks hG site hk reference rest)

end

/-! ## Queries -/

include hG

/-- A query on an entity follows its trail; it begins with no call of a field. -/
theorem traces_queryOn (name : String) {q : Query} (hk : Known e) (hfinds : G.finds q (.ok (some e))) :
    Traces (x.logging Good) Event.OfRoot (Attempt.ofRun (x.queryOn name q e))
      (G.queryTrail x.schema x.context name q) := by
  let call : Call :=
    .entity e.name (Argument.applyDefaults e.arguments q.arguments) x.context
  let site := rootSite x.schema x.context name q e
  let follows (w : Json) (t : Multiset Entry) : Prop := ∃ ms, G.entityTrail site e w q ms t
  have hlogs : (e.fetch q.arguments x.context).Logs call := (hG.records_of_known hk).resolve _ _
  refine Does.ofRun ((does_queryOn serves_logging
    (hlogs.responds hG.setApp (K := Event.OfRoot) (fun _ c _ hc => ?_) fun _ _ _ _ h => nomatch h)
    (χ := fun n => Prospect.ofTrail (FieldTrail call follows [n]))
    ?_ ?_ ?_ fun _ _ h => h).mono ?_)
  · cases hc
    exact id
  · rintro n v t ⟨r, hcome, hv⟩
    cases r with
    | error f => cases hv
    | ok w =>
      cases hv
      refine Does.mono (traces_completeEntity hG site hk w q) ?_
      rintro _ T h d ⟨p, ms, rfl, hp, -⟩
      refine ⟨p, rfl, Future.mono hp ?_ fun t' hw => ?_⟩
      · rintro o t' ⟨hv, ht⟩
        simp only [Prospect.settles_later, add_assoc]
        exact ⟨hv, .resolved hcome ⟨ms, ht⟩⟩
      · simp only [Prospect.waits_later, add_assoc] at hw ⊢
        exact hw.mono (Multiset.le_add_left _ _)
  · rintro n f t ⟨⟨v, hv⟩, -⟩
    cases hv
  · rintro n f t ⟨r, hcome, hf⟩
    cases r with
    | ok w => cases hf
    | error g => exact ⟨⟨_, rfl⟩, by rw [add_zero]; exact .unresolved hcome⟩
  · rintro p T h d ⟨n, hbegun, hp⟩
    exact ⟨p, [n], rfl, hp.mono fun o t ⟨hv, ht⟩ => ⟨hv, .inr (.inr ⟨e, hfinds, ht⟩)⟩, hbegun⟩

variable {d : Document}
  (hroot : ∀ name q, (name, q) ∈ d.queries → (x.root q).Upholds Good (G.Roots Known q))

include hroot

theorem traces_query {name : String} {q : Query} (hq : (name, q) ∈ d.queries) :
    Traces (x.logging Good) Event.OfRoot (x.query name q)
      (G.queryTrail x.schema x.context name q) := by
  have hcount : Does (x.logging Good) .empty ((x.count Tally.addQuery).bind .pure)
      fun _ T h d => T = 0 ∧ h = .empty ∧ d = 0 :=
    serves_logging.count (c := .query) (does_pure ⟨rfl, rfl, add_zero 0⟩)
  rw [Steps.bind_pure'] at hcount
  refine Does.attempt_bind (Does.ofRun (hcount.mono ?_))
  rintro _ _ _ _ ⟨rfl, rfl, rfl⟩
  simp only [zero_add]
  refine does_lookup enters_logging (hG.records.root rfl q) (hroot name q hq) ?_
    (fun d hfinds => (traces_abandon _ d).mono fun ns t ht => .inl ⟨d, hfinds, ht⟩)
    fun f h => h.elim
  rintro e? ⟨hknown, hfinds⟩
  cases e? with
  | none => exact (traces_refuse _ _).mono fun ns t ht => .inr (.inl ⟨hfinds, ht⟩)
  | some e => exact traces_queryOn hG name (hknown e rfl) hfinds

/-- **The queries of a document follow their trails**, the entities of all of them first. -/
theorem queries_trace : x.Queries (x.logging Good) d fun begun =>
    ⟨fun o t => (∃ v, o = .ok v) ∧ ∃ ns, Begun Event.OfRoot ns begun ∧
      Sequence (d.queries.map fun (name, q) => G.queryTrail x.schema x.context name q) ns
        (begun + t), fun t => Stalled (begun + t)⟩ := by
  have hall : TracesAll (x.logging Good) Event.OfRoot
      (d.queries.mapM fun (name, q) => x.query name q) _ :=
    chains_logging.mapM d.queries fun nq hnq => traces_query hG hroot hnq
  refine Does.mono hall ?_
  rintro _ T h e ⟨ps, φs, ns, rfl, hf, hc, hbegun⟩
  exact ⟨ps, φs, rfl, hf, hc.ok, fun vs t hvs => ⟨⟨_, rfl⟩, ns, hbegun, hc.together vs t hvs⟩,
    hc.waits⟩

end

end EntityQuery
