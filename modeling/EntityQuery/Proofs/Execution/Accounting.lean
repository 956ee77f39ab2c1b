import EntityQuery.Proofs.Execution.Accounts
import EntityQuery.Proofs.Execution.Completing
import EntityQuery.Proofs.Execution.Tracing

/-!
# Executions render accounts

On a sound session that keeps a log, each promise of an execution comes to what an account says, with what
the account leaves in the log and among what is noted down. The induction is on the query.

* `Progress.noteAll`: what an execution has met, with more noted down.
* **`Execution.accounting`**: the terms of an execution whose effect is its books.
* `Renders`: steps that give a promise with an account; `RendersAll`: of a list of promises.
* `renders_settleField`: a field, from the call of its resolver to its value or to null.
* **`renders_completeEntity`**: the fields of an entity. **`queries_account`**: the queries of a document.
-/

namespace EntityQuery

open Lookup Session Execution Schema

variable {σ α β : Type}

/-! ## Noting down -/

/-- Notes down one thing more. -/
def Progress.note (p : Progress) : Note → Progress
  | .counted c => { p with tally := c.add p.tally }
  | .kept _ f => { p with failures := p.failures ++ [f] }

/-- Notes down one thing after another. -/
def Progress.noteAll (p : Progress) (notes : List Note) : Progress := notes.foldl Progress.note p

/-- What is noted first and last in a part may be put together. -/
theorem Books.between (t : Multiset Entry) (d : Books) (note : Note) (d' : Books) (h : d'.1 = 0) :
    (0, {note}) + ((t, 0) + d + d') = (t, note ::ₘ d'.2) + d := by
  refine Prod.ext ?_ ?_
  · simp [h]
  · change {note} + (0 + d.2 + d'.2) = note ::ₘ d'.2 + d.2
    rw [zero_add, ← Multiset.singleton_add, add_assoc, add_comm d.2]

/-! ## The terms -/

namespace Execution

/-- The terms of an execution in sessions alike, whose effect is what the log gets and what is noted down;
no defect is met. -/
def accounting (x : Execution (Recorded σ)) (s : Session (Recorded σ)) :
    Terms (World (Recorded σ)) Books where
  queue := x.queue
  lax := True
  Halting := Halt
  halt := id
  Good w := s.Alike w.session ∧ ∃ p, w.executions[x.index]? = some p
  Step d w w' := s.Alike w'.session ∧ ∃ p added notes, w.executions[x.index]? = some p ∧
    w'.executions[x.index]? = some (p.noteAll notes) ∧
    w'.session.log = w.session.log ++ added ∧
    d = ((History.placed w.session.log.length (added.map .event) : Multiset Entry),
      (notes : Multiset Note))
  step_zero := by
    rintro w ⟨hs, p, hp⟩
    exact ⟨hs, p, [], [], hp, hp, (List.append_nil _).symm, rfl⟩
  step_add := by
    rintro _ _ w w' w'' ⟨-, p, added, notes, hp, hp', hlog, rfl⟩
      ⟨hs, p', added', notes', hp'', hp₂, hlog', rfl⟩
    rw [hp'] at hp''
    cases hp''
    refine ⟨hs, p, added ++ added', notes ++ notes', hp, ?_, ?_, ?_⟩
    · rw [hp₂, Progress.noteAll, Progress.noteAll, Progress.noteAll, List.foldl_append]
    · rw [hlog', hlog, List.append_assoc]
    · rw [hlog, List.length_append, List.map_append, History.placed_append, History.events_map]
      rfl
  good_of_step := fun _ ⟨hs, _, _, _, _, hp', _⟩ => ⟨hs, _, hp'⟩

variable {x : Execution (Recorded σ)} {s : Session (Recorded σ)}

instance : (x.accounting s).Panics := ⟨fun p => ⟨.panic p, rfl⟩⟩

theorem hosts_accounting : (x.accounting s).Hosts x := ⟨rfl, fun h => h.2⟩

/-- What the log gets is the first part of the books. -/
theorem enters_accounting :
    (x.accounting s).Enters s.Alike (AddMonoidHom.inl (Multiset Entry) (Multiset Note)) where
  good := fun h => h.1
  session := by
    rintro w s' added ⟨-, p, hp⟩ hs' hlog
    exact ⟨hs', p, added, [], hp, hp, hlog, rfl⟩
  lax := trivial
  exhausts := ⟨.exhausted, rfl⟩

/-- Noting something down. -/
theorem does_note {h : Parts (Recorded σ)} {note : Note} {change : Progress → Progress}
    (hchange : ∀ p : Progress, change p = p.note note) {next : Unit → Run (Recorded σ) α}
    {Q : α → Tasks (Recorded σ) → Parts (Recorded σ) → Books → Prop}
    (hnext : Does (x.accounting s) h (next ()) fun a T h d => Q a T h ((0, {note}) + d)) :
    Does (x.accounting s) h ((Run.update x.index change).bind next) Q := by
  refine does_getWorld fun w ⟨hs, p, hp⟩ => ⟨(0, {note}), _, next (), rfl, ?_, hnext⟩
  refine ⟨hs, p, [], [note], hp, ?_, (List.append_nil _).symm, rfl⟩
  simp [Array.getElem?_modify, hp, hchange, Progress.noteAll]

/-- Counting and keeping failures, whatever they are kept for. -/
theorem keep_accounting (r : Reason) :
    (x.accounting s).Keep x (fun c => (0, {.counted c})) fun f => (0, {.kept r f}) where
  queue := rfl
  count hnext := does_note (fun _ => rfl) hnext
  fail hnext := does_note (fun _ => rfl) hnext

/-- Using the schema in a completion, where that meets no defect. -/
theorem finds_consult {lookup : Lookup (Recorded σ) α} {R : Except Fault α → Prop}
    (hquiet : lookup.Quiet) (hl : Comes s R lookup) :
    (x.consult lookup).Finds (x.accounting s) R := by
  intro h
  let R' : Except Stop α → Prop := fun r => ∃ r', R r' ∧ r = r'.mapError .fault
  have hup : lookup.Upholds s.Alike R' := hl.upholds fun r hr => ⟨r, hr, rfl⟩
  refine does_lookup enters_accounting hquiet hup ?_ ?_ ?_
  · rintro a ⟨_ | _, hr, he⟩
    · cases he
    · cases he
      exact does_return ⟨rfl, rfl, rfl, hr⟩
  · rintro d ⟨_ | _, -, he⟩ <;> cases he
  · rintro f ⟨_ | _, hr, he⟩
    · cases he
      exact ⟨rfl, rfl, rfl, hr⟩
    · cases he

end Execution

/-! ## Promises with accounts -/

/-- A promise of a value with an account. -/
def Prospect.ofAccount (P : Json → Books → Prop) : Prospect (Outcome Payload) Books :=
  ⟨fun o d => ∃ v, o = .ok (.value v) ∧ P v d, fun _ => True⟩

/-- The prospects, after the books `d`, are those of accounts with calls at the places `ns`. -/
structure Tallies (φs : List (Prospect (Outcome Payload) Books)) (ns : List Nat) (d : Books)
    (Ps : List Account) : Prop where
  ok : ∀ φ ∈ φs, ∀ f e, ¬ φ.settles (.error f) e
  together : ∀ vs e, Together (φs.map okPost) vs e →
    ∃ us, vs = us.map Payload.value ∧ Series Ps ns us (d + e)

/-- The steps give a promise with an account. -/
def Renders (C : Terms (World (Recorded σ)) Books) (a : Attempt (Recorded σ) Promise)
    (P : Account) : Prop :=
  Does C .empty a.run fun r T h d => ∃ p ns, r = .ok p ∧
    Future C p ((Prospect.ofAccount (P ns)).later d) T h ∧ Begun (fun _ => True) ns d.1

/-- The steps give promises with accounts, whose calls are in order. -/
def RendersAll (C : Terms (World (Recorded σ)) Books) (a : Attempt (Recorded σ) (List Promise))
    (Ps : List Account) : Prop :=
  Does C .empty a.run fun r T h d => ∃ ps φs ns, r = .ok ps ∧ Futures C ps φs T h ∧
    Tallies φs ns d Ps ∧ Begun (fun _ => True) ns d.1

section

variable {φs φs' : List (Prospect (Outcome Payload) Books)} {ns ns' : List Nat}
  {d d' : Books} {Ps Ps' : List Account}

theorem tallies_nil : Tallies [] [] 0 [] := by
  refine ⟨fun φ h => absurd h List.not_mem_nil, fun vs t h => ?_⟩
  cases h
  exact ⟨[], rfl, by simpa using Series.nil⟩

theorem tallies_single (P : Account) (ns : List Nat) (d : Books) :
    Tallies [(Prospect.ofAccount (P ns)).later d] ns d [P] := by
  refine ⟨fun φ h f t hφ => ?_, fun vs t h => ?_⟩
  · obtain rfl := List.mem_singleton.mp h
    obtain ⟨v, hv, -⟩ := hφ
    cases hv
  · cases h with
    | cons hv hrest =>
      cases hrest
      obtain ⟨v, hv, hP⟩ := hv
      cases hv
      rw [add_zero]
      exact ⟨[v], rfl, series_single hP⟩

theorem Tallies.append (h : Tallies φs ns d Ps) (h' : Tallies φs' ns' d' Ps')
    (hb : Begun (fun _ => True) ns d.1) (hb' : Begun (fun _ => True) ns' d'.1)
    (hlt : Precedes d.1 d'.1) : Tallies (φs ++ φs') (ns ++ ns') (d + d') (Ps ++ Ps') := by
  refine ⟨fun φ hφ => ?_, fun vs e hvs => ?_⟩
  · rcases List.mem_append.mp hφ with hφ | hφ
    · exact h.ok φ hφ
    · exact h'.ok φ hφ
  · rw [List.map_append] at hvs
    obtain ⟨us, ws, e₁, e₂, rfl, rfl, h₁, h₂⟩ := together_append hvs
    obtain ⟨us', rfl, hus⟩ := h.together us e₁ h₁
    obtain ⟨ws', rfl, hws⟩ := h'.together ws e₂ h₂
    refine ⟨us' ++ ws', (List.map_append ..).symm, ?_⟩
    rw [add_add_add_comm]
    refine hus.append hws fun n hn m hm => ?_
    obtain ⟨x, hx⟩ := hb.places n hn
    obtain ⟨x', hx'⟩ := hb'.places m hm
    exact hlt x n hx _ hx'

end

section

variable {x : Execution (Recorded σ)} {s : Session (Recorded σ)} {Ps Ps' : List Account}

theorem precedes_of_accounting {d d' : Books} {w w' w'' : World (Recorded σ)}
    (h : (x.accounting s).Step d w w') (h' : (x.accounting s).Step d' w' w'') :
    Precedes d.1 d'.1 := by
  obtain ⟨-, -, added, -, -, -, hlog, rfl⟩ := h
  obtain ⟨-, -, added', -, -, -, -, rfl⟩ := h'
  intro e n hmem y hmem'
  have hlt := (History.event_mem_placed (Multiset.mem_coe.mp hmem)).1
  have hle := History.le_of_mem_placed (Multiset.mem_coe.mp hmem')
  rw [hlog, List.length_append] at hle
  rw [History.events_map] at hlt
  exact hlt.trans_le hle

theorem chains_accounting : Chains (x.accounting s) (AddMonoidHom.fst (Multiset Entry) (Multiset Note))
    (fun _ => True) (fun P ns => Prospect.ofAccount (P ns)) Tallies where
  ordered := precedes_of_accounting
  none := tallies_nil
  single := tallies_single
  both h h' hb hb' hlt := h.append h' hb hb' hlt

theorem Renders.mono {a : Attempt (Recorded σ) Promise} {P P' : Account}
    (ha : Renders (x.accounting s) a P) (hP : ∀ ns v d, P ns v d → P' ns v d) :
    Renders (x.accounting s) a P' := by
  refine Does.mono ha ?_
  rintro _ T h d ⟨p, ns, rfl, hp, hbegun⟩
  refine ⟨p, ns, rfl, hp.mono ?_, hbegun⟩
  rintro o e ⟨v, hv, he⟩
  exact ⟨v, hv, hP ns v _ he⟩

/-- **A promise of the values of promises, made into one.** -/
theorem RendersAll.together {a : Attempt (Recorded σ) (List Promise)}
    (ha : RendersAll (x.accounting s) a Ps) (join : List Json → Json) :
    Renders (x.accounting s) (do Attempt.ofRun (x.together (← a) join))
      fun ns v d => ∃ vs, Series Ps ns vs d ∧ v = join vs := by
  refine Does.attempt_bind (Does.mono ha ?_)
  rintro _ T h d ⟨ps, φs, ns, rfl, hf, hc, hbegun⟩
  let joined : Json → Books → Prop := fun v d => ∃ vs, Series Ps ns vs d ∧ v = join vs
  have htogether : ∀ vs e, Together (φs.map okPost) vs e →
      ((Prospect.ofAccount joined).later d).settles (.ok (.value (join (vs.map Payload.json)))) e := by
    intro vs e hvs
    obtain ⟨us, rfl, hus⟩ := hc.together vs e hvs
    have hid : us.map (Payload.json ∘ Payload.value) = us := List.map_id us
    rw [List.map_map, hid]
    exact ⟨_, rfl, us, hus, rfl⟩
  refine Does.ofRun ((does_joined (keep_accounting .field) hf hc.ok htogether
    fun _ _ _ _ _ => trivial).mono ?_)
  rintro p T' h' _ ⟨rfl, hp⟩
  rw [add_zero]
  exact ⟨p, ns, rfl, hp, hbegun⟩

/-! ## Fields -/

/-- A promise of null, with a failure that is kept. -/
theorem renders_refuse (r : Reason) (f : Failure) (place : Location) :
    Renders (x.accounting s) (Attempt.ofRun (x.refuse f place))
      fun ns v d => ns = [] ∧ v = .null ∧ d = (0, {.kept r (f.located [place])}) := by
  let left : Books := (0, {.kept r (f.located [place])})
  have hnull : ((Prospect.ofAccount fun v d => ([] : List Nat) = [] ∧ v = .null ∧ d = left).later
      left).settles (.ok (.value .null)) 0 := ⟨.null, rfl, rfl, rfl, add_zero _⟩
  refine Does.ofRun ((does_refuse (keep_accounting r) f place hnull).mono ?_)
  rintro p T h _ ⟨rfl, hp⟩
  exact ⟨p, [], rfl, hp, begun_nil _⟩

/-- What completing the value of a resolver comes to. -/
def CompletesTo (C : Terms (World (Recorded σ)) Books)
    (a : Attempt (Recorded σ) (Thenable Payload (World (Recorded σ))))
    (completes : Except Failure Json → Books → Prop) : Prop :=
  Does C .empty a.run fun r T h d =>
    match r with
    | .ok th => th.Leads C ((Prospect.ofAccount fun v d => completes (.ok v) d).later d) T h
    | .error f => T = 0 ∧ completes (.error f.toFailure) d

theorem alike_of_setApp : ∀ (s' : Session (Recorded σ)) app, s.Alike s' → s.Alike { s' with app } :=
  fun s' app h => h.trans (alike_setApp s' app)

/-- **A field, from the call of its resolver to its value or to null.** -/
theorem renders_settleField {place : Location} {call : Call}
    {c : Callback (Recorded σ) (Answer (Recorded σ))}
    {complete : Json → Attempt (Recorded σ) (Thenable Payload (World (Recorded σ)))}
    {completes : Json → Except Failure Json → Books → Prop} (hc : c.Logs call)
    (hcomplete : ∀ w, CompletesTo (x.accounting s) (complete w) (completes w)) :
    Renders (x.accounting s) (Attempt.ofRun (x.settleField place c complete))
      (FieldAccount place call completes) := by
  -- the value of the resolver, completed, with the entries of the call that it is from
  let completed (n : Nat) : Prospect (Outcome Payload) Books :=
    ⟨fun o d => (∃ w v t e, call.Comes n (.ok w) t ∧ o = .ok (.value v) ∧ completes w (.ok v) e ∧
        d = (t, 0) + e) ∨
      (∃ w f t e, call.Comes n (.ok w) t ∧ o = .error f ∧ completes w (.error f) e ∧
        d = (t, 0) + e) ∨
      ∃ f t, o = .error f ∧ call.Comes n (.error f) t ∧ d = (t, 0), fun _ => True⟩
  have failed : ∀ (t : Multiset Entry) (e : Books) (f : Failure),
      ((0, {.counted .execution}) + ((t, 0) + e +
        ((0, {.counted .failure}) + (0, {.kept .field (f.located [place])}))) : Books) =
          (t, {.counted .execution, .counted .failure, .kept .field (f.located [place])}) + e :=
    fun t e f => Books.between t e _ _ rfl
  refine Does.ofRun ((does_settleField (keep_accounting .field)
    (hc.responds_by (K := fun _ => True) enters_accounting alike_of_setApp (fun _ => trivial)
      fun _ _ => trivial)
    (ψ := completed) (χ := fun n => Prospect.ofAccount (FieldAccount place call completes [n]))
    ?_ ?_ ?_ ?_ (fun _ _ _ => trivial) fun _ _ _ => trivial).mono ?_)
  · rintro n v d ⟨r, t, hcome, rfl, hv⟩
    cases r with
    | error f => cases hv
    | ok w =>
      cases hv
      refine Does.mono (hcomplete w) fun r T h d hr => ?_
      cases r with
      | ok th =>
        refine Thenable.Leads.mono hr ?_
        rintro o e ⟨v, rfl, hv⟩
        exact .inl ⟨w, v, t, _, hcome, rfl, hv, add_assoc _ _ _⟩
      | error f => exact ⟨hr.1, .inr (.inl ⟨w, _, t, d, hcome, rfl, hr.2, rfl⟩)⟩
  · rintro n f d ⟨r, t, hcome, rfl, hf⟩
    cases r with
    | ok w => cases hf
    | error g =>
      cases hf
      exact .inr (.inr ⟨f, t, rfl, hcome, rfl⟩)
  · rintro n v d (⟨w, v, t, e, hcome, hv, hw, rfl⟩ | ⟨w, f, t, e, -, hv, -⟩ | ⟨f, t, hv, -⟩)
    · cases hv
      refine ⟨v, rfl, ?_⟩
      rw [Books.between t e _ (0, {.counted .completion}) rfl]
      exact .completed hcome hw
    · cases hv
    · cases hv
  · rintro n f d (⟨w, v, t, e, -, hv, -⟩ | ⟨w, f, t, e, hcome, hv, hw, rfl⟩ | ⟨f, t, hv, hcome, rfl⟩)
    · cases hv
    · cases hv
      refine ⟨.null, rfl, ?_⟩
      rw [failed t e f]
      exact .failed hcome hw
    · cases hv
      refine ⟨.null, rfl, ?_⟩
      rw [← add_zero (t, (0 : Multiset Note)), failed t 0 f, add_zero]
      exact .unresolved hcome
  · rintro p T h _ ⟨n, d, ⟨t, rfl, hbegun⟩, rfl, hp⟩
    refine ⟨p, [n], rfl, hp, ?_⟩
    simpa using hbegun

/-- Going on with a promise. -/
theorem Renders.completes {a : Attempt (Recorded σ) Promise} {P : Account}
    (ha : Renders (x.accounting s) a P) {R : Json → Books → Prop} (hR : ∀ ns v d, P ns v d → R v d) :
    CompletesTo (x.accounting s) (do return .promise (← a)) fun r d => ∃ u, r = .ok u ∧ R u d := by
  refine Does.attempt_bind (Does.mono ha ?_)
  rintro _ T h d ⟨p, ns, rfl, hp, -⟩
  refine does_return ?_
  rw [add_zero, add_zero]
  refine Future.mono hp ?_
  rintro o e ⟨v, rfl, hv⟩
  exact ⟨v, rfl, v, rfl, hR ns v _ hv⟩

/-- Following what a link leads to. -/
theorem completes_linkedTo {complete : Json → Attempt (Recorded σ) Promise} {P : Json → Account}
    (hc : ∀ w, Renders (x.accounting s) (complete w) (P w)) (w : Json) :
    CompletesTo (x.accounting s) (x.completeLinked complete w) fun r d =>
      ∃ u, r = .ok u ∧ LinkedAccount P w u d := by
  have one : ∀ w : Json, w.isNull = false → (∀ references, w ≠ .array references) →
      CompletesTo (x.accounting s) (do return .promise (← complete w)) fun r d =>
        ∃ u, r = .ok u ∧ LinkedAccount P w u d :=
    fun w hn ha => (hc w).completes fun ns v d h => .one hn ha h
  cases w with
  | null => exact does_return ⟨rfl, .null, rfl, .null, rfl, by simpa using .null⟩
  | array references =>
    have each : RendersAll (x.accounting s) (references.mapM complete) (references.map P) :=
      chains_accounting.mapM references fun w _ => hc w
    have all := (each.together .array).completes
      (R := LinkedAccount P (.array references)) (by rintro ns _ d ⟨vs, hs, rfl⟩; exact .array hs)
    simpa only [Execution.completeLinked, bind_assoc] using all
  | bool b => exact one _ rfl fun _ h => by cases h
  | number n => exact one _ rfl fun _ h => by cases h
  | string t => exact one _ rfl fun _ h => by cases h
  | object fields => exact one _ rfl fun _ h => by cases h

/-! ## Attributes, acts and links -/

variable {types : Entries NamedType}

theorem renders_unknown (site : Site) (e : Entity (Recorded σ)) (kind : ArtifactKind) (name : String) :
    Renders (x.accounting s) (Attempt.ofRun (x.unknown site e kind name))
      (lackAccount (refusal site e kind name)) :=
  renders_refuse .lack _ _

theorem Schema.Knows.records {schema : Schema (Recorded σ)} (hrec : schema.Records)
    {e : Entity (Recorded σ)} (hk : schema.Knows types e) : e.Records :=
  let ⟨t, _, ht⟩ := hk
  hrec.entities t e ht

variable (hp : x.schema.Plain) (hrec : x.schema.Records)

include hrec

include hp in
/-- Completing an attribute whose type fits. -/
theorem finds_completeAttribute {e : Entity (Recorded σ)} (hk : x.schema.Knows types e)
    (he : x.schema.Settles types s e) {a : Attribute (Recorded σ)} (ha : a ∈ e.attributes) (v : Json) :
    (x.completeAttribute a v).Finds (x.accounting s) fun r =>
      x.schema.AttributeMeans s a v (r.mapError Fault.toFailure) 0 := by
  refine Attribute.finds_value hp (he.attributes a ha) (fun r _ hr => finds_consult (hrec.resolve r) hr)
    (fun t w _ hw => finds_consult (hrec.serialize t w) hw) (fun w h => ?_) v
  have hquiet := (Schema.Knows.records hrec hk).rules a ha w
  exact hquiet.acts enters_accounting alike_of_setApp h _ fun r d ⟨hr, hd⟩ => ⟨rfl, rfl, hd, hr⟩

include hp in
theorem renders_field (site : Site) {e : Entity (Recorded σ)} (hk : x.schema.Knows types e)
    (he : x.schema.Settles types s e) (reference : Json) (name : String) :
    Renders (x.accounting s) (Attempt.ofRun (x.field site e reference name))
      (x.schema.attributeAccount s site e reference name) := by
  unfold Execution.field attributeAccount
  cases ha : e.attribute? name with
  | none => exact renders_unknown site e .field name
  | some a =>
    have hmem : a ∈ e.attributes := List.mem_of_find?_eq_some ha
    refine renders_settleField
      ((Schema.Knows.records hrec hk).attributes a hmem reference (site.focus .field a.label)) ?_
    intro w
    refine Does.attempt_bind ((finds_completeAttribute hp hrec hk he hmem w .empty).mono ?_)
    rintro (f | v) T h d ⟨rfl, rfl, rfl, hm⟩
    · exact ⟨rfl, hm, rfl⟩
    · exact does_return ⟨rfl, v, rfl, hm, by simp⟩

theorem renders_act (site : Site) {e : Entity (Recorded σ)} (hk : x.schema.Knows types e)
    (reference : Json) (supplied : Entries Json) (name : String) :
    Renders (x.accounting s) (Attempt.ofRun (x.act site e reference supplied name))
      (actAccount site e reference supplied name) := by
  unfold Execution.act actAccount
  cases ha : e.act? name with
  | none => exact renders_unknown site e .act name
  | some a =>
    have hmem : a ∈ e.acts := List.mem_of_find?_eq_some ha
    refine renders_settleField ((Schema.Knows.records hrec hk).acts a hmem reference _) ?_
    exact fun w => does_return ⟨rfl, w, rfl, rfl, by simp⟩

theorem renders_link (site : Site) {e : Entity (Recorded σ)} (hk : x.schema.Knows types e)
    (he : x.schema.Settles types s e) (reference : Json) (name : String) (nested : Query)
    {complete : Site → Entity (Recorded σ) → Json → Attempt (Recorded σ) Promise}
    {P : Site → Entity (Recorded σ) → Json → Account}
    (hc : ∀ there target, x.schema.Knows types target → ∀ w,
      Renders (x.accounting s) (complete there target w) (P there target w)) :
    Renders (x.accounting s) (x.link site e reference name nested complete)
      (x.schema.linkAccount s site e reference name nested P) := by
  unfold Execution.link linkAccount
  cases hl : e.link? name with
  | none => exact renders_unknown site e .link name
  | some l =>
    have hmem : l ∈ e.links := List.mem_of_find?_eq_some hl
    obtain ⟨t, target, hknown, hfollow⟩ := he.links l hmem
    let R : Except Stop (NamedType × Entity (Recorded σ)) → Prop := fun r => r = .ok (t, target)
    refine does_lookup (R := R) enters_accounting (hrec.follow e.name l) (hfollow.answers.upholds rfl)
      ?_ (fun _ hd => nomatch hd) fun _ hf => nomatch hf
    rintro _ ⟨⟩
    let arguments := Argument.applyDefaults l.arguments nested.arguments
    let here := { site.focus .link l.label with arguments }
    let there := site.descend name target.name nested arguments
    have hfield : Renders (x.accounting s)
        (Attempt.ofRun (x.settleField (place site .link name) (l.resolve reference here)
          (x.completeLinked (complete there target)))) _ :=
      renders_settleField ((Schema.Knows.records hrec hk).links l hmem reference here)
        fun w => completes_linkedTo (hc there target hknown) w
    exact hfield.mono fun ns v d h => ⟨t, target, hfollow.answers, h⟩

/-! ## Entities -/

variable (hs : x.schema.Sound types s)

include hp hs

mutual

/-- **Completing an entity renders the account of its fields.** -/
theorem renders_completeEntity (site : Site) {e : Entity (Recorded σ)} (hk : x.schema.Knows types e)
    (reference : Json) : (q : Query) →
    Renders (x.accounting s) (x.completeEntity site e reference q)
      (x.schema.entityAccount s site e reference q)
  | ⟨_, attributes, act?, arguments, links⟩ => by
    have he := hs.settles hp hk
    rw [Execution.completeEntity, entityAccount]
    have ofAttributes : RendersAll (x.accounting s)
        (Attempt.ofRun (attributes.mapM (x.field site e reference)))
        (attributes.map (x.schema.attributeAccount s site e reference)) := by
      rw [Attempt.ofRun_mapM]
      exact chains_accounting.mapM attributes fun name _ =>
        renders_field hp hrec site hk he reference name
    have ofAct : RendersAll (x.accounting s)
        (Attempt.ofRun (act?.toList.mapM (x.act site e reference arguments)))
        (act?.toList.map (actAccount site e reference arguments)) := by
      rw [Attempt.ofRun_mapM]
      exact chains_accounting.mapM _ fun name _ => renders_act hrec site hk reference arguments name
    have all : RendersAll (x.accounting s) _ _ :=
      chains_accounting.append (chains_accounting.append ofAttributes ofAct)
        (renders_completeLinks site hk reference links)
    have joined := all.together fun values =>
      .object (Entries.ofPairs ((attributes ++ act?.toList ++ Entries.keys links).zip values))
    simpa only [bind_assoc, pure_bind] using joined

/-- **Completing links renders their accounts.** -/
theorem renders_completeLinks (site : Site) {e : Entity (Recorded σ)} (hk : x.schema.Knows types e)
    (reference : Json) : (links : List (String × Query)) →
    RendersAll (x.accounting s) (x.completeLinks site e reference links)
      (x.schema.linksAccounts s site e reference links)
  | [] => by
    rw [Execution.completeLinks, linksAccounts]
    exact chains_accounting.nil
  | (name, nested) :: rest => by
    rw [Execution.completeLinks, linksAccounts]
    have first := renders_link hrec site hk (hs.settles hp hk) reference name nested
      fun there target hknown w => renders_completeEntity there hknown w nested
    exact chains_accounting.cons first (renders_completeLinks site hk reference rest)

end

/-! ## Queries -/

/-- A query on an entity; the query has been counted. -/
theorem renders_queryOn (name : String) {q : Query} {e : Entity (Recorded σ)}
    (hroot : q.Roots x.schema s (some e)) (hk : x.schema.Knows types e) :
    Renders (x.accounting s) (Attempt.ofRun (x.queryOn name q e))
      fun ns v d => x.schema.QueryAccount s x.context name q ns v ((0, {.counted .query}) + d) := by
  let call : Call :=
    .entity e.name (Argument.applyDefaults e.arguments q.arguments) x.context
  have hlogs : (e.fetch q.arguments x.context).Logs call :=
    (Schema.Knows.records hrec hk).resolve _ _
  let counted : Books := (0, {.counted .query})
  refine Does.ofRun ((does_queryOn (keep_accounting .query)
    (hlogs.responds_by (K := fun _ => True) enters_accounting alike_of_setApp (fun _ => trivial)
      fun _ _ => trivial)
    (χ := fun n => Prospect.ofAccount fun v d =>
      x.schema.QueryAccount s x.context name q [n] v (counted + d))
    ?_ ?_ ?_ fun _ _ _ => trivial).mono ?_)
  · rintro n v d ⟨r, t, hcome, rfl, hv⟩
    cases r with
    | error f => cases hv
    | ok w =>
      cases hv
      refine Does.mono (renders_completeEntity hp hrec hs
        (rootSite x.schema x.context name q e) hk w q) ?_
      rintro _ T h d ⟨p, ms, rfl, hp, -⟩
      refine ⟨p, rfl, Future.mono hp ?_⟩
      rintro o d' ⟨v, rfl, hv⟩
      have hbooks : counted + ((t, 0) + d + d') = (t, {.counted .query}) + (d + d') := by
        rw [add_assoc (t, (0 : Multiset Note)), ← add_zero ((t, (0 : Multiset Note)) + _)]
        exact Books.between t (d + d') _ 0 rfl
      have hquery : x.schema.QueryAccount s x.context name q [n] v
        ((t, {.counted .query}) + (d + d')) := .resolved hroot hcome hv
      rw [← hbooks] at hquery
      exact ⟨v, rfl, hquery⟩
  · rintro n f d ⟨v, hv, -⟩
    cases hv
  · rintro n f d ⟨r, t, hcome, rfl, hf⟩
    cases r with
    | ok w => cases hf
    | error g =>
      cases hf
      have hbooks : counted + ((t, 0) + (0, {.kept .query (f.located [.ofQuery name])})) =
          (t, {.counted .query, .kept .query (f.located [.ofQuery name])}) := by
        rw [← add_zero (t, (0 : Multiset Note)), ← add_zero (t, {_, _})]
        exact Books.between t 0 _ _ rfl
      have hquery : x.schema.QueryAccount s x.context name q [n] .null
        (t, {.counted .query, .kept .query (f.located [.ofQuery name])}) := .unresolved hroot hcome
      rw [← hbooks] at hquery
      exact ⟨.null, rfl, hquery⟩
  · rintro p T h _ ⟨n, ⟨t, rfl, hbegun⟩, hf⟩
    exact ⟨p, [n], rfl, hf, hbegun⟩

theorem renders_query (name : String) {q : Query} {e? : Option (Entity (Recorded σ))}
    (hroot : q.Roots x.schema s e?) (hk : ∀ e, e? = some e → x.schema.Knows types e) :
    Renders (x.accounting s) (x.query name q) (x.schema.QueryAccount s x.context name q) := by
  have hcount : Does (x.accounting s) .empty ((x.count Tally.addQuery).bind .pure)
      fun _ T h d => T = 0 ∧ h = .empty ∧ d = (0, {.counted .query}) :=
    (keep_accounting .field).count (c := .query) (does_pure ⟨rfl, rfl, add_zero _⟩)
  rw [Steps.bind_pure'] at hcount
  refine Does.attempt_bind (Does.ofRun (hcount.mono ?_))
  rintro _ _ _ _ ⟨rfl, rfl, rfl⟩
  let R : Except Stop (Option (Entity (Recorded σ))) → Prop := fun r => r = .ok e?
  refine does_lookup (R := R) enters_accounting (hrec.root rfl q) (hroot.answers.upholds rfl)
    ?_ (fun _ hd => nomatch hd) fun _ hf => nomatch hf
  rintro _ ⟨⟩
  let counted : Books := (0, {.counted .query})
  have after : ∀ {a : Attempt (Recorded σ) Promise},
      Renders (x.accounting s) a (fun ns v d =>
        x.schema.QueryAccount s x.context name q ns v (counted + d)) →
      Does (x.accounting s) .empty a.run fun r T h d => ∃ p ns, r = .ok p ∧
        Future (x.accounting s) p ((Prospect.ofAccount
          (x.schema.QueryAccount s x.context name q ns)).later (counted + d)) (0 + T) h ∧
        Begun (fun _ => True) ns (counted + d).1 := by
    intro a ha
    refine Does.mono ha ?_
    rintro _ T h d ⟨p, ns, rfl, hp, hbegun⟩
    rw [zero_add]
    refine ⟨p, ns, rfl, hp.mono ?_, by simpa [counted] using hbegun⟩
    rintro o d' ⟨v, hv, hQ⟩
    exact ⟨v, hv, by rwa [add_assoc]⟩
  cases e? with
  | none =>
    let f : Failure := .engine ("Unknown entity type \"" ++ q.typeName.getD "" ++ "\"")
    refine after ((renders_refuse .query f (.ofQuery name)).mono ?_)
    rintro _ _ _ ⟨rfl, rfl, rfl⟩
    exact .unknown hroot
  | some e => exact after (renders_queryOn hp hrec hs name hroot (hk e rfl))

/-- **The queries of a document render their accounts.** -/
theorem queries_account {d : Document} (hr : d.Rooted x.schema types s) :
    x.Queries (x.accounting s) d fun begun => ⟨fun o e => ∃ ns us,
      o = .ok (Payload.bundle (us.map Payload.value)) ∧
        Series (d.queries.map fun (name, q) => x.schema.QueryAccount s x.context name q) ns us
          (begun + e), fun _ => True⟩ := by
  have hall : RendersAll (x.accounting s) (d.queries.mapM fun (name, q) => x.query name q)
      (d.queries.map fun (name, q) => x.schema.QueryAccount s x.context name q) := by
    refine chains_accounting.mapM d.queries ?_
    rintro ⟨name, q⟩ hq
    obtain ⟨e?, hroot, hk⟩ := hr.exists_root hq
    exact renders_query hp hrec hs name hroot hk
  refine Does.mono hall ?_
  rintro _ T h e ⟨ps, φs, ns, rfl, hf, hc, -⟩
  refine ⟨ps, φs, rfl, hf, hc.ok, fun vs e' hvs => ?_, fun _ _ _ _ _ => trivial⟩
  obtain ⟨us, rfl, hus⟩ := hc.together vs e' hvs
  exact ⟨ns, us, rfl, hus⟩

end

end EntityQuery
