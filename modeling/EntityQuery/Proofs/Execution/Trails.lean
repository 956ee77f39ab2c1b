import EntityQuery.Proofs.Execution.Meaning
import EntityQuery.Proofs.Schema.Recording

/-!
# Trails

Which calls of resolvers a document asks for, as parts of the history of an execution: a trail says which
entries of the log a part of the execution leaves, and which defects of the schema it meets, each with its
place. Nothing is left twice, for the parts are summed up as multisets.

* `History`: what is added to the log, and which defects are met; `History.placed`: with places.
* `Call.Comes`: the entries of one call, and what it comes to. `Call.CameTo`: by the entries of a log.
* `FieldTrail`, `LinkedTrail`: a field, and what a link leads to.
* `Sequence`: trails whose calls are made in order.
* `Guide`: where queries and links lead, and which defects the values of attributes meet.
  `Guide.entityTrail`: the fields of an entity; `Guide.queryTrail`: a query.
* **`Document.Trail`**: a document.
* `Sequence.not_stalled`: no part of a trail waits forever.
-/

namespace EntityQuery

open Execution

variable {σ : Type}

/-! ## Histories -/

/-- What happens in an execution: the log gets an entry, or a defect of the schema is met. -/
inductive Happening
  | event (e : Event)
  | met (d : Defect)

/-- What happens in an execution, in order. -/
abbrev History := List Happening

/-- Something that happens, with the number of entries in the log before it. -/
abbrev Entry := Happening × Nat

namespace History

/-- What the log gets. -/
def events : History → List Event
  | [] => []
  | .event e :: rest => e :: events rest
  | .met _ :: rest => events rest

/-- The defects that are met. -/
def defects : History → List Defect
  | [] => []
  | .event _ :: rest => defects rest
  | .met d :: rest => d :: defects rest

/-- The history of an execution that starts with `n` entries in the log. -/
def placed (n : Nat) : History → List Entry
  | [] => []
  | .event e :: rest => (.event e, n) :: placed (n + 1) rest
  | .met d :: rest => (.met d, n) :: placed n rest

@[simp] theorem events_append (h h' : History) : events (h ++ h') = h.events ++ h'.events := by
  induction h with
  | nil => rfl
  | cons x rest ih => cases x <;> simp [events, ih]

@[simp] theorem defects_append (h h' : History) : defects (h ++ h') = h.defects ++ h'.defects := by
  induction h with
  | nil => rfl
  | cons x rest ih => cases x <;> simp [defects, ih]

theorem placed_append (n : Nat) (h h' : History) :
    placed n (h ++ h') = h.placed n ++ h'.placed (n + h.events.length) := by
  induction h generalizing n with
  | nil => rfl
  | cons x rest ih =>
    cases x with
    | event e => simp [placed, events, ih, Nat.add_right_comm n 1, Nat.add_assoc]
    | met d => simp [placed, events, ih]

theorem le_of_mem_placed {n k : Nat} {x : Happening} {h : History} (hm : (x, k) ∈ h.placed n) :
    n ≤ k := by
  induction h generalizing n with
  | nil => cases hm
  | cons y rest ih =>
    cases y with
    | event e =>
      rcases List.mem_cons.mp hm with he | hm
      · cases he
        exact le_rfl
      · exact (Nat.le_succ n).trans (ih hm)
    | met d =>
      rcases List.mem_cons.mp hm with he | hm
      · cases he
        exact le_rfl
      · exact ih hm

theorem event_mem_placed {n k : Nat} {e : Event} {h : History} (hm : (.event e, k) ∈ h.placed n) :
    k < n + h.events.length ∧ e ∈ h.events := by
  induction h generalizing n with
  | nil => cases hm
  | cons y rest ih =>
    cases y with
    | event e' =>
      rcases List.mem_cons.mp hm with he | hm
      · cases he
        exact ⟨by simp [events], List.mem_cons_self⟩
      · obtain ⟨hlt, hmem⟩ := ih hm
        exact ⟨by simpa [events, Nat.add_assoc, Nat.add_comm] using hlt, List.mem_cons_of_mem _ hmem⟩
    | met d =>
      rcases List.mem_cons.mp hm with he | hm
      · cases he
      · exact ih hm

theorem exists_event_mem_placed (n : Nat) {e : Event} {h : History} (hm : e ∈ h.events) :
    ∃ k, (.event e, k) ∈ h.placed n := by
  induction h generalizing n with
  | nil => cases hm
  | cons y rest ih =>
    cases y with
    | event e' =>
      rcases List.mem_cons.mp hm with rfl | hm
      · exact ⟨n, List.mem_cons_self⟩
      · obtain ⟨k, hk⟩ := ih (n + 1) hm
        exact ⟨k, List.mem_cons_of_mem _ hk⟩
    | met d =>
      obtain ⟨k, hk⟩ := ih n hm
      exact ⟨k, List.mem_cons_of_mem _ hk⟩

@[simp] theorem events_map (added : List Event) : events (added.map .event) = added := by
  induction added with
  | nil => rfl
  | cons e rest ih => exact congrArg _ ih

@[simp] theorem defects_map (added : List Event) : defects (added.map .event) = [] := by
  induction added with
  | nil => rfl
  | cons e rest ih => exact ih

/-- A history without defects is what the log gets. -/
theorem eq_map_events {h : History} (hd : h.defects = []) : h = h.events.map .event := by
  induction h with
  | nil => rfl
  | cons x rest ih =>
    cases x with
    | event e => exact congrArg _ (ih hd)
    | met d => cases hd

end History

/-- What a part of an execution leaves, with the places of the calls that it makes at once, in their
order. -/
abbrev Trail := List Nat → Multiset Entry → Prop

/-! ## Calls -/

/-- What a call at place `n` of the log comes to, with its entries: its own, and one of the work that it
has put off. -/
inductive Call.Comes (call : Call) (n : Nat) : Except Failure Json → Multiset Entry → Prop
  | fault (f : Fault) : Comes call n (.error f.toFailure) {(.event (.called call (.fault f)), n)}
  | value (v : Json) : Comes call n (.ok v) {(.event (.called call (.value v)), n)}
  | deferred (r : Except Fault Json) (k : Nat) :
      Comes call n (r.mapError Fault.toFailure)
        ({(.event (.called call .deferred), n)} + {(.event (.ran n r), k)})
  | settling (home : Home) (hops : Nat) (r : Except Fault Json) (k : Nat) :
      Comes call n (r.mapError Fault.toFailure)
        ({(.event (.called call (.settling home hops)), n)} + {(.event (.settled n r), k)})
  | stuck : Comes call n (.error WaitFault.stalled.failure) {(.event (.called call (.stuck .foreign)), n)}

/-- By the entries of a log, a call at a place has come to something. -/
def Call.CameTo (log : Multiset Entry) (call : Call) (n : Nat) (r : Except Failure Json) : Prop :=
  ∃ t ≤ log, call.Comes n r t

theorem Call.CameTo.mono {log log' : Multiset Entry} {call : Call} {n : Nat} {r : Except Failure Json}
    (h : call.CameTo log n r) (hle : log ≤ log') : call.CameTo log' n r :=
  let ⟨t, ht, hcome⟩ := h
  ⟨t, ht.trans hle, hcome⟩

/-- Whether the resolver of a field is called, not that of an entity. -/
def Call.OfField : Call → Prop
  | .entity .. => False
  | _ => True

/-! ## Fields -/

/-- Nothing is called. -/
def nothing : Trail := fun ns t => ns = [] ∧ t = 0

/-- Nothing is called, for a defect is met. -/
def meets (d : Defect) : Trail := fun ns t => ns = [] ∧ ∃ k, t = {(.met d, k)}

/-- A call; where it comes to a value, that is followed. -/
inductive FieldTrail (call : Call) (follows : Json → Multiset Entry → Prop) : Trail
  | unresolved {n : Nat} {f : Failure} {t : Multiset Entry} (h : call.Comes n (.error f) t) :
      FieldTrail call follows [n] t
  | resolved {n : Nat} {w : Json} {t t' : Multiset Entry} (h : call.Comes n (.ok w) t)
      (h' : follows w t') : FieldTrail call follows [n] (t + t')

/-- Trails whose calls are made one after another. -/
inductive Sequence : List Trail → Trail
  | nil : Sequence [] [] 0
  | cons {P : Trail} {Ps : List Trail} {ns ms : List Nat} {t t' : Multiset Entry} (h : P ns t)
      (hs : Sequence Ps ms t') (hlt : ∀ n ∈ ns, ∀ m ∈ ms, n < m) :
      Sequence (P :: Ps) (ns ++ ms) (t + t')

/-- What a link leads to: nothing, one entity, or a list of them. -/
inductive LinkedTrail (complete : Json → Trail) : Json → Multiset Entry → Prop
  | null : LinkedTrail complete .null 0
  | array {references : List Json} {ns : List Nat} {t : Multiset Entry}
      (h : Sequence (references.map complete) ns t) : LinkedTrail complete (.array references) t
  | one {w : Json} {ns : List Nat} {t : Multiset Entry} (hn : w.isNull = false)
      (ha : ∀ references, w ≠ .array references) (h : complete w ns t) : LinkedTrail complete w t

/-! ## Entities -/

/-- Where queries and links lead, and which defects the values of attributes meet. -/
structure Guide (σ : Type) where
  finds : Query → Except Defect (Option (Entity σ)) → Prop
  leads : Entity σ → Link σ → Except Defect (Entity σ) → Prop
  coerces : Attribute σ → Json → Option Defect → Prop

namespace Guide

variable (G : Guide σ)

/-- The value of an attribute is given its type, which may meet a defect. -/
inductive CoercedTrail (a : Attribute σ) (v : Json) : Multiset Entry → Prop
  | done (h : G.coerces a v none) : CoercedTrail a v 0
  | defect {d : Defect} (h : G.coerces a v (some d)) (k : Nat) : CoercedTrail a v {(.met d, k)}

/-- An attribute of an entity, by name. -/
def attributeTrail (site : Site) (e : Entity σ) (reference : Json) (name : String) : Trail :=
  match e.attribute? name with
  | none => nothing
  | some a =>
    FieldTrail (.attribute e.name a.label reference (site.focus .field a.label)) (G.CoercedTrail a)

/-- An act on an entity. -/
def actTrail (e : Entity σ) (reference : Json) (supplied : Entries Json) (name : String) : Trail :=
  match e.act? name with
  | none => nothing
  | some a =>
    FieldTrail (.act e.name a.label reference (Argument.applyDefaults a.arguments supplied))
      fun _ t => t = 0

/-- A link of an entity, given the trails of the entity that it leads to. -/
def linkTrail (site : Site) (e : Entity σ) (reference : Json) (name : String) (nested : Query)
    (complete : Site → Entity σ → Json → Trail) : Trail :=
  match e.link? name with
  | none => nothing
  | some l => fun ns t => (∃ d, G.leads e l (.error d) ∧ meets d ns t) ∨
      ∃ target, G.leads e l (.ok target) ∧
        let arguments := Argument.applyDefaults l.arguments nested.arguments
        let here := { site.focus .link l.label with arguments }
        let there := site.descend name target.name nested arguments
        FieldTrail (.link e.name l.label reference here) (LinkedTrail (complete there target)) ns t

mutual

/-- The fields that a query asks for: attributes, then the act, then links. -/
def entityTrail (site : Site) (e : Entity σ) (reference : Json) : Query → Trail
  | ⟨_, attributes, act?, arguments, links⟩ =>
    Sequence (attributes.map (G.attributeTrail site e reference) ++
      act?.toList.map (actTrail e reference arguments) ++ linksTrail site e reference links)

/-- The links that a query asks for, in order. -/
def linksTrail (site : Site) (e : Entity σ) (reference : Json) :
    List (String × Query) → List Trail
  | [] => []
  | (name, nested) :: rest =>
    G.linkTrail site e reference name nested (fun there target linked =>
      entityTrail there target linked nested) :: linksTrail site e reference rest

end

/-- A query of the document: where it names an entity, that is resolved, and then its fields are. -/
def queryTrail (schema : Schema σ) (context : Context) (name : String) (q : Query) : Trail :=
  fun ns t => (∃ d, G.finds q (.error d) ∧ meets d ns t) ∨
    (G.finds q (.ok none) ∧ nothing ns t) ∨
    ∃ e, G.finds q (.ok (some e)) ∧
      FieldTrail (.entity e.name (Argument.applyDefaults e.arguments q.arguments) context)
        (fun w t' => ∃ ms, G.entityTrail (rootSite schema context name q e) e w q ms t') ns t

end Guide

/-- A document: its queries in order, and no field is called before the entities of all queries are. -/
def Document.Trail (d : Document) (G : Guide σ) (schema : Schema σ) (context : Context)
    (t : Multiset Entry) : Prop :=
  ∃ ns, Sequence (d.queries.map fun (name, q) => G.queryTrail schema context name q) ns t ∧
    ∀ call reply k, (.event (.called call reply), k) ∈ t → call.OfField → ∀ n ∈ ns, n < k

/-! ## Sequences -/

theorem sequence_single {P : Trail} {ns : List Nat} {t : Multiset Entry} (h : P ns t) :
    Sequence [P] ns t := by
  have hs : Sequence [P] (ns ++ []) (t + 0) :=
    .cons h .nil fun _ _ m hm => absurd hm List.not_mem_nil
  simpa using hs

theorem Sequence.append {Ps Ps' : List Trail} {ns ns' : List Nat} {t t' : Multiset Entry}
    (h : Sequence Ps ns t) (h' : Sequence Ps' ns' t') (hlt : ∀ n ∈ ns, ∀ m ∈ ns', n < m) :
    Sequence (Ps ++ Ps') (ns ++ ns') (t + t') := by
  induction h with
  | nil => simpa using h'
  | @cons P Ps ns ms t u hP _ hms ih =>
    have hrest := ih fun n hn => hlt n (List.mem_append_right ns hn)
    rw [List.cons_append, List.append_assoc, add_assoc]
    refine .cons hP hrest fun n hn m hm => ?_
    rcases List.mem_append.mp hm with hm | hm
    · exact hms n hn m hm
    · exact hlt n (List.mem_append_left ms hn) m hm

/-- What holds of the entries of all trails holds of those of a sequence. -/
theorem Sequence.forall {Ps : List Trail} {p : Entry → Prop}
    (hP : ∀ P ∈ Ps, ∀ ns t, P ns t → ∀ x ∈ t, p x) {ns : List Nat} {t : Multiset Entry}
    (h : Sequence Ps ns t) : ∀ x ∈ t, p x := by
  induction h with
  | nil => exact fun x hx => absurd hx (Multiset.notMem_zero x)
  | cons h _ _ ih =>
    intro x hx
    rcases Multiset.mem_add.mp hx with hx | hx
    · exact hP _ List.mem_cons_self _ _ h x hx
    · exact ih (fun Q hQ => hP Q (List.mem_cons_of_mem _ hQ)) x hx

/-! ## Waiting forever -/

/-- A resolver has answered with a promise of the execution's queue that nothing settles. -/
def Stalled (t : Multiset Entry) : Prop := ∃ call n, (.event (.called call (.stuck .own)), n) ∈ t

theorem Stalled.mono {t t' : Multiset Entry} (h : Stalled t) (hle : t ≤ t') : Stalled t' := by
  obtain ⟨call, n, hmem⟩ := h
  exact ⟨call, n, Multiset.mem_of_le hle hmem⟩

/-- The entry is not such an answer. -/
def Entry.Moves (x : Entry) : Prop := ∀ call, x.1 ≠ .event (.called call (.stuck .own))

/-- No entry of the trail is such an answer. -/
def Trail.Moves (P : Trail) : Prop := ∀ ns t, P ns t → ∀ x ∈ t, Entry.Moves x

theorem Call.Comes.moves {call : Call} {n : Nat} {r : Except Failure Json} {t : Multiset Entry}
    (h : call.Comes n r t) : ∀ x ∈ t, Entry.Moves x := by
  rintro x hx call' he
  cases h <;> simp at hx <;> rcases hx with rfl | rfl <;> cases he

theorem moves_nothing : nothing.Moves := by
  rintro _ _ ⟨rfl, rfl⟩ x hx
  exact absurd hx (Multiset.notMem_zero x)

theorem moves_met (d : Defect) (k : Nat) : ∀ x ∈ ({(.met d, k)} : Multiset Entry), Entry.Moves x := by
  intro x hx call he
  rw [Multiset.mem_singleton.mp hx] at he
  cases he

theorem moves_meets (d : Defect) : (meets d).Moves := by
  rintro _ _ ⟨rfl, k, rfl⟩
  exact moves_met d k

theorem moves_field {call : Call} {follows : Json → Multiset Entry → Prop}
    (h : ∀ w t, follows w t → ∀ x ∈ t, Entry.Moves x) : (FieldTrail call follows).Moves := by
  rintro _ _ (hcome | ⟨hcome, hfollow⟩) x hx
  · exact hcome.moves x hx
  · rcases Multiset.mem_add.mp hx with hx | hx
    · exact hcome.moves x hx
    · exact h _ _ hfollow x hx

theorem moves_linked {complete : Json → Trail} (h : ∀ w, (complete w).Moves) (w : Json)
    (t : Multiset Entry) (ht : LinkedTrail complete w t) : ∀ x ∈ t, Entry.Moves x := by
  cases ht with
  | null => exact fun x hx => absurd hx (Multiset.notMem_zero x)
  | array hs =>
    refine hs.forall fun P hP => ?_
    obtain ⟨w, -, rfl⟩ := List.mem_map.mp hP
    exact h w
  | one _ _ hw => exact h w _ _ hw

namespace Guide

variable (G : Guide σ)

theorem moves_attribute (site : Site) (e : Entity σ) (reference : Json) (name : String) :
    (G.attributeTrail site e reference name).Moves := by
  unfold attributeTrail
  split
  · exact moves_nothing
  · refine moves_field fun v t ht => ?_
    cases ht with
    | done => exact fun x hx => absurd hx (Multiset.notMem_zero x)
    | defect _ k => exact moves_met _ k

theorem moves_act (e : Entity σ) (reference : Json) (supplied : Entries Json) (name : String) :
    (actTrail e reference supplied name).Moves := by
  unfold actTrail
  split
  · exact moves_nothing
  · refine moves_field fun _ t ht x hx => ?_
    rw [ht] at hx
    exact absurd hx (Multiset.notMem_zero x)

theorem moves_link (site : Site) (e : Entity σ) (reference : Json) (name : String) (nested : Query)
    {complete : Site → Entity σ → Json → Trail} (h : ∀ there target w, (complete there target w).Moves) :
    (G.linkTrail site e reference name nested complete).Moves := by
  unfold linkTrail
  split
  · exact moves_nothing
  · rintro ns t (⟨d, -, ht⟩ | ⟨target, -, ht⟩)
    · exact moves_meets d ns t ht
    · exact moves_field (moves_linked (h _ target)) ns t ht

mutual

theorem moves_entity (site : Site) (e : Entity σ) (reference : Json) :
    (q : Query) → (G.entityTrail site e reference q).Moves
  | ⟨_, attributes, act?, arguments, links⟩ => by
    rw [entityTrail]
    intro ns t ht
    refine ht.forall fun P hP => ?_
    rcases List.mem_append.mp hP with hP | hP
    · rcases List.mem_append.mp hP with hP | hP
      · obtain ⟨name, -, rfl⟩ := List.mem_map.mp hP
        exact G.moves_attribute site e reference name
      · obtain ⟨name, -, rfl⟩ := List.mem_map.mp hP
        exact moves_act e reference arguments name
    · exact moves_links site e reference links P hP

theorem moves_links (site : Site) (e : Entity σ) (reference : Json) :
    (links : List (String × Query)) → ∀ P ∈ G.linksTrail site e reference links, P.Moves
  | [] => by
    rw [linksTrail]
    exact fun P hP => absurd hP List.not_mem_nil
  | (name, nested) :: rest => by
    rw [linksTrail]
    refine List.forall_mem_cons.mpr ⟨?_, moves_links site e reference rest⟩
    exact G.moves_link site e reference name nested fun there target w =>
      moves_entity there target w nested

end

theorem moves_query (schema : Schema σ) (context : Context) (name : String) (q : Query) :
    (G.queryTrail schema context name q).Moves := by
  rintro ns t (⟨d, -, ht⟩ | ⟨-, ht⟩ | ⟨e, -, ht⟩)
  · exact moves_meets d ns t ht
  · exact moves_nothing ns t ht
  · exact moves_field (fun w t' ⟨ms, ht'⟩ => G.moves_entity _ e w q ms t' ht') ns t ht

end Guide

/-- **Where a sequence of queries has come to its end, no resolver has answered with a promise that keeps
the execution waiting forever.** -/
theorem Sequence.not_stalled {d : Document} {G : Guide σ} {schema : Schema σ} {context : Context}
    {ns : List Nat} {t : Multiset Entry}
    (h : Sequence (d.queries.map fun (name, q) => G.queryTrail schema context name q) ns t) :
    ¬ Stalled t := by
  rintro ⟨call, n, hmem⟩
  refine h.forall (p := Entry.Moves) (fun P hP => ?_) _ hmem call rfl
  obtain ⟨⟨name, q⟩, -, rfl⟩ := List.mem_map.mp hP
  exact G.moves_query schema context name q

end EntityQuery
