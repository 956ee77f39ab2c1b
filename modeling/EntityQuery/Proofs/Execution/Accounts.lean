import EntityQuery.Proofs.Execution.Settling
import EntityQuery.Proofs.Execution.Trails
import Mathlib.Algebra.Group.Prod

/-!
# Accounts

What executing a document comes to, together with all that it leaves: the entries of the log, what is
counted, and which failures are kept and why. Like the meaning of a document, an account has no promises
and no queues; unlike it, an account says which call a value is from.

* `Note`: what an execution notes down. `Books`: what a part of an execution leaves.
* `Series`: accounts of parts whose calls are made in order.
* `FieldAccount`, `LinkedAccount`: a field, and what a link leads to.
* `Schema.entityAccount`, `Schema.QueryAccount`, **`Document.Account`**: entities, queries and documents.
* `Books.Balances`: what is counted agrees with the calls and with the failures that are kept.
  **`Document.Account.balances`**: in every account of a document.
-/

namespace EntityQuery

open Execution Lookup

variable {σ : Type}

/-! ## Books -/

/-- Why a failure is kept. -/
inductive Reason
  /-- A field fails. -/
  | field
  /-- A query names no entity, or its entity fails. -/
  | query
  /-- An entity does not have what is asked for. -/
  | lack
  deriving DecidableEq, Repr

/-- What an execution notes down. -/
inductive Note
  | counted (c : Count)
  | kept (r : Reason) (f : Failure)

namespace Note

/-- Whether something is counted. -/
def counts (c : Count) : Note → Bool
  | counted c' => c' = c
  | kept _ _ => false

/-- Whether a failure is kept for a reason. -/
def keeps (r : Reason) : Note → Bool
  | counted _ => false
  | kept r' _ => r' = r

/-- The failure that is kept. -/
def failure? : Note → Option Failure
  | counted _ => none
  | kept _ f => some f

end Note

/-- Whether the entry of the log is a call of the resolver of a field. -/
def Event.callsField : Event → Bool
  | .called (.entity ..) _ => false
  | .called .. => true
  | _ => false

/-- Whether the log gets a call of the resolver of a field. -/
def Entry.callsField : Entry → Bool
  | (.event e, _) => e.callsField
  | _ => false

/-- What a part of an execution leaves: what the log gets, and what is noted down. -/
abbrev Books := Multiset Entry × Multiset Note

namespace Books

/-- How often something is counted. -/
def count (d : Books) (c : Count) : Nat := d.2.countP fun n => n.counts c

/-- How many failures are kept for a reason. -/
def kept (d : Books) (r : Reason) : Nat := d.2.countP fun n => n.keeps r

/-- How many fields have their resolvers called. -/
def calls (d : Books) : Nat := d.1.countP fun x => x.callsField

@[simp] theorem count_zero (c : Count) : count 0 c = 0 := rfl

@[simp] theorem kept_zero (r : Reason) : kept 0 r = 0 := rfl

@[simp] theorem calls_zero : calls 0 = 0 := rfl

@[simp] theorem count_add (d d' : Books) (c : Count) : (d + d').count c = d.count c + d'.count c :=
  Multiset.countP_add _ _ _

@[simp] theorem kept_add (d d' : Books) (r : Reason) : (d + d').kept r = d.kept r + d'.kept r :=
  Multiset.countP_add _ _ _

@[simp] theorem calls_add (d d' : Books) : (d + d').calls = d.calls + d'.calls :=
  Multiset.countP_add _ _ _

/-- In the books of some queries, each query is counted, each call of a field is counted, as a field that
comes to a value or as one that fails, and a failure is kept for each field that fails. -/
structure Balances (queries : Nat) (d : Books) : Prop where
  queries : d.count .query = queries
  calls : d.count .execution = d.calls
  fields : d.count .execution = d.count .completion + d.count .failure
  failures : d.kept .field = d.count .failure

theorem balances_zero : Balances 0 0 := ⟨rfl, rfl, rfl, rfl⟩

theorem Balances.add {k k' : Nat} {d d' : Books} (h : d.Balances k) (h' : d'.Balances k') :
    (d + d').Balances (k + k') where
  queries := by rw [count_add, h.queries, h'.queries]
  calls := by rw [count_add, calls_add, h.calls, h'.calls]
  fields := by
    rw [count_add, count_add, count_add, h.fields, h'.fields]
    exact Nat.add_add_add_comm ..
  failures := by rw [kept_add, count_add, h.failures, h'.failures]

end Books

/-- What a part of an execution comes to, with what it leaves and the places of the calls that it makes at
once, in their order. -/
abbrev Account := List Nat → Json → Books → Prop

/-! ## Parts -/

/-- Accounts of parts whose calls are made one after another, with the values of the parts. -/
inductive Series : List Account → List Nat → List Json → Books → Prop
  | nil : Series [] [] [] 0
  | cons {P : Account} {Ps : List Account} {ns ms : List Nat} {v : Json} {vs : List Json}
      {d d' : Books} (h : P ns v d) (hs : Series Ps ms vs d') (hlt : ∀ n ∈ ns, ∀ m ∈ ms, n < m) :
      Series (P :: Ps) (ns ++ ms) (v :: vs) (d + d')

/-- Something is asked for that is not there: a failure is kept. -/
def lackAccount (f : Failure) : Account :=
  fun ns v d => ns = [] ∧ v = .null ∧ d = (0, {.kept .lack f})

/-- A field, from the call of its resolver to its value, or to null with a failure that is kept. -/
inductive FieldAccount (place : Location) (call : Call)
    (completes : Json → Except Failure Json → Books → Prop) : Account
  | unresolved {n : Nat} {f : Failure} {t : Multiset Entry} (h : call.Comes n (.error f) t) :
      FieldAccount place call completes [n] .null
        (t, {.counted .execution, .counted .failure, .kept .field (f.located [place])})
  | failed {n : Nat} {w : Json} {f : Failure} {t : Multiset Entry} {d : Books}
      (h : call.Comes n (.ok w) t) (hc : completes w (.error f) d) :
      FieldAccount place call completes [n] .null
        ((t, {.counted .execution, .counted .failure, .kept .field (f.located [place])}) + d)
  | completed {n : Nat} {w v : Json} {t : Multiset Entry} {d : Books}
      (h : call.Comes n (.ok w) t) (hc : completes w (.ok v) d) :
      FieldAccount place call completes [n] v
        ((t, {.counted .execution, .counted .completion}) + d)

/-- What a link leads to: nothing, one entity, or a list of them. -/
inductive LinkedAccount (complete : Json → Account) : Json → Json → Books → Prop
  | null : LinkedAccount complete .null .null 0
  | array {references vs : List Json} {ns : List Nat} {d : Books}
      (h : Series (references.map complete) ns vs d) :
      LinkedAccount complete (.array references) (.array vs) d
  | one {w v : Json} {ns : List Nat} {d : Books} (hn : w.isNull = false)
      (ha : ∀ references, w ≠ .array references) (h : complete w ns v d) :
      LinkedAccount complete w v d

/-! ## Entities, queries and documents -/

/-- An act on an entity. -/
def actAccount (site : Site) (e : Entity σ) (reference : Json) (supplied : Entries Json)
    (name : String) : Account :=
  match e.act? name with
  | none => lackAccount (refusal site e .act name)
  | some a =>
    FieldAccount (place site .act name)
      (.act e.name a.label reference (Argument.applyDefaults a.arguments supplied))
      fun w r d => r = .ok w ∧ d = 0

namespace Schema

variable (schema : Schema σ) (s : Session σ)

/-- An attribute of an entity, by name. -/
def attributeAccount (site : Site) (e : Entity σ) (reference : Json) (name : String) : Account :=
  match e.attribute? name with
  | none => lackAccount (refusal site e .field name)
  | some a =>
    FieldAccount (place site .field name)
      (.attribute e.name a.label reference (site.focus .field a.label))
      fun w r d => schema.AttributeMeans s a w r 0 ∧ d = 0

/-- A link of an entity, given the accounts of the entity that it leads to. -/
def linkAccount (site : Site) (e : Entity σ) (reference : Json) (name : String) (nested : Query)
    (complete : Site → Entity σ → Json → Account) : Account :=
  match e.link? name with
  | none => lackAccount (refusal site e .link name)
  | some l => fun ns v d => ∃ t target,
      Answers (l.follow schema schema.find e.name) (t, target) s ∧
        let arguments := Argument.applyDefaults l.arguments nested.arguments
        let here := { site.focus .link l.label with arguments }
        let there := site.descend name target.name nested arguments
        FieldAccount (place site .link name) (.link e.name l.label reference here)
          (fun w r d => ∃ u, r = .ok u ∧ LinkedAccount (complete there target) w u d) ns v d

mutual

/-- The fields that a query asks for, as one object: attributes, then the act, then links. -/
def entityAccount (site : Site) (e : Entity σ) (reference : Json) : Query → Account
  | ⟨_, attributes, act?, arguments, links⟩ => fun ns v d => ∃ vs,
      Series (attributes.map (schema.attributeAccount s site e reference) ++
        act?.toList.map (actAccount site e reference arguments) ++
          linksAccounts site e reference links) ns vs d ∧
        v = .object (Entries.ofPairs ((attributes ++ act?.toList ++ Entries.keys links).zip vs))

/-- The links that a query asks for, in order. -/
def linksAccounts (site : Site) (e : Entity σ) (reference : Json) :
    List (String × Query) → List Account
  | [] => []
  | (name, nested) :: rest =>
    schema.linkAccount s site e reference name nested (fun there target linked =>
      entityAccount there target linked nested) :: linksAccounts site e reference rest

end

/-- A query of the document. -/
inductive QueryAccount (context : Context) (name : String) (q : Query) : Account
  | unknown (h : q.Roots schema s none) : QueryAccount context name q [] .null
      (0, {.counted .query, .kept .query (rootRefusal name q)})
  | unresolved {e : Entity σ} {n : Nat} {f : Failure} {t : Multiset Entry}
      (h : q.Roots schema s (some e))
      (hc : Call.Comes (.entity e.name (Argument.applyDefaults e.arguments q.arguments) context) n
        (.error f) t) : QueryAccount context name q [n] .null
      (t, {.counted .query, .kept .query (f.located [.ofQuery name])})
  | resolved {e : Entity σ} {n : Nat} {w v : Json} {t : Multiset Entry} {ns : List Nat} {d : Books}
      (h : q.Roots schema s (some e))
      (hc : Call.Comes (.entity e.name (Argument.applyDefaults e.arguments q.arguments) context) n
        (.ok w) t)
      (hv : schema.entityAccount s (rootSite schema context name q e) e w q ns v d) :
      QueryAccount context name q [n] v ((t, {.counted .query}) + d)

end Schema

/-- A document: its queries in order, whose values are the data. -/
def Document.Account (d : Document) (schema : Schema σ) (s : Session σ) (context : Context)
    (data : Entries Json) (books : Books) : Prop :=
  ∃ ns vs, Series (d.queries.map fun (name, q) => schema.QueryAccount s context name q) ns vs books ∧
    data = Entries.ofPairs (d.names.zip vs)

/-! ## Series -/

theorem series_single {P : Account} {ns : List Nat} {v : Json} {d : Books} (h : P ns v d) :
    Series [P] ns [v] d := by
  have hs : Series [P] (ns ++ []) [v] (d + 0) :=
    .cons h .nil fun _ _ m hm => absurd hm List.not_mem_nil
  simpa using hs

theorem Series.append {Ps Ps' : List Account} {ns ns' : List Nat} {vs vs' : List Json}
    {d d' : Books} (h : Series Ps ns vs d) (h' : Series Ps' ns' vs' d')
    (hlt : ∀ n ∈ ns, ∀ m ∈ ns', n < m) : Series (Ps ++ Ps') (ns ++ ns') (vs ++ vs') (d + d') := by
  induction h with
  | nil => simpa using h'
  | @cons P Ps ns ms v vs d e hP _ hms ih =>
    have hrest := ih fun n hn => hlt n (List.mem_append_right ns hn)
    rw [List.cons_append, List.append_assoc, add_assoc]
    refine .cons hP hrest fun n hn m hm => ?_
    rcases List.mem_append.mp hm with hm | hm
    · exact hms n hn m hm
    · exact hlt n (List.mem_append_left ms hn) m hm

/-! ## What is counted -/

/-- In all accounts of this kind what is counted balances, with `k` queries. -/
def Account.Balances (P : Account) (k : Nat) : Prop := ∀ ns v d, P ns v d → Books.Balances k d

/-- What is left by parts balances, if it does for each part. -/
theorem Series.balances {Ps : List Account} {k : Nat} (hP : ∀ P ∈ Ps, P.Balances k) {ns : List Nat}
    {vs : List Json} {d : Books} (h : Series Ps ns vs d) : d.Balances (Ps.length * k) := by
  induction h with
  | nil => simpa using Books.balances_zero
  | @cons P Ps _ _ _ _ _ _ h _ _ ih =>
    have hadd := (hP P List.mem_cons_self _ _ _ h).add
      (ih fun Q hQ => hP Q (List.mem_cons_of_mem _ hQ))
    rwa [List.length_cons, Nat.succ_mul, Nat.add_comm]

theorem balances_lack (f : Failure) : (lackAccount f).Balances 0 := by
  rintro _ _ _ ⟨rfl, rfl, rfl⟩
  exact ⟨rfl, rfl, rfl, rfl⟩

/-- How many calls of fields a call is: one, or none where it is that of an entity. -/
theorem Call.Comes.calls {call : Call} {n : Nat} {r : Except Failure Json} {t : Multiset Entry}
    (h : call.Comes n r t) (notes : Multiset Note) :
    Books.calls (t, notes) = if (Event.called call .deferred).callsField then 1 else 0 := by
  cases h <;> cases call <;> rfl

section

variable {call : Call}

theorem balances_field {place : Location} {completes : Json → Except Failure Json → Books → Prop}
    (hcall : call.OfField) (hc : ∀ w r d, completes w r d → d.Balances 0) :
    (FieldAccount place call completes).Balances 0 := by
  have called : ∀ {n r t} (notes : Multiset Note), call.Comes n r t → Books.calls (t, notes) = 1 := by
    intro n r t notes h
    rw [h.calls]
    cases call with
    | entity => exact hcall.elim
    | _ => rfl
  have failed : ∀ {n r t} (f : Failure), call.Comes n r t → Books.Balances 0
      (t, {.counted .execution, .counted .failure, .kept .field f}) :=
    fun f h => ⟨rfl, (called _ h).symm, rfl, rfl⟩
  have completed : ∀ {n r t}, call.Comes n r t →
      Books.Balances 0 (t, {.counted .execution, .counted .completion}) :=
    fun h => ⟨rfl, (called _ h).symm, rfl, rfl⟩
  rintro _ _ _ (h | ⟨h, hw⟩ | ⟨h, hw⟩)
  · exact failed _ h
  · exact (failed _ h).add (hc _ _ _ hw)
  · exact (completed h).add (hc _ _ _ hw)

theorem balances_linked {complete : Json → Account} (h : ∀ w, (complete w).Balances 0) (w v : Json)
    (d : Books) (hd : LinkedAccount complete w v d) : d.Balances 0 := by
  cases hd with
  | null => exact Books.balances_zero
  | array hs =>
    refine hs.balances (k := 0) fun P hP => ?_
    obtain ⟨w, -, rfl⟩ := List.mem_map.mp hP
    exact h w
  | one _ _ hw => exact h w _ _ _ hw

end

theorem balances_act (site : Site) (e : Entity σ) (reference : Json) (supplied : Entries Json)
    (name : String) : (actAccount site e reference supplied name).Balances 0 := by
  unfold actAccount
  split
  · exact balances_lack _
  · refine balances_field trivial ?_
    rintro w r _ ⟨-, rfl⟩
    exact Books.balances_zero

namespace Schema

variable (schema : Schema σ) (s : Session σ)

theorem balances_attribute (site : Site) (e : Entity σ) (reference : Json) (name : String) :
    (schema.attributeAccount s site e reference name).Balances 0 := by
  unfold attributeAccount
  split
  · exact balances_lack _
  · refine balances_field trivial ?_
    rintro w r _ ⟨-, rfl⟩
    exact Books.balances_zero

theorem balances_link (site : Site) (e : Entity σ) (reference : Json) (name : String) (nested : Query)
    {complete : Site → Entity σ → Json → Account}
    (h : ∀ there target w, (complete there target w).Balances 0) :
    (schema.linkAccount s site e reference name nested complete).Balances 0 := by
  unfold linkAccount
  split
  · exact balances_lack _
  · next l _ =>
    rintro ns v d ⟨t, target, -, hfield⟩
    have hcall : Call.OfField (.link e.name l.label reference
        { site.focus .link l.label with
          arguments := Argument.applyDefaults l.arguments nested.arguments }) := trivial
    refine balances_field hcall ?_ _ _ _ hfield
    rintro w _ d ⟨u, rfl, hd⟩
    exact balances_linked (h _ _) w u d hd

mutual

/-- **Of an entity, each field that has its resolver called is counted, and each that fails.** -/
theorem balances_entity (site : Site) (e : Entity σ) (reference : Json) : (q : Query) →
    (schema.entityAccount s site e reference q).Balances 0
  | ⟨_, attributes, act?, arguments, links⟩ => by
    rw [entityAccount]
    rintro ns v d ⟨vs, hs, -⟩
    refine hs.balances (k := 0) fun P hP => ?_
    rcases List.mem_append.mp hP with hP | hP
    · rcases List.mem_append.mp hP with hP | hP
      · obtain ⟨name, -, rfl⟩ := List.mem_map.mp hP
        exact balances_attribute schema s site e reference name
      · obtain ⟨name, -, rfl⟩ := List.mem_map.mp hP
        exact balances_act site e reference arguments name
    · exact balances_links site e reference links P hP

theorem balances_links (site : Site) (e : Entity σ) (reference : Json) :
    (links : List (String × Query)) → ∀ P ∈ schema.linksAccounts s site e reference links,
      P.Balances 0
  | [] => by
    rw [linksAccounts]
    exact fun P hP => absurd hP List.not_mem_nil
  | (name, nested) :: rest => by
    rw [linksAccounts]
    intro P hP
    rcases List.mem_cons.mp hP with rfl | hP
    · exact balances_link schema s site e reference name nested fun there target w =>
        balances_entity there target w nested
    · exact balances_links site e reference rest P hP

end

theorem balances_query (context : Context) (name : String) (q : Query) :
    (schema.QueryAccount s context name q).Balances 1 := by
  rintro _ _ _ (h | ⟨h, hc⟩ | ⟨h, hc, hv⟩)
  · exact ⟨rfl, rfl, rfl, rfl⟩
  · exact ⟨rfl, (hc.calls _).symm, rfl, rfl⟩
  · have counted : Books.Balances 1 (_, {.counted .query}) := ⟨rfl, (hc.calls _).symm, rfl, rfl⟩
    exact counted.add (balances_entity schema s _ _ _ _ _ _ _ hv)

end Schema

/-- **What is counted of a document balances.** -/
theorem Document.Account.balances {d : Document} {schema : Schema σ} {s : Session σ}
    {context : Context} {data : Entries Json} {books : Books}
    (h : d.Account schema s context data books) : books.Balances d.queries.length := by
  obtain ⟨ns, vs, hs, -⟩ := h
  have hb := hs.balances (k := 1) fun P hP => by
    obtain ⟨⟨name, q⟩, -, rfl⟩ := List.mem_map.mp hP
    exact Schema.balances_query schema s context name q
  simpa using hb

end EntityQuery
