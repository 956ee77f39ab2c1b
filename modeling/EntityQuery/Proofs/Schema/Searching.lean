import EntityQuery.Execution.Completion
import EntityQuery.Proofs.Schema.Traversal

/-!
# What holds of every lookup of a name

A property of computations on sessions that sequencing keeps, and that holds of each request, holds of
looking up names, of resolving references and of following links, if it holds of running the loader.

* `Lookup.Closed`: such a property.
* **`Lookup.Closed.find`**: looking up a name. `Lookup.Closed.resolve`, `Lookup.Closed.follow`: references
  and links. `Lookup.Closed.root`: the entity that a query names.
* `Lookup.Faultless`: a computation that stops at no fault.
* **`Schema.Peaceful`**: a loader that never panics; **`Schema.Peaceful.closed`**: lookups with it stop at
  no fault.
-/

namespace EntityQuery

variable {σ α β : Type}

namespace Lookup

/-- A property of computations on sessions of one schema that sequencing keeps, and that holds of each
request other than a call of the application. -/
structure Closed (schema : Schema σ) (P : ∀ {α : Type}, Lookup σ α → Prop) : Prop where
  pure : ∀ {α : Type} (a : α), P (Pure.pure a)
  stop : ∀ {α : Type} (e : Stop), (∀ f, e ≠ .fault f) → P (throw e : Lookup σ α)
  session : P (get : Lookup σ (Session σ))
  change : ∀ f : Session σ → Session σ, (∀ s, (f s).app = s.app) → P (modify f : Lookup σ PUnit)
  force : ∀ r, P (schema.force r)
  bind : ∀ {α β : Type} {x : Lookup σ α} {f : α → Lookup σ β}, P x → (∀ a, P (f a)) → P (x >>= f)
  ensuring : ∀ {α : Type} {x : Lookup σ α} (clean : Session σ → Session σ),
    (∀ s, (clean s).app = s.app) → P x → P (x.ensuring clean)
  onDefect : ∀ {α : Type} {x : Lookup σ α} (clean : Session σ → Session σ),
    (∀ s, (clean s).app = s.app) → P x → P (x.onDefect clean)
  attempt : ∀ {α : Type} {x : Lookup σ α}, P x → P x.attempt

/-- Running the loader has the property where looking up names and scanning have it. -/
def Loads (schema : Schema σ) (P : ∀ {α : Type}, Lookup σ α → Prop) : Prop :=
  ∀ loader, schema.loader? = some loader → ∀ name (find : Finder σ) scan, (∀ n, P (find n)) →
    P scan → P ((loader name).run find scan)

/-- Two computations, the first of which has the property. -/
def First (P : ∀ {α : Type}, Lookup σ α → Prop) {α : Type} (x _ : Lookup σ α) : Prop := P x

namespace Closed

variable {schema : Schema σ} {P : ∀ {α : Type}, Lookup σ α → Prop} (hP : Closed schema P)

include hP

/-- Each request of a traversal has the property. -/
theorem respects : Respects schema (First P) where
  pure := hP.pure
  stop := hP.stop
  force := hP.force
  refuse _ _ := hP.bind (hP.bind hP.session fun _ => hP.pure _) fun _ => hP.stop _ nofun
  bind := hP.bind

theorem require {find : Finder σ} (hfind : ∀ name, P (find name)) (name : String) :
    First P (find.require name) (find.require name) := by
  refine hP.bind (hfind name) fun t? => ?_
  cases t? with
  | none => exact hP.stop _ nofun
  | some t => exact hP.pure t

/-! ## Looking up names -/

section

variable {find : Finder σ} (hfind : ∀ name, P (find name))

theorem publish (types : Entries NamedType) : P (Schema.publish types : Lookup σ Unit) := by
  induction types with
  | nil => exact hP.pure _
  | cons e rest ih =>
    obtain ⟨name, t⟩ := e
    unfold Schema.publish
    refine hP.bind hP.session fun s => ?_
    split
    · split
      · exact ih
      · exact hP.stop _ nofun
    · exact hP.bind (hP.change _ fun _ => rfl) fun _ => ih

include hfind

theorem scanWith : P (schema.scanWith find) := by
  have hr := hP.respects
  have hS := schema.congruent_refl
  have registered : P (do
      let seeds := (← get).readyTypes
      let found ← seeds.foldlM (fun found t => schema.collect schema.limit t found) {}
      let found ← schema.collectPending find schema.limit found
      Schema.publish found.types
      modify fun s => { s with complete := true }
      return found.types) := by
    refine hP.bind hP.session fun s => ?_
    have seeded : P (s.readyTypes.foldlM
        (fun found t => schema.collect schema.limit t found) {}) :=
      hr.foldlM _ (fun found t => hr.collect hS _ t found) _
    refine hP.bind seeded fun found => ?_
    refine hP.bind (hr.collectPending hS (hP.require hfind) _ found) fun found => ?_
    refine hP.bind (hP.publish _) fun _ => ?_
    exact hP.bind (hP.change _ fun _ => rfl) fun _ => hP.pure _
  unfold Schema.scanWith
  split
  · exact hP.bind (hP.change _ fun _ => rfl) fun _ => registered
  · exact registered

variable {loader : String → Loading σ} (hl : Loads schema P) (hloader : schema.loader? = some loader)

include hl hloader

theorem load (name : String) : P (schema.load find loader name) := by
  refine hP.bind (hl loader hloader name find _ hfind (hP.scanWith hfind)) fun found => ?_
  cases found with
  | none => exact hP.pure _
  | some t =>
    cases t with
    | base t =>
      simp only
      split
      · exact hP.pure _
      · exact hP.stop _ nofun
    | nonNull id inner => exact hP.respects.refuse _ _
    | listOf id inner => exact hP.respects.refuse _ _

theorem loadMarked (name : String) : P (schema.loadMarked find loader name) := by
  refine hP.bind (hP.load hfind hl hloader name) fun loaded => hP.bind hP.session fun s => ?_
  split
  · exact hP.stop _ nofun
  · exact hP.pure _
  · exact hP.pure _
  · exact hP.bind (hP.change _ fun _ => rfl) fun _ => hP.pure _

theorem loadName (name : String) : P (schema.loadName find loader name) := by
  have clears : ∀ s : Session σ, (s.clearLoading name).app = s.app := by
    intro s
    unfold Session.clearLoading
    split <;> rfl
  have evicts : ∀ t (s : Session σ), (s.evict name t).app = s.app := by
    intro t s
    unfold Session.evict
    split <;> rfl
  refine hP.bind (hP.change _ fun _ => rfl) fun _ => ?_
  refine hP.bind (hP.ensuring _ clears (hP.loadMarked hfind hl hloader name)) fun r => ?_
  obtain ⟨found, registered⟩ := r
  cases found with
  | none => exact hP.pure _
  | some t =>
    cases registered with
    | false => exact hP.pure _
    | true =>
      simp only
      split
      · next e _ =>
        have hcheck : P (e.check schema find) := hP.respects.check_same (hP.require hfind) e
        exact hP.bind (hP.onDefect _ (evicts t) hcheck) fun _ => hP.pure _
      · exact hP.pure _

end

variable (hl : Loads schema P)

include hl

/-- **Looking up a name has the property**, also where it is loaded. -/
theorem find (name : String) : P (schema.find name) := by
  suffices hwithin : ∀ fuel name, P (schema.findWithin fuel name) from hwithin _ name
  intro fuel
  induction fuel with
  | zero =>
    intro name
    unfold Schema.findWithin
    refine hP.bind hP.session fun s => ?_
    split
    · exact hP.pure _
    · exact hP.bind (hP.change _ fun _ => rfl) fun _ => hP.stop _ nofun
    · split
      · exact hP.pure _
      · exact hP.stop _ nofun
      · next hf => cases hf
  | succ fuel ih =>
    intro name
    unfold Schema.findWithin
    refine hP.bind hP.session fun s => ?_
    split
    · exact hP.pure _
    · exact hP.bind (hP.change _ fun _ => rfl) fun _ => hP.stop _ nofun
    · split
      · exact hP.pure _
      · next hf => cases hf
      · next loader fuel' hloader hf =>
        cases hf
        exact hP.loadName ih hl hloader name

/-- So does looking up the entity that a query names. -/
theorem root {x : Execution σ} (hx : x.schema = schema) (q : Query) : P (x.root q) := by
  subst hx
  unfold Execution.root
  split
  · exact hP.pure _
  · exact hP.bind (hP.find hl _) fun _ => hP.pure _

/-! ## Resolving references -/

theorem resolve (r : TypeRef) : P (r.resolve schema schema.find) :=
  hP.respects.resolve schema.congruent_refl (hP.require (hP.find hl)) r

theorem resolveBare (r : TypeRef) : P (r.resolveBare schema schema.find) :=
  hP.respects.resolveBare schema.congruent_refl (hP.require (hP.find hl)) r

/-- **Following a link has the property.** -/
theorem follow (entity : String) (l : Link σ) : P (l.follow schema schema.find entity) := by
  refine hP.bind (hP.resolve hl l.target) fun t => ?_
  cases t with
  | base t =>
    simp only
    split
    · exact hP.pure _
    · exact hP.respects.refuse _ _
  | nonNull id inner => exact hP.respects.refuse _ _
  | listOf id inner => exact hP.respects.refuse _ _

end Closed

/-! ## Lookups without faults -/

/-- The computation stops at no fault. -/
def Faultless (x : Lookup σ α) : Prop := ∀ s f s', x s ≠ .error (.fault f) s'

theorem Faultless.bind {x : Lookup σ α} {k : α → Lookup σ β} (hx : x.Faultless)
    (hk : ∀ a, (k a).Faultless) : Faultless (x >>= k) := by
  intro s f s' h
  cases hr : x s with
  | ok a s₁ =>
    have hb : (x >>= k) s = k a s₁ := by
      simp only [Bind.bind, EStateM.bind, hr]
    exact hk a s₁ f s' (hb.symm.trans h)
  | error e s₁ =>
    have hb : (x >>= k) s = .error e s₁ := by
      simp only [Bind.bind, EStateM.bind, hr]
    rw [hb] at h
    cases h
    exact hx s f s' hr

end Lookup

open Lookup

/-- The loader never panics. -/
inductive Loading.Peaceful : Loading σ → Prop
  | done (found : Option Ty) : Peaceful (.done found)
  | step {change : σ → σ} {next : σ → Loading σ} (h : ∀ s, (next s).Peaceful) :
      Peaceful (.step change next)
  | find (name : String) {next : Except Defect (Option NamedType) → Loading σ}
      (h : ∀ found, (next found).Peaceful) : Peaceful (.find name next)
  | scan {next : Except Defect (Entries NamedType) → Loading σ}
      (h : ∀ found, (next found).Peaceful) : Peaceful (.scan next)

/-- The loader of the schema, if there is one, never panics. -/
def Schema.Peaceful (schema : Schema σ) : Prop :=
  ∀ loader, schema.loader? = some loader → ∀ name, (loader name).Peaceful

theorem Lookup.closed_faultless (schema : Schema σ) :
    Closed schema fun x => Faultless x where
  pure _ _ _ _ h := nomatch h
  stop e he s f s' h := by
    cases h
    exact he f rfl
  session _ _ _ h := nomatch h
  change _ _ _ _ _ h := nomatch h
  force r s f s' h := by
    unfold Schema.force at h
    split at h <;> cases h
  bind := Faultless.bind
  ensuring := by
    intro α x clean _ hx s f s' h
    unfold Lookup.ensuring at h
    cases hr : x s with
    | ok a s₁ =>
      rw [hr] at h
      cases h
    | error e s₁ =>
      rw [hr] at h
      cases h
      exact hx s f s₁ hr
  onDefect := by
    intro α x clean _ hx s f s' h
    unfold Lookup.onDefect at h
    cases hr : x s with
    | ok a s₁ =>
      rw [hr] at h
      cases h
    | error e s₁ =>
      rw [hr] at h
      cases e <;> cases h
      exact hx s f s' hr
  attempt := by
    intro α x hx s f s' h
    unfold Lookup.attempt at h
    cases hr : x s with
    | ok a s₁ =>
      rw [hr] at h
      cases h
    | error e s₁ =>
      rw [hr] at h
      cases e <;> cases h
      exact hx s f s' hr

theorem Loading.Peaceful.faultless_run (schema : Schema σ) {l : Loading σ} (hl : l.Peaceful)
    {find : Finder σ} {scan : Lookup σ (Entries NamedType)} (hfind : ∀ name, (find name).Faultless)
    (hscan : scan.Faultless) : (l.run find scan).Faultless := by
  have hc := closed_faultless schema
  induction hl with
  | done found => exact hc.pure found
  | step _ ih => exact fun s => ih _ _
  | find name _ ih => exact hc.bind (hc.attempt (hfind name)) ih
  | scan _ ih => exact hc.bind (hc.attempt hscan) ih

/-- **Where the loader never panics, lookups stop at no fault.** -/
theorem Schema.Peaceful.loads {schema : Schema σ} (h : schema.Peaceful) :
    Loads schema fun x => Faultless x := fun loader hl name _ _ hfind hscan =>
  (h loader hl name).faultless_run schema hfind hscan

end EntityQuery
