import EntityQuery.Proofs.Promise.Ending
import EntityQuery.Proofs.Promise.Tame
import Mathlib.Data.Multiset.DershowitzManna
import Mathlib.SetTheory.Ordinal.Rank

/-!
# Every run ends

A task is a finite tree: what it puts off is a smaller tree, and so is what a reaction comes to. Each
step of a run replaces one of the things that are left to do by finitely many smaller ones. So no
run goes on for ever, whatever drains what.

* `Piece`, `Steps.pieces`: tasks and reactions, and those that steps put off.
* `Piece.rank`: how deep a task is. `Machine.load`: the ranks of all that is left to do.
* **`Machine.ends_drain_of_calm`**, **`Work.ends_of_calm`**: where no task halts, every run ends.
-/

namespace EntityQuery

variable {V W : Type}

/-- A task or a reaction. -/
inductive Piece (V W : Type)
  | task (j : Job V W)
  | reaction (r : Outcome V → Job V W)

/-- The tasks and reactions that steps put off themselves. -/
def Steps.pieces {α : Type u} : Work V W α → Set (Piece V W)
  | .pure _ | .halt _ => ∅
  | .newQueue next => ⋃ q, (next q).pieces
  | .newPromise _ next => ⋃ p, (next p).pieces
  | .outcome _ next => ⋃ o, (next o).pieces
  | .home _ next => ⋃ q, (next q).pieces
  | .settle _ _ next => ⋃ b, (next b).pieces
  | .subscribe _ r next => insert (.reaction r) next.pieces
  | .enqueue _ t next => insert (.task t) next.pieces
  | .drain _ _ next => ⋃ b, (next b).pieces
  | .ticks _ next => ⋃ n, (next n).pieces
  | .newGather _ next => ⋃ g, (next g).pieces
  | .fill _ _ _ next => ⋃ vs, (next vs).pieces
  | .getWorld next => ⋃ w, (next w).pieces
  | .setWorld _ next => next.pieces

namespace Piece

/-- What a task puts off comes before it, and so do the tasks that a reaction may come to. -/
def Before (x : Piece V W) : Piece V W → Prop
  | task j => x ∈ j.steps.pieces
  | reaction r => ∃ o, x = task (r o)

mutual

/-- A task is built up from smaller ones. -/
theorem acc_task : ∀ j : Job V W, Acc Before (task j)
  | .mk s => ⟨_, acc_of_mem_pieces s⟩

theorem acc_of_mem_pieces : ∀ (s : Work V W Unit), ∀ x ∈ s.pieces, Acc Before x
  | .pure _, _, h | .halt _, _, h => h.elim
  | .newQueue next, x, h => (Set.mem_iUnion.mp h).elim fun q => acc_of_mem_pieces (next q) x
  | .newPromise _ next, x, h => (Set.mem_iUnion.mp h).elim fun p => acc_of_mem_pieces (next p) x
  | .outcome _ next, x, h => (Set.mem_iUnion.mp h).elim fun o => acc_of_mem_pieces (next o) x
  | .home _ next, x, h => (Set.mem_iUnion.mp h).elim fun q => acc_of_mem_pieces (next q) x
  | .settle _ _ next, x, h => (Set.mem_iUnion.mp h).elim fun b => acc_of_mem_pieces (next b) x
  | .subscribe _ r next, x, h =>
    h.elim (fun he => he ▸ ⟨_, fun _ ⟨o, hy⟩ => hy ▸ acc_task (r o)⟩) (acc_of_mem_pieces next x)
  | .enqueue _ t next, x, h => h.elim (fun he => he ▸ acc_task t) (acc_of_mem_pieces next x)
  | .drain _ _ next, x, h => (Set.mem_iUnion.mp h).elim fun b => acc_of_mem_pieces (next b) x
  | .ticks _ next, x, h => (Set.mem_iUnion.mp h).elim fun n => acc_of_mem_pieces (next n) x
  | .newGather _ next, x, h => (Set.mem_iUnion.mp h).elim fun g => acc_of_mem_pieces (next g) x
  | .fill _ _ _ next, x, h => (Set.mem_iUnion.mp h).elim fun vs => acc_of_mem_pieces (next vs) x
  | .getWorld next, x, h => (Set.mem_iUnion.mp h).elim fun w => acc_of_mem_pieces (next w) x
  | .setWorld _ next, x, h => acc_of_mem_pieces next x h

end

instance : IsWellFounded (Piece V W) Before where
  wf := ⟨fun
    | task j => acc_task j
    | reaction r => ⟨_, fun _ ⟨o, hy⟩ => hy ▸ acc_task (r o)⟩⟩

/-- How deep a task or a reaction is. -/
noncomputable def rank (x : Piece V W) : Ordinal.{0} := IsWellFounded.rank Before x

theorem rank_lt {x y : Piece V W} (h : x.Before y) : x.rank < y.rank :=
  IsWellFounded.rank_lt_of_rel h

end Piece

/-! ## What is left to do -/

/-- One lot of work is no more than another one: some of it may be replaced by smaller pieces. -/
def Lighter (A B : Multiset Ordinal.{0}) : Prop := A = B ∨ A.IsDershowitzMannaLT B

namespace Lighter

variable {A B C : Multiset Ordinal.{0}}

theorem refl (A : Multiset Ordinal.{0}) : Lighter A A := .inl rfl

theorem trans (h : Lighter A B) (h' : Lighter B C) : Lighter A C := by
  rcases h with rfl | h
  · exact h'
  · rcases h' with rfl | h'
    · exact .inr h
    · exact .inr (h.trans h')

theorem of_le (h : A ≤ B) : Lighter A B := by
  obtain ⟨Z, rfl⟩ := Multiset.le_iff_exists_add.mp h
  by_cases hZ : Z = 0
  · exact .inl (by simp [hZ])
  · exact .inr ⟨A, 0, Z, hZ, by simp, rfl, by simp⟩

theorem add_right (h : Lighter A B) (C : Multiset Ordinal.{0}) : Lighter (A + C) (B + C) := by
  rcases h with rfl | ⟨X, Y, Z, hZ, rfl, rfl, hYZ⟩
  · exact refl _
  · exact .inr ⟨X + C, Y, Z, hZ, by abel, by abel, hYZ⟩

/-- Some of the work may be replaced by pieces below one of its parts. -/
theorem replace {X Y : Multiset Ordinal.{0}} {κ : Ordinal.{0}} (h : ∀ y ∈ Y, y < κ) :
    (X + Y).IsDershowitzMannaLT (X + {κ}) :=
  ⟨X, Y, {κ}, by simp, rfl, rfl, fun y hy => ⟨κ, by simp, h y hy⟩⟩

end Lighter

/-- Work that is left after pieces below `κ` have been added to `L`. -/
def Beneath (L : Multiset Ordinal.{0}) (κ : Ordinal.{0}) (A : Multiset Ordinal.{0}) : Prop :=
  ∃ Y, (∀ y ∈ Y, y < κ) ∧ Lighter A (L + Y)

namespace Beneath

variable {L A B : Multiset Ordinal.{0}} {κ : Ordinal.{0}}

theorem self : Beneath L κ L := ⟨0, by simp, by simpa using Lighter.refl L⟩

theorem lighter (h : Beneath L κ B) (hA : Lighter A B) : Beneath L κ A :=
  let ⟨Y, hY, hB⟩ := h
  ⟨Y, hY, hA.trans hB⟩

theorem add (h : Beneath L κ A) {y : Ordinal.{0}} (hy : y < κ) : Beneath L κ (A + {y}) := by
  obtain ⟨Y, hY, hA⟩ := h
  refine ⟨Y + {y}, fun z hz => ?_, ?_⟩
  · rcases Multiset.mem_add.mp hz with hz | hz
    · exact hY z hz
    · exact Multiset.mem_singleton.mp hz ▸ hy
  · rw [← add_assoc]
    exact hA.add_right {y}

theorem lt (h : Beneath L κ A) : A.IsDershowitzMannaLT (L + {κ}) := by
  obtain ⟨Y, hY, rfl | hA⟩ := h
  · exact Lighter.replace hY
  · exact hA.trans (Lighter.replace hY)

end Beneath

namespace Machine

/-- The ranks of all that is left to do. -/
noncomputable def load (m : Machine V W) : Multiset Ordinal.{0} :=
  m.total (fun j => {(Piece.task j).rank}) fun r => {(Piece.reaction r).rank}

variable {m : Machine V W}

/-- **Settling a promise leaves less to do.** -/
theorem load_settle (p : Promise) (o : Outcome V) : Lighter (m.settle p o).2.load m.load := by
  obtain ⟨rs, x, hx, hle⟩ := total_settle (fun j : Job V W => ({(Piece.task j).rank} : Multiset _))
    (fun r => {(Piece.reaction r).rank}) m p o
  refine (Lighter.of_le hle).trans ?_
  rw [load, hx]
  clear hx hle
  induction rs generalizing x with
  | nil => exact .refl _
  | cons r rs ih =>
    simp only [List.map_cons, List.sum_cons, ← add_assoc]
    refine (ih _).trans (.add_right (.inr (Lighter.replace fun y hy => ?_)) _)
    obtain rfl := Multiset.mem_singleton.mp hy
    exact Piece.rank_lt ⟨o, rfl⟩

theorem load_append_le (q : QueueId) (t : Job V W) :
    Lighter (m.enqueue q t).load (m.load + {(Piece.task t).rank}) :=
  .of_le (by simpa [load, enqueue] using total_append_le _ _ m q [t])

theorem load_subscribe (p : Promise) (r : Outcome V → Job V W) :
    Lighter (m.subscribe p r).load (m.load + {(Piece.reaction r).rank}) := by
  rcases total_subscribe (fun j : Job V W => ({(Piece.task j).rank} : Multiset _))
    (fun r => {(Piece.reaction r).rank}) m p r with h | ⟨o, h⟩
  · exact .of_le h
  · refine (Lighter.of_le h).trans (.inr (Lighter.replace fun y hy => ?_))
    obtain rfl := Multiset.mem_singleton.mp hy
    exact Piece.rank_lt ⟨o, rfl⟩

end Machine

/-! ## Runs -/

/-- **Steps end where the drains that they start end**, and put off nothing as deep as `κ`. -/
theorem Work.ends_of_drains {α : Type} {s : Work V W α} {ps : Set Promise} {gs : Set GatherId}
    (hs : s.Tame ps gs) {L : Multiset Ordinal.{0}} {κ : Ordinal.{0}}
    (hκ : ∀ x ∈ s.pieces, x.rank < κ)
    (hdrain : ∀ m' : Machine V W, m'.Every Job.Calm → m'.load.IsDershowitzMannaLT (L + {κ}) →
      ∀ q d, EntityQuery.Ends False (fun limit => m'.drain limit q d) fun _ m'' =>
        m''.Every Job.Calm ∧ Lighter m''.load m'.load)
    {m : Machine V W} (hm : m.Every Job.Calm) (hload : Beneath L κ m.load) :
    Work.Ends False s m fun _ m' => m'.Every Job.Calm ∧ Beneath L κ m'.load := by
  induction hs generalizing m with
  | pure a => exact ends_pure ⟨hm, hload⟩
  | newQueue _ ih =>
    exact ends_newQueue.mpr (ih _ (fun x hx => hκ x (Set.mem_iUnion.mpr ⟨_, hx⟩)) hm.newQueue
      (by simpa [Machine.load] using hload))
  | newPromise _ ih =>
    exact ends_newPromise.mpr (ih _ (fun x hx => hκ x (Set.mem_iUnion.mpr ⟨_, hx⟩))
      (hm.newPromise _) (by simpa [Machine.load] using hload))
  | outcome _ ih =>
    exact ends_outcome.mpr (ih _ (fun x hx => hκ x (Set.mem_iUnion.mpr ⟨_, hx⟩)) hm hload)
  | home _ ih =>
    exact ends_home.mpr (ih _ (fun x hx => hκ x (Set.mem_iUnion.mpr ⟨_, hx⟩)) hm hload)
  | settle _ _ ih =>
    exact ends_settle.mpr (ih _ (fun x hx => hκ x (Set.mem_iUnion.mpr ⟨_, hx⟩)) (hm.settle _ _)
      (hload.lighter (Machine.load_settle _ _)))
  | subscribe _ hr _ _ ih =>
    exact ends_subscribe.mpr (ih (fun x hx => hκ x (.inr hx))
      (hm.subscribe _ fun o => (hr o).calm)
      ((hload.add (hκ _ (.inl rfl))).lighter (Machine.load_subscribe _ _)))
  | enqueue ht _ _ ih =>
    exact ends_enqueue.mpr (ih (fun x hx => hκ x (.inr hx))
      (hm.append _ fun t ht' => List.mem_singleton.mp ht' ▸ ht.calm)
      ((hload.add (hκ _ (.inl rfl))).lighter (Machine.load_append_le _ _)))
  | drain _ ih =>
    refine ends_drain ((hdrain m hm hload.lt _ _).mono fun ran m' h => ?_)
    exact ih ran (fun x hx => hκ x (Set.mem_iUnion.mpr ⟨_, hx⟩)) h.1 (hload.lighter h.2)
  | ticks _ ih =>
    exact ends_ticks.mpr (ih _ (fun x hx => hκ x (Set.mem_iUnion.mpr ⟨_, hx⟩)) hm hload)
  | newGather _ ih =>
    exact ends_newGather.mpr (ih _ (fun x hx => hκ x (Set.mem_iUnion.mpr ⟨_, hx⟩))
      ⟨hm.tasks, hm.reactions⟩ hload)
  | fill _ _ ih =>
    exact ends_fill.mpr (ih _ (fun x hx => hκ x (Set.mem_iUnion.mpr ⟨_, hx⟩)) (hm.fill _ _ _)
      (by simpa [Machine.load] using hload))
  | getWorld _ ih =>
    exact ends_getWorld.mpr (ih _ (fun x hx => hκ x (Set.mem_iUnion.mpr ⟨_, hx⟩)) hm hload)
  | setWorld _ ih =>
    exact ends_setWorld.mpr (ih hκ ⟨hm.tasks, hm.reactions⟩ hload)

namespace Machine

variable {m : Machine V W} {q : QueueId}

/-- **Where no task halts, every drain ends**, and leaves no more to do than there was. -/
theorem ends_drain_of_calm (hm : m.Every Job.Calm) (q : QueueId) (d : Drain) :
    Ends False (fun limit => m.drain limit q d) fun _ m' =>
      m'.Every Job.Calm ∧ Lighter m'.load m.load := by
  induction hL : m.load using
    (Multiset.wellFounded_isDershowitzMannaLT (α := Ordinal.{0})).induction generalizing m q d with
  | _ L ih =>
    subst hL
    cases hr : m.reached d with
    | true => exact ends_drain_of_reached hr ⟨hm, .refl _⟩
    | false =>
      cases hpop : m.pop? q with
      | none =>
        exact ends_drain_of_empty ((pop?_eq_none_iff m q).mp hpop) ⟨hm, .refl _⟩
      | some popped =>
        obtain ⟨task, m₁⟩ := popped
        obtain ⟨htask, hm₁⟩ := hm.pop? hpop
        have hload : m.load = m₁.load + {(Piece.task task).rank} := total_pop? _ _ _ hpop
        refine ends_drain_of_task hr hpop ((Work.ends_of_drains htask
          (fun x hx => Piece.rank_lt (y := .task task) hx) (fun m' hm' hlt q d => ?_) hm₁ .self).mono
          fun _ m₂ ⟨hm₂, hw⟩ => ⟨fun _ => ⟨hm₂, .inr (hload ▸ hw.lt)⟩, fun _ => ?_⟩)
        · exact ih _ (hload ▸ hlt) hm' q d rfl
        · exact (ih _ (hload ▸ hw.lt) hm₂ q d rfl).mono fun _ m₃ ⟨hm₃, hl⟩ =>
            ⟨hm₃, hl.trans (.inr (hload ▸ hw.lt))⟩

end Machine

/-- **Where no task halts, every run ends.** -/
theorem Work.ends_of_calm {α : Type} {s : Work V W α} (hs : s.Calm) {m : Machine V W}
    (hm : m.Every Job.Calm) : Work.Ends False s m fun _ _ => True := by
  have hκ : ∀ x ∈ s.pieces, x.rank < ⨆ x : Piece V W, Order.succ x.rank := fun x _ =>
    (Order.lt_succ x.rank).trans_le (Ordinal.le_iSup (fun x : Piece V W => Order.succ x.rank) x)
  exact (ends_of_drains hs hκ (fun m' hm' _ q d => m'.ends_drain_of_calm hm' q d) hm
    .self).mono fun _ _ _ => trivial

end EntityQuery
