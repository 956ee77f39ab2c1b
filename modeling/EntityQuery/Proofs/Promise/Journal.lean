import EntityQuery.Promise.Machine
import Mathlib.Data.List.Induction

/-!
# Journals of a promise

A program can keep a journal beside its world of what it does with one promise, and of when each
reaction to that promise starts.

* `Notice`, `Journal`: what is noted of a promise. `Journal.Lawful`: each notice follows from those
  before it.
* **`Journal.Lawful.attempts_eq`**, **`Journal.Lawful.reactions_fst`**: what follows for the attempts
  to settle the promise, and for the order in which its reactions start.
* `Steps.watched`, `Machine.watched`: a program, and a machine, with a journal.
-/

namespace EntityQuery

variable {V W : Type} {α : Type}

/-- What is noted of a promise. A call counts the notices made between its start and its end. -/
inductive Notice (V : Type)
  /-- An attempt to settle it, and whether it was told to be the first. -/
  | attempt (o : Outcome V) (fresh : Bool) (meanwhile : Nat)
  /-- A reaction is registered, under its number. -/
  | registration (n : Nat) (meanwhile : Nat)
  /-- The reaction of a number starts with an outcome. -/
  | reaction (n : Nat) (o : Outcome V)
  /-- Its state is looked at. -/
  | look (state : Option (Outcome V))

namespace Notice

/-- The attempt to settle the promise. -/
def attempt? : Notice V → Option (Outcome V × Bool)
  | attempt o fresh _ => some (o, fresh)
  | _ => none

/-- The number of the reaction that is registered. -/
def registered? : Notice V → Option Nat
  | registration n _ => some n
  | _ => none

/-- The reaction that starts, and the outcome that it is given. -/
def reaction? : Notice V → Option (Nat × Outcome V)
  | reaction n o => some (n, o)
  | _ => none

/-- How much was noted during a call. -/
def meanwhile : Notice V → Nat
  | attempt _ _ meanwhile => meanwhile
  | registration _ meanwhile => meanwhile
  | _ => 0

end Notice

/-- What has been noted of a promise, the oldest first. -/
abbrev Journal (V : Type) := List (Notice V)

namespace Journal

/-- The attempts to settle the promise. -/
def attempts (j : Journal V) : List (Outcome V × Bool) := j.filterMap Notice.attempt?

/-- The numbers of the registered reactions. -/
def registered (j : Journal V) : List Nat := j.filterMap Notice.registered?

/-- The reactions that have started. -/
def reactions (j : Journal V) : List (Nat × Outcome V) := j.filterMap Notice.reaction?

/-- The outcome of the first attempt to settle the promise. -/
def outcome? (j : Journal V) : Option (Outcome V) := j.attempts.head?.map Prod.fst

end Journal

/-- A notice follows from those before it: the first attempt to settle the promise is told so and no
other one is, reactions are numbered as they are registered, they start in that order and with the
outcome, and nothing is noted during a call. -/
def Notice.Follows (j : Journal V) : Notice V → Prop
  | .attempt _ fresh meanwhile => fresh = j.outcome?.isNone ∧ meanwhile = 0
  | .registration n meanwhile => n = j.registered.length ∧ meanwhile = 0
  | .reaction n o => n = j.reactions.length ∧ n < j.registered.length ∧ j.outcome? = some o
  | .look state => state = j.outcome?

namespace Journal

/-- Each notice follows from those before it. -/
def Lawful (j : Journal V) : Prop :=
  ∀ before notice after, j = before ++ notice :: after → notice.Follows before

variable {j : Journal V} {notice : Notice V}

@[simp] theorem attempts_snoc : attempts (j ++ [notice]) = attempts j ++ notice.attempt?.toList := by
  cases notice <;> simp [attempts, Notice.attempt?]

@[simp] theorem registered_snoc :
    registered (j ++ [notice]) = registered j ++ notice.registered?.toList := by
  cases notice <;> simp [registered, Notice.registered?]

@[simp] theorem reactions_snoc :
    reactions (j ++ [notice]) = reactions j ++ notice.reaction?.toList := by
  cases notice <;> simp [reactions, Notice.reaction?]

@[simp] theorem outcome?_snoc :
    outcome? (j ++ [notice]) = (outcome? j).or (notice.attempt?.map Prod.fst) := by
  rw [outcome?, outcome?, attempts_snoc]
  cases attempts j <;> cases notice.attempt? <;> rfl

theorem lawful_nil : Lawful ([] : Journal V) := fun before notice after h => by simp at h

theorem Lawful.snoc (h : j.Lawful) (hn : notice.Follows j) : Lawful (j ++ [notice]) := by
  intro before notice' after he
  rcases List.eq_nil_or_concat after with rfl | ⟨after', last, rfl⟩
  · obtain ⟨rfl, hnotice⟩ := List.append_inj' he rfl
    obtain rfl := List.singleton_inj.mp hnotice
    exact hn
  · rw [List.concat_eq_append, ← List.cons_append, ← List.append_assoc] at he
    exact h before notice' after' (List.append_inj' he rfl).1

theorem Lawful.of_snoc (h : Lawful (j ++ [notice])) : j.Lawful ∧ notice.Follows j :=
  ⟨fun before notice' after he => h before notice' (after ++ [notice]) (by simp [he]),
    h j notice [] rfl⟩

/-- **Only the first attempt settles the promise.** -/
theorem Lawful.attempts_eq (h : Lawful j) :
    attempts j = [] ∨
      ∃ o later, attempts j = (o, true) :: later ∧ ∀ a ∈ later, a.2 = false := by
  induction j using List.reverseRecOn with
  | nil => exact .inl rfl
  | append_singleton j notice ih =>
    obtain ⟨hj, hn⟩ := h.of_snoc
    cases notice with
    | attempt o fresh meanwhile =>
      have happend : attempts (j ++ [.attempt o fresh meanwhile]) = attempts j ++ [(o, fresh)] :=
        attempts_snoc
      have hfresh : fresh = (outcome? j).isNone := hn.1
      rw [happend]
      rcases ih hj with hnil | ⟨o', later, hcons, hlater⟩
      · exact .inr ⟨o, [], by simp [hnil, hfresh, outcome?], by simp⟩
      · refine .inr ⟨o', later ++ [(o, fresh)], by simp [hcons], fun a ha => ?_⟩
        rcases List.mem_append.mp ha with ha | ha
        · exact hlater a ha
        · obtain rfl := List.mem_singleton.mp ha
          simp [hfresh, outcome?, hcons]
    | registration | reaction | look => simpa [Notice.attempt?] using ih hj

/-- Reactions are numbered as they are registered. -/
theorem Lawful.registered_eq (h : Lawful j) : registered j = List.range (registered j).length := by
  induction j using List.reverseRecOn with
  | nil => rfl
  | append_singleton j notice ih =>
    obtain ⟨hj, hn⟩ := h.of_snoc
    cases notice with
    | registration n meanwhile =>
      have happend : registered (j ++ [.registration n meanwhile]) = registered j ++ [n] :=
        registered_snoc
      rw [happend, List.length_append, List.length_singleton, List.range_succ, ← ih hj, hn.1]
    | attempt | reaction | look => simpa [Notice.registered?] using ih hj

/-- **Reactions start in the order of their registration, none of them twice.** -/
theorem Lawful.reactions_fst (h : Lawful j) :
    (reactions j).map Prod.fst = List.range (reactions j).length := by
  induction j using List.reverseRecOn with
  | nil => rfl
  | append_singleton j notice ih =>
    obtain ⟨hj, hn⟩ := h.of_snoc
    cases notice with
    | reaction n o =>
      have happend : reactions (j ++ [.reaction n o]) = reactions j ++ [(n, o)] := reactions_snoc
      rw [happend, List.length_append, List.length_singleton, List.range_succ, ← ih hj,
        List.map_append, hn.1]
      rfl
    | attempt | registration | look => simpa [Notice.reaction?] using ih hj

/-- **A reaction is given the outcome of the first attempt.** -/
theorem Lawful.reactions_snd (h : Lawful j) : ∀ r ∈ reactions j, outcome? j = some r.2 := by
  induction j using List.reverseRecOn with
  | nil => simp [reactions]
  | append_singleton j notice ih =>
    obtain ⟨hj, hn⟩ := h.of_snoc
    intro r hr
    rw [reactions_snoc, List.mem_append] at hr
    rw [outcome?_snoc]
    rcases hr with hr | hr
    · simp [ih hj r hr]
    · cases notice with
      | reaction n o =>
        obtain rfl := List.mem_singleton.mp hr
        simp [hn.2.2]
      | attempt | registration | look => simp [Notice.reaction?] at hr

/-- Reactions start after they have been registered. -/
theorem Lawful.length_reactions_le (h : Lawful j) :
    (reactions j).length ≤ (registered j).length := by
  induction j using List.reverseRecOn with
  | nil => simp [reactions]
  | append_singleton j notice ih =>
    obtain ⟨hj, hn⟩ := h.of_snoc
    have hle := ih hj
    rw [reactions_snoc, registered_snoc]
    cases notice with
    | reaction n o =>
      have hlt : (reactions j).length < (registered j).length := hn.1 ▸ hn.2.1
      simpa [Notice.reaction?, Notice.registered?] using Nat.succ_le_of_lt hlt
    | attempt | look => simpa [Notice.reaction?, Notice.registered?] using hle
    | registration => simpa [Notice.reaction?, Notice.registered?] using Nat.le_succ_of_le hle

/-- **Nothing happens during a call.** -/
theorem Lawful.meanwhile_eq (h : Lawful j) : ∀ notice ∈ j, notice.meanwhile = 0 := by
  intro notice hmem
  obtain ⟨before, after, rfl⟩ := List.append_of_mem hmem
  have hn := h before notice after rfl
  cases notice with
  | attempt | registration => exact hn.2
  | reaction | look => rfl

end Journal

/-! ## Programs with a journal -/

/-- A world, and a journal beside it. -/
structure Watched (V W : Type) where
  world : W
  journal : Journal V := []

namespace Watched

/-- Notes something. -/
def note (w : Watched V W) (notice : Notice V) : Watched V W :=
  { w with journal := w.journal ++ [notice] }

/-- How much has been noted since. -/
def since (w before : Watched V W) : Nat := w.journal.length - before.journal.length

/-- Attempts to settle the promise, and notes it. -/
def attempt (p : Promise) (o : Outcome V) (next : Bool → Work V (Watched V W) α) :
    Work V (Watched V W) α :=
  .getWorld fun before => .settle p o fun fresh => .getWorld fun after =>
    .setWorld (after.note (.attempt o fresh (after.since before))) (next fresh)

/-- A task that notes first that it is a reaction. -/
def reaction (n : Nat) (o : Outcome V) (task : Job V (Watched V W)) : Job V (Watched V W) :=
  .mk (.getWorld fun w => .setWorld (w.note (.reaction n o)) task.steps)

/-- Registers a reaction under the next number, and notes it. -/
def registration (p : Promise) (r : Outcome V → Job V (Watched V W))
    (next : Work V (Watched V W) α) : Work V (Watched V W) α :=
  .getWorld fun before =>
    .subscribe p (fun o => reaction before.journal.registered.length o (r o)) <|
      .getWorld fun after =>
        .setWorld (after.note (.registration before.journal.registered.length
          (after.since before))) next

/-- Looks at the state of the promise, and notes it. -/
def look (p : Promise) (next : Option (Outcome V) → Work V (Watched V W) α) :
    Work V (Watched V W) α :=
  .outcome p fun state => .getWorld fun w => .setWorld (w.note (.look state)) (next state)

end Watched

mutual

/-- A task that notes what it does with a promise. -/
def Job.watched (p : Promise) : Job V W → Job V (Watched V W)
  | .mk steps => .mk (steps.watched p)

/-- Steps that note what they do with a promise, in all that they put off as well. -/
def Steps.watched (p : Promise) :
    Steps (Job V W) V W Unit → Steps (Job V (Watched V W)) V (Watched V W) Unit
  | .pure a => .pure a
  | .halt h => .halt h
  | .newQueue next => .newQueue fun q => (next q).watched p
  | .newPromise q next => .newPromise q fun x => (next x).watched p
  | .outcome x next =>
    if x = p then Watched.look p fun o => (next o).watched p
    else .outcome x fun o => (next o).watched p
  | .home x next => .home x fun q => (next q).watched p
  | .settle x o next =>
    if x = p then Watched.attempt p o fun fresh => (next fresh).watched p
    else .settle x o fun fresh => (next fresh).watched p
  | .subscribe x r next =>
    if x = p then Watched.registration p (fun o => (r o).watched p) (next.watched p)
    else .subscribe x (fun o => (r o).watched p) (next.watched p)
  | .enqueue q t next => .enqueue q (t.watched p) (next.watched p)
  | .drain q d next => .drain q d fun ran => (next ran).watched p
  | .ticks q next => .ticks q fun n => (next n).watched p
  | .newGather size next => .newGather size fun g => (next g).watched p
  | .fill g slot v next => .fill g slot v fun vs => (next vs).watched p
  | .getWorld next => .getWorld fun w => (next w.world).watched p
  | .setWorld world next => .getWorld fun w => .setWorld { w with world } (next.watched p)

end

/-- A machine with an empty journal, whose tasks note what they do with a promise. -/
def Machine.watched (p : Promise) (m : Machine V W) : Machine V (Watched V W) where
  queues := m.queues.map fun q => ⟨q.tasks.map (Job.watched p), q.ticks⟩
  cells := m.cells.map fun c => ⟨c.home, c.outcome?, c.reactions.map fun r o => (r o).watched p⟩
  gathers := m.gathers
  world := ⟨m.world, []⟩

end EntityQuery
