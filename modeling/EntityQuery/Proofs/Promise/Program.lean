import EntityQuery.Promise.Combinators
import EntityQuery.Proofs.Promise.Tame
import Mathlib.Data.List.Forall2

/-!
# Programs of promises

A program says how promises are made from one another. It can be run, which makes the promises and
subscribes them to each other, and it can be evaluated directly, as an expression that has a value or
fails.

Each promise belongs to a queue. The promises of the main queue may follow those of other queues; the
others keep to their own queue.

* `Program`: the programs, with the promises that they share. `Program.map`, `Program.recover`:
  reacting to one of the two outcomes.
* `Program.build`: makes the promises, with the operations on promises.
* **`Program.Means`**: the outcomes that a program has by direct evaluation. Only `all` leaves a
  choice: which of its failing items it fails with.
* `Program.eval`, **`Program.means_eval`**: the evaluation that takes the first failing item.
* **`Program.calm_build`**: making the promises never halts.
-/

namespace EntityQuery

variable {V W : Type} {n : Nat} {main q : QueueId} {Γ : List QueueId}

mutual

/-- A program that makes a promise of values `V` on the last queue, of `n` queues, from the shared
promises of the listed queues. -/
inductive Program (V : Type) (n : Nat) (main : QueueId) : List QueueId → QueueId → Type
  /-- A promise that is settled from the start. -/
  | settled {Γ : List QueueId} {q : QueueId} (o : Outcome V) : Program V n main Γ q
  /-- A promise that is resolved after a number of tasks, each of which puts off the next one. -/
  | create {Γ : List QueueId} {q : QueueId} (hops : Nat) (answer : Program.Answer V n main Γ q) :
    Program V n main Γ q
  /-- A promise that is shared. -/
  | shared {Γ : List QueueId} {q : QueueId} (i : Nat) (h : Γ[i]? = some q) : Program V n main Γ q
  /-- A thenable as a promise. -/
  | adopt {Γ : List QueueId} {q : QueueId} (item : Program.Item V n main Γ q) : Program V n main Γ q
  /-- What one of two callbacks makes of the outcome. -/
  | thenOrElse {Γ : List QueueId} {q : QueueId} (e : Program V n main Γ q)
    (onValue : V → Outcome V) (onFailure : Failure → Outcome V) : Program V n main Γ q
  /-- What a callback goes on with. -/
  | andThen {Γ : List QueueId} {q : QueueId} (e : Program V n main Γ q)
    (onValue : V → Program.Answer V n main Γ q) : Program V n main Γ q
  /-- The values of a list of thenables. -/
  | all {Γ : List QueueId} {q : QueueId} (items : Program.Items V n main Γ q) : Program V n main Γ q
  /-- A program that shares a promise of one of the queues. -/
  | share {Γ : List QueueId} {q : QueueId} (q' : QueueId) (hq' : q'.index < n)
    (e : Program V n main Γ q') (body : Program V n main (q' :: Γ) q) : Program V n main Γ q

/-- What a resolver is given and a callback goes on with: a failure or a thenable, where a promise is
one of the same queue. -/
inductive Program.Answer (V : Type) (n : Nat) (main : QueueId) : List QueueId → QueueId → Type
  | failure {Γ : List QueueId} {q : QueueId} (f : Failure) : Program.Answer V n main Γ q
  | value {Γ : List QueueId} {q : QueueId} (v : V) : Program.Answer V n main Γ q
  | deferred {Γ : List QueueId} {q : QueueId} (o : Outcome V) : Program.Answer V n main Γ q
  | promise {Γ : List QueueId} {q : QueueId} (e : Program V n main Γ q) :
    Program.Answer V n main Γ q

/-- A thenable to adopt, where a promise is one of the same queue or, on the main queue, of any. -/
inductive Program.Item (V : Type) (n : Nat) (main : QueueId) : List QueueId → QueueId → Type
  | value {Γ : List QueueId} {q : QueueId} (v : V) : Program.Item V n main Γ q
  | deferred {Γ : List QueueId} {q : QueueId} (o : Outcome V) : Program.Item V n main Γ q
  | promise {Γ : List QueueId} {q : QueueId} (q' : QueueId) (hq' : q'.index < n)
    (h : q' = q ∨ q = main) (e : Program V n main Γ q') : Program.Item V n main Γ q

/-- A list of thenables. -/
inductive Program.Items (V : Type) (n : Nat) (main : QueueId) : List QueueId → QueueId → Type
  | nil {Γ : List QueueId} {q : QueueId} : Program.Items V n main Γ q
  | cons {Γ : List QueueId} {q : QueueId} (item : Program.Item V n main Γ q)
    (rest : Program.Items V n main Γ q) : Program.Items V n main Γ q

end

/-! ## Making the promises -/

/-- Goes on with what a callback answers: follows a thenable, or is rejected. -/
def Promise.resolveWith (p : Promise) : Except Failure (Thenable V W) → Work V W Unit
  | .ok thenable => p.settleFrom thenable
  | .error f => ignore (p.settle (.error f))

/-- Resolves a promise after a number of tasks of its queue, each of which puts off the next one. -/
def Promise.resolveAfter (p : Promise) (answer : Work V W (Except Failure (Thenable V W))) :
    Nat → Work V W Unit
  | 0 => answer.bind p.resolveWith
  | hops + 1 => .home p fun q => .enqueue q (.mk (p.resolveAfter answer hops)) (.pure ())

/-- Goes on with what a callback makes of the value; a rejection passes through. -/
def Promise.goOn (p : Promise) (onValue : V → Work V W (Except Failure (Thenable V W))) :
    Outcome V → Job V W
  | .ok v => .mk (p.resolveAfter (onValue v) 0)
  | .error f => p.settleJob (.error f)

namespace Program

section Build

variable (bundle : List V → V)

mutual

/-- Makes the promises of a program; `env` holds the shared ones. -/
def build {Γ : List QueueId} {q : QueueId} (env : List Promise) :
    Program V n main Γ q → Work V W Promise
  | .settled o => Promise.settled q o
  | .create hops answer =>
    Promise.create q fun p =>
      (p.resolveAfter (answer.build env) hops).bind fun _ => .pure (.ok ())
  | .shared i _ => .pure (env.getD i default)
  | .adopt item => (item.build env).bind (Promise.adopt q)
  | .thenOrElse e onValue onFailure =>
    (e.build env).bind fun p =>
      p.thenOrElse (fun v => .pure (onValue v)) fun f => .pure (onFailure f)
  | .andThen e onValue => (e.build env).bind fun p => p.andThen fun v => (onValue v).build env
  | .all items => (items.build env).bind (Promise.gather q bundle)
  | .share _ _ e body => (e.build env).bind fun p => body.build (p :: env)

/-- Makes what an answer is. -/
def Answer.build {Γ : List QueueId} {q : QueueId} (env : List Promise) :
    Answer V n main Γ q → Work V W (Except Failure (Thenable V W))
  | .failure f => .pure (.error f)
  | .value v => .pure (.ok (.value v))
  | .deferred o => .pure (.ok (.deferred (.pure o)))
  | .promise e => (e.build env).bind fun p => .pure (.ok (.promise p))

/-- Makes a thenable. -/
def Item.build {Γ : List QueueId} {q : QueueId} (env : List Promise) :
    Item V n main Γ q → Work V W (Thenable V W)
  | .value v => .pure (.value v)
  | .deferred o => .pure (.deferred (.pure o))
  | .promise _ _ _ e => (e.build env).bind fun p => .pure (.promise p)

/-- Makes thenables, in order. -/
def Items.build {Γ : List QueueId} {q : QueueId} (env : List Promise) :
    Items V n main Γ q → Work V W (List (Thenable V W))
  | .nil => .pure []
  | .cons item rest =>
    (item.build env).bind fun t => (rest.build env).bind fun ts => .pure (t :: ts)

end

end Build

/-! ## Evaluation -/

/-- What one of two callbacks makes of an outcome. -/
def react (onValue : V → Outcome V) (onFailure : Failure → Outcome V) : Outcome V → Outcome V
  | .ok v => onValue v
  | .error f => onFailure f

/-- The outcome of a shared promise. -/
def look (ρ : List (Outcome V)) (i : Nat) : Outcome V :=
  ρ.getD i (.error WaitFault.stalled.failure)

section Means

variable (bundle : List V → V)

mutual

/-- The outcomes of a program by direct evaluation; `ρ` holds those of the shared promises. -/
def Means {Γ : List QueueId} {q : QueueId} (ρ : List (Outcome V)) :
    Program V n main Γ q → Outcome V → Prop
  | .settled o, out => out = o
  | .create _ answer, out => answer.Means ρ out
  | .shared i _, out => out = look ρ i
  | .adopt item, out => item.Means ρ out
  | .thenOrElse e onValue onFailure, out =>
    ∃ o, e.Means ρ o ∧ out = react onValue onFailure o
  | .andThen e onValue, out =>
    ∃ o, e.Means ρ o ∧ match o with
      | .ok v => (onValue v).Means ρ out
      | .error f => out = .error f
  | .all items, out =>
    ∃ os, items.Means ρ os ∧
      ((∃ vs, os = vs.map .ok ∧ out = .ok (bundle vs)) ∨ ∃ f, .error f ∈ os ∧ out = .error f)
  | .share _ _ e body, out => ∃ o, e.Means ρ o ∧ body.Means (o :: ρ) out

/-- The outcomes of an answer. -/
def Answer.Means {Γ : List QueueId} {q : QueueId} (ρ : List (Outcome V)) :
    Answer V n main Γ q → Outcome V → Prop
  | .failure f, out => out = .error f
  | .value v, out => out = .ok v
  | .deferred o, out => out = o
  | .promise e, out => e.Means ρ out

/-- The outcomes of a thenable. -/
def Item.Means {Γ : List QueueId} {q : QueueId} (ρ : List (Outcome V)) :
    Item V n main Γ q → Outcome V → Prop
  | .value v, out => out = .ok v
  | .deferred o, out => out = o
  | .promise _ _ _ e, out => e.Means ρ out

/-- The outcomes of thenables, one for each. -/
def Items.Means {Γ : List QueueId} {q : QueueId} (ρ : List (Outcome V)) :
    Items V n main Γ q → List (Outcome V) → Prop
  | .nil, outs => outs = []
  | .cons item rest, outs => ∃ o os, item.Means ρ o ∧ rest.Means ρ os ∧ outs = o :: os

end

mutual

/-- The outcome of a program where `all` fails with its first failing item. -/
def eval {Γ : List QueueId} {q : QueueId} (ρ : List (Outcome V)) :
    Program V n main Γ q → Outcome V
  | .settled o => o
  | .create _ answer => answer.eval ρ
  | .shared i _ => look ρ i
  | .adopt item => item.eval ρ
  | .thenOrElse e onValue onFailure => react onValue onFailure (e.eval ρ)
  | .andThen e onValue =>
    match e.eval ρ with
    | .ok v => (onValue v).eval ρ
    | .error f => .error f
  | .all items => ((items.eval ρ).mapM id).map bundle
  | .share _ _ e body => body.eval (e.eval ρ :: ρ)

/-- The outcome of an answer. -/
def Answer.eval {Γ : List QueueId} {q : QueueId} (ρ : List (Outcome V)) :
    Answer V n main Γ q → Outcome V
  | .failure f => .error f
  | .value v => .ok v
  | .deferred o => o
  | .promise e => e.eval ρ

/-- The outcome of a thenable. -/
def Item.eval {Γ : List QueueId} {q : QueueId} (ρ : List (Outcome V)) :
    Item V n main Γ q → Outcome V
  | .value v => .ok v
  | .deferred o => o
  | .promise _ _ _ e => e.eval ρ

/-- The outcomes of thenables. -/
def Items.eval {Γ : List QueueId} {q : QueueId} (ρ : List (Outcome V)) :
    Items V n main Γ q → List (Outcome V)
  | .nil => []
  | .cons item rest => item.eval ρ :: rest.eval ρ

end

end Means

/-- The outcomes of a list come to its values, or to the first failure among them. -/
theorem mapM_id_cases (os : List (Outcome V)) :
    (∃ vs, os = vs.map .ok ∧ os.mapM id = .ok vs) ∨
      ∃ f, .error f ∈ os ∧ os.mapM id = (.error f : Except Failure (List V)) := by
  induction os with
  | nil => exact .inl ⟨[], rfl, rfl⟩
  | cons o os ih =>
    rw [List.mapM_cons]
    cases o with
    | error f => exact .inr ⟨f, by simp, rfl⟩
    | ok v =>
      rcases ih with ⟨vs, rfl, h⟩ | ⟨f, hf, h⟩
      · exact .inl ⟨v :: vs, rfl, by rw [h]; rfl⟩
      · exact .inr ⟨f, by simp [hf], by rw [h]; rfl⟩

/-- The thenables of a list. -/
def Items.toList {Γ : List QueueId} {q : QueueId} : Items V n main Γ q → List (Item V n main Γ q)
  | .nil => []
  | .cons item rest => item :: rest.toList

theorem Items.means_iff (bundle : List V → V) (ρ : List (Outcome V)) :
    ∀ (items : Items V n main Γ q) (os : List (Outcome V)),
      items.Means bundle ρ os ↔ List.Forall₂ (fun item o => item.Means bundle ρ o) items.toList os
  | .nil, os => List.forall₂_nil_left_iff.symm
  | .cons item rest, os => by
    simp only [Items.Means, toList, List.forall₂_cons_left_iff, Items.means_iff bundle ρ rest]

section Eval

variable (bundle : List V → V)

mutual

/-- **The outcome that evaluation finds is one of the outcomes of the program.** -/
theorem means_eval {Γ : List QueueId} {q : QueueId} (ρ : List (Outcome V)) :
    ∀ e : Program V n main Γ q, e.Means bundle ρ (e.eval bundle ρ)
  | .settled _ => rfl
  | .create _ answer => Answer.means_eval ρ answer
  | .shared _ _ => rfl
  | .adopt item => Item.means_eval ρ item
  | .thenOrElse e _ _ => ⟨_, means_eval ρ e, rfl⟩
  | .andThen e onValue => by
    refine ⟨_, means_eval ρ e, ?_⟩
    rw [eval]
    cases e.eval bundle ρ with
    | ok v => exact Answer.means_eval ρ (onValue v)
    | error f => rfl
  | .all items => by
    refine ⟨_, Items.means_eval ρ items, ?_⟩
    rw [eval]
    rcases mapM_id_cases (items.eval bundle ρ) with ⟨vs, hvs, h⟩ | ⟨f, hf, h⟩
    · exact .inl ⟨vs, hvs, by rw [h]; rfl⟩
    · exact .inr ⟨f, hf, by rw [h]; rfl⟩
  | .share _ _ e body => ⟨_, means_eval ρ e, means_eval _ body⟩

theorem Answer.means_eval {Γ : List QueueId} {q : QueueId} (ρ : List (Outcome V)) :
    ∀ t : Answer V n main Γ q, t.Means bundle ρ (t.eval bundle ρ)
  | .failure _ | .value _ | .deferred _ => rfl
  | .promise e => Program.means_eval ρ e

theorem Item.means_eval {Γ : List QueueId} {q : QueueId} (ρ : List (Outcome V)) :
    ∀ t : Item V n main Γ q, t.Means bundle ρ (t.eval bundle ρ)
  | .value _ | .deferred _ => rfl
  | .promise _ _ _ e => Program.means_eval ρ e

theorem Items.means_eval {Γ : List QueueId} {q : QueueId} (ρ : List (Outcome V)) :
    ∀ ts : Items V n main Γ q, ts.Means bundle ρ (ts.eval bundle ρ)
  | .nil => rfl
  | .cons item rest => ⟨_, _, Item.means_eval ρ item, Items.means_eval ρ rest, rfl⟩

end

/-- An outcome of an item is one of the outcomes of a list. -/
theorem Items.exists_means_of_mem {Γ : List QueueId} {q : QueueId} (items : Items V n main Γ q)
    (ρ : List (Outcome V)) {item : Item V n main Γ q} (hitem : item ∈ items.toList) {o : Outcome V}
    (ho : item.Means bundle ρ o) : ∃ os, items.Means bundle ρ os ∧ o ∈ os := by
  obtain ⟨before, after, hsplit⟩ := List.append_of_mem hitem
  refine ⟨before.map (·.eval bundle ρ) ++ o :: after.map (·.eval bundle ρ), ?_, by simp⟩
  rw [Items.means_iff, hsplit]
  have hall : ∀ items : List (Item V n main Γ q), List.Forall₂ (fun item o => item.Means bundle ρ o)
      items (items.map (·.eval bundle ρ)) := fun items => by
    rw [List.forall₂_map_right_iff, List.forall₂_same]
    exact fun item _ => Item.means_eval bundle ρ item
  exact List.rel_append (hall before) (.cons ho (hall after))

end Eval

/-! ## Reacting to one of the outcomes -/

/-- What a callback makes of the value; a failure passes through. -/
def map (e : Program V n main Γ q) (onValue : V → Outcome V) : Program V n main Γ q :=
  .thenOrElse e onValue .error

/-- What a callback makes of the failure; a value passes through. -/
def recover (e : Program V n main Γ q) (onFailure : Failure → Outcome V) : Program V n main Γ q :=
  .thenOrElse e .ok onFailure

variable (bundle : List V → V)

theorem build_map (env : List Promise) (e : Program V n main Γ q) (onValue : V → Outcome V) :
    (e.map onValue).build (W := W) bundle env =
      (e.build bundle env).bind fun p => p.map fun v => .pure (onValue v) := rfl

theorem build_recover (env : List Promise) (e : Program V n main Γ q)
    (onFailure : Failure → Outcome V) :
    (e.recover onFailure).build (W := W) bundle env =
      (e.build bundle env).bind fun p => p.recover fun f => .pure (onFailure f) := rfl

theorem means_map (ρ : List (Outcome V)) (e : Program V n main Γ q) (onValue : V → Outcome V)
    (out : Outcome V) :
    (e.map onValue).Means bundle ρ out ↔ ∃ o, e.Means bundle ρ o ∧ out = o.bind onValue := by
  simp only [map, Means]
  refine exists_congr fun o => and_congr_right fun _ => ?_
  cases o <;> rfl

theorem means_recover (ρ : List (Outcome V)) (e : Program V n main Γ q)
    (onFailure : Failure → Outcome V) (out : Outcome V) :
    (e.recover onFailure).Means bundle ρ out ↔
      ∃ o, e.Means bundle ρ o ∧ out = o.tryCatch onFailure := by
  simp only [recover, Means]
  refine exists_congr fun o => and_congr_right fun _ => ?_
  cases o <;> rfl

end Program

/-! ## Making the promises never halts -/

/-- Deferred work never halts. -/
def Thenable.Calm : Thenable V W → Prop
  | .deferred compute => compute.Calm
  | _ => True

namespace Promise

variable {p : Promise} {t : Thenable V W} {ts : List (Thenable V W)}

theorem calm_settle (p : Promise) (o : Outcome V) :
    Steps.Calm (ignore (p.settle (W := W) o)) :=
  Steps.Calm.settle fun _ => .pure ()

theorem calm_settled (q : QueueId) (o : Outcome V) : (settled (W := W) q o).Calm :=
  Steps.Calm.newPromise fun p => .settle fun _ => .pure p

theorem calm_settleFrom (h : t.Calm) : (p.settleFrom t).Calm := by
  cases t with
  | value v => exact calm_settle p _
  | deferred compute =>
    exact .home fun q => .enqueue (Steps.Calm.bind h fun o => calm_settle p o) (.pure ())
  | promise s => exact Steps.Calm.subscribe (fun o => calm_settle p o) (.pure ())

theorem calm_followForeign (p s : Promise) : (followForeign (V := V) (W := W) p s).Calm :=
  .home fun _ => .drain fun _ => .outcome fun _ => calm_settle p _

theorem calm_adopt (q : QueueId) (h : t.Calm) : (adopt q t).Calm := by
  have hnew : (Steps.newPromise q fun p => (p.settleFrom t).bind fun _ => .pure p).Calm :=
    Steps.Calm.newPromise fun p => Steps.Calm.bind (calm_settleFrom h) fun _ => .pure p
  cases t with
  | value v => exact hnew
  | deferred compute => exact hnew
  | promise s =>
    refine .home fun q' => ?_
    change Steps.Calm (if q' = q then _ else _)
    split
    · exact .pure s
    · exact Steps.Calm.newPromise fun p => .enqueue (calm_followForeign p s) (.pure p)

theorem calm_gatherFrom (q : QueueId) (bundle : List V → V) (target : Promise) (g : GatherId)
    (h : ∀ t ∈ ts, t.Calm) (slot : Nat) (full : Option (List V)) :
    (gatherFrom q bundle target g slot ts full).Calm := by
  induction ts generalizing slot full with
  | nil => exact .pure full
  | cons t ts ih =>
    have ih := ih fun t ht => h t (List.mem_cons_of_mem _ ht)
    have hsub : ∀ p : Promise, Steps.Calm (.subscribe p (fun o => .mk (match o with
        | .ok v => fillSlot bundle target g slot v
        | .error f => ignore (target.settle (.error f))))
        (gatherFrom q bundle target g (slot + 1) ts full)) := fun p => by
      refine Steps.Calm.subscribe (fun o => ?_) (ih _ _)
      cases o with
      | ok v =>
        refine .fill trivial fun vs => ?_
        cases vs with
        | none => exact .pure ()
        | some vs => exact calm_settle target _
      | error f => exact calm_settle target _
    cases t with
    | value v => exact .fill trivial fun full => ih _ full
    | deferred compute => exact Steps.Calm.bind (calm_adopt q (h _ List.mem_cons_self)) hsub
    | promise s => exact Steps.Calm.bind (calm_adopt q (h _ List.mem_cons_self)) hsub

theorem create_eq (q : QueueId) (script : Promise → Work V W (Except Failure Unit)) :
    create q script = .newPromise q fun p => (script p).bind fun
      | .ok () => .pure p
      | .error f => .settle p (.error f) fun _ => .pure p := rfl

theorem gather_eq (q : QueueId) (bundle : List V → V) (ts : List (Thenable V W)) :
    gather q bundle ts = .newPromise q fun target => .newGather ts.length fun g =>
      (gatherFrom q bundle target g 0 ts (if ts.isEmpty then some [] else none)).bind fun
        | some vs => .settle target (.ok (bundle vs)) fun _ => .pure target
        | none => .pure target := rfl

theorem calm_gather (q : QueueId) (bundle : List V → V) (h : ∀ t ∈ ts, t.Calm) :
    (gather q bundle ts).Calm := by
  rw [gather_eq]
  refine Steps.Calm.newPromise fun target => Steps.Calm.newGather fun g => ?_
  refine Steps.Calm.bind (calm_gatherFrom q bundle target g h 0 _) fun full => ?_
  cases full with
  | none => exact .pure target
  | some vs => exact Steps.Calm.settle fun _ => .pure target

theorem calm_resolveAfter {answer : Work V W (Except Failure (Thenable V W))}
    (h : (answer.bind p.resolveWith).Calm) (hops : Nat) : (p.resolveAfter answer hops).Calm := by
  induction hops with
  | zero => exact h
  | succ hops ih => exact .home fun q => .enqueue ih (.pure ())

theorem calm_wait (q : QueueId) (p : Promise) : (wait (V := V) (W := W) q p).Calm := by
  refine .drain fun _ => .outcome fun o => ?_
  rcases o with _ | (_ | _) <;> exact .pure _

end Promise

namespace Program

variable (bundle : List V → V)

mutual

/-- **Making the promises of a program never halts.** -/
theorem calm_build {Γ : List QueueId} {q : QueueId} (env : List Promise) :
    ∀ e : Program V n main Γ q, (e.build (W := W) bundle env).Calm
  | .settled o => Promise.calm_settled q o
  | .create hops answer => by
    rw [build, Promise.create_eq]
    refine Steps.Calm.newPromise fun p => ?_
    rw [Steps.bind_assoc']
    exact Steps.Calm.bind (Promise.calm_resolveAfter (Answer.calm_build p env answer) hops)
      fun _ => .pure p
  | .shared _ _ => .pure _
  | .adopt item => Item.calm_build env item (fun _ => Promise.calm_adopt q)
  | .thenOrElse e _ _ =>
    Steps.Calm.bind (calm_build env e) fun p => .home fun q => Steps.Calm.newPromise fun target =>
      Steps.Calm.subscribe (fun o => by cases o <;> exact Promise.calm_settle target _) (.pure target)
  | .andThen e onValue =>
    Steps.Calm.bind (calm_build env e) fun p => .home fun q => Steps.Calm.newPromise fun target =>
      Steps.Calm.subscribe (fun o => by
        cases o with
        | ok v => exact Answer.calm_build target env (onValue v)
        | error f => exact Promise.calm_settle target _) (.pure target)
  | .all items => Items.calm_build env items (fun _ => Promise.calm_gather q bundle)
  | .share _ _ e body => Steps.Calm.bind (calm_build env e) fun p => calm_build (p :: env) body

theorem Answer.calm_build {Γ : List QueueId} {q : QueueId} (p : Promise) (env : List Promise) :
    ∀ t : Answer V n main Γ q, ((t.build (W := W) bundle env).bind p.resolveWith).Calm
  | .failure _ => Promise.calm_settle p _
  | .value _ => Promise.calm_settle p _
  | .deferred o => Promise.calm_settleFrom (t := .deferred (.pure o)) (Steps.Tame.pure o)
  | .promise e => by
    rw [Answer.build, Steps.bind_assoc']
    exact Steps.Calm.bind (Program.calm_build env e) fun s =>
      Promise.calm_settleFrom (t := .promise s) trivial

theorem Item.calm_build {Γ : List QueueId} {q : QueueId} {α : Type} (env : List Promise)
    {k : Thenable V W → Work V W α} :
    ∀ (t : Item V n main Γ q), (∀ t, t.Calm → (k t).Calm) →
      ((t.build (W := W) bundle env).bind k).Calm
  | .value _, hk => hk _ trivial
  | .deferred o, hk => hk (.deferred (.pure o)) (Steps.Tame.pure o)
  | .promise _ _ _ e, hk => by
    rw [Item.build, Steps.bind_assoc']
    exact Steps.Calm.bind (Program.calm_build env e) fun s => hk (.promise s) trivial

theorem Items.calm_build {Γ : List QueueId} {q : QueueId} {α : Type} (env : List Promise)
    {k : List (Thenable V W) → Work V W α} :
    ∀ (ts : Items V n main Γ q), (∀ ts, (∀ t ∈ ts, t.Calm) → (k ts).Calm) →
      ((ts.build (W := W) bundle env).bind k).Calm
  | .nil, hk => hk [] (by simp)
  | .cons item rest, hk => by
    rw [Items.build, Steps.bind_assoc']
    refine Item.calm_build env item fun t ht => ?_
    rw [Steps.bind_assoc']
    exact Items.calm_build env rest fun ts hts => hk (t :: ts) (List.forall_mem_cons.mpr ⟨ht, hts⟩)

end

end Program

end EntityQuery
