import EntityQuery.Promise.Combinators
import EntityQuery.Proofs.Promise.Ending
import EntityQuery.Proofs.Promise.Heap
import EntityQuery.Proofs.Promise.Tame

/-!
# What steps keep of the world

An invariant of the world that every single step keeps holds at every moment of a run, wherever the run
ends: also where it is halted, and also in what is put off.

* `Steps.Keeps`: steps that keep an invariant of the world, in all that they put off as well, and whose
  answers meet a condition. `Steps.Keeps.bind`: one after another.
* **`Machine.Keeps.run`**: whatever a run ends with, the invariant holds of the world that it leaves.
* `keeps_andThen`, `keeps_gather` and others: what can be done with promises leaves the world alone.
-/

namespace EntityQuery

variable {V W α β : Type} {I : W → Prop}

/-- Steps that keep the world in `I` and put off tasks that do so, and whose answer meets `Q`. -/
inductive Steps.Keeps (I : W → Prop) : {α : Type} → (α → Prop) → Work V W α → Prop
  | pure {α : Type} {Q : α → Prop} {a : α} (h : Q a) : Keeps I Q (.pure a)
  | halt {α : Type} {Q : α → Prop} (c : Halt) : Keeps I Q (.halt c)
  | newQueue {α : Type} {Q : α → Prop} {next : QueueId → Work V W α}
    (h : ∀ q, Keeps I Q (next q)) : Keeps I Q (.newQueue next)
  | newPromise {α : Type} {Q : α → Prop} {q : QueueId} {next : Promise → Work V W α}
    (h : ∀ p, Keeps I Q (next p)) : Keeps I Q (.newPromise q next)
  | outcome {α : Type} {Q : α → Prop} {p : Promise} {next : Option (Outcome V) → Work V W α}
    (h : ∀ o, Keeps I Q (next o)) : Keeps I Q (.outcome p next)
  | home {α : Type} {Q : α → Prop} {p : Promise} {next : QueueId → Work V W α}
    (h : ∀ q, Keeps I Q (next q)) : Keeps I Q (.home p next)
  | settle {α : Type} {Q : α → Prop} {p : Promise} {o : Outcome V} {next : Bool → Work V W α}
    (h : ∀ b, Keeps I Q (next b)) : Keeps I Q (.settle p o next)
  | subscribe {α : Type} {Q : α → Prop} {p : Promise} {r : Outcome V → Job V W}
    {next : Work V W α} (hr : ∀ o, Keeps I (fun _ => True) (r o).steps) (h : Keeps I Q next) :
    Keeps I Q (.subscribe p r next)
  | enqueue {α : Type} {Q : α → Prop} {q : QueueId} {t : Job V W} {next : Work V W α}
    (ht : Keeps I (fun _ => True) t.steps) (h : Keeps I Q next) : Keeps I Q (.enqueue q t next)
  | drain {α : Type} {Q : α → Prop} {q : QueueId} {d : Drain} {next : Bool → Work V W α}
    (h : ∀ b, Keeps I Q (next b)) : Keeps I Q (.drain q d next)
  | ticks {α : Type} {Q : α → Prop} {q : QueueId} {next : Nat → Work V W α}
    (h : ∀ n, Keeps I Q (next n)) : Keeps I Q (.ticks q next)
  | newGather {α : Type} {Q : α → Prop} {size : Nat} {next : GatherId → Work V W α}
    (h : ∀ g, Keeps I Q (next g)) : Keeps I Q (.newGather size next)
  | fill {α : Type} {Q : α → Prop} {g : GatherId} {slot : Nat} {v : V}
    {next : Option (List V) → Work V W α} (h : ∀ vs, Keeps I Q (next vs)) :
    Keeps I Q (.fill g slot v next)
  | getWorld {α : Type} {Q : α → Prop} {next : W → Work V W α}
    (h : ∀ w, I w → Keeps I Q (next w)) : Keeps I Q (.getWorld next)
  | setWorld {α : Type} {Q : α → Prop} {w : W} {next : Work V W α} (hw : I w)
    (h : Keeps I Q next) : Keeps I Q (.setWorld w next)

/-- A task that keeps the world in `I`. -/
def Job.Keeps (I : W → Prop) (j : Job V W) : Prop := j.steps.Keeps I fun _ => True

namespace Steps.Keeps

variable {Q Q' : α → Prop} {R : β → Prop} {s : Work V W α}

/-- One after another. -/
theorem bind {k : α → Work V W β} (h : s.Keeps I Q) (hk : ∀ a, Q a → (k a).Keeps I R) :
    (s.bind k).Keeps I R := by
  induction h with
  | pure ha => exact hk _ ha
  | halt c => exact .halt c
  | newQueue _ ih => exact .newQueue fun q => ih q hk
  | newPromise _ ih => exact .newPromise fun p => ih p hk
  | outcome _ ih => exact .outcome fun o => ih o hk
  | home _ ih => exact .home fun q => ih q hk
  | settle _ ih => exact .settle fun b => ih b hk
  | subscribe hr _ _ ih => exact .subscribe hr (ih hk)
  | enqueue ht _ _ ih => exact .enqueue ht (ih hk)
  | drain _ ih => exact .drain fun b => ih b hk
  | ticks _ ih => exact .ticks fun n => ih n hk
  | newGather _ ih => exact .newGather fun g => ih g hk
  | fill _ ih => exact .fill fun vs => ih vs hk
  | getWorld _ ih => exact .getWorld fun w hw => ih w hw hk
  | setWorld hw _ ih => exact .setWorld hw (ih hk)

theorem mono (h : s.Keeps I Q) (hQ : ∀ a, Q a → Q' a) : s.Keeps I Q' := by
  rw [← bind_pure' s]
  exact h.bind fun a ha => .pure (hQ a ha)

/-- Changing the world. -/
theorem stepWorld {f : W → α × W} (h : ∀ w, I w → I (f w).2 ∧ Q (f w).1) :
    (Steps.stepWorld f : Work V W α).Keeps I Q :=
  .getWorld fun w hw => .setWorld (h w hw).1 (.pure (h w hw).2)

end Steps.Keeps

/-! ## Runs -/

/-- The world is in `I`, and all that the machine has put off keeps it there. -/
structure Machine.Keeps (I : W → Prop) (m : Machine V W) : Prop where
  world : I m.world
  every : m.Every (Job.Keeps I)

/-- The answer, if there is one, meets `Q`; the machine that is left keeps the world in `I`. -/
inductive Ended.Keeps (I : W → Prop) (Q : α → Prop) : Ended V W α → Prop
  | done {a : α} {m : Machine V W} (ha : Q a) (hm : m.Keeps I) : Keeps I Q (.done a m)
  | halted {c : Halt} {m : Machine V W} (hm : m.Keeps I) : Keeps I Q (.halted c m)

theorem Ended.Keeps.machine {Q : α → Prop} {e : Ended V W α} (h : e.Keeps I Q) :
    e.machine.Keeps I := by
  cases h <;> assumption

theorem Ended.keeps_of_machine {e : Ended V W α} (h : e.machine.Keeps I) :
    e.Keeps I fun _ => True := by
  cases e with
  | done a m => exact .done trivial h
  | halted c m => exact .halted h

namespace Machine.Keeps

variable {Q : α → Prop} {s : Work V W α} {m : Machine V W}

theorem start {w : W} (hw : I w) : (Machine.start w : Machine V W).Keeps I := ⟨hw, .start w⟩

theorem newQueue (h : m.Keeps I) : m.newQueue.2.Keeps I := ⟨h.world, h.every.newQueue⟩

theorem settle (h : m.Keeps I) (p : Promise) (o : Outcome V) : (m.settle p o).2.Keeps I :=
  ⟨by rw [Machine.world_settle]; exact h.world, h.every.settle p o⟩

theorem subscribe (h : m.Keeps I) (p : Promise) {r : Outcome V → Job V W}
    (hr : ∀ o, (r o).Keeps I) : (m.subscribe p r).Keeps I :=
  ⟨by rw [Machine.world_subscribe]; exact h.world, h.every.subscribe p hr⟩

theorem enqueue (h : m.Keeps I) (q : QueueId) {t : Job V W} (ht : t.Keeps I) :
    (m.enqueue q t).Keeps I :=
  ⟨h.world, h.every.append q (List.forall_mem_singleton.mpr ht)⟩

theorem fill (h : m.Keeps I) (g : GatherId) (slot : Nat) (v : V) : (m.fill g slot v).2.Keeps I :=
  ⟨by rw [Machine.world_fill]; exact h.world, h.every.fill g slot v⟩

theorem pop? (h : m.Keeps I) {q : QueueId} {j : Job V W} {m' : Machine V W}
    (hpop : m.pop? q = some (j, m')) : j.Keeps I ∧ m'.Keeps I := by
  obtain ⟨hj, hevery⟩ := h.every.pop? hpop
  have hworld : m'.world = m.world := by
    obtain ⟨_, -, hm'⟩ := Option.map_eq_some_iff.mp hpop
    cases hm'
    rfl
  exact ⟨hj, by rw [hworld]; exact h.world, hevery⟩

/-- Running steps, where draining keeps the world. -/
theorem steps_run {drain : QueueId → Drain → Machine V W → Ended V W Bool}
    (hdrain : ∀ q d m, m.Keeps I → (drain q d m).Keeps I fun _ => True) (hs : s.Keeps I Q)
    (hm : m.Keeps I) : (s.run drain m).Keeps I Q := by
  induction hs generalizing m with
  | pure ha => exact .done ha hm
  | halt c => exact .halted hm
  | newQueue _ ih => exact ih _ hm.newQueue
  | newPromise _ ih => exact ih _ ⟨hm.world, hm.every.newPromise _⟩
  | outcome _ ih => exact ih _ hm
  | home _ ih => exact ih _ hm
  | settle _ ih => exact ih _ (hm.settle _ _)
  | subscribe hr _ _ ih => exact ih (hm.subscribe _ hr)
  | enqueue ht _ _ ih => exact ih (hm.enqueue _ ht)
  | @drain _ _ q d next _ ih =>
    have h := hdrain q d m hm
    simp only [Steps.run]
    revert h
    generalize drain q d m = e
    rintro (⟨-, hm'⟩ | hm')
    · exact ih _ hm'
    · exact .halted hm'
  | ticks _ ih => exact ih _ hm
  | newGather _ ih => exact ih _ ⟨hm.world, hm.every.tasks, hm.every.reactions⟩
  | fill _ ih => exact ih _ (hm.fill _ _ _)
  | getWorld _ ih => exact ih _ hm.world hm
  | setWorld hw _ ih => exact ih ⟨hw, hm.every.tasks, hm.every.reactions⟩

/-- Draining a queue keeps the world, as each task does. -/
theorem drain (limit : Nat) (q : QueueId) (d : Drain) (hm : m.Keeps I) :
    (m.drain limit q d).Keeps I fun _ => True := by
  let P (m m' : Machine V W) : Prop := m.Keeps I → m'.Keeps I
  have hleads : P m (m.drain limit q d).machine := by
    refine Machine.drain_leads (P := P) (fun _ => id) (fun _ _ _ h h' => h' ∘ h) ?_ limit q d m
    intro m q task m₁ hpop drain hdrain hm
    obtain ⟨htask, hm₁⟩ := hm.pop? hpop
    exact (hm₁.steps_run (fun q d m hm => Ended.keeps_of_machine (hdrain q d m hm)) htask).machine
  exact Ended.keeps_of_machine (hleads hm)

/-- **Steps that keep an invariant of the world keep it along every run.** -/
theorem run (limit : Nat) (hm : m.Keeps I) (hs : s.Keeps I Q) : (m.run limit s).Keeps I Q :=
  hm.steps_run (fun q d _ hm => hm.drain limit q d) hs

end Machine.Keeps

/-! ## What can be done with promises -/

/-- Work that is put off keeps the world in `I`. -/
def Thenable.Keeps (I : W → Prop) : Thenable V W → Prop
  | .deferred compute => compute.Keeps I fun _ => True
  | _ => True

section

variable {p : Promise} {q : QueueId} {th : Thenable V W}

theorem keeps_ignore {s : Work V W α} {Q : α → Prop} (hs : s.Keeps I Q) :
    (Promise.ignore s).Keeps I fun _ => True :=
  hs.bind fun _ _ => .pure trivial

theorem keeps_settle (o : Outcome V) : (p.settle o : Work V W Bool).Keeps I fun _ => True :=
  .settle fun _ => .pure trivial

theorem keeps_settled (o : Outcome V) :
    (Promise.settled q o : Work V W Promise).Keeps I fun _ => True :=
  .newPromise fun _ => .settle fun _ => .pure trivial

theorem keeps_settleFrom (h : th.Keeps I) : (p.settleFrom th).Keeps I fun _ => True := by
  cases th with
  | value v => exact keeps_ignore (keeps_settle _)
  | deferred compute =>
    refine .home fun q => .enqueue ?_ (.pure trivial)
    exact Steps.Keeps.bind h fun o _ => keeps_ignore (keeps_settle o)
  | promise source => exact .subscribe (fun _ => keeps_ignore (keeps_settle _)) (.pure trivial)

theorem keeps_thenOrElse {onValue : V → Work V W (Outcome V)}
    {onFailure : Failure → Work V W (Outcome V)} (hv : ∀ v, (onValue v).Keeps I fun _ => True)
    (hf : ∀ f, (onFailure f).Keeps I fun _ => True) :
    (p.thenOrElse onValue onFailure).Keeps I fun _ => True := by
  refine .home fun q => .newPromise fun target => .subscribe (fun o => ?_) (.pure trivial)
  cases o with
  | ok v => exact (hv v).bind fun o _ => keeps_ignore (keeps_settle o)
  | error f => exact (hf f).bind fun o _ => keeps_ignore (keeps_settle o)

theorem keeps_map {onValue : V → Work V W (Outcome V)}
    (hv : ∀ v, (onValue v).Keeps I fun _ => True) : (p.map onValue).Keeps I fun _ => True :=
  keeps_thenOrElse hv fun _ => .pure trivial

theorem keeps_recover {onFailure : Failure → Work V W (Outcome V)}
    (hf : ∀ f, (onFailure f).Keeps I fun _ => True) : (p.recover onFailure).Keeps I fun _ => True :=
  keeps_thenOrElse (fun _ => .pure trivial) hf

theorem keeps_andThen {onValue : V → Work V W (Except Failure (Thenable V W))}
    (hv : ∀ v, (onValue v).Keeps I fun r => ∀ th, r = .ok th → th.Keeps I) :
    (p.andThen onValue).Keeps I fun _ => True := by
  refine .home fun q => .newPromise fun target => .subscribe (fun o => ?_) (.pure trivial)
  cases o with
  | ok v =>
    refine (hv v).bind fun r hr => ?_
    cases r with
    | ok th => exact keeps_settleFrom (hr th rfl)
    | error f => exact keeps_ignore (keeps_settle _)
  | error f => exact keeps_ignore (keeps_settle _)

theorem keeps_adopt (h : th.Keeps I) : (Promise.adopt q th).Keeps I fun _ => True := by
  have started : ∀ {th : Thenable V W}, th.Keeps I → Steps.Keeps I (fun _ => True)
      (.newPromise q fun p => (p.settleFrom th).bind fun _ => .pure p : Work V W Promise) :=
    fun h => .newPromise fun p => (keeps_settleFrom h).bind fun _ _ => .pure trivial
  cases th with
  | value v => exact started h
  | deferred compute => exact started h
  | promise source =>
    refine .home fun home => ?_
    simp only [Steps.bind]
    split
    · exact .pure trivial
    · refine .newPromise fun p => .enqueue ?_ (.pure trivial)
      exact .home fun q => .drain fun _ => .outcome fun o => keeps_ignore (keeps_settle _)

theorem keeps_fillSlot {bundle : List V → V} {target : Promise} {g : GatherId} {slot : Nat} {v : V} :
    (Promise.fillSlot bundle target g slot v : Work V W Unit).Keeps I fun _ => True := by
  refine .fill fun values => ?_
  cases values with
  | none => exact .pure trivial
  | some vs => exact keeps_ignore (keeps_settle _)

theorem keeps_gatherFrom {bundle : List V → V} {target : Promise} {g : GatherId}
    {items : List (Thenable V W)} (h : ∀ th ∈ items, th.Keeps I) (slot : Nat)
    (full : Option (List V)) :
    (Promise.gatherFrom q bundle target g slot items full).Keeps I fun _ => True := by
  induction items generalizing slot full with
  | nil => exact .pure trivial
  | cons th rest ih =>
    obtain ⟨hth, hrest⟩ := List.forall_mem_cons.mp h
    have subscribed : ∀ reaction : Outcome V → Job V W,
        (∀ v, reaction (.ok v) = .mk (Promise.fillSlot bundle target g slot v)) →
        (∀ f, reaction (.error f) = .mk (Promise.ignore (target.settle (.error f)))) →
        Steps.Keeps I (fun _ => True) ((Promise.adopt q th).bind fun p =>
          .subscribe p reaction (Promise.gatherFrom q bundle target g (slot + 1) rest full)) := by
      intro reaction hv he
      refine (keeps_adopt hth).bind fun p _ => .subscribe (fun o => ?_) (ih hrest _ _)
      cases o with
      | ok v => rw [hv]; exact keeps_fillSlot
      | error f => rw [he]; exact keeps_ignore (keeps_settle _)
    cases th with
    | value v => exact .fill fun full => ih hrest _ _
    | deferred compute => exact subscribed _ (fun _ => rfl) fun _ => rfl
    | promise source => exact subscribed _ (fun _ => rfl) fun _ => rfl

theorem keeps_gather {bundle : List V → V} {items : List (Thenable V W)}
    (h : ∀ th ∈ items, th.Keeps I) :
    (Promise.gather q bundle items).Keeps I fun _ => True := by
  refine .newPromise fun target => .newGather fun g =>
    (keeps_gatherFrom h 0 _).bind fun values _ => ?_
  cases values with
  | none => exact .pure trivial
  | some vs => exact .settle fun _ => .pure trivial

theorem keeps_wait : (p.wait q : Work V W (Except WaitFault V)).Keeps I fun _ => True := by
  refine .drain fun _ => .outcome fun o => ?_
  obtain _ | v | f := o <;> exact .pure trivial

end

end EntityQuery
