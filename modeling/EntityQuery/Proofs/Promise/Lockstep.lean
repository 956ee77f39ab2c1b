import EntityQuery.Promise.Combinators
import EntityQuery.Proofs.Failure.Likeness
import EntityQuery.Proofs.Promise.Ending

/-!
# Two runs in lockstep

Two runs make the same requests in the same order, with values, failures and worlds that are alike. What
one of them does with an answer, the other does with an answer like it; so they end alike.

* `Likeness`: what holds values alike and worlds alike; `Likeness.Outcomes` follows.
* `Lockstep`: steps that make the same requests. **`Lockstep.bind`**: one after another.
* `Likeness.Machines`: machines that are alike; one lemma for each request, such as
  `Likeness.Machines.settle`.
* **`Lockstep.run`**, **`Lockstep.machine_run`**: runs in lockstep end alike.
-/

namespace EntityQuery

variable {V W : Type} {α β γ δ : Type}

/-- What holds the values of two runs alike, and their worlds. -/
structure Likeness (V W : Type) where
  value : V → V → Prop
  world : W → W → Prop

/-- Likeness of the ways a run is halted: by panics, whatever they say, or by the limit. -/
inductive Halt.Alike : Halt → Halt → Prop
  | panic (p p' : Panic) : Alike (.panic p) (.panic p')
  | exhausted : Alike .exhausted .exhausted

namespace Likeness

variable (L : Likeness V W)

/-- Likeness of outcomes. -/
abbrev Outcomes : Outcome V → Outcome V → Prop := ExceptRel Failure.Alike L.value

end Likeness

/-- Steps that make the same requests, whose answers are related by `R` in the end. -/
inductive Lockstep (L : Likeness V W) :
    {α β : Type} → (α → β → Prop) → Work V W α → Work V W β → Prop
  | pure {α β : Type} {R : α → β → Prop} {a : α} {b : β} (h : R a b) :
    Lockstep L R (.pure a) (.pure b)
  | halt {α β : Type} {R : α → β → Prop} {h h' : Halt} (hh : h.Alike h') :
    Lockstep L R (.halt h : Work V W α) (.halt h' : Work V W β)
  | newQueue {α β : Type} {R : α → β → Prop} {next : QueueId → Work V W α}
      {next' : QueueId → Work V W β} (h : ∀ q, Lockstep L R (next q) (next' q)) :
    Lockstep L R (.newQueue next) (.newQueue next')
  | newPromise {α β : Type} {R : α → β → Prop} {q : QueueId} {next : Promise → Work V W α}
      {next' : Promise → Work V W β} (h : ∀ p, Lockstep L R (next p) (next' p)) :
    Lockstep L R (.newPromise q next) (.newPromise q next')
  | outcome {α β : Type} {R : α → β → Prop} {p : Promise} {next : Option (Outcome V) → Work V W α}
      {next' : Option (Outcome V) → Work V W β}
      (h : ∀ o o', Option.Rel L.Outcomes o o' → Lockstep L R (next o) (next' o')) :
    Lockstep L R (.outcome p next) (.outcome p next')
  | home {α β : Type} {R : α → β → Prop} {p : Promise} {next : QueueId → Work V W α}
      {next' : QueueId → Work V W β} (h : ∀ q, Lockstep L R (next q) (next' q)) :
    Lockstep L R (.home p next) (.home p next')
  | settle {α β : Type} {R : α → β → Prop} {p : Promise} {o o' : Outcome V}
      {next : Bool → Work V W α} {next' : Bool → Work V W β} (ho : L.Outcomes o o')
      (h : ∀ fresh, Lockstep L R (next fresh) (next' fresh)) :
    Lockstep L R (.settle p o next) (.settle p o' next')
  | subscribe {α β : Type} {R : α → β → Prop} {p : Promise} {r r' : Outcome V → Job V W}
      {next : Work V W α} {next' : Work V W β}
      (hr : ∀ o o', L.Outcomes o o' → Lockstep L (fun _ _ => True) (r o).steps (r' o').steps)
      (h : Lockstep L R next next') :
    Lockstep L R (.subscribe p r next) (.subscribe p r' next')
  | enqueue {α β : Type} {R : α → β → Prop} {q : QueueId} {t t' : Job V W} {next : Work V W α}
      {next' : Work V W β} (ht : Lockstep L (fun _ _ => True) t.steps t'.steps)
      (h : Lockstep L R next next') :
    Lockstep L R (.enqueue q t next) (.enqueue q t' next')
  | drain {α β : Type} {R : α → β → Prop} {q : QueueId} {d : Drain} {next : Bool → Work V W α}
      {next' : Bool → Work V W β} (h : ∀ ran, Lockstep L R (next ran) (next' ran)) :
    Lockstep L R (.drain q d next) (.drain q d next')
  | ticks {α β : Type} {R : α → β → Prop} {q : QueueId} {next : Nat → Work V W α}
      {next' : Nat → Work V W β} (h : ∀ n, Lockstep L R (next n) (next' n)) :
    Lockstep L R (.ticks q next) (.ticks q next')
  | newGather {α β : Type} {R : α → β → Prop} {size : Nat} {next : GatherId → Work V W α}
      {next' : GatherId → Work V W β} (h : ∀ g, Lockstep L R (next g) (next' g)) :
    Lockstep L R (.newGather size next) (.newGather size next')
  | fill {α β : Type} {R : α → β → Prop} {g : GatherId} {slot : Nat} {v v' : V}
      {next : Option (List V) → Work V W α} {next' : Option (List V) → Work V W β}
      (hv : L.value v v')
      (h : ∀ vs vs', Option.Rel (List.Forall₂ L.value) vs vs' → Lockstep L R (next vs) (next' vs')) :
    Lockstep L R (.fill g slot v next) (.fill g slot v' next')
  | getWorld {α β : Type} {R : α → β → Prop} {next : W → Work V W α} {next' : W → Work V W β}
      (h : ∀ w w', L.world w w' → Lockstep L R (next w) (next' w')) :
    Lockstep L R (.getWorld next) (.getWorld next')
  | setWorld {α β : Type} {R : α → β → Prop} {w w' : W} {next : Work V W α} {next' : Work V W β}
      (hw : L.world w w') (h : Lockstep L R next next') :
    Lockstep L R (.setWorld w next) (.setWorld w' next')

/-- Tasks in lockstep. -/
abbrev Likeness.Jobs (L : Likeness V W) (t t' : Job V W) : Prop :=
  Lockstep L (fun _ _ => True) t.steps t'.steps

/-- Reactions that put off tasks in lockstep. -/
abbrev Likeness.Reactions (L : Likeness V W) (r r' : Outcome V → Job V W) : Prop :=
  ∀ o o', L.Outcomes o o' → L.Jobs (r o) (r' o')

namespace Lockstep

variable {L : Likeness V W} {R : α → β → Prop} {S : γ → δ → Prop}

/-- **One after another.** -/
theorem bind {s : Work V W α} {s' : Work V W β} {k : α → Work V W γ} {k' : β → Work V W δ}
    (h : Lockstep L R s s') (hk : ∀ a b, R a b → Lockstep L S (k a) (k' b)) :
    Lockstep L S (s.bind k) (s'.bind k') := by
  induction h with
  | pure h => exact hk _ _ h
  | halt hh => exact halt hh
  | newQueue _ ih => exact newQueue fun q => ih q hk
  | newPromise _ ih => exact newPromise fun p => ih p hk
  | outcome _ ih => exact outcome fun o o' ho => ih o o' ho hk
  | home _ ih => exact home fun q => ih q hk
  | settle ho _ ih => exact settle ho fun fresh => ih fresh hk
  | subscribe hr _ _ ih => exact subscribe hr (ih hk)
  | enqueue ht _ _ ih => exact enqueue ht (ih hk)
  | drain _ ih => exact drain fun ran => ih ran hk
  | ticks _ ih => exact ticks fun n => ih n hk
  | newGather _ ih => exact newGather fun g => ih g hk
  | fill hv _ ih => exact fill hv fun vs vs' hvs => ih vs vs' hvs hk
  | getWorld _ ih => exact getWorld fun w w' hw => ih w w' hw hk
  | setWorld hw _ ih => exact setWorld hw (ih hk)

end Lockstep

theorem lockstep_mapM {L : Likeness V W} {f f' : γ → Work V W α}
    (h : ∀ c, Lockstep L Eq (f c) (f' c)) (cs : List γ) :
    Lockstep L Eq (cs.mapM f) (cs.mapM f') := by
  induction cs with
  | nil => exact .pure rfl
  | cons c cs ih =>
    rw [List.mapM_cons, List.mapM_cons]
    refine (h c).bind ?_
    rintro a _ rfl
    refine Lockstep.bind ih ?_
    rintro as _ rfl
    exact .pure rfl

/-! ## Arrays and lists -/

/-- Arrays of one size, related place by place. -/
def ArrayRel {α β : Type} (R : α → β → Prop) (as : Array α) (bs : Array β) : Prop :=
  ∀ i : Nat, Option.Rel R as[i]? bs[i]?

namespace ArrayRel

variable {R : α → β → Prop} {as : Array α} {bs : Array β}

theorem empty : ArrayRel R #[] #[] := fun _ => .none

theorem size_eq (h : ArrayRel R as bs) : as.size = bs.size := by
  have none_iff : ∀ i : Nat, as[i]? = none ↔ bs[i]? = none := fun i => by
    rcases rel_cases (h i) with ⟨ha, hb⟩ | ⟨a, b, ha, hb, -⟩ <;> simp [ha, hb]
  have h₁ := (none_iff as.size).mp (by simp)
  have h₂ := (none_iff bs.size).mpr (by simp)
  rw [Array.getElem?_eq_none_iff] at h₁ h₂
  omega

theorem push (h : ArrayRel R as bs) {a : α} {b : β} (hab : R a b) :
    ArrayRel R (as.push a) (bs.push b) := by
  intro i
  rw [Array.getElem?_push, Array.getElem?_push, ← h.size_eq]
  split
  · exact .some hab
  · exact h i

theorem set! (h : ArrayRel R as bs) (i : Nat) {a : α} {b : β} (hab : R a b) :
    ArrayRel R (as.set! i a) (bs.set! i b) := by
  intro j
  rw [Array.set!_eq_setIfInBounds, Array.set!_eq_setIfInBounds, Array.getElem?_setIfInBounds,
    Array.getElem?_setIfInBounds, ← h.size_eq]
  split
  · split
    · exact .some hab
    · exact .none
  · exact h j

theorem modify (h : ArrayRel R as bs) (i : Nat) {f : α → α} {g : β → β}
    (hfg : ∀ a b, R a b → R (f a) (g b)) : ArrayRel R (as.modify i f) (bs.modify i g) := by
  intro j
  rw [Array.getElem?_modify, Array.getElem?_modify]
  split
  · rcases rel_cases (h j) with ⟨ha, hb⟩ | ⟨a, b, ha, hb, hab⟩
    · rw [ha, hb]
      exact .none
    · rw [ha, hb]
      exact .some (hfg a b hab)
  · exact h j

end ArrayRel

theorem forall₂_set {R : α → β → Prop} {as : List α} {bs : List β} (h : List.Forall₂ R as bs)
    (i : Nat) {a : α} {b : β} (hab : R a b) : List.Forall₂ R (as.set i a) (bs.set i b) := by
  induction h generalizing i with
  | nil => exact .nil
  | cons h hs ih =>
    cases i with
    | zero => exact .cons hab hs
    | succ i => exact .cons h (ih i)

/-! ## Machines -/

namespace Likeness

variable (L : Likeness V W)

/-- Likeness of queues. -/
structure Queues (q q' : Queue V W) : Prop where
  tasks : List.Forall₂ L.Jobs q.tasks q'.tasks
  ticks : q.ticks = q'.ticks

/-- Likeness of the cells of promises. -/
structure Cells (c c' : Cell V W) : Prop where
  home : c.home = c'.home
  outcome : Option.Rel L.Outcomes c.outcome? c'.outcome?
  reactions : List.Forall₂ L.Reactions c.reactions c'.reactions

/-- Likeness of lists that are being gathered. -/
structure Gathers (g g' : Gather V) : Prop where
  slots : List.Forall₂ (Option.Rel L.value) g.slots g'.slots
  remaining : g.remaining = g'.remaining

/-- Likeness of machines. -/
structure Machines (m m' : Machine V W) : Prop where
  queues : ArrayRel L.Queues m.queues m'.queues
  cells : ArrayRel L.Cells m.cells m'.cells
  gathers : ArrayRel L.Gathers m.gathers m'.gathers
  world : L.world m.world m'.world

variable {L}

/-- Machines with nothing on them. -/
theorem machines_start {w w' : W} (h : L.world w w') : L.Machines (.start w) (.start w') :=
  ⟨.empty, .empty, .empty, h⟩

namespace Machines

variable {m m' : Machine V W}

theorem newQueue (h : L.Machines m m') :
    m.newQueue.1 = m'.newQueue.1 ∧ L.Machines m.newQueue.2 m'.newQueue.2 :=
  ⟨congrArg QueueId.mk h.queues.size_eq, h.queues.push ⟨.nil, rfl⟩, h.cells, h.gathers, h.world⟩

theorem newPromise (h : L.Machines m m') (q : QueueId) :
    (m.newPromise q).1 = (m'.newPromise q).1 ∧
      L.Machines (m.newPromise q).2 (m'.newPromise q).2 :=
  ⟨congrArg Promise.mk h.cells.size_eq, h.queues, h.cells.push ⟨rfl, .none, .nil⟩, h.gathers,
    h.world⟩

theorem newGather (h : L.Machines m m') (size : Nat) :
    (m.newGather size).1 = (m'.newGather size).1 ∧
      L.Machines (m.newGather size).2 (m'.newGather size).2 := by
  refine ⟨congrArg GatherId.mk h.gathers.size_eq, h.queues, h.cells, h.gathers.push ⟨?_, rfl⟩,
    h.world⟩
  exact List.forall₂_same.mpr fun o ho => (List.eq_of_mem_replicate ho).symm ▸ .none

theorem outcome? (h : L.Machines m m') (p : Promise) :
    Option.Rel L.Outcomes (m.outcome? p) (m'.outcome? p) := by
  unfold Machine.outcome?
  rcases rel_cases (h.cells p.index) with ⟨hc, hc'⟩ | ⟨c, c', hc, hc', halike⟩
  · rw [hc, hc']
    exact .none
  · rw [hc, hc']
    exact halike.outcome

theorem home (h : L.Machines m m') (p : Promise) : m.home p = m'.home p := by
  unfold Machine.home
  rcases rel_cases (h.cells p.index) with ⟨hc, hc'⟩ | ⟨c, c', hc, hc', halike⟩
  · rw [hc, hc']
  · simp only [hc, hc', Option.map_some, Option.getD_some]
    exact halike.home

theorem queue (h : L.Machines m m') (q : QueueId) : L.Queues (m.queue q) (m'.queue q) := by
  unfold Machine.queue
  rcases rel_cases (h.queues q.index) with ⟨hq, hq'⟩ | ⟨c, c', hq, hq', halike⟩
  · rw [hq, hq']
    exact ⟨.nil, rfl⟩
  · rw [hq, hq']
    exact halike

theorem append (h : L.Machines m m') (q : QueueId) {ts ts' : List (Job V W)}
    (hts : List.Forall₂ L.Jobs ts ts') : L.Machines (m.append q ts) (m'.append q ts') :=
  ⟨h.queues.modify q.index fun _ _ hq => ⟨List.rel_append hq.tasks hts, hq.ticks⟩, h.cells,
    h.gathers, h.world⟩

theorem settle (h : L.Machines m m') (p : Promise) {o o' : Outcome V} (ho : L.Outcomes o o') :
    (m.settle p o).1 = (m'.settle p o').1 ∧ L.Machines (m.settle p o).2 (m'.settle p o').2 := by
  unfold Machine.settle
  rcases rel_cases (h.cells p.index) with
    ⟨hc, hc'⟩ | ⟨⟨home, out, rs⟩, ⟨home', out', rs'⟩, hc, hc', halike⟩
  · rw [hc, hc']
    exact ⟨rfl, h⟩
  · obtain ⟨rfl, hout, hrs⟩ := halike
    rw [hc, hc']
    cases hout with
    | some _ => exact ⟨rfl, h⟩
    | none =>
      have hcell : L.Cells ⟨home, some o, []⟩ ⟨home, some o', []⟩ := ⟨rfl, .some ho, .nil⟩
      have hm : L.Machines { m with cells := m.cells.set! p.index ⟨home, some o, []⟩ }
          { m' with cells := m'.cells.set! p.index ⟨home, some o', []⟩ } :=
        ⟨h.queues, h.cells.set! p.index hcell, h.gathers, h.world⟩
      refine ⟨rfl, hm.append home ?_⟩
      rw [List.forall₂_map_left_iff, List.forall₂_map_right_iff]
      exact hrs.imp fun r r' hr => hr o o' ho

theorem subscribe (h : L.Machines m m') (p : Promise) {r r' : Outcome V → Job V W}
    (hr : L.Reactions r r') : L.Machines (m.subscribe p r) (m'.subscribe p r') := by
  unfold Machine.subscribe
  rcases rel_cases (h.cells p.index) with
    ⟨hc, hc'⟩ | ⟨⟨home, out, rs⟩, ⟨home', out', rs'⟩, hc, hc', halike⟩
  · rw [hc, hc']
    exact h
  · obtain ⟨rfl, hout, hrs⟩ := halike
    rw [hc, hc']
    cases hout with
    | some ho => exact h.append home (.cons (hr _ _ ho) .nil)
    | none =>
      exact ⟨h.queues, h.cells.set! p.index ⟨rfl, .none, List.rel_append hrs (.cons hr .nil)⟩,
        h.gathers, h.world⟩

theorem fill (h : L.Machines m m') (g : GatherId) (slot : Nat) {v v' : V} (hv : L.value v v') :
    Option.Rel (List.Forall₂ L.value) (m.fill g slot v).1 (m'.fill g slot v').1 ∧
      L.Machines (m.fill g slot v).2 (m'.fill g slot v').2 := by
  unfold Machine.fill
  rcases rel_cases (h.gathers g.index) with ⟨hg, hg'⟩ | ⟨gather, gather', hg, hg', halike⟩
  · rw [hg, hg']
    exact ⟨.none, h⟩
  · rw [hg, hg']
    have hfill : L.Gathers (gather.fill slot v) (gather'.fill slot v') :=
      ⟨forall₂_set halike.slots slot (.some hv), congrArg (· - 1) halike.remaining⟩
    refine ⟨?_, h.queues, h.cells, h.gathers.set! g.index hfill, h.world⟩
    change Option.Rel _ (gather.fill slot v).values? (gather'.fill slot v').values?
    unfold Gather.values?
    rw [← hfill.remaining]
    split
    · exact .some (List.rel_filterMap (fun _ _ ho => ho) hfill.slots)
    · exact .none

/-- Machines that are alike start like tasks. -/
theorem pop? (h : L.Machines m m') (q : QueueId) :
    Option.Rel (fun s s' => L.Jobs s.1 s'.1 ∧ L.Machines s.2 s'.2) (m.pop? q) (m'.pop? q) := by
  unfold Machine.pop? Queue.pop?
  have hq := h.queue q
  revert hq
  cases m.queue q
  cases m'.queue q
  rintro ⟨htasks, hticks⟩
  cases htasks with
  | nil => exact .none
  | cons ht hts =>
    refine .some ⟨ht, h.queues.set! q.index ⟨hts, ?_⟩, h.cells, h.gathers, h.world⟩
    exact congrArg (fun n => min (n + 1) Queue.maxTicks) hticks

theorem reached (h : L.Machines m m') (d : Drain) : m.reached d = m'.reached d := by
  cases d with
  | «until» p =>
    change (m.outcome? p).isSome = (m'.outcome? p).isSome
    rcases rel_cases (h.outcome? p) with ⟨ho, ho'⟩ | ⟨o, o', ho, ho', -⟩ <;>
      simp [ho, ho']
  | once => rfl
  | all => rfl

end Machines

end Likeness

/-! ## Running -/

/-- Runs that end alike: with answers related by `R`, or halted alike. -/
inductive Ended.Alike (L : Likeness V W) (R : α → β → Prop) : Ended V W α → Ended V W β → Prop
  | done {a : α} {b : β} {m m' : Machine V W} (h : R a b) (hm : L.Machines m m') :
    Alike L R (.done a m) (.done b m')
  | halted {c c' : Halt} {m m' : Machine V W} (h : c.Alike c') (hm : L.Machines m m') :
    Alike L R (.halted c m) (.halted c' m')

/-- Draining that goes on after a task. -/
theorem Ended.Alike.ran {L : Likeness V W} {e e' : Ended V W Bool} : Alike L Eq e e' →
    Alike L Eq
      (match e with
        | .halted c m => .halted c m
        | .done _ m => .done true m)
      (match e' with
        | .halted c m => .halted c m
        | .done _ m => .done true m) := by
  rintro (⟨-, hm⟩ | ⟨hc, hm⟩)
  · exact .done rfl hm
  · exact .halted hc hm

namespace Lockstep

variable {L : Likeness V W} {R : α → β → Prop}

/-- **Steps in lockstep end alike**, if draining a queue does. -/
theorem run {drain : QueueId → Drain → Machine V W → Ended V W Bool}
    (hdrain : ∀ q d m m', L.Machines m m' → Ended.Alike L Eq (drain q d m) (drain q d m'))
    {s : Work V W α} {s' : Work V W β} (h : Lockstep L R s s') {m m' : Machine V W}
    (hm : L.Machines m m') : Ended.Alike L R (s.run drain m) (s'.run drain m') := by
  induction h generalizing m m' with
  | pure h => exact .done h hm
  | halt hh => exact .halted hh hm
  | newQueue _ ih =>
    obtain ⟨hq, hm⟩ := hm.newQueue
    simp only [Steps.run, ← hq]
    exact ih _ hm
  | @newPromise _ _ _ q _ _ _ ih =>
    obtain ⟨hp, hm⟩ := hm.newPromise q
    simp only [Steps.run, ← hp]
    exact ih _ hm
  | outcome _ ih => exact ih _ _ (hm.outcome? _) hm
  | home _ ih =>
    simp only [Steps.run, ← hm.home]
    exact ih _ hm
  | @settle _ _ _ p _ _ _ _ ho _ ih =>
    obtain ⟨hfresh, hm⟩ := hm.settle p ho
    simp only [Steps.run, ← hfresh]
    exact ih _ hm
  | subscribe hr _ _ ih => exact ih (hm.subscribe _ hr)
  | enqueue ht _ _ ih => exact ih (hm.append _ (.cons ht .nil))
  | @drain _ _ _ q d _ _ _ ih =>
    have hq := hdrain q d m m' hm
    simp only [Steps.run]
    revert hq
    generalize drain q d m = e
    generalize drain q d m' = e'
    rintro (⟨rfl, hm⟩ | ⟨hc, hm⟩)
    · exact ih _ hm
    · exact .halted hc hm
  | ticks _ ih =>
    simp only [Steps.run, ← (hm.queue _).ticks]
    exact ih _ hm
  | @newGather _ _ _ size _ _ _ ih =>
    obtain ⟨hg, hm⟩ := hm.newGather size
    simp only [Steps.run, ← hg]
    exact ih _ hm
  | fill hv _ ih =>
    obtain ⟨hvs, hm⟩ := hm.fill _ _ hv
    exact ih _ _ hvs hm
  | getWorld _ ih => exact ih _ _ hm.world hm
  | setWorld hw _ ih => exact ih ⟨hm.queues, hm.cells, hm.gathers, hw⟩

end Lockstep

namespace Likeness.Machines

variable {L : Likeness V W} {m m' : Machine V W}

/-- Draining a queue of machines that are alike ends alike. -/
theorem drain (limit : Nat) (q : QueueId) (d : Drain) (h : L.Machines m m') :
    Ended.Alike L Eq (m.drain limit q d) (m'.drain limit q d) := by
  induction limit generalizing q d m m' with
  | zero => exact .halted .exhausted h
  | succ limit ih =>
    simp only [Machine.drain, ← h.reached]
    split
    · exact .done rfl h
    rcases rel_cases (h.pop? q) with ⟨hpop, hpop'⟩ | ⟨⟨t, m₁⟩, ⟨t', m₁'⟩, hpop, hpop', ht, h₁⟩
    · rw [hpop, hpop']
      exact .done rfl h
    simp only [hpop, hpop']
    have htask := ht.run (fun q d m m' h => ih q d h) h₁
    revert htask
    generalize t.steps.run _ m₁ = e
    generalize t'.steps.run _ m₁' = e'
    rintro (⟨-, h₂⟩ | ⟨hc, h₂⟩)
    · cases d with
      | once => exact .done rfl h₂
      | all => exact (ih q .all h₂).ran
      | «until» p => exact (ih q (.until p) h₂).ran
    · exact .halted hc h₂

end Likeness.Machines

/-- **Runs in lockstep end alike**, whatever the limit. -/
theorem Lockstep.machine_run {L : Likeness V W} {R : α → β → Prop} {s : Work V W α}
    {s' : Work V W β} (h : Lockstep L R s s') {m m' : Machine V W} (hm : L.Machines m m')
    (limit : Nat) : Ended.Alike L R (m.run limit s) (m'.run limit s') :=
  h.run (fun q d _ _ hm => hm.drain limit q d) hm

end EntityQuery
