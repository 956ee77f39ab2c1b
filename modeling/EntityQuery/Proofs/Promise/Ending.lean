import EntityQuery.Promise.Combinators

/-!
# How runs end

A run is given a limit on the tasks that it may start. What it does for all large enough limits is
what it does.

* `EndsBy halt lax f Q`: for all large enough limits `f` ends with an answer and a machine that meet `Q`; if
  `lax`, it may be halted in certain ways instead. `Ends lax f Q`: only by a panic.
* `Work.EndsBy`: steps that end so. **`Work.EndsBy.bind`**: one after another.
* One rule for each request, such as `Work.ends_settle` and `Work.ends_subscribe`.
* `Machine.drain_cases`: what a drain has done. **`Machine.drain_leads`**: it leads to where its tasks lead.
-/

namespace EntityQuery

universe u v

variable {V W H : Type} {α : Type u} {β : Type v} {halt : H → Halt}

/-- For all large enough limits, `f` ends with an answer and a machine that meet `Q`. If `lax`, it may
be halted in one of the given ways instead. -/
def EndsBy (halt : H → Halt) (lax : Prop) (f : Nat → Ended V W α) (Q : α → Machine V W → Prop) :
    Prop :=
  ∃ enough, (∃ a m, (∀ limit ≥ enough, f limit = .done a m) ∧ Q a m) ∨
    lax ∧ ∃ p m, ∀ limit ≥ enough, f limit = .halted (halt p) m

/-- For all large enough limits, `f` ends with an answer and a machine that meet `Q`. If `lax`, it may
be halted by a panic instead. -/
abbrev Ends (lax : Prop) (f : Nat → Ended V W α) (Q : α → Machine V W → Prop) : Prop :=
  EndsBy Halt.panic lax f Q

namespace EndsBy

variable {lax : Prop} {f : Nat → Ended V W α} {Q Q' : α → Machine V W → Prop}

theorem of_done {a : α} {m : Machine V W} (h : ∀ limit, f limit = .done a m) (hQ : Q a m) :
    EndsBy halt lax f Q :=
  ⟨0, .inl ⟨a, m, fun limit _ => h limit, hQ⟩⟩

theorem of_halted (hl : lax) {p : H} {m : Machine V W}
    (h : ∀ limit, f limit = .halted (halt p) m) :
    EndsBy halt lax f Q :=
  ⟨0, .inr ⟨hl, p, m, fun limit _ => h limit⟩⟩

theorem mono (h : EndsBy halt lax f Q) (hQ : ∀ a m, Q a m → Q' a m) : EndsBy halt lax f Q' := by
  obtain ⟨N, ⟨a, m, hf, ha⟩ | hp⟩ := h
  · exact ⟨N, .inl ⟨a, m, hf, hQ a m ha⟩⟩
  · exact ⟨N, .inr hp⟩

/-- Where a run goes on after `f`. -/
theorem bind {g : α → Machine V W → Nat → Ended V W β} {k : Nat → Ended V W β}
    {R : β → Machine V W → Prop}
    (h : EndsBy halt lax f fun a m => EndsBy halt lax (g a m) R)
    (hdone : ∀ limit a m, f limit = .done a m → k limit = g a m limit)
    (hhalted : ∀ limit c m, f limit = .halted c m → k limit = .halted c m) : EndsBy halt lax k R := by
  obtain ⟨N, ⟨a, m, hf, N', ⟨b, m', hg, hR⟩ | ⟨hl, p, m', hg⟩⟩ | ⟨hl, p, m, hf⟩⟩ := h
  · refine ⟨max N N', .inl ⟨b, m', fun limit hlim => ?_, hR⟩⟩
    rw [hdone limit a m (hf limit (by omega)), hg limit (by omega)]
  · refine ⟨max N N', .inr ⟨hl, p, m', fun limit hlim => ?_⟩⟩
    rw [hdone limit a m (hf limit (by omega)), hg limit (by omega)]
  · exact ⟨N, .inr ⟨hl, p, m, fun limit hlim => hhalted limit _ m (hf limit hlim)⟩⟩

/-- A run that takes one from its limit. -/
theorem succ (h : EndsBy halt lax (fun limit => f (limit + 1)) Q) : EndsBy halt lax f Q := by
  have step : ∀ {N limit : Nat}, limit ≥ N + 1 → ∃ n ≥ N, limit = n + 1 := fun {N limit} hlim =>
    ⟨limit - 1, by omega, by omega⟩
  obtain ⟨N, ⟨a, m, hf, hQ⟩ | ⟨hl, p, m, hf⟩⟩ := h
  · refine ⟨N + 1, .inl ⟨a, m, fun limit hlim => ?_, hQ⟩⟩
    obtain ⟨n, hn, rfl⟩ := step hlim
    exact hf n hn
  · refine ⟨N + 1, .inr ⟨hl, p, m, fun limit hlim => ?_⟩⟩
    obtain ⟨n, hn, rfl⟩ := step hlim
    exact hf n hn

/-- An answer for one large limit is the answer for all of them. -/
theorem of_eq_done (h : EndsBy halt lax f Q)
    (hmono : ∀ {limit limit' : Nat} {a : α} {m : Machine V W}, limit ≤ limit' → f limit = .done a m →
      f limit' = .done a m) {limit : Nat} {a : α} {m : Machine V W} (hf : f limit = .done a m) :
    Q a m := by
  obtain ⟨N, ⟨b, m', hg, hQ⟩ | ⟨-, p, m', hg⟩⟩ := h
  · have h₁ := hmono (Nat.le_max_left limit N) hf
    rw [hg _ (Nat.le_max_right limit N)] at h₁
    cases h₁
    exact hQ
  · have h₁ := hmono (Nat.le_max_left limit N) hf
    rw [hg _ (Nat.le_max_right limit N)] at h₁
    cases h₁

end EndsBy

/-- The machine that a run leaves. -/
def Ended.machine : Ended V W α → Machine V W
  | done _ m => m
  | halted _ m => m

/-! ## Runs of steps -/

theorem Steps.run_bind (drain : QueueId → Drain → Machine V W → Ended V W Bool) (s : Work V W α)
    (k : α → Work V W β) (m : Machine V W) :
    (s.bind k).run drain m =
      match s.run drain m with
      | .done a m => (k a).run drain m
      | .halted h m => .halted h m := by
  induction s generalizing m with
  | pure => rfl
  | halt => rfl
  | subscribe p r next ih => exact ih _
  | enqueue q t next ih => exact ih _
  | setWorld w next ih => exact ih _
  | drain q d next ih =>
    simp only [bind, run]
    cases drain q d m with
    | done ran m => exact ih ran m
    | halted h m => rfl
  | newQueue next ih => exact ih _ _
  | newPromise q next ih => exact ih _ _
  | outcome p next ih => exact ih _ _
  | home p next ih => exact ih _ _
  | settle p o next ih => exact ih _ _
  | ticks q next ih => exact ih _ _
  | newGather n next ih => exact ih _ _
  | fill g i v next ih => exact ih _ _
  | getWorld next ih => exact ih _ _

/-- The steps, run on a machine with a large enough limit, end with an answer and a machine that meet
`Q`. -/
def Work.EndsBy (halt : H → Halt) (lax : Prop) (s : Work V W α) (m : Machine V W)
    (Q : α → Machine V W → Prop) : Prop :=
  EntityQuery.EndsBy halt lax (fun limit => m.run limit s) Q

/-- The same, where only a panic may halt the steps. -/
abbrev Work.Ends (lax : Prop) (s : Work V W α) (m : Machine V W) (Q : α → Machine V W → Prop) :
    Prop :=
  s.EndsBy Halt.panic lax m Q

namespace Work

variable {lax : Prop} {m : Machine V W} {Q : α → Machine V W → Prop}

theorem EndsBy.mono {s : Work V W α} {Q' : α → Machine V W → Prop} (h : EndsBy halt lax s m Q)
    (hQ : ∀ a m, Q a m → Q' a m) : EndsBy halt lax s m Q' :=
  EntityQuery.EndsBy.mono h hQ

/-- **One after another.** -/
theorem EndsBy.bind {s : Work V W α} {k : α → Work V W β} {R : β → Machine V W → Prop}
    (h : EndsBy halt lax s m fun a m => EndsBy halt lax (k a) m R) : EndsBy halt lax (s.bind k) m R := by
  refine EntityQuery.EndsBy.bind h (fun limit a m' hs => ?_) (fun limit c m' hs => ?_)
  · simp only [Machine.run, Steps.run_bind] at hs ⊢
    rw [hs]
  · simp only [Machine.run, Steps.run_bind] at hs ⊢
    rw [hs]

theorem ends_pure {a : α} (h : Q a m) : EndsBy halt lax (.pure a) m Q :=
  EndsBy.of_done (fun _ => rfl) h

theorem ends_halt (hl : lax) {p : H} : EndsBy halt lax (.halt (halt p)) m Q :=
  EndsBy.of_halted hl fun _ => rfl

@[simp] theorem ends_newQueue {next : QueueId → Work V W α} :
    EndsBy halt lax (.newQueue next) m Q ↔ EndsBy halt lax (next m.newQueue.1) m.newQueue.2 Q := Iff.rfl

@[simp] theorem ends_newPromise {q : QueueId} {next : Promise → Work V W α} :
    EndsBy halt lax (.newPromise q next) m Q ↔
      EndsBy halt lax (next (m.newPromise q).1) (m.newPromise q).2 Q := Iff.rfl

@[simp] theorem ends_outcome {p : Promise} {next : Option (Outcome V) → Work V W α} :
    EndsBy halt lax (.outcome p next) m Q ↔ EndsBy halt lax (next (m.outcome? p)) m Q := Iff.rfl

@[simp] theorem ends_home {p : Promise} {next : QueueId → Work V W α} :
    EndsBy halt lax (.home p next) m Q ↔ EndsBy halt lax (next (m.home p)) m Q := Iff.rfl

@[simp] theorem ends_settle {p : Promise} {o : Outcome V} {next : Bool → Work V W α} :
    EndsBy halt lax (.settle p o next) m Q ↔
      EndsBy halt lax (next (m.settle p o).1) (m.settle p o).2 Q := Iff.rfl

@[simp] theorem ends_subscribe {p : Promise} {r : Outcome V → Job V W} {next : Work V W α} :
    EndsBy halt lax (.subscribe p r next) m Q ↔ EndsBy halt lax next (m.subscribe p r) Q := Iff.rfl

@[simp] theorem ends_enqueue {q : QueueId} {t : Job V W} {next : Work V W α} :
    EndsBy halt lax (.enqueue q t next) m Q ↔ EndsBy halt lax next (m.enqueue q t) Q := Iff.rfl

@[simp] theorem ends_ticks {q : QueueId} {next : Nat → Work V W α} :
    EndsBy halt lax (.ticks q next) m Q ↔ EndsBy halt lax (next (m.queue q).ticks) m Q := Iff.rfl

@[simp] theorem ends_newGather {size : Nat} {next : GatherId → Work V W α} :
    EndsBy halt lax (.newGather size next) m Q ↔
      EndsBy halt lax (next (m.newGather size).1) (m.newGather size).2 Q := Iff.rfl

@[simp] theorem ends_fill {g : GatherId} {slot : Nat} {v : V}
    {next : Option (List V) → Work V W α} :
    EndsBy halt lax (.fill g slot v next) m Q ↔
      EndsBy halt lax (next (m.fill g slot v).1) (m.fill g slot v).2 Q := Iff.rfl

@[simp] theorem ends_getWorld {next : W → Work V W α} :
    EndsBy halt lax (.getWorld next) m Q ↔ EndsBy halt lax (next m.world) m Q := Iff.rfl

@[simp] theorem ends_setWorld {w : W} {next : Work V W α} :
    EndsBy halt lax (.setWorld w next) m Q ↔ EndsBy halt lax next { m with world := w } Q := Iff.rfl

/-- Steps that drain a queue go on where the drain ends. -/
theorem ends_drain {q : QueueId} {d : Drain} {next : Bool → Work V W α}
    (h : EntityQuery.EndsBy halt lax (fun limit => m.drain limit q d)
      fun ran m => EndsBy halt lax (next ran) m Q) : EndsBy halt lax (.drain q d next) m Q := by
  refine EntityQuery.EndsBy.bind h (fun limit ran m' hd => ?_) (fun limit c m' hd => ?_)
  · simp only [Machine.run, Steps.run] at hd ⊢
    rw [hd]
  · simp only [Machine.run, Steps.run] at hd ⊢
    rw [hd]

end Work

/-! ## Draining a queue -/

namespace Machine

variable {lax : Prop} {m : Machine V W} {q : QueueId} {Q : Bool → Machine V W → Prop}

/-- A drain stops where it may. -/
theorem ends_drain_of_reached {d : Drain} (h : m.reached d = true) (hQ : Q false m) :
    EndsBy halt lax (fun limit => m.drain limit q d) Q := by
  refine EndsBy.succ (EndsBy.of_done (fun limit => ?_) hQ)
  simp only [drain, h, if_true]

/-- A drain stops where no task is left. -/
theorem ends_drain_of_empty {d : Drain} (h : (m.queue q).tasks = []) (hQ : Q false m) :
    EndsBy halt lax (fun limit => m.drain limit q d) Q := by
  refine EndsBy.succ (EndsBy.of_done (fun limit => ?_) hQ)
  simp only [drain, (pop?_eq_none_iff m q).mpr h, ite_self]

/-- A drain that has not come to its end starts the oldest task and goes on where that ends. -/
theorem ends_drain_of_task {d : Drain} {task : Job V W} {m₁ : Machine V W}
    (hr : m.reached d = false) (h : m.pop? q = some (task, m₁))
    (hQ : Work.EndsBy halt lax task.steps m₁ fun _ m₂ => (d = .once → Q true m₂) ∧
      (d ≠ .once → EndsBy halt lax (fun limit => m₂.drain limit q d) fun _ => Q true)) :
    EndsBy halt lax (fun limit => m.drain limit q d) Q := by
  refine EndsBy.succ ?_
  obtain ⟨N, ⟨⟨⟩, m₂, ht, hnow, hlater⟩ | ⟨hl, p, m₂, ht⟩⟩ := hQ
  · have ht : ∀ limit ≥ N, task.steps.run (drain limit) m₁ = .done () m₂ := ht
    by_cases hd : d = .once
    · subst hd
      refine ⟨N, .inl ⟨true, m₂, fun limit hlim => ?_, hnow rfl⟩⟩
      simp only [drain, hr, h, Bool.false_eq_true, if_false, ht limit hlim]
    obtain ⟨N', ⟨ran, m₃, hgo, hQ⟩ | ⟨hl, p, m₃, hgo⟩⟩ := hlater hd
    · refine ⟨max N N', .inl ⟨true, m₃, fun limit hlim => ?_, hQ⟩⟩
      simp only [drain, hr, h, Bool.false_eq_true, if_false, ht limit (by omega),
        hgo limit (by omega)]
    · refine ⟨max N N', .inr ⟨hl, p, m₃, fun limit hlim => ?_⟩⟩
      simp only [drain, hr, h, Bool.false_eq_true, if_false, ht limit (by omega),
        hgo limit (by omega)]
  · have ht : ∀ limit ≥ N, task.steps.run (drain limit) m₁ = .halted (halt p) m₂ := ht
    refine ⟨N, .inr ⟨hl, p, m₂, fun limit hlim => ?_⟩⟩
    simp only [drain, hr, h, Bool.false_eq_true, if_false, ht limit hlim]

/-- A drain that has not reached its promise starts the oldest task and goes on where that ends. -/
theorem ends_drain_of_pop {p : Promise} {task : Job V W} {m₁ : Machine V W}
    (hp : m.outcome? p = none) (h : m.pop? q = some (task, m₁))
    (hQ : Work.EndsBy halt lax task.steps m₁ fun _ m₂ =>
      EndsBy halt lax (fun limit => m₂.drain limit q (.until p)) fun _ => Q true) :
    EndsBy halt lax (fun limit => m.drain limit q (.until p)) Q :=
  ends_drain_of_task (by simp [reached, hp]) h
    (hQ.mono fun _ _ hgo => ⟨fun hd => absurd hd (by simp), fun _ => hgo⟩)

/-- **What a drain has done that came to its end**: nothing, where it may stop; else it has run the
oldest task, and then drained on. -/
theorem drain_cases {limit : Nat} {d : Drain} {ran : Bool} {m' : Machine V W}
    (h : m.drain limit q d = .done ran m') :
    ∃ fuel, limit = fuel + 1 ∧
      ((m' = m ∧ (m.reached d = true ∨ m.pop? q = none)) ∨
        ∃ task m₁ m₂, m.pop? q = some (task, m₁) ∧ task.steps.run (drain fuel) m₁ = .done () m₂ ∧
          ((d = .once ∧ m' = m₂) ∨ ∃ ran, m₂.drain fuel q d = .done ran m')) := by
  cases limit with
  | zero => simp [drain] at h
  | succ fuel =>
    refine ⟨fuel, rfl, ?_⟩
    rw [drain] at h
    split at h
    · rename_i hr
      cases h
      exact .inl ⟨rfl, .inl hr⟩
    · split at h
      · rename_i hpop
        cases h
        exact .inl ⟨rfl, .inr hpop⟩
      · rename_i task m₁ hpop
        split at h
        · cases h
        · rename_i m₂ htask
          refine .inr ⟨task, m₁, m₂, hpop, htask, ?_⟩
          split at h
          · cases h
            exact .inl ⟨rfl, rfl⟩
          · split at h
            · cases h
            · rename_i ran' m₃ hd
              cases h
              exact .inr ⟨ran', hd⟩

/-- **A drain leads to where its tasks lead**, one after another, by induction on the limit. -/
theorem drain_leads {P : Machine V W → Machine V W → Prop} (hrefl : ∀ m, P m m)
    (htrans : ∀ m₁ m₂ m₃, P m₁ m₂ → P m₂ m₃ → P m₁ m₃)
    (htask : ∀ m q task m₁, m.pop? q = some (task, m₁) →
      ∀ drain : QueueId → Drain → Machine V W → Ended V W Bool,
        (∀ q d m, P m (drain q d m).machine) → P m (task.steps.run drain m₁).machine)
    (limit : Nat) (q : QueueId) (d : Drain) (m : Machine V W) : P m (m.drain limit q d).machine := by
  induction limit generalizing q d m with
  | zero => exact hrefl m
  | succ limit ih =>
    rw [drain]
    split
    · exact hrefl m
    cases hpop : m.pop? q with
    | none => exact hrefl m
    | some popped =>
      obtain ⟨task, m₁⟩ := popped
      have hran := htask m q task m₁ hpop (drain limit) ih
      simp only
      cases he : task.steps.run (drain limit) m₁ with
      | halted c m₂ =>
        rw [he] at hran
        exact hran
      | done _ m₂ =>
        rw [he] at hran
        have hrest := htrans m m₂ _ hran (ih q d m₂)
        cases d
        case once => exact hran
        -- The queue is drained on, whether for a promise or to its end.
        all_goals
          simp only
          revert hrest
          generalize m₂.drain limit q _ = e
          cases e <;> exact id

/-- **A drain stops early only where its promise is settled.** -/
theorem settled_or_empty_of_drain {limit : Nat} {p : Promise} {ran : Bool} {m' : Machine V W}
    (h : m.drain limit q (.until p) = .done ran m') :
    m'.outcome? p ≠ none ∨ (m'.queue q).tasks = [] := by
  induction limit generalizing m ran with
  | zero => simp [drain] at h
  | succ limit ih =>
    obtain ⟨fuel, he, hcase⟩ := drain_cases h
    obtain rfl := Nat.succ_inj.mp he
    rcases hcase with ⟨rfl, hr | hempty⟩ | ⟨task, m₁, m₂, -, -, ⟨hd, -⟩ | ⟨ran', hd⟩⟩
    · exact .inl (Option.isSome_iff_ne_none.mp hr)
    · exact .inr ((pop?_eq_none_iff m' q).mp hempty)
    · cases hd
    · exact ih hd

end Machine

/-! ## Larger limits -/

/-- Where draining gives an answer, a drain with more tasks gives it as well; so does a run. -/
theorem Steps.run_of_drain {drain drain' : QueueId → Drain → Machine V W → Ended V W Bool}
    (hdrain : ∀ q d m ran m', drain q d m = .done ran m' → drain' q d m = .done ran m')
    (s : Work V W α) {m m' : Machine V W} {a : α} (h : s.run drain m = .done a m') :
    s.run drain' m = .done a m' := by
  induction s generalizing m with
  | pure => exact h
  | halt => exact h
  | subscribe p r next ih => exact ih h
  | enqueue q t next ih => exact ih h
  | setWorld w next ih => exact ih h
  | drain q d next ih =>
    simp only [run] at h ⊢
    cases hd : drain q d m with
    | done ran m₁ =>
      rw [hd] at h
      rw [hdrain q d m ran m₁ hd]
      exact ih ran h
    | halted c m₁ =>
      rw [hd] at h
      cases h
  | newQueue next ih => exact ih _ h
  | newPromise q next ih => exact ih _ h
  | outcome p next ih => exact ih _ h
  | home p next ih => exact ih _ h
  | settle p o next ih => exact ih _ h
  | ticks q next ih => exact ih _ h
  | newGather n next ih => exact ih _ h
  | fill g i v next ih => exact ih _ h
  | getWorld next ih => exact ih _ h

/-- A drain that ends for one limit ends so for every larger one. -/
theorem Machine.drain_of_le {limit limit' : Nat} (hle : limit ≤ limit') {q : QueueId} {d : Drain}
    {ran : Bool} {m m' : Machine V W} (h : m.drain limit q d = .done ran m') :
    m.drain limit' q d = .done ran m' := by
  induction limit generalizing limit' m m' ran q d with
  | zero => simp [drain] at h
  | succ n ih =>
    obtain ⟨n', rfl⟩ : ∃ n', limit' = n' + 1 := ⟨limit' - 1, by omega⟩
    have hn : n ≤ n' := by omega
    unfold drain at h ⊢
    by_cases hr : m.reached d = true
    · simp only [hr, if_true] at h ⊢
      exact h
    · rw [if_neg hr] at h ⊢
      cases hp : m.pop? q with
      | none =>
        rw [hp] at h
        exact h
      | some popped =>
        obtain ⟨task, m₁⟩ := popped
        rw [hp] at h
        simp only at h ⊢
        cases ht : task.steps.run (drain n) m₁ with
        | halted c m₂ =>
          rw [ht] at h
          cases h
        | done u m₂ =>
          rw [ht] at h
          rw [Steps.run_of_drain (fun q d m ran m' => ih hn) _ ht]
          cases d
          case once => exact h
          -- The queue is drained on, whether for a promise or to its end.
          all_goals
            simp only at h ⊢
            split at h
            · cases h
            · rename_i hd
              simp only [ih hn hd]
              exact h

/-- A run that ends for one limit ends so for every larger one. -/
theorem Machine.run_of_le {limit limit' : Nat} (hle : limit ≤ limit') {s : Work V W α}
    {m m' : Machine V W} {a : α} (h : m.run limit s = .done a m') :
    m.run limit' s = .done a m' :=
  s.run_of_drain (fun _ _ _ _ _ => drain_of_le hle) h

/-- What is known of how a run ends holds of each answer that it gives. -/
theorem Work.EndsBy.of_done {lax : Prop} {s : Work V W α} {m m' : Machine V W} {a : α}
    {Q : α → Machine V W → Prop} (h : s.EndsBy halt lax m Q) {limit : Nat}
    (hs : m.run limit s = .done a m') : Q a m' :=
  EntityQuery.EndsBy.of_eq_done h (fun hle => Machine.run_of_le hle) hs

end EntityQuery
