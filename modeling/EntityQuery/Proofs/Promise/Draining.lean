import EntityQuery.Proofs.Promise.Thread

/-!
# Draining the queue of a thread

Where a queue holds the tasks of one thread and nothing else, draining it runs the thread to its end.

* **`Thread.Live.ends_drain`**: draining until another promise is settled goes on where the thread has
  settled its own; on lax terms, it may stop before that.
* `Awaited.ends_drain`: the same where one reaction waits for the thread.
-/

namespace EntityQuery

open Terms

variable {V W E : Type} [AddCommMonoid E] {C : Terms W E}

/-- **A queue that holds the tasks of a thread is drained until the thread has settled its promise;
then the reactions to that are left.** The parts `k` beside the thread stay as they are. -/
theorem Thread.Live.ends_drain {t : Thread V W E} (ht : t.Live C) {m : Machine V W}
    {rs : List (Outcome V → Job V W)} {c : Queue V W} {final : Promise} {k : Heap V W}
    {Q : Machine V W → Prop} (hm : C.Ready m) (hc : m.heap (.queue C.queue) = some (.queue c))
    (htasks : (c.tasks : Multiset (Job V W)) = t.tasks)
    (hh : (t.heap.set (.promise t.promise) (C.pending rs)).Within (C.view m))
    (hk : k.Within (C.view m))
    (ha : k.Apart (t.heap.set (.promise t.promise) (C.pending rs)))
    (hfinal : ∃ c : Cell V W, k (.promise final) = some (.cell c) ∧ c.outcome? = none)
    (hdone : ∀ m' o d c', C.Ready m' → m'.heap (.queue C.queue) = some (.queue c') →
      (c'.tasks : Multiset (Job V W)) = ↑(rs.map fun r => r o) → k.Within (C.view m') →
      C.Step d m.world m'.world → t.prospect.settles o d →
      EndsBy C.halt C.lax (fun limit => m'.drain limit C.queue (.until final)) fun _ => Q)
    (hstuck : C.lax → ∀ m' d, (m'.queue C.queue).tasks = [] → k.Within (C.view m') →
      C.Step d m.world m'.world → t.prospect.waits d → Q m') :
    EndsBy C.halt C.lax (fun limit => m.drain limit C.queue (.until final)) fun _ => Q := by
  induction ht generalizing m c with
  | @intro t R hR hadv ih =>
    have hpending : m.outcome? final = none := by
      obtain ⟨c', hc', ho⟩ := hfinal
      rw [Machine.outcome?_of_heap (heap_of_view (hk _ _ hc')), ho]
    obtain ⟨tasks, ticks⟩ := c
    cases tasks with
    | nil =>
      obtain ⟨hl, hwaits⟩ := hadv.stuck htasks.symm
      have hempty : (m.queue C.queue).tasks = [] := by rw [Machine.queue_of_heap hc]
      exact Machine.ends_drain_of_empty hempty (hstuck hl m 0 hempty hk (C.step_zero hm.2) hwaits)
    | cons task rest =>
      obtain ⟨m₁, hpop, hworld, hheap⟩ := Machine.pop?_of_heap hc
      have hview : C.view m₁ = C.view m := view_set_queue hheap
      have hm₁ : C.Ready m₁ :=
        ⟨⟨_, by rw [hheap, Function.update_self]⟩, by rw [hworld]; exact hm.2⟩
      refine Machine.ends_drain_of_pop hpending hpop ?_
      refine (hadv.step task rest htasks.symm rs m₁ hm₁ (by rw [hview]; exact hh)).mono
        fun _ m₂ => ?_
      rintro ⟨T', h', d, he, hw, hf, hcase⟩
      have hm₂ := he.ready hm₁
      have hk₂ : k.Within (C.view m₂) := he.within (by rw [hview]; exact hk) ha
      have hstep : C.Step d m.world m₂.world := by
        rw [← hworld]
        exact he.step
      obtain ⟨c₁, added, hc₁, hc₂, hT'⟩ := he.queue
      rw [hheap, Function.update_self] at hc₁
      cases hc₁
      rcases hcase with ⟨o, hrest, hrs, hpost, -⟩ | ⟨h'', rfl, hR'⟩
      · have hnil : rest = [] := by simpa using hrest
        refine hdone m₂ o d _ hm₂ hc₂ ?_ hk₂ hstep hpost
        rw [Queue.tasks_append, hnil, List.nil_append, hT', hrs]
      · refine ih _ hR' hm₂ hc₂ ?_ hw hk₂ ?_ (fun m' o e c' hm' hc' hrs hk' hs hp => ?_)
          fun hl m' e he hk' hs => hstuck hl m' (d + e) he hk' (C.step_add hstep hs)
        · rw [Queue.tasks_append, ← Multiset.coe_add, hT']
          rfl
        · exact (hf.apart ha.symm (by rw [hview]; exact hk)).symm
        · exact hdone m' o (d + e) c' hm' hc' hrs hk' (C.step_add hstep hs) hp

/-- **A queue that leads to one reaction is drained until that reaction is the only task.** -/
theorem Awaited.ends_drain {φ : Prospect (Outcome V) E} {r : Outcome V → Job V W}
    {T : Multiset (Job V W)} {h k : Heap V W} (ha : Awaited C φ r T h) {m : Machine V W}
    {c : Queue V W} {final : Promise} {Q : Machine V W → Prop} (hm : C.Ready m)
    (hc : m.heap (.queue C.queue) = some (.queue c)) (htasks : (c.tasks : Multiset (Job V W)) = T)
    (hh : h.Within (C.view m)) (hk : k.Within (C.view m)) (hapart : k.Apart h)
    (hfinal : ∃ c : Cell V W, k (.promise final) = some (.cell c) ∧ c.outcome? = none)
    (hdone : ∀ m' o d c', C.Ready m' → m'.heap (.queue C.queue) = some (.queue c') →
      c'.tasks = [r o] → k.Within (C.view m') → C.Step d m.world m'.world → φ.settles o d →
      EndsBy C.halt C.lax (fun limit => m'.drain limit C.queue (.until final)) fun _ => Q)
    (hstuck : C.lax → ∀ m' d, (m'.queue C.queue).tasks = [] → k.Within (C.view m') →
      C.Step d m.world m'.world → φ.waits d → Q m') :
    EndsBy C.halt C.lax (fun limit => m.drain limit C.queue (.until final)) fun _ => Q := by
  rcases ha with ⟨o, ho, rfl, rfl⟩ | ⟨t, ht, rfl, rfl, rfl⟩
  · exact hdone m o 0 c hm hc (by simpa using htasks) hk (C.step_zero hm.2) ho
  · refine ht.ends_drain hm hc htasks hh hk hapart hfinal (fun m' o d c' hm' hc' hrs => ?_) hstuck
    exact hdone m' o d c' hm' hc' (by simpa using hrs)

end EntityQuery
