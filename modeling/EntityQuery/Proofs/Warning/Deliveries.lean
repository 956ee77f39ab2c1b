import EntityQuery.Warning
import Mathlib.Data.List.Induction

/-!
# Which warnings are delivered

A channel keeps two sets of topics. What they come to after any number of calls can be told from the calls:
a topic is suppressed if the last call about it has suppressed it, and it has been warned of if it is one of a
warning that was delivered.

* `Channel.Call`, `Channel.after`: what is done with a channel, and what a channel comes to.
* `Channel.Suppressed`, `Channel.Muted`: what the calls say of a topic, and of a warning.
* `Channel.reaching`: the calls whose warnings reach the handler.
* **`Channel.has_suppressed_after`**, **`Channel.has_warned_after`**: the two sets, by the calls.
* **`Channel.deliveries_follow_history`**: which warnings are delivered after any calls, and that no topic is
  warned of once more than once.
-/

namespace EntityQuery

namespace Topics

variable {a b : Topics} {t : Topic}

theorem has_union : (a.union b).has t = (a.has t || b.has t) := has_ofTest _ t

theorem has_diff : (a.diff b).has t = (a.has t && !b.has t) := has_ofTest _ t

theorem has_empty (t : Topic) : empty.has t = false := by cases t <;> rfl

end Topics

namespace Channel

variable {handler : Type}

/-! ## Calls -/

/-- What is done with a channel. -/
inductive Call
  | suppress (ts : Topics)
  | enable (ts : Topics)
  | warn (w : Warning)
  | warnOnce (w : Warning)
  deriving DecidableEq, Repr

/-- A channel that nothing has been done with, with its handler. -/
def ofHandler (h : handler) : Channel handler := { handler? := some h }

/-- The channel after a call. -/
def perform (c : Channel handler) : Call → Channel handler
  | .suppress ts => c.suppress ts
  | .enable ts => c.enable ts
  | .warn w => c.warn w
  | .warnOnce w => c.warnOnce w

/-- The channel after some calls, the oldest first. -/
def after (c : Channel handler) (calls : List Call) : Channel handler := calls.foldl perform c

/-- Whether the handler hears of a call. -/
def hears (c : Channel handler) (call : Call) : Bool :=
  (c.perform call).delivered.length ≠ c.delivered.length

/-- The calls that the handler hears of, the oldest first. -/
def reaching (c : Channel handler) : List Call → List Call
  | [] => []
  | call :: rest =>
    if c.hears call then call :: (c.perform call).reaching rest else (c.perform call).reaching rest

/-- Whether a call is to warn of a topic once. -/
def Call.isOnce (t : Topic) : Call → Bool
  | warnOnce w => w.topics.has t
  | _ => false

/-- The last call that suppresses or enables the topic has suppressed it. -/
def Suppressed (calls : List Call) (t : Topic) : Prop :=
  ∃ before ts later, calls = before ++ .suppress ts :: later ∧ ts.has t = true ∧
    ∀ ts', .enable ts' ∈ later → ts'.has t = false

/-- One of the topics of a warning is suppressed. -/
def Muted (calls : List Call) (w : Warning) : Prop :=
  ∃ t, w.topics.has t = true ∧ Suppressed calls t

/-- A warning that was delivered has one of the topics of this one. -/
def Repeated (c : Channel handler) (w : Warning) : Prop :=
  ∃ d ∈ c.delivered, ∃ t, d.2.topics.has t = true ∧ w.topics.has t = true

variable {c : Channel handler} {h : handler} {calls : List Call} {call : Call} {w : Warning} {t : Topic}

@[simp] theorem after_nil (c : Channel handler) : c.after [] = c := rfl

@[simp] theorem after_snoc : c.after (calls ++ [call]) = (c.after calls).perform call := by
  simp [after]

theorem reaching_snoc : c.reaching (calls ++ [call]) =
    c.reaching calls ++ if (c.after calls).hears call then [call] else [] := by
  induction calls generalizing c with
  | nil => cases hc : c.hears call <;> simp [reaching, hc]
  | cons first rest ih =>
    simp only [List.cons_append, reaching, ih]
    split <;> rfl

/-! ## What a call does -/

/-- Both ways to warn: a warning is delivered, or nothing changes. -/
theorem perform_warn_cases (c : Channel handler) (w : Warning) :
    c.perform (.warn w) = c ∨ c.perform (.warn w) = c.deliver w := by
  simp only [perform, warn]
  split
  · exact .inl rfl
  · exact .inr rfl

theorem perform_warnOnce_cases (c : Channel handler) (w : Warning) :
    c.perform (.warnOnce w) = c ∨ c.perform (.warnOnce w) = c.deliver w := by
  simp only [perform, warnOnce]
  split
  · exact .inl rfl
  · exact .inr rfl

@[simp] theorem suppressed_deliver : (c.deliver w).suppressed = c.suppressed := rfl

@[simp] theorem handler?_deliver : (c.deliver w).handler? = c.handler? := rfl

@[simp] theorem warned_deliver : (c.deliver w).warned = c.warned.union w.topics := rfl

theorem delivered_deliver (hc : c.handler? = some h) :
    (c.deliver w).delivered = (h, w) :: c.delivered := by
  simp only [deliver, hc]

@[simp] theorem handler?_perform : (c.perform call).handler? = c.handler? := by
  cases call with
  | suppress ts => rfl
  | enable ts => rfl
  | warn w => rcases c.perform_warn_cases w with he | he <;> simp [he]
  | warnOnce w => rcases c.perform_warnOnce_cases w with he | he <;> simp [he]

theorem suppressed_warn (c : Channel handler) (w : Warning) :
    (c.perform (.warn w)).suppressed = c.suppressed := by
  rcases c.perform_warn_cases w with he | he <;> simp [he]

theorem suppressed_warnOnce (c : Channel handler) (w : Warning) :
    (c.perform (.warnOnce w)).suppressed = c.suppressed := by
  rcases c.perform_warnOnce_cases w with he | he <;> simp [he]

/-! ## The calls tell what is suppressed -/

theorem not_suppressed_nil (t : Topic) : ¬Suppressed [] t := by
  rintro ⟨before, ts, later, he, -⟩
  simp at he

/-- A call that is no enabling of the topic keeps it suppressed. -/
theorem Suppressed.snoc (hs : Suppressed calls t) (hc : ∀ ts, call = .enable ts → ts.has t = false) :
    Suppressed (calls ++ [call]) t := by
  obtain ⟨before, ts, later, rfl, ht, hlater⟩ := hs
  refine ⟨before, ts, later ++ [call], by simp, ht, fun ts' hts' => ?_⟩
  rcases List.mem_append.mp hts' with hts' | hts'
  · exact hlater ts' hts'
  · exact hc ts' (List.mem_singleton.mp hts').symm

/-- A topic is suppressed after a call if the call suppresses it, or if it was suppressed before and the call
does not enable it. -/
theorem suppressed_snoc_iff : Suppressed (calls ++ [call]) t ↔
    (∃ ts, call = .suppress ts ∧ ts.has t = true) ∨
      Suppressed calls t ∧ ∀ ts, call = .enable ts → ts.has t = false := by
  constructor
  · rintro ⟨before, ts, later, he, ht, hlater⟩
    rcases List.eq_nil_or_concat later with rfl | ⟨later, last, rfl⟩
    · obtain ⟨-, hcall⟩ := List.append_inj' he rfl
      exact .inl ⟨ts, List.singleton_inj.mp hcall, ht⟩
    · rw [List.concat_eq_append, ← List.cons_append, ← List.append_assoc] at he
      obtain ⟨rfl, hcall⟩ := List.append_inj' he rfl
      obtain rfl := List.singleton_inj.mp hcall
      refine .inr ⟨⟨before, ts, later, rfl, ht, fun ts' hts' => ?_⟩, fun ts' hts' => ?_⟩
      · exact hlater ts' (by simp [hts'])
      · exact hlater ts' (by simp [hts'])
  · rintro (⟨ts, rfl, ht⟩ | ⟨hs, hc⟩)
    · exact ⟨calls, ts, [], rfl, ht, by simp⟩
    · exact hs.snoc hc

/-- **What is suppressed, by the calls.** -/
theorem has_suppressed_after (h : handler) (calls : List Call) (t : Topic) :
    ((ofHandler h).after calls).suppressed.has t = true ↔ Suppressed calls t := by
  induction calls using List.reverseRecOn with
  | nil => exact iff_of_false (by simp [ofHandler, Topics.has_empty]) (not_suppressed_nil t)
  | append_singleton calls call ih =>
    rw [after_snoc, suppressed_snoc_iff, ← ih]
    cases call with
    | suppress ts => simp [perform, suppress, Topics.has_union, or_comm]
    | enable ts => simp [perform, enable, Topics.has_diff]
    | warn w => simp [suppressed_warn]
    | warnOnce w => simp [suppressed_warnOnce]

theorem handler?_after (h : handler) (calls : List Call) :
    ((ofHandler h).after calls).handler? = some h := by
  induction calls using List.reverseRecOn with
  | nil => rfl
  | append_singleton calls call ih => rw [after_snoc, handler?_perform, ih]

/-! ## The deliveries tell what has been warned of -/

/-- The topics that have been warned of are those of the delivered warnings. -/
def Honest (c : Channel handler) : Prop :=
  ∀ t, c.warned.has t = true ↔ ∃ d ∈ c.delivered, d.2.topics.has t = true

theorem Honest.deliver (hc : c.Honest) (hh : c.handler? = some h) (w : Warning) : (c.deliver w).Honest := by
  intro t
  rw [warned_deliver, delivered_deliver hh, Topics.has_union, Bool.or_eq_true, hc t]
  simp [or_comm]

/-- **What has been warned of, by the deliveries.** -/
theorem has_warned_after (h : handler) (calls : List Call) : ((ofHandler h).after calls).Honest := by
  induction calls using List.reverseRecOn with
  | nil => exact fun t => iff_of_false (by simp [ofHandler, Topics.has_empty]) (by simp [ofHandler])
  | append_singleton calls call ih =>
    rw [after_snoc]
    have hh := handler?_after h calls
    cases call with
    | suppress ts => exact ih
    | enable ts => exact ih
    | warn w =>
      rcases ((ofHandler h).after calls).perform_warn_cases w with he | he <;> rw [he]
      · exact ih
      · exact ih.deliver hh w
    | warnOnce w =>
      rcases ((ofHandler h).after calls).perform_warnOnce_cases w with he | he <;> rw [he]
      · exact ih
      · exact ih.deliver hh w

/-- A warning shares a topic with the suppressed ones exactly if it is muted. -/
theorem meets_suppressed_iff (h : handler) (calls : List Call) (w : Warning) :
    w.topics.meets ((ofHandler h).after calls).suppressed = true ↔ Muted calls w := by
  simp only [Topics.meets_iff, has_suppressed_after, Muted]

theorem Honest.meets_warned_iff (hc : c.Honest) (w : Warning) :
    w.topics.meets c.warned = true ↔ c.Repeated w := by
  rw [Topics.meets_iff]
  constructor
  · rintro ⟨t, hw, ht⟩
    obtain ⟨d, hd, hdt⟩ := (hc t).mp ht
    exact ⟨d, hd, t, hdt, hw⟩
  · rintro ⟨d, hd, t, hdt, hw⟩
    exact ⟨t, hw, (hc t).mpr ⟨d, hd, hdt⟩⟩

/-! ## Warning once -/

theorem hears_of_eq (he : c.perform call = c) : c.hears call = false := by
  simp [hears, he]

/-- What is warned of once had not been warned of before. -/
theorem not_has_warned_of_hears (hc : c.hears (.warnOnce w) = true) (ht : w.topics.has t = true) :
    c.warned.has t = false := by
  by_contra hwarned
  rw [Bool.not_eq_false] at hwarned
  have hmeets : w.topics.meets c.warned = true := (Topics.meets_iff _ _).mpr ⟨t, ht, hwarned⟩
  have he : c.perform (.warnOnce w) = c := by simp [perform, warnOnce, hmeets]
  rw [hears_of_eq he] at hc
  cases hc

/-- What has been warned of stays so. -/
theorem has_warned_perform (ht : c.warned.has t = true) : (c.perform call).warned.has t = true := by
  cases call with
  | suppress ts => exact ht
  | enable ts => exact ht
  | warn w => rcases c.perform_warn_cases w with he | he <;> simp [he, Topics.has_union, ht]
  | warnOnce w => rcases c.perform_warnOnce_cases w with he | he <;> simp [he, Topics.has_union, ht]

/-- The handler hears of at most one call to warn of a topic once, and from then on the topic has been warned
of. -/
theorem countP_isOnce_reaching (c : Channel handler) (calls : List Call) (t : Topic) :
    (c.reaching calls).countP (Call.isOnce t) ≤ 1 ∧
      ((c.reaching calls).countP (Call.isOnce t) ≠ 0 → (c.after calls).warned.has t = true) := by
  induction calls using List.reverseRecOn with
  | nil => simp [reaching]
  | append_singleton calls call ih =>
    obtain ⟨hle, hwarned⟩ := ih
    rw [reaching_snoc, after_snoc, List.countP_append]
    by_cases hhears : (c.after calls).hears call = true ∧ call.isOnce t = true
    · -- only a call to warn once counts, and it is heard only if the topic was not warned of
      obtain ⟨hhears, honce⟩ := hhears
      cases call with
      | suppress ts => cases honce
      | enable ts => cases honce
      | warn w => cases honce
      | warnOnce w =>
        have hnew := not_has_warned_of_hears hhears honce
        have hzero : (c.reaching calls).countP (Call.isOnce t) = 0 := by
          by_contra hne
          rw [hwarned hne] at hnew
          cases hnew
        refine ⟨by simp [hhears, hzero, honce], fun _ => ?_⟩
        rcases (c.after calls).perform_warnOnce_cases w with he | he
        · rw [hears_of_eq he] at hhears
          cases hhears
        · rw [he, warned_deliver, Topics.has_union, show w.topics.has t = true from honce, Bool.or_true]
    · have hzero : (if (c.after calls).hears call then [call] else []).countP (Call.isOnce t) = 0 := by
        split
        · next hheard => simpa using fun honce => hhears ⟨hheard, honce⟩
        · rfl
      rw [hzero, Nat.add_zero]
      exact ⟨hle, fun hne => has_warned_perform (hwarned hne)⟩

/-! ## Deliveries -/

/-- **Which warnings are delivered, after any calls.** A warning reaches the handler exactly if none of its
topics was last suppressed; to warn once, there must have been no delivered warning with one of its topics
either. A warning that does not reach the handler changes nothing. What has been warned of are the topics of
what was delivered, and neither suppressing nor enabling changes that. So the handler hears of at most one call
to warn of a topic once. -/
theorem deliveries_follow_history (h : handler) (calls : List Call) :
    let c := (ofHandler h).after calls
    (∀ w, (c.warn w).delivered = (h, w) :: c.delivered ∧ ¬Muted calls w ∨
      c.warn w = c ∧ Muted calls w) ∧
    (∀ w, (c.warnOnce w).delivered = (h, w) :: c.delivered ∧ ¬Muted calls w ∧ ¬c.Repeated w ∨
      c.warnOnce w = c ∧ (Muted calls w ∨ c.Repeated w)) ∧
    (∀ t, c.warned.has t = true ↔ ∃ d ∈ c.delivered, d.2.topics.has t = true) ∧
    (∀ ts, ((c.suppress ts).warned, (c.suppress ts).delivered) = (c.warned, c.delivered) ∧
      ((c.enable ts).warned, (c.enable ts).delivered) = (c.warned, c.delivered)) ∧
    ∀ t, ((ofHandler h).reaching calls).countP (Call.isOnce t) ≤ 1 := by
  intro c
  have hh : c.handler? = some h := handler?_after h calls
  have honest : c.Honest := has_warned_after h calls
  refine ⟨fun w => ?_, fun w => ?_, honest, fun ts => ⟨rfl, rfl⟩, fun t => ?_⟩
  · have hmuted := meets_suppressed_iff h calls w
    unfold warn
    split
    · next hm => exact .inr ⟨rfl, hmuted.mp hm⟩
    · next hm => exact .inl ⟨delivered_deliver hh, fun h => hm (hmuted.mpr h)⟩
  · have hmuted := meets_suppressed_iff h calls w
    have hrepeated := honest.meets_warned_iff w
    unfold warnOnce
    split
    · next hm => exact .inr ⟨rfl, (Bool.or_eq_true _ _ ▸ hm).imp hmuted.mp hrepeated.mp⟩
    · next hm =>
      rw [Bool.or_eq_true, not_or] at hm
      exact .inl ⟨delivered_deliver hh, fun h => hm.1 (hmuted.mpr h), fun h => hm.2 (hrepeated.mpr h)⟩
  · exact (countP_isOnce_reaching _ calls t).1

/-- A warning of two topics is dropped while one of them is suppressed, and keeps a later one of the other topic
from being given once. -/
example :
    let both : Warning := ⟨(Topics.single .config).union (.single .notAType), "both"⟩
    let one : Warning := ⟨.single .config, "one"⟩
    (ofHandler ()).reaching [.suppress (.single .notAType), .warnOnce both, .enable .all, .warn both,
      .warnOnce one, .warn one] = [.warn both, .warn one] := by
  decide

end Channel

end EntityQuery
