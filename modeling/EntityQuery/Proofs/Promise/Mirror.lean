import EntityQuery.Promise.Combinators
import EntityQuery.Proofs.Failure.Likeness
import Mathlib.Order.Basic

/-!
# Steps that mirror each other

Two runs do the same, but on machines that have other things on them: the promises, queues and lists of one
run stand for those of the other one. Both runs have a main queue, which no task drains. What each of them
finds in its world, and what it does to it, is compared by a relation.

* `Pairing`: which promises, queues and lists stand for which.
* `Mirror`: what holds failures, values and worlds alike.
* `Mirrors`: steps that mirror each other. **`Mirrors.bind`**: one after another; `Mirrors.mono`: a pairing
  may grow.
* `Steps.Drifts`: steps that only look at the world and change it, and make what nobody will see.
* **`Promise.mirrors_thenOrElse`**, **`Promise.mirrors_andThen`**, **`Promise.mirrors_adopt`**,
  **`Promise.mirrors_gather`**: what is done with promises.
-/

namespace EntityQuery

variable {V W : Type} {α β γ δ : Type}

/-! ## Pairings -/

/-- Which promises, queues and lists of a first machine stand for which of a second one; and what is known of
the queues of the promises of the first one. -/
structure Pairing where
  promise : Promise → Promise → Prop
  queue : QueueId → QueueId → Prop
  gather : GatherId → GatherId → Prop
  homed : Promise → QueueId → Prop

namespace Pairing

/-- All that one pairing knows, the other one knows. -/
structure Within (Γ Γ' : Pairing) : Prop where
  promise : ∀ {p p'}, Γ.promise p p' → Γ'.promise p p'
  queue : ∀ {q q'}, Γ.queue q q' → Γ'.queue q q'
  gather : ∀ {g g'}, Γ.gather g g' → Γ'.gather g g'
  homed : ∀ {p q}, Γ.homed p q → Γ'.homed p q

instance : Preorder Pairing where
  le := Within
  le_refl _ := ⟨id, id, id, id⟩
  le_trans _ _ _ h h' := ⟨fun hp => h'.promise (h.promise hp), fun hq => h'.queue (h.queue hq),
    fun hg => h'.gather (h.gather hg), fun hp => h'.homed (h.homed hp)⟩

/-- A relation that goes on to hold when the pairing grows. -/
def Grows (R : Pairing → α → β → Prop) : Prop := ∀ {Γ Γ' : Pairing}, Γ ≤ Γ' → ∀ {a b}, R Γ a b → R Γ' a b

theorem grows_promise : Grows Pairing.promise := fun h _ _ hp => Within.promise h hp

end Pairing

/-- A relation that does not depend on the pairing. -/
abbrev Fixed (R : α → β → Prop) : Pairing → α → β → Prop := fun _ => R

theorem grows_fixed (R : α → β → Prop) : Pairing.Grows (Fixed R) := fun _ _ _ h => h

/-! ## Steps -/

/-- What is compared of two runs: failures, values and worlds; what a step may change of the first world; the
main queues; and whether both runs may end in a panic. -/
structure Mirror (V W : Type) where
  failure : Failure → Failure → Prop
  value : V → V → Prop
  world : W → W → Prop
  frame : W → W → Prop
  queue : QueueId
  queue' : QueueId
  halts : Prop
  failure_refl : ∀ f, failure f f
  frame_refl : ∀ w, frame w w
  frame_trans : ∀ {w w₁ w₂}, frame w w₁ → frame w₁ w₂ → frame w w₂

/-- Likeness of outcomes. -/
abbrev Mirror.Outcomes (L : Mirror V W) : Outcome V → Outcome V → Prop := ExceptRel L.failure L.value

/-- From a world, the steps come to a world and to further steps, and have done nothing on the way but to look
at the world, to change it, and to make promises and queues that they drop. -/
inductive Steps.Drifts : W → Work V W α → W → Work V W α → Prop
  | here {w : W} {s : Work V W α} : Drifts w s w s
  | getWorld {w v : W} {next : W → Work V W α} {t : Work V W α} (h : Drifts w (next w) v t) :
    Drifts w (.getWorld next) v t
  | setWorld {w u v : W} {next t : Work V W α} (h : Drifts u next v t) :
    Drifts w (.setWorld u next) v t
  | newQueue {w v : W} {next : QueueId → Work V W α} {t : Work V W α}
    (h : ∀ q, Drifts w (next q) v t) : Drifts w (.newQueue next) v t
  | newPromise {w v : W} {q : QueueId} {next : Promise → Work V W α} {t : Work V W α}
    (h : ∀ p, Drifts w (next p) v t) : Drifts w (.newPromise q next) v t

theorem Steps.Drifts.trans {w v u : W} {s t r : Work V W α} (h : Steps.Drifts w s v t)
    (h' : Steps.Drifts v t u r) : Steps.Drifts w s u r := by
  induction h with
  | here => exact h'
  | getWorld _ ih => exact .getWorld (ih h')
  | setWorld _ ih => exact .setWorld (ih h')
  | newQueue _ ih => exact .newQueue fun q => ih q h'
  | newPromise _ ih => exact .newPromise fun p => ih p h'

theorem Steps.Drifts.bind {w v : W} {s t : Work V W α} (h : Steps.Drifts w s v t)
    (k : α → Work V W β) : Steps.Drifts w (s.bind k) v (t.bind k) := by
  induction h with
  | here => exact .here
  | getWorld _ ih => exact .getWorld ih
  | setWorld _ ih => exact .setWorld ih
  | newQueue _ ih => exact .newQueue ih
  | newPromise _ ih => exact .newPromise ih

/-- Steps that mirror each other: what the first ones ask for of the promises, queues and lists that they know,
the second ones ask for of those that they stand for. In the end the answers are related by `R`. No task
drains the main queue. -/
inductive Mirrors (L : Mirror V W) : {α β : Type} → (Pairing → α → β → Prop) → Pairing →
    Work V W α → Work V W β → Prop
  | pure {α β : Type} {R : Pairing → α → β → Prop} {Γ : Pairing} {a : α} {b : β} (h : R Γ a b) :
    Mirrors L R Γ (.pure a) (.pure b)
  | halt {α β : Type} {R : Pairing → α → β → Prop} {Γ : Pairing} {p p' : Panic} (h : L.halts) :
    Mirrors L R Γ (.halt (.panic p)) (.halt (.panic p'))
  | drift {α β : Type} {R : Pairing → α → β → Prop} {Γ : Pairing} {s : Work V W α}
      {s' : Work V W β} {v v' : ∀ w w', L.world w w' → W} {t : ∀ w w', L.world w w' → Work V W α}
      {t' : ∀ w w', L.world w w' → Work V W β}
      (hs : ∀ w w' hw, Steps.Drifts w s (v w w' hw) (t w w' hw))
      (hs' : ∀ w w' hw, Steps.Drifts w' s' (v' w w' hw) (t' w w' hw))
      (hv : ∀ w w' hw, L.world (v w w' hw) (v' w w' hw) ∧ L.frame w (v w w' hw))
      (h : ∀ w w' hw, Mirrors L R Γ (t w w' hw) (t' w w' hw)) : Mirrors L R Γ s s'
  | newQueue {α β : Type} {R : Pairing → α → β → Prop} {Γ : Pairing} {next : QueueId → Work V W α}
      {next' : QueueId → Work V W β}
      (h : ∀ Γ' q q', Γ ≤ Γ' → Γ'.queue q q' → q ≠ L.queue → Mirrors L R Γ' (next q) (next' q')) :
    Mirrors L R Γ (.newQueue next) (.newQueue next')
  | newPromise {α β : Type} {R : Pairing → α → β → Prop} {Γ : Pairing} {q q' : QueueId}
      {next : Promise → Work V W α} {next' : Promise → Work V W β} (hq : Γ.queue q q')
      (h : ∀ Γ' p p', Γ ≤ Γ' → Γ'.promise p p' → Mirrors L R Γ' (next p) (next' p')) :
    Mirrors L R Γ (.newPromise q next) (.newPromise q' next')
  | outcome {α β : Type} {R : Pairing → α → β → Prop} {Γ : Pairing} {p p' : Promise}
      {next : Option (Outcome V) → Work V W α} {next' : Option (Outcome V) → Work V W β}
      (hp : Γ.promise p p')
      (h : ∀ o o', Option.Rel L.Outcomes o o' → Mirrors L R Γ (next o) (next' o')) :
    Mirrors L R Γ (.outcome p next) (.outcome p' next')
  | home {α β : Type} {R : Pairing → α → β → Prop} {Γ : Pairing} {p p' : Promise}
      {next : QueueId → Work V W α} {next' : QueueId → Work V W β} (hp : Γ.promise p p')
      (h : ∀ Γ' q q', Γ ≤ Γ' → Γ'.queue q q' → Γ'.homed p q → (∀ r, Γ.homed p r → r = q) →
        (q = L.queue ↔ q' = L.queue') → Mirrors L R Γ' (next q) (next' q')) :
    Mirrors L R Γ (.home p next) (.home p' next')
  | settle {α β : Type} {R : Pairing → α → β → Prop} {Γ : Pairing} {p p' : Promise}
      {o o' : Outcome V} {next : Bool → Work V W α} {next' : Bool → Work V W β}
      (hp : Γ.promise p p') (ho : L.Outcomes o o')
      (h : ∀ fresh, Mirrors L R Γ (next fresh) (next' fresh)) :
    Mirrors L R Γ (.settle p o next) (.settle p' o' next')
  | subscribe {α β : Type} {R : Pairing → α → β → Prop} {Γ : Pairing} {p p' : Promise}
      {r r' : Outcome V → Job V W} {next : Work V W α} {next' : Work V W β} (hp : Γ.promise p p')
      (hr : ∀ o o', L.Outcomes o o' → Mirrors L (Fixed fun _ _ => True) Γ (r o).steps (r' o').steps)
      (h : Mirrors L R Γ next next') :
    Mirrors L R Γ (.subscribe p r next) (.subscribe p' r' next')
  | enqueue {α β : Type} {R : Pairing → α → β → Prop} {Γ : Pairing} {q q' : QueueId}
      {j j' : Job V W} {next : Work V W α} {next' : Work V W β} (hq : Γ.queue q q')
      (hj : Mirrors L (Fixed fun _ _ => True) Γ j.steps j'.steps) (h : Mirrors L R Γ next next') :
    Mirrors L R Γ (.enqueue q j next) (.enqueue q' j' next')
  | drain {α β : Type} {R : Pairing → α → β → Prop} {Γ : Pairing} {q q' : QueueId} {p p' : Promise}
      {next : Bool → Work V W α} {next' : Bool → Work V W β} (hq : Γ.queue q q')
      (hne : q ≠ L.queue) (hp : Γ.promise p p')
      (h : ∀ Γ' ran, Γ ≤ Γ' → Mirrors L R Γ' (next ran) (next' ran)) :
    Mirrors L R Γ (.drain q (.until p) next) (.drain q' (.until p') next')
  | ticks {α β : Type} {R : Pairing → α → β → Prop} {Γ : Pairing} {q q' : QueueId}
      {next : Nat → Work V W α} {next' : Nat → Work V W β}
      (h : ∀ n n', Mirrors L R Γ (next n) (next' n')) :
    Mirrors L R Γ (.ticks q next) (.ticks q' next')
  | newGather {α β : Type} {R : Pairing → α → β → Prop} {Γ : Pairing} {size : Nat}
      {next : GatherId → Work V W α} {next' : GatherId → Work V W β}
      (h : ∀ Γ' g g', Γ ≤ Γ' → Γ'.gather g g' → Mirrors L R Γ' (next g) (next' g')) :
    Mirrors L R Γ (.newGather size next) (.newGather size next')
  | fill {α β : Type} {R : Pairing → α → β → Prop} {Γ : Pairing} {g g' : GatherId} {slot : Nat}
      {v v' : V} {next : Option (List V) → Work V W α} {next' : Option (List V) → Work V W β}
      (hg : Γ.gather g g') (hv : L.value v v')
      (h : ∀ vs vs', Option.Rel (List.Forall₂ L.value) vs vs' →
        Mirrors L R Γ (next vs) (next' vs')) :
    Mirrors L R Γ (.fill g slot v next) (.fill g' slot v' next')

namespace Mirror

/-- Tasks that mirror each other. -/
abbrev Jobs (L : Mirror V W) (Γ : Pairing) (j j' : Job V W) : Prop :=
  Mirrors L (Fixed fun _ _ => True) Γ j.steps j'.steps

/-- Reactions that come to tasks that mirror each other. -/
abbrev Reactions (L : Mirror V W) (Γ : Pairing) (r r' : Outcome V → Job V W) : Prop :=
  ∀ o o', L.Outcomes o o' → L.Jobs Γ (r o) (r' o')

end Mirror

namespace Mirrors

variable {L : Mirror V W} {Γ Γ' : Pairing} {R : Pairing → α → β → Prop} {S : Pairing → γ → δ → Prop}

/-- A pairing may grow. -/
theorem mono {s : Work V W α} {s' : Work V W β} (h : Mirrors L R Γ s s') (hR : Pairing.Grows R)
    (hΓ : Γ ≤ Γ') : Mirrors L R Γ' s s' := by
  induction h generalizing Γ' with
  | pure h => exact .pure (hR hΓ h)
  | halt h => exact .halt h
  | drift hs hs' hw _ ih => exact .drift hs hs' hw fun w w' hww => ih w w' hww hR hΓ
  | newQueue h ih => exact .newQueue fun Γ₂ q q' hΓ' hq hne => h Γ₂ q q' (hΓ.trans hΓ') hq hne
  | newPromise hq h ih =>
    exact .newPromise (hΓ.queue hq) fun Γ₂ p p' hΓ' hp => h Γ₂ p p' (hΓ.trans hΓ') hp
  | outcome hp _ ih => exact .outcome (hΓ.promise hp) fun o o' ho => ih o o' ho hR hΓ
  | home hp h ih =>
    refine .home (hΓ.promise hp) fun Γ₂ q q' hΓ' hq hh hother hmain =>
      h Γ₂ q q' (hΓ.trans hΓ') hq hh (fun r hr => hother r (hΓ.homed hr)) hmain
  | settle hp ho _ ih => exact .settle (hΓ.promise hp) ho fun fresh => ih fresh hR hΓ
  | subscribe hp _ _ ihr ih =>
    exact .subscribe (hΓ.promise hp) (fun o o' ho => ihr o o' ho (grows_fixed _) hΓ) (ih hR hΓ)
  | enqueue hq _ _ ihj ih => exact .enqueue (hΓ.queue hq) (ihj (grows_fixed _) hΓ) (ih hR hΓ)
  | drain hq hne hp h ih =>
    exact .drain (hΓ.queue hq) hne (hΓ.promise hp) fun Γ₂ ran hΓ' => h Γ₂ ran (hΓ.trans hΓ')
  | ticks _ ih => exact .ticks fun n n' => ih n n' hR hΓ
  | newGather h ih => exact .newGather fun Γ₂ g g' hΓ' hg => h Γ₂ g g' (hΓ.trans hΓ') hg
  | fill hg hv _ ih => exact .fill (hΓ.gather hg) hv fun vs vs' hvs => ih vs vs' hvs hR hΓ

/-- **One after another.** -/
theorem bind {s : Work V W α} {s' : Work V W β} {k : α → Work V W γ} {k' : β → Work V W δ}
    (h : Mirrors L R Γ s s') (hk : ∀ Γ', Γ ≤ Γ' → ∀ a b, R Γ' a b → Mirrors L S Γ' (k a) (k' b)) :
    Mirrors L S Γ (s.bind k) (s'.bind k') := by
  induction h with
  | pure h => exact hk _ le_rfl _ _ h
  | halt h => exact .halt h
  | drift hs hs' hw _ ih =>
    exact .drift (fun w w' hww => (hs w w' hww).bind k) (fun w w' hww => (hs' w w' hww).bind k') hw
      fun w w' hww => ih w w' hww hk
  | newQueue _ ih =>
    exact .newQueue fun Γ₁ q q' hΓ hq hne => ih Γ₁ q q' hΓ hq hne fun Γ₂ hΓ' => hk Γ₂ (hΓ.trans hΓ')
  | newPromise hq _ ih =>
    exact .newPromise hq fun Γ₁ p p' hΓ hp => ih Γ₁ p p' hΓ hp fun Γ₂ hΓ' => hk Γ₂ (hΓ.trans hΓ')
  | outcome hp _ ih => exact .outcome hp fun o o' ho => ih o o' ho hk
  | home hp _ ih =>
    exact .home hp fun Γ₁ q q' hΓ hq hh hother hmain =>
      ih Γ₁ q q' hΓ hq hh hother hmain fun Γ₂ hΓ' => hk Γ₂ (hΓ.trans hΓ')
  | settle hp ho _ ih => exact .settle hp ho fun fresh => ih fresh hk
  | subscribe hp hr _ _ ih => exact .subscribe hp hr (ih hk)
  | enqueue hq hj _ _ ih => exact .enqueue hq hj (ih hk)
  | drain hq hne hp _ ih =>
    exact .drain hq hne hp fun Γ₁ ran hΓ => ih Γ₁ ran hΓ fun Γ₂ hΓ' => hk Γ₂ (hΓ.trans hΓ')
  | ticks _ ih => exact .ticks fun n n' => ih n n' hk
  | newGather _ ih =>
    exact .newGather fun Γ₁ g g' hΓ hg => ih Γ₁ g g' hΓ hg fun Γ₂ hΓ' => hk Γ₂ (hΓ.trans hΓ')
  | fill hg hv _ ih => exact .fill hg hv fun vs vs' hvs => ih vs vs' hvs hk

/-- Steps that only look at the world and change it. -/
theorem world {s : Work V W α} {s' : Work V W β} {v v' : W → W} {a : W → α} {b : W → β}
    (hs : ∀ w, Steps.Drifts w s (v w) (.pure (a w)))
    (hs' : ∀ w, Steps.Drifts w s' (v' w) (.pure (b w)))
    (hw : ∀ w w', L.world w w' → L.world (v w) (v' w') ∧ L.frame w (v w) ∧ R Γ (a w) (b w')) :
    Mirrors L R Γ s s' :=
  .drift (fun w _ _ => hs w) (fun _ w' _ => hs' w') (fun w w' h => ⟨(hw w w' h).1, (hw w w' h).2.1⟩)
    fun w w' h => .pure (hw w w' h).2.2

/-- Steps that drift to steps that mirror each other, from worlds that are alike. -/
theorem of_drifts {s : Work V W α} {s' : Work V W β}
    (h : ∀ w w', L.world w w' → ∃ v v' t t', Steps.Drifts w s v t ∧ Steps.Drifts w' s' v' t' ∧
      L.world v v' ∧ L.frame w v ∧ Mirrors L R Γ t t') : Mirrors L R Γ s s' := by
  choose v v' t t' hs hs' hv hf ht using h
  exact .drift hs hs' (fun w w' hw => ⟨hv w w' hw, hf w w' hw⟩) ht

/-- A list of steps that mirror each other. -/
theorem mapM {cs : List γ} {f : γ → Work V W α} {f' : γ → Work V W β} (hR : Pairing.Grows R)
    (hf : ∀ Γ', Γ ≤ Γ' → ∀ c, Mirrors L R Γ' (f c) (f' c)) :
    Mirrors L (fun Γ => List.Forall₂ (R Γ)) Γ (cs.mapM f) (cs.mapM f') := by
  induction cs generalizing Γ with
  | nil => exact .pure .nil
  | cons c cs ih =>
    rw [List.mapM_cons, List.mapM_cons]
    refine (hf Γ le_rfl c).bind fun Γ₁ h₁ a b hab => ?_
    refine (ih fun Γ' h' => hf Γ' (h₁.trans h')).bind fun Γ₂ h₂ as bs habs => ?_
    exact .pure (.cons (hR h₂ hab) habs)

end Mirrors

/-! ## Promises -/

/-- Likeness of thenables. -/
inductive Mirror.Thenables (L : Mirror V W) (Γ : Pairing) : Thenable V W → Thenable V W → Prop
  | value {v v' : V} (h : L.value v v') : Thenables L Γ (.value v) (.value v')
  | deferred {c c' : Work V W (Outcome V)} (h : Mirrors L (Fixed L.Outcomes) Γ c c') :
    Thenables L Γ (.deferred c) (.deferred c')
  | promise {p p' : Promise} (h : Γ.promise p p') : Thenables L Γ (.promise p) (.promise p')

theorem Mirror.grows_thenables (L : Mirror V W) : Pairing.Grows L.Thenables := by
  rintro Γ Γ' hΓ _ _ (h | h | h)
  · exact .value h
  · exact .deferred (h.mono (grows_fixed _) hΓ)
  · exact .promise (hΓ.promise h)

namespace Promise

variable {L : Mirror V W} {Γ : Pairing}

theorem mirrors_ignore {R : Pairing → α → β → Prop} {s : Work V W α} {s' : Work V W β}
    (h : Mirrors L R Γ s s') : Mirrors L (Fixed fun _ _ => True) Γ (ignore s) (ignore s') :=
  h.bind fun _ _ _ _ _ => .pure trivial

section

variable {p p' : Promise} (hp : Γ.promise p p')

include hp

theorem mirrors_settle {o o' : Outcome V} (ho : L.Outcomes o o') :
    Mirrors L (Fixed Eq) Γ (p.settle o : Work V W Bool) (p'.settle o') :=
  .settle hp ho fun _ => .pure rfl

theorem mirrors_settleIgnored {o o' : Outcome V} (ho : L.Outcomes o o') :
    Mirrors L (Fixed fun _ _ => True) Γ (ignore (p.settle o) : Work V W Unit) (ignore (p'.settle o')) :=
  mirrors_ignore (mirrors_settle hp ho)

theorem mirrors_settleFrom {t t' : Thenable V W} (h : L.Thenables Γ t t') :
    Mirrors L (Fixed fun _ _ => True) Γ (p.settleFrom t) (p'.settleFrom t') := by
  cases h with
  | value h => exact mirrors_settleIgnored hp (.ok h)
  | deferred h =>
    refine .home hp fun Γ₁ q q' hΓ hq _ _ _ => .enqueue hq ?_ (.pure trivial)
    exact (h.mono (grows_fixed _) hΓ).bind fun Γ₂ hΓ' o o' ho =>
      mirrors_settleIgnored (hΓ'.promise (hΓ.promise hp)) ho
  | promise h => exact .subscribe h (fun o o' ho => mirrors_settleIgnored hp ho) (.pure trivial)

/-- A promise of what a callback makes of an outcome, where what reacts mirrors. -/
theorem mirrors_react {react react' : Promise → Outcome V → Job V W}
    (h : ∀ Γ' target target', Γ ≤ Γ' → Γ'.promise target target' →
      L.Reactions Γ' (react target) (react' target')) :
    Mirrors L Pairing.promise Γ
      (.home p fun q => .newPromise q fun target => .subscribe p (react target) (.pure target))
      (.home p' fun q => .newPromise q fun target => .subscribe p' (react' target) (.pure target)) := by
  refine .home hp fun Γ₁ q q' hΓ hq _ _ _ => .newPromise hq fun Γ₂ target target' hΓ' ht => ?_
  have hΓ₂ := hΓ.trans hΓ'
  exact .subscribe (hΓ₂.promise hp) (h Γ₂ target target' hΓ₂ ht) (.pure ht)

theorem mirrors_thenOrElse {f f' : V → Work V W (Outcome V)} {g g' : Failure → Work V W (Outcome V)}
    (hf : ∀ Γ', Γ ≤ Γ' → ∀ v v', L.value v v' → Mirrors L (Fixed L.Outcomes) Γ' (f v) (f' v'))
    (hg : ∀ Γ', Γ ≤ Γ' → ∀ e e', L.failure e e' → Mirrors L (Fixed L.Outcomes) Γ' (g e) (g' e')) :
    Mirrors L Pairing.promise Γ (p.thenOrElse f g) (p'.thenOrElse f' g') := by
  refine mirrors_react hp fun Γ₁ target target' hΓ ht o o' ho => ?_
  cases ho with
  | ok h =>
    exact (hf Γ₁ hΓ _ _ h).bind fun Γ₂ hΓ' r r' hr => mirrors_settleIgnored (hΓ'.promise ht) hr
  | error h =>
    exact (hg Γ₁ hΓ _ _ h).bind fun Γ₂ hΓ' r r' hr => mirrors_settleIgnored (hΓ'.promise ht) hr

theorem mirrors_map {f f' : V → Work V W (Outcome V)}
    (hf : ∀ Γ', Γ ≤ Γ' → ∀ v v', L.value v v' → Mirrors L (Fixed L.Outcomes) Γ' (f v) (f' v')) :
    Mirrors L Pairing.promise Γ (p.map f) (p'.map f') :=
  mirrors_thenOrElse hp hf fun _ _ _ _ h => .pure (.error h)

theorem mirrors_recover {g g' : Failure → Work V W (Outcome V)}
    (hg : ∀ Γ', Γ ≤ Γ' → ∀ e e', L.failure e e' → Mirrors L (Fixed L.Outcomes) Γ' (g e) (g' e')) :
    Mirrors L Pairing.promise Γ (p.recover g) (p'.recover g') :=
  mirrors_thenOrElse hp (fun _ _ _ _ h => .pure (.ok h)) hg

theorem mirrors_andThen {f f' : V → Work V W (Except Failure (Thenable V W))}
    (hf : ∀ Γ', Γ ≤ Γ' → ∀ v v', L.value v v' →
      Mirrors L (fun Γ => ExceptRel L.failure (L.Thenables Γ)) Γ' (f v) (f' v')) :
    Mirrors L Pairing.promise Γ (p.andThen f) (p'.andThen f') := by
  refine mirrors_react hp fun Γ₁ target target' hΓ ht o o' ho => ?_
  cases ho with
  | error h => exact mirrors_settleIgnored ht (.error h)
  | ok h =>
    refine (hf Γ₁ hΓ _ _ h).bind fun Γ₂ hΓ' r r' hr => ?_
    cases hr with
    | ok h => exact mirrors_settleFrom (hΓ'.promise ht) h
    | error h => exact mirrors_settleIgnored (hΓ'.promise ht) (.error h)

/-- Following a promise of another queue. -/
theorem mirrors_followForeign {target target' : Promise} (ht : Γ.promise target target')
    {q : QueueId} (hh : Γ.homed p q) (hne : q ≠ L.queue) :
    L.Jobs Γ (followForeign target p) (followForeign target' p') := by
  refine .home hp fun Γ₁ q₁ q₁' hΓ hq _ hother _ => ?_
  obtain rfl := hother q hh
  refine .drain hq hne (hΓ.promise hp) fun Γ₂ _ hΓ' => ?_
  refine .outcome (hΓ'.promise (hΓ.promise hp)) fun o o' ho => ?_
  refine mirrors_settleIgnored (hΓ'.promise (hΓ.promise ht)) ?_
  cases ho with
  | none => exact .error (L.failure_refl _)
  | some h => exact h

end

theorem mirrors_settled {q q' : QueueId} (hq : Γ.queue q q') {o o' : Outcome V} (ho : L.Outcomes o o') :
    Mirrors L Pairing.promise Γ (settled q o : Work V W Promise) (settled q' o') :=
  .newPromise hq fun _ _ _ _ hp => (mirrors_settle hp ho).bind fun _ hΓ _ _ _ => .pure (hΓ.promise hp)

section

variable (hmain : Γ.queue L.queue L.queue')

include hmain

/-- A thenable as a promise on the main queue. -/
theorem mirrors_adopt {t t' : Thenable V W} (h : L.Thenables Γ t t') :
    Mirrors L Pairing.promise Γ (adopt L.queue t) (adopt L.queue' t') := by
  have fresh : Mirrors L Pairing.promise Γ
      (.newPromise L.queue fun p => (p.settleFrom t).bind fun _ => .pure p)
      (.newPromise L.queue' fun p => (p.settleFrom t').bind fun _ => .pure p) :=
    .newPromise hmain fun _ _ _ hΓ hp =>
      (mirrors_settleFrom hp (L.grows_thenables hΓ h)).bind fun _ hΓ' _ _ _ => .pure (hΓ'.promise hp)
  cases h with
  | value _ => exact fresh
  | deferred _ => exact fresh
  | @promise source source' hs =>
    refine .home hs fun Γ₁ q q' hΓ hq hh _ hiff => ?_
    simp only [Steps.bind]
    by_cases hm : q = L.queue
    · simp only [hm, hiff.mp hm, if_true]
      exact .pure (hΓ.promise hs)
    · have hm' : q' ≠ L.queue' := fun he => hm (hiff.mpr he)
      simp only [hm, hm', if_false]
      refine .newPromise (hΓ.queue hmain) fun Γ₂ p p' hΓ' hp => ?_
      refine .enqueue (hΓ'.queue (hΓ.queue hmain)) ?_ (.pure hp)
      exact mirrors_followForeign (hΓ'.promise (hΓ.promise hs)) hp (hΓ'.homed hh) hm

variable {bundle bundle' : List V → V}
  (hbundle : ∀ vs vs', List.Forall₂ L.value vs vs' → L.value (bundle vs) (bundle' vs'))

include hbundle

omit hmain in
theorem mirrors_fillSlot {target target' : Promise} (ht : Γ.promise target target') {g g' : GatherId}
    (hg : Γ.gather g g') (slot : Nat) {v v' : V} (hv : L.value v v') :
    Mirrors L (Fixed fun _ _ => True) Γ (fillSlot (W := W) bundle target g slot v)
      (fillSlot bundle' target' g' slot v') := by
  refine .fill hg hv fun vs vs' hvs => ?_
  cases hvs with
  | none => exact .pure trivial
  | some h => exact mirrors_settleIgnored ht (.ok (hbundle _ _ h))

theorem mirrors_gatherFrom {target target' : Promise} (ht : Γ.promise target target')
    {g g' : GatherId} (hg : Γ.gather g g') {ts ts' : List (Thenable V W)}
    (h : List.Forall₂ (L.Thenables Γ) ts ts') (slot : Nat) {full full' : Option (List V)}
    (hfull : Option.Rel (List.Forall₂ L.value) full full') :
    Mirrors L (Fixed (Option.Rel (List.Forall₂ L.value))) Γ
      (gatherFrom L.queue bundle target g slot ts full)
      (gatherFrom L.queue' bundle' target' g' slot ts' full') := by
  induction ts generalizing Γ ts' slot full full' with
  | nil =>
    cases h
    exact .pure hfull
  | cons t ts ih =>
    cases h with
    | @cons _ t' _ ts' htt hts =>
      have hadopt := mirrors_adopt hmain htt
      have rest : ∀ Γ', Γ ≤ Γ' → ∀ {full full' : Option (List V)},
          Option.Rel (List.Forall₂ L.value) full full' →
          Mirrors L (Fixed (Option.Rel (List.Forall₂ L.value))) Γ'
            (gatherFrom L.queue bundle target g (slot + 1) ts full)
            (gatherFrom L.queue' bundle' target' g' (slot + 1) ts' full') := fun Γ' hΓ _ _ hf =>
        ih (hΓ.queue hmain) (hΓ.promise ht) (hΓ.gather hg)
          (hts.imp fun _ _ htt => L.grows_thenables hΓ htt) (slot + 1) hf
      cases htt with
      | value hv => exact .fill hg hv fun vs vs' hvs => rest Γ le_rfl hvs
      | deferred _ | promise _ =>
        refine hadopt.bind fun Γ₁ hΓ p p' hp => ?_
        refine .subscribe hp (fun o o' ho => ?_) (rest Γ₁ hΓ hfull)
        cases ho with
        | ok h => exact mirrors_fillSlot hbundle (hΓ.promise ht) (hΓ.gather hg) slot h
        | error h => exact mirrors_settleIgnored (hΓ.promise ht) (.error h)

theorem mirrors_gather {ts ts' : List (Thenable V W)} (h : List.Forall₂ (L.Thenables Γ) ts ts') :
    Mirrors L Pairing.promise Γ (gather L.queue bundle ts) (gather L.queue' bundle' ts') := by
  unfold gather
  rw [← h.length_eq]
  refine .newPromise hmain fun Γ₁ target target' hΓ ht => .newGather fun Γ₂ g g' hΓ' hg => ?_
  have hΓ₂ := hΓ.trans hΓ'
  refine (mirrors_gatherFrom (hΓ₂.queue hmain) hbundle (hΓ'.promise ht) hg
    (h.imp fun _ _ htt => L.grows_thenables hΓ₂ htt) 0 ?_).bind fun Γ₃ hΓ'' vs vs' hvs => ?_
  · cases h with
    | nil => exact .some .nil
    | cons _ _ => exact .none
  · have ht₃ := hΓ''.promise (hΓ'.promise ht)
    cases hvs with
    | none => exact .pure ht₃
    | some h =>
      exact (mirrors_settle ht₃ (.ok (hbundle _ _ h))).bind fun _ hΓ _ _ _ => .pure (hΓ.promise ht₃)

end

end Promise

end EntityQuery
