import EntityQuery.Proofs.Promise.Thread

/-!
# Gathering futures

A list of futures, none of which is rejected, is gathered into one promise of all their values.
Whichever task is started next, at most one slot of the list comes one step nearer to being filled.

* `Together`: values with the sum of the effects of getting them.
* `Seat`: a slot of the list and what is under way to fill it. **`Seat.Live.joint`**: induction on the
  runs of all slots at once.
* `Seats.Filling`: a list with an empty slot. **`Seats.Filling.live`**: it settles the promise of all values.
* `Futures`: a list of futures that share no part.
* **`Futures.does_gather`**: the promise of all values is a future.
-/

namespace EntityQuery

universe u

variable {V W E : Type} [AddCommMonoid E]

/-! ## Values together -/

/-- Values that meet a list of conditions, with the sum of their effects. -/
inductive Together : List (V → E → Prop) → List V → E → Prop
  | nil : Together [] [] 0
  | cons {φ : V → E → Prop} {φs : List (V → E → Prop)} {v : V} {vs : List V} {d e : E} (hv : φ v d)
      (hvs : Together φs vs e) : Together (φ :: φs) (v :: vs) (d + e)

/-- One condition of the list has come nearer by an effect. -/
theorem Together.replace {pre suf : List (V → E → Prop)} {φ φ' : V → E → Prop} {d : E}
    (hφ : ∀ v e, φ' v e → φ v (d + e)) {vs : List V} {e : E}
    (h : Together (pre ++ φ' :: suf) vs e) : Together (pre ++ φ :: suf) vs (d + e) := by
  induction pre generalizing vs e with
  | nil =>
    obtain ⟨⟩ | ⟨hv, hvs⟩ := h
    rw [← add_assoc]
    exact .cons (hφ _ _ hv) hvs
  | cons ψ pre ih =>
    obtain ⟨⟩ | ⟨hv, hvs⟩ := h
    rw [add_left_comm]
    exact .cons hv (ih hvs)

theorem together_append {As Bs : List (V → E → Prop)} {vs : List V}
    {e : E} (h : Together (As ++ Bs) vs e) :
    ∃ us ws e₁ e₂, vs = us ++ ws ∧ e = e₁ + e₂ ∧ Together As us e₁ ∧ Together Bs ws e₂ := by
  induction As generalizing vs e with
  | nil => exact ⟨[], vs, 0, e, rfl, (zero_add e).symm, .nil, h⟩
  | cons A As ih =>
    cases h with
    | cons hv hrest =>
      obtain ⟨us, ws, e₁, e₂, rfl, rfl, h₁, h₂⟩ := ih hrest
      exact ⟨_ :: us, ws, _, e₂, rfl, (add_assoc _ _ _).symm, .cons hv h₁, h₂⟩

theorem Together.append {As Bs : List (V → E → Prop)}
    {us ws : List V} {e₁ e₂ : E} (h₁ : Together As us e₁) (h₂ : Together Bs ws e₂) :
    Together (As ++ Bs) (us ++ ws) (e₁ + e₂) := by
  induction h₁ with
  | nil => simpa using h₂
  | cons hv _ ih =>
    rw [add_assoc]
    exact .cons hv ih

/-! ## Seats -/

/-- A slot of a gathered list: its value, or what is under way to fill it. -/
structure Seat (V W E : Type) where
  index : Nat
  value? : Option V
  /-- The values that it may take, and when it may wait forever. -/
  prospect : Prospect V E
  tasks : Multiset (Job V W)
  heap : Heap V W

/-- The prospect of the value of what is never rejected. -/
def Prospect.ofOk (φ : Prospect (Outcome V) E) : Prospect V E := ⟨fun v => φ.settles (.ok v), φ.waits⟩

namespace Seat

/-- The values that a slot may take, each with the effect until then. -/
def post (s : Seat V W E) : V → E → Prop := s.prospect.settles

/-- A slot that holds a value. -/
def fill (s : Seat V W E) (v : V) : Seat V W E :=
  { s with
    value? := some v
    prospect := ⟨fun v' e => v' = v ∧ e = 0, fun _ => False⟩
    tasks := 0
    heap := .empty }

/-- A slot later on, after an effect. -/
def later (s : Seat V W E) (d : E) (T : Multiset (Job V W)) (h : Heap V W) : Seat V W E :=
  { s with prospect := s.prospect.later d, tasks := T, heap := h }

section

variable (s : Seat V W E) (v : V) (d : E) (T : Multiset (Job V W)) (h : Heap V W)

@[simp] theorem index_fill : (s.fill v).index = s.index := rfl

@[simp] theorem value?_fill : (s.fill v).value? = some v := rfl

@[simp] theorem tasks_fill : (s.fill v).tasks = 0 := rfl

@[simp] theorem index_later : (s.later d T h).index = s.index := rfl

@[simp] theorem value?_later : (s.later d T h).value? = s.value? := rfl

@[simp] theorem tasks_later : (s.later d T h).tasks = T := rfl

end

theorem post_of_fill {s : Seat V W E} {v v' : V} {e : E} (hv : s.post v 0)
    (h : (s.fill v).post v' e) : s.post v' (0 + e) := by
  obtain ⟨rfl, rfl⟩ := h
  simpa using hv

/-- What slots come to together, where one of them has come nearer by an effect. -/
theorem together_replace {pre suf : List (Seat V W E)} {s s' : Seat V W E} {vs : List V} {d e : E}
    (h : Together ((pre ++ s' :: suf).map post) vs e)
    (hpost : ∀ v e, s'.post v e → s.post v (d + e)) :
    Together ((pre ++ s :: suf).map post) vs (d + e) := by
  rw [List.map_append, List.map_cons] at h ⊢
  exact h.replace hpost

/-- Each task of a slot is the one that fills it, or leads to a slot that meets `R`. -/
structure Advances (C : Terms W E) (r : Nat → Outcome V → Job V W) (R : Seat V W E → Prop)
    (s : Seat V W E) : Prop where
  filled : ∀ v, s.value? = some v → s.tasks = 0 ∧ s.prospect.settles v 0
  stuck : s.value? = none → s.tasks = 0 → C.lax ∧ s.prospect.waits 0
  step : s.value? = none → ∀ task T, s.tasks = task ::ₘ T →
    (∃ v, task = r s.index (.ok v) ∧ T = 0 ∧ s.prospect.settles v 0 ∧ R (s.fill v)) ∨
      Does C s.heap task.steps fun _ T' h d => R (s.later d (T + T') h)

/-- A slot that is filled after finitely many of its tasks. -/
inductive Live (C : Terms W E) (r : Nat → Outcome V → Job V W) : Seat V W E → Prop
  | intro {s : Seat V W E} (R : Seat V W E → Prop) (hR : ∀ s', R s' → Live C r s')
      (h : s.Advances C r R) : Live C r s

variable {C : Terms W E} {r : Nat → Outcome V → Job V W}

theorem Live.advances {s : Seat V W E} (h : s.Live C r) :
    ∃ R : Seat V W E → Prop, s.Advances C r R := by
  cases h with
  | intro R hR ha => exact ⟨R, ha⟩

/-- **Induction on the runs of all slots of a list at once.** -/
theorem Live.joint {P : List (Seat V W E) → Prop}
    (hP : ∀ slots, (∀ s ∈ slots, Live C r s) →
      (∀ pre s suf, slots = pre ++ s :: suf →
        ∃ R, s.Advances C r R ∧ ∀ s', R s' → P (pre ++ s' :: suf)) → P slots)
    (slots : List (Seat V W E)) (hlive : ∀ s ∈ slots, Live C r s) : P slots := by
  -- Induction on the length: the first slot runs, or one of the others does.
  suffices h : ∀ n (P : List (Seat V W E) → Prop),
      (∀ slots, slots.length = n → (∀ s ∈ slots, Live C r s) →
        (∀ pre s suf, slots = pre ++ s :: suf →
          ∃ R, s.Advances C r R ∧ ∀ s', R s' → P (pre ++ s' :: suf)) → P slots) →
      ∀ slots, slots.length = n → (∀ s ∈ slots, Live C r s) → P slots from
    h _ P (fun slots _ => hP slots) slots rfl hlive
  intro n
  induction n with
  | zero =>
    intro P hP slots hn hl
    refine hP slots hn hl fun pre s suf he => ?_
    rw [List.length_eq_zero_iff.mp hn] at he
    simp at he
  | succ n ih =>
    intro P hP slots hn hl
    obtain ⟨s, rest, rfl⟩ : ∃ s rest, slots = s :: rest := by
      cases slots with
      | nil => simp at hn
      | cons s rest => exact ⟨s, rest, rfl⟩
    have first : ∀ s, Live C r s → ∀ rest, rest.length = n → (∀ s' ∈ rest, Live C r s') →
        P (s :: rest) := by
      intro s hs
      induction hs with
      | @intro s R hR ha ihs =>
        refine ih (fun rest => P (s :: rest)) fun rest hn hl hrest => ?_
        refine hP (s :: rest) (by simp [hn]) (by simpa using ⟨⟨R, hR, ha⟩, hl⟩) ?_
        rintro (_ | ⟨s₀, pre⟩) s₁ suf he
        · obtain ⟨rfl, rfl⟩ := List.cons.inj he
          exact ⟨R, ha, fun s' hs' => ihs s' hs' rest hn hl⟩
        · obtain ⟨rfl, rfl⟩ := List.cons.inj he
          exact hrest pre s₁ suf rfl
    exact first s (hl s (by simp)) rest (by simpa using hn)
      fun s' hs' => hl s' (List.mem_cons_of_mem _ hs')

theorem live_fill (s : Seat V W E) (v : V) : Live C r (s.fill v) := by
  refine ⟨_, fun _ h => h, fun v' hv => ?_, fun hv => (Option.some_ne_none v hv).elim,
    fun hv => (Option.some_ne_none v hv).elim⟩
  cases hv
  exact ⟨rfl, rfl, rfl⟩

/-- A slot whose task fills it. -/
theorem live_of_queued {s : Seat V W E} {v : V} (hv : s.value? = none)
    (ht : s.tasks = {r s.index (.ok v)}) (hp : s.prospect.settles v 0) : Live C r s := by
  refine ⟨_, fun _ h => h, fun v' hv' => ?_, fun _ h0 => ?_, fun _ task T hT => .inl ⟨v, ?_⟩⟩
  · rw [hv] at hv'
    cases hv'
  · rw [ht] at h0
    exact absurd h0 (Multiset.singleton_ne_zero _)
  · rw [ht] at hT
    obtain ⟨rfl, rfl⟩ := (Multiset.singleton_eq_cons_iff T).mp hT
    exact ⟨rfl, rfl, hp, live_fill s v⟩

/-- A thread that is never rejected, with the reaction that fills a slot. -/
theorem live_of_thread {t : Thread V W E} (ht : t.Live C) {i : Nat}
    (hf : ∀ f e, ¬ t.prospect.settles (.error f) e) :
    Live C r ⟨i, none, t.prospect.ofOk, t.tasks,
      t.heap.set (.promise t.promise) (C.pending [r i])⟩ := by
  induction ht with
  | @intro t R hR ha ih =>
    refine ⟨_, fun _ h => h, fun v hv => (Option.some_ne_none v hv.symm).elim, fun _ => ha.stuck,
      fun _ task T hT => .inr ?_⟩
    refine (ha.step task T hT [r i]).mono ?_
    rintro _ T' h d (⟨o, rfl, rfl, hp, hs⟩ | ⟨h', rfl, hR'⟩)
    · cases o with
      | error f => exact (hf f d hp).elim
      | ok v => exact live_of_queued (v := v) rfl (by simp) (by simpa [later, Prospect.ofOk] using hp)
    · exact ih _ hR' fun f e => hf f (d + e)

omit [AddCommMonoid E] in
theorem mem_tasks_sum {slots : List (Seat V W E)} {task : Job V W} :
    task ∈ (slots.map Seat.tasks).sum ↔ ∃ s ∈ slots, task ∈ s.tasks := by
  induction slots with
  | nil => simp
  | cons s rest ih => simp [ih]

omit [AddCommMonoid E] in
/-- The slot that a task belongs to. -/
theorem split_of_tasks {slots : List (Seat V W E)} {task : Job V W} {T : Multiset (Job V W)}
    (h : (slots.map Seat.tasks).sum = task ::ₘ T) :
    ∃ pre s suf T₁, slots = pre ++ s :: suf ∧ s.tasks = task ::ₘ T₁ ∧
      T = (pre.map Seat.tasks).sum + (T₁ + (suf.map Seat.tasks).sum) := by
  have htask : task ∈ (slots.map Seat.tasks).sum := by
    rw [h]
    exact Multiset.mem_cons_self task T
  obtain ⟨s, hmem, hs⟩ := mem_tasks_sum.mp htask
  obtain ⟨pre, suf, rfl⟩ := List.append_of_mem hmem
  obtain ⟨T₁, hT₁⟩ := Multiset.exists_cons_of_mem hs
  refine ⟨pre, s, suf, T₁, rfl, hT₁, (Multiset.cons_inj_right task).mp ?_⟩
  rw [← h, List.map_append, List.map_cons, List.sum_append, List.sum_cons, hT₁]
  simp

/-- What slots that are filled hold. -/
theorem together_of_filled {slots : List (Seat V W E)} (hl : ∀ s ∈ slots, Live C r s)
    (hf : ∀ s ∈ slots, s.value? ≠ none) :
    (slots.map Seat.tasks).sum = 0 ∧
      Together (slots.map Seat.post) (slots.filterMap Seat.value?) 0 := by
  induction slots with
  | nil => exact ⟨rfl, .nil⟩
  | cons s rest ih =>
    obtain ⟨hsum, hrest⟩ := ih (fun s' hs' => hl s' (List.mem_cons_of_mem _ hs'))
      fun s' hs' => hf s' (List.mem_cons_of_mem _ hs')
    obtain ⟨v, hv⟩ := Option.ne_none_iff_exists'.mp (hf s List.mem_cons_self)
    obtain ⟨R, ha⟩ := (hl s List.mem_cons_self).advances
    obtain ⟨h0, hpost⟩ := ha.filled v hv
    refine ⟨by simp [h0, hsum], ?_⟩
    rw [List.filterMap_cons_some hv, ← add_zero (0 : E)]
    exact .cons hpost hrest

end Seat

/-! ## The promise of all values -/

/-- What is done once an item has settled. -/
def fillJob (bundle : List V → V) (target : Promise) (g : GatherId) (i : Nat) (o : Outcome V) :
    Job V W :=
  .mk <|
    match o with
    | .ok v => Promise.fillSlot bundle target g i v
    | .error f => Promise.ignore (target.settle (.error f))

/-- The slots of a gathered list: they share no part, and the list holds what is filled. -/
structure Seats (g : GatherId) (slots : List (Seat V W E)) (h : Heap V W) : Prop where
  index : slots.map Seat.index = List.range slots.length
  content : h (.gather g) =
    some (.gather ⟨slots.map Seat.value?, slots.countP fun s => s.value?.isNone⟩)
  within : ∀ s ∈ slots, s.heap.Within h
  off : ∀ s ∈ slots, s.heap (.gather g) = none
  apart : slots.Pairwise fun s s' => s.heap.Apart s'.heap

namespace Seats

variable {g : GatherId} {pre suf : List (Seat V W E)} {s : Seat V W E} {h : Heap V W}

omit [AddCommMonoid E] in
theorem index_eq (hs : Seats g (pre ++ s :: suf) h) : s.index = pre.length := by
  have hi := congrArg (fun l => l[pre.length]?) hs.index
  simpa using hi

omit [AddCommMonoid E] in
theorem mem (s : Seat V W E) : s ∈ pre ++ s :: suf := by simp

omit [AddCommMonoid E] in
theorem mem_of_rest {s' : Seat V W E} (h : s' ∈ pre ++ suf) : s' ∈ pre ++ s :: suf := by
  simp only [List.mem_append, List.mem_cons] at h ⊢
  rcases h with h | h
  · exact .inl h
  · exact .inr (.inr h)

omit [AddCommMonoid E] in
theorem mem_replace {s' : Seat V W E} (h : s' ∈ pre ++ s :: suf) : s' = s ∨ s' ∈ pre ++ suf := by
  simp only [List.mem_append, List.mem_cons] at h ⊢
  rcases h with h | h | h
  · exact .inr (.inl h)
  · exact .inl h
  · exact .inr (.inr h)

omit [AddCommMonoid E] in
theorem apart_rest (hs : Seats g (pre ++ s :: suf) h) : ∀ s' ∈ pre ++ suf, s'.heap.Apart s.heap := by
  intro s' hs'
  have hp := List.pairwise_append.mp hs.apart
  rcases List.mem_append.mp hs' with h' | h'
  · exact hp.2.2 s' h' s List.mem_cons_self
  · exact ((List.pairwise_cons.mp hp.2.1).1 s' h').symm

omit [AddCommMonoid E] in
theorem pairwise_replace (hs : Seats g (pre ++ s :: suf) h) {s' : Seat V W E}
    (ha : ∀ s₀ ∈ pre ++ suf, s₀.heap.Apart s'.heap) :
    (pre ++ s' :: suf).Pairwise fun s s' => s.heap.Apart s'.heap := by
  obtain ⟨h₁, h₂, h₃⟩ := List.pairwise_append.mp hs.apart
  refine List.pairwise_append.mpr ⟨h₁, List.pairwise_cons.mpr ⟨fun s₀ h₀ => ?_, ?_⟩, ?_⟩
  · exact (ha s₀ (List.mem_append_right pre h₀)).symm
  · exact (List.pairwise_cons.mp h₂).2
  · intro a ha' b hb
    rcases List.mem_cons.mp hb with rfl | hb
    · exact ha a (List.mem_append_left suf ha')
    · exact h₃ a ha' b (List.mem_cons_of_mem _ hb)

omit [AddCommMonoid E] in
/-- Slots that are all empty. -/
theorem start {slots : List (Seat V W E)} (hi : slots.map Seat.index = List.range slots.length)
    (hv : ∀ s ∈ slots, s.value? = none) (hwithin : ∀ s ∈ slots, s.heap.Within h)
    (hg : h (.gather g) = none) (ha : slots.Pairwise fun s s' => s.heap.Apart s'.heap) :
    Seats g slots (h.set (.gather g) (.gather (.ofSize slots.length))) := by
  have hvalues : slots.map Seat.value? = List.replicate slots.length none :=
    List.eq_replicate_iff.mpr ⟨by simp, by simpa using hv⟩
  have hmissing : slots.countP (fun s => s.value?.isNone) = slots.length :=
    List.countP_eq_length.mpr fun s hs => by simp [hv s hs]
  refine ⟨hi, ?_, fun s hs => (hwithin s hs).set_right ((hwithin s hs).eq_none hg) _,
    fun s hs => (hwithin s hs).eq_none hg, ha⟩
  rw [Heap.set_self, hvalues, hmissing]
  rfl

/-- A slot is filled. -/
theorem fill (hs : Seats g (pre ++ s :: suf) h) (hv : s.value? = none) (v : V) :
    Seats g (pre ++ s.fill v :: suf)
      (h.set (.gather g) (.gather (Gather.fill
        ⟨(pre ++ s :: suf).map Seat.value?, (pre ++ s :: suf).countP fun s => s.value?.isNone⟩
        s.index v))) := by
  refine ⟨by simpa using hs.index, ?_, fun s' hs' => ?_, fun s' hs' => ?_, ?_⟩
  · rw [Heap.set_self, hs.index_eq]
    simp [Gather.fill, hv]
  · rcases mem_replace hs' with rfl | hs'
    · exact Heap.empty_within _
    · exact (hs.within s' (mem_of_rest hs')).set_right (hs.off s' (mem_of_rest hs')) _
  · rcases mem_replace hs' with rfl | hs'
    · rfl
    · exact hs.off s' (mem_of_rest hs')
  · exact hs.pairwise_replace fun s₀ _ => (Heap.empty_apart _).symm

/-- What is under way to fill a slot has changed its own parts. -/
theorem later (hs : Seats g (pre ++ s :: suf) h) {h₁ : Heap V W} (ha : h₁.Apart (h.diff s.heap))
    (d : E) (T : Multiset (Job V W)) :
    Seats g (pre ++ s.later d T h₁ :: suf) (h₁.union (h.diff s.heap)) := by
  have hg : (h.diff s.heap) (.gather g) = h (.gather g) := by
    simp [Heap.diff, hs.off s (mem s)]
  have hg₁ : h₁ (.gather g) = none := (ha _).resolve_right (by rw [hg, hs.content]; simp)
  have rest : ∀ s' ∈ pre ++ suf, s'.heap.Within (h.diff s.heap) := fun s' hs' =>
    (hs.within s' (mem_of_rest hs')).diff (hs.apart_rest s' hs')
  refine ⟨by simpa using hs.index, ?_, fun s' hs' => ?_, fun s' hs' => ?_, ?_⟩
  · rw [Heap.union_apply_of_none hg₁, hg, hs.content]
    simp [List.countP_cons]
  · rcases mem_replace hs' with rfl | hs'
    · exact Heap.within_union_left _ _
    · exact (rest s' hs').trans ha.within_union_right
  · rcases mem_replace hs' with rfl | hs'
    · exact hg₁
    · exact hs.off s' (mem_of_rest hs')
  · exact hs.pairwise_replace fun s₀ h₀ => (ha.symm.of_within (rest s₀ h₀))

end Seats

section

variable {C : Terms W E} {bundle : List V → V} {target : Promise} {g : GatherId}

/-- The task that fills a slot: the last one settles the promise of the list. -/
theorem Seats.does_fillJob {pre suf : List (Seat V W E)} {s : Seat V W E} {h : Heap V W}
    (hs : Seats g (pre ++ s :: suf) h)
    (hl : ∀ s' ∈ pre ++ suf, s'.Live C (fillJob bundle target g)) (hv : s.value? = none) {v : V}
    (hpost : s.post v 0) {φ : Prospect (Outcome V) E}
    (hp : ∀ vs e, Together ((pre ++ s :: suf).map Seat.post) vs e → φ.settles (.ok (bundle vs)) e)
    (htarget : h (.promise target) = none) (rs : List (Outcome V → Job V W)) :
    Does C (h.set (.promise target) (C.pending rs))
      (fillJob bundle target g s.index (.ok v)).steps fun _ T h' d =>
        d = 0 ∧ ((((pre ++ suf).map Seat.tasks).sum = 0 ∧ ∃ o, T = ↑(rs.map fun r => r o) ∧
            φ.settles o 0 ∧ h' (.promise target) = some (C.settled o)) ∨
          T = 0 ∧ (∃ s' ∈ pre ++ suf, s'.value? = none) ∧
            ∃ h'', h' = h''.set (.promise target) (C.pending rs) ∧
              h'' (.promise target) = none ∧ Seats g (pre ++ s.fill v :: suf) h'') := by
  have hne : Part.gather g ≠ .promise target := by simp
  have hf := hs.fill hv v
  have hfill := hf.content
  rw [Heap.set_self, Option.some_inj, Content.gather.injEq] at hfill
  refine does_fill (by rw [Heap.set_of_ne hne]; exact hs.content) ?_
  simp only [Steps.bind]
  rw [hfill] at hf ⊢
  by_cases hopen : ∀ s' ∈ pre ++ suf, s'.value? ≠ none
  · have hall : ∀ s' ∈ pre ++ s.fill v :: suf, s'.value? ≠ none := fun s' hs' => by
      rcases mem_replace hs' with rfl | hs'
      · simp
      · exact hopen s' hs'
    have hlive : ∀ s' ∈ pre ++ s.fill v :: suf, s'.Live C (fillJob bundle target g) := fun s' hs' => by
      rcases mem_replace hs' with rfl | hs'
      · exact Seat.live_fill s v
      · exact hl s' hs'
    obtain ⟨hsum, htogether⟩ := Seat.together_of_filled hlive hall
    have hzero : (pre ++ s.fill v :: suf).countP (fun s => s.value?.isNone) = 0 :=
      List.countP_eq_zero.mpr fun s' hs' => by simpa using hall s' hs'
    have hvalues : (Gather.values? ⟨(pre ++ s.fill v :: suf).map Seat.value?,
        (pre ++ s.fill v :: suf).countP fun s => s.value?.isNone⟩) =
          some ((pre ++ s.fill v :: suf).filterMap Seat.value?) := by
      simp only [Gather.values?, hzero, if_true, List.filterMap_map, Function.id_comp]
    rw [hvalues]
    refine does_settle (by rw [Heap.set_of_ne hne.symm]; exact Heap.set_self _ _ _) fun _ => ?_
    refine does_pure ⟨rfl, .inl ⟨?_, _, add_zero _, ?_, Heap.set_self _ _ _⟩⟩
    · simpa using hsum
    · refine hp _ _ ?_
      rw [← add_zero (0 : E)]
      exact Seat.together_replace htogether fun v' e => Seat.post_of_fill hpost
  · have hsome : ∃ s' ∈ pre ++ suf, s'.value? = none := by
      simpa using hopen
    have hpos : (pre ++ s.fill v :: suf).countP (fun s => s.value?.isNone) ≠ 0 := by
      obtain ⟨s', hs', hv'⟩ := hsome
      refine Nat.pos_iff_ne_zero.mp (List.countP_pos_iff.mpr ⟨s', Seats.mem_of_rest hs', ?_⟩)
      simp [hv']
    have hvalues : (Gather.values? ⟨(pre ++ s.fill v :: suf).map Seat.value?,
        (pre ++ s.fill v :: suf).countP fun s => s.value?.isNone⟩) = none := by
      simp only [Gather.values?, hpos, if_false]
    rw [hvalues]
    refine does_pure ⟨rfl, .inr ⟨rfl, hsome, _, Heap.set_comm hne.symm _ _ _, ?_, hf⟩⟩
    rw [Heap.set_of_ne hne.symm]
    exact htarget

/-- A list that has an empty slot, and what its promise is known to settle with and to wait for. -/
structure Seats.Filling (bundle : List V → V) (target : Promise) (g : GatherId)
    (slots : List (Seat V W E)) (h : Heap V W) (φ : Prospect (Outcome V) E) : Prop where
  seats : Seats g slots h
  vacant : ∃ s ∈ slots, s.value? = none
  target : h (.promise target) = none
  settles : ∀ vs e, Together (slots.map Seat.post) vs e → φ.settles (.ok (bundle vs)) e
  waits : ∀ s ∈ slots, ∀ e e', s.prospect.waits e' → φ.waits (e + e')

namespace Seats.Filling

variable {pre suf slots : List (Seat V W E)} {s : Seat V W E} {h : Heap V W}
  {φ : Prospect (Outcome V) E}

/-- A slot has been filled, and another one is empty. -/
theorem fill (hf : Filling bundle target g (pre ++ s :: suf) h φ) {v : V} {h' : Heap V W}
    (hs : Seats g (pre ++ s.fill v :: suf) h') (hpost : s.prospect.settles v 0)
    (hvacant : ∃ s' ∈ pre ++ suf, s'.value? = none) (htarget : h' (.promise target) = none) :
    Filling bundle target g (pre ++ s.fill v :: suf) h' (φ.later 0) where
  seats := hs
  vacant :=
    let ⟨s', hs', hv⟩ := hvacant
    ⟨s', Seats.mem_of_rest hs', hv⟩
  target := htarget
  settles vs _ h := hf.settles vs _ (Seat.together_replace h fun _ _ => Seat.post_of_fill hpost)
  waits s₀ hs₀ e e' hwaits := by
    rcases Seats.mem_replace hs₀ with rfl | hs₀
    · exact hwaits.elim
    · simpa using hf.waits s₀ (Seats.mem_of_rest hs₀) e e' hwaits

/-- What is under way to fill a slot has changed its own parts. -/
theorem later (hf : Filling bundle target g (pre ++ s :: suf) h φ) (hv : s.value? = none)
    {h₁ : Heap V W} (ha : h₁.Apart (h.diff s.heap)) (htarget : h₁ (.promise target) = none) (d : E)
    (T : Multiset (Job V W)) :
    Filling bundle target g (pre ++ s.later d T h₁ :: suf) (h₁.union (h.diff s.heap))
      (φ.later d) where
  seats := hf.seats.later ha d T
  vacant := ⟨s.later d T h₁, by simp, hv⟩
  target := Heap.union_eq_none.mpr ⟨htarget, (Heap.diff_within h s.heap).eq_none hf.target⟩
  settles vs _ h := hf.settles vs _ (Seat.together_replace h fun _ _ hv => hv)
  waits s₀ hs₀ e e' hwaits := by
    rcases Seats.mem_replace hs₀ with rfl | hs₀
    · simpa [add_left_comm] using hf.waits s (Seats.mem s) e (d + e') hwaits
    · simpa [add_assoc] using hf.waits s₀ (Seats.mem_of_rest hs₀) (d + e) e' hwaits

/-- Where no task is left, an empty slot waits forever. -/
theorem stuck (hf : Filling bundle target g slots h φ)
    (hl : ∀ s ∈ slots, s.Live C (fillJob bundle target g)) (hsum : (slots.map Seat.tasks).sum = 0) :
    C.lax ∧ φ.waits 0 := by
  obtain ⟨s, hmem, hv⟩ := hf.vacant
  obtain ⟨R, ha⟩ := (hl s hmem).advances
  refine (ha.stuck hv (Multiset.eq_zero_of_forall_notMem fun task htask => ?_)).imp_right
    fun hwaits => by simpa using hf.waits s hmem 0 0 hwaits
  have hmem' : task ∈ (0 : Multiset (Job V W)) := hsum ▸ Seat.mem_tasks_sum.mpr ⟨s, hmem, htask⟩
  exact Multiset.notMem_zero task hmem'

/-- **What is under way to fill the slots of a list settles the promise of all values**, by induction on the
runs of all slots at once. -/
theorem live (hf : Filling bundle target g slots h φ)
    (hl : ∀ s ∈ slots, s.Live C (fillJob bundle target g)) :
    Thread.Live C ⟨target, φ, (slots.map Seat.tasks).sum, h⟩ := by
  refine Seat.Live.joint (P := fun slots => ∀ h φ, Filling bundle target g slots h φ →
    Thread.Live C ⟨target, φ, (slots.map Seat.tasks).sum, h⟩) ?_ slots hl h φ hf
  clear hf hl
  intro slots hl ih h φ hf
  refine .of_advances ⟨hf.stuck hl, hf.target, fun task T hT rs => ?_⟩
  change (slots.map Seat.tasks).sum = task ::ₘ T at hT
  obtain ⟨pre, s, suf, T₁, rfl, hT₁, rfl⟩ := Seat.split_of_tasks hT
  obtain ⟨R, ha, ihs⟩ := ih pre s suf rfl
  have hv : s.value? = none := by
    cases hv : s.value? with
    | none => rfl
    | some v =>
      rw [(ha.filled v hv).1] at hT₁
      exact absurd hT₁.symm Multiset.cons_ne_zero
  rcases ha.step hv task T₁ hT₁ with ⟨v, rfl, rfl, hpost, hR⟩ | hd
  · -- The task fills the slot.
    have hl' : ∀ s' ∈ pre ++ suf, s'.Live C (fillJob bundle target g) :=
      fun s' hs' => hl s' (Seats.mem_of_rest hs')
    refine (hf.seats.does_fillJob hl' hv hpost hf.settles hf.target rs).mono ?_
    rintro _ T' h' _ ⟨rfl, ⟨hsum, o, rfl, ho, hset⟩ | ⟨rfl, hvacant, h'', rfl, hn, hslots⟩⟩
    · refine .inl ⟨o, ?_, rfl, ho, hset⟩
      simpa using hsum
    · refine .inr ⟨h'', rfl, ?_⟩
      have hlive := ihs _ hR h'' _ (hf.fill hslots hpost hvacant hn)
      simpa [Thread.later] using hlive
  · -- The task comes one step nearer to that, with the parts of the slot only.
    have hwithin : s.heap.Within h := hf.seats.within s (Seats.mem s)
    have hns : s.heap (.promise target) = none := hwithin.eq_none hf.target
    have hapart : s.heap.Apart ((h.diff s.heap).set (.promise target) (C.pending rs)) :=
      (Heap.apart_diff h s.heap).set_right hns _
    have hframe := hd.frame hapart
    rw [Heap.union_set hns, hwithin.union_diff] at hframe
    refine hframe.mono ?_
    rintro _ T' _ d ⟨h₁, rfl, hapart', hR⟩
    have hn₁ : h₁ (.promise target) = none := (hapart' _).resolve_right (by simp)
    have hnd : (h.diff s.heap) (.promise target) = none :=
      (Heap.diff_within h s.heap).eq_none hf.target
    have hap : h₁.Apart (h.diff s.heap) :=
      (hapart'.symm.of_within ((Heap.Within.refl _).set_right hnd _)).symm
    refine .inr ⟨h₁.union (h.diff s.heap), Heap.union_set hn₁ _ _, ?_⟩
    have hlive := ihs _ hR _ _ (hf.later hv hap hn₁ d (T₁ + T'))
    simpa [Thread.later, add_assoc, add_comm, add_left_comm] using hlive

end Seats.Filling

/-! ## Futures -/

/-- Futures that share no part, each with what it may come to. -/
inductive Futures (C : Terms W E) : List Promise → List (Prospect (Outcome V) E) →
    Multiset (Job V W) → Heap V W → Prop
  | nil (h : Heap V W) : Futures C [] [] 0 h
  | cons {p : Promise} {φ : Prospect (Outcome V) E} {ps : List Promise}
      {φs : List (Prospect (Outcome V) E)} {T T' : Multiset (Job V W)} {h h' : Heap V W}
      (hf : Future C p φ T h) (hfs : Futures C ps φs T' h') (ha : h.Apart h') :
      Futures C (p :: ps) (φ :: φs) (T + T') (h.union h')

section

variable {C : Terms W E} {ps ps' : List Promise} {φs φs' : List (Prospect (Outcome V) E)}
  {T T' : Multiset (Job V W)} {h h' : Heap V W}

theorem Futures.enlarge (hf : Futures C ps φs T h) {k : Heap V W} (ha : h.Apart k) :
    Futures C ps φs T (h.union k) := by
  induction hf with
  | nil h => exact .nil _
  | @cons p φ ps φs T₁ T₂ h₁ h₂ hp hrest hap ih =>
    have h₁k : h₁.Apart k := ha.of_within (Heap.within_union_left h₁ h₂)
    have h₂k : h₂.Apart k := ha.of_within hap.within_union_right
    rw [Heap.union_assoc]
    exact .cons hp (ih h₂k) (hap.symm.union h₁k.symm).symm

theorem Futures.append (hf : Futures C ps φs T h) (hf' : Futures C ps' φs' T' h')
    (ha : h.Apart h') : Futures C (ps ++ ps') (φs ++ φs') (T + T') (h.union h') := by
  induction hf with
  | nil h =>
    rw [ha.union_comm, zero_add]
    exact hf'.enlarge ha.symm
  | @cons p φ ps φs T₁ T₂ h₁ h₂ hp hrest hap ih =>
    have h₁k : h₁.Apart h' := ha.of_within (Heap.within_union_left h₁ h₂)
    have h₂k : h₂.Apart h' := ha.of_within hap.within_union_right
    rw [Heap.union_assoc, add_assoc]
    exact .cons hp (ih h₂k) (hap.symm.union h₁k.symm).symm

theorem Future.single {p : Promise} {φ : Prospect (Outcome V) E} (hf : Future C p φ T h) :
    Futures C [p] [φ] T h := by
  have hone : Futures C [p] [φ] (T + 0) (h.union .empty) :=
    .cons hf (.nil _) (Heap.empty_apart h).symm
  rwa [add_zero, Heap.union_empty] at hone

/-- Steps that give futures, beside others. -/
theorem Futures.beside (hf : Futures C ps φs T h) {α : Type u} {w : Work V W α}
    {Q : α → List Promise → List (Prospect (Outcome V) E) → E → Prop}
    (hw : Does C .empty w fun r T' h' d => ∃ ps' φs', Futures C ps' φs' T' h' ∧ Q r ps' φs' d) :
    Does C h w fun r T' h' d => ∃ ps' φs',
      Futures C (ps ++ ps') (φs ++ φs') (T + T') h' ∧ Q r ps' φs' d := by
  have hw' := hw.frame (Heap.empty_apart h)
  rw [Heap.empty_union] at hw'
  refine hw'.mono ?_
  rintro r T' _ d ⟨h₁, rfl, ha, ps', φs', hf', hq⟩
  refine ⟨ps', φs', ?_, hq⟩
  rw [ha.union_comm]
  exact hf.append hf' ha.symm

end

/-- The condition on the value of a future that is not rejected. -/
def okPost (φ : Prospect (Outcome V) E) : V → E → Prop := φ.ofOk.settles

/-- A future with the reaction that fills a slot. -/
theorem Future.does_seat {p : Promise} {φ : Prospect (Outcome V) E} {T : Multiset (Job V W)}
    {h : Heap V W} (hf : Future C p φ T h) (hφ : ∀ f e, ¬ φ.settles (.error f) e)
    (r : Nat → Outcome V → Job V W) (i : Nat) {α : Type} {next : Work V W α} {k : Heap V W}
    (ha : h.Apart k) {Q : α → Multiset (Job V W) → Heap V W → E → Prop}
    (hnext : ∀ (s : Seat V W E) T', s.Live C r → s.index = i → s.value? = none →
      s.prospect = φ.ofOk → s.tasks = T + T' → s.heap.Apart k →
      Does C (s.heap.union k) next fun a T h d => Q a (T' + T) h d) :
    Does C (h.union k) (.subscribe p (r i) next) Q := by
  rcases hf with ⟨o, hs, rfl, ho⟩ | ⟨h', rfl, hl⟩
  · cases o with
    | error f => exact (hφ f 0 ho).elim
    | ok v =>
      have hs' : (h.union k) (.promise p) = some (.cell ⟨C.queue, some (.ok v), []⟩) := by
        rw [Heap.union_apply_of_ne (by rw [hs]; simp)]
        exact hs
      exact does_subscribe_of_settled hs' (hnext ⟨i, none, φ.ofOk, {r i (.ok v)}, h⟩ _
        (Seat.live_of_queued rfl rfl ho) rfl rfl rfl (zero_add _).symm ha)
  · have hs' : ((h'.set (.promise p) (C.pending [])).union k) (.promise p) =
        some (.cell ⟨C.queue, none, []⟩) := by
      rw [Heap.union_apply_of_ne (by simp), Heap.set_self]
      rfl
    refine does_subscribe_of_pending hs' ?_
    rw [Heap.set_union, Heap.set_set]
    have ha' : (h'.set (.promise p) (C.pending [r i])).Apart k := by
      intro x
      refine (ha x).imp_left fun hx => ?_
      by_cases hxp : x = .promise p
      · rw [hxp, Heap.set_self] at hx
        cases hx
      · rw [Heap.set_of_ne hxp] at hx ⊢
        exact hx
    have hnext' : Does C ((h'.set (.promise p) (C.pending [r i])).union k) next Q := by
      simpa only [zero_add] using
        hnext ⟨i, none, φ.ofOk, T, h'.set (.promise p) (C.pending [r i])⟩ 0
          (Seat.live_of_thread hl hφ) rfl rfl rfl (add_zero T).symm ha'
    exact hnext'

/-- Subscribing the slots of a list to its futures. -/
theorem Futures.does_gatherFrom {ps : List Promise} {φs : List (Prospect (Outcome V) E)}
    {T : Multiset (Job V W)} {h : Heap V W} (hf : Futures C ps φs T h)
    (hφ : ∀ φ ∈ φs, ∀ f e, ¬ φ.settles (.error f) e) (i : Nat) (full : Option (List V)) :
    Does C h (Promise.gatherFrom C.queue bundle target g i (ps.map .promise) full)
      fun full' T' h' d => full' = full ∧ d = 0 ∧ ∃ slots : List (Seat V W E),
        (∀ s ∈ slots, s.Live C (fillJob bundle target g)) ∧
        slots.map Seat.index = List.range' i ps.length ∧ (∀ s ∈ slots, s.value? = none) ∧
        slots.map Seat.prospect = φs.map Prospect.ofOk ∧ (slots.map Seat.tasks).sum = T + T' ∧
        (∀ s ∈ slots, s.heap.Within h') ∧ slots.Pairwise fun s s' => s.heap.Apart s'.heap := by
  induction hf generalizing i with
  | nil h => exact does_pure ⟨rfl, rfl, [], by simp⟩
  | @cons p φ ps φs T T' h h' hf hfs ha ih =>
    obtain ⟨o?, hc⟩ := hf.exists_cell
    have hc' : (h.union h') (.promise p) = some (.cell ⟨C.queue, o?, []⟩) := by
      rw [Heap.union_apply_of_ne (by rw [hc]; simp)]
      exact hc
    refine does_home hc' ?_
    simp only [Steps.bind, if_true]
    refine hf.does_seat (hφ φ List.mem_cons_self) (fillJob bundle target g) i ha ?_
    intro s T₁ hl hi hv hprospect htasks hapart
    have hrest := (ih (fun ψ hψ => hφ ψ (List.mem_cons_of_mem _ hψ)) (i + 1)).frame hapart.symm
    rw [hapart.union_comm]
    refine hrest.mono ?_
    rintro full' T₂ _ d ⟨h₁, rfl, ha₁, rfl, rfl, slots, hls, his, hvs, hprospects, htaskss, hws, has⟩
    refine ⟨rfl, rfl, s :: slots, ?_, ?_, ?_, ?_, ?_, ?_, ?_⟩
    · exact List.forall_mem_cons.mpr ⟨hl, hls⟩
    · rw [List.map_cons, his, hi]
      rfl
    · exact List.forall_mem_cons.mpr ⟨hv, hvs⟩
    · rw [List.map_cons, hprospects, hprospect]
      rfl
    · rw [List.map_cons, List.sum_cons, htasks, htaskss]
      exact add_add_add_comm T T₁ T' T₂
    · refine List.forall_mem_cons.mpr ⟨ha₁.within_union_right, fun s' hs' => ?_⟩
      exact (hws s' hs').trans (Heap.within_union_left h₁ s.heap)
    · exact List.pairwise_cons.mpr ⟨fun s' hs' => (ha₁.of_within (hws s' hs')).symm, has⟩

/-- **A promise of the values of futures that are not rejected is a future.** -/
theorem Futures.does_gather {ps : List Promise} {φs : List (Prospect (Outcome V) E)}
    {T : Multiset (Job V W)} {h : Heap V W} (hf : Futures C ps φs T h)
    (hφ : ∀ φ ∈ φs, ∀ f e, ¬ φ.settles (.error f) e) {φ : Prospect (Outcome V) E}
    (hp : ∀ vs e, Together (φs.map okPost) vs e → φ.settles (.ok (bundle vs)) e)
    (hw : ∀ ψ ∈ φs, ∀ e e', ψ.waits e' → φ.waits (e + e') := by
      exact fun _ _ _ _ _ => trivial) :
    Does C h (Promise.gather C.queue bundle (ps.map .promise)) fun p T' h' d =>
      d = 0 ∧ Future C p φ (T + T') h' := by
  refine does_newPromise fun target htarget => does_newGather fun g hg => ?_
  have hne : Part.gather g ≠ .promise target := by simp
  rw [Heap.set_of_ne hne] at hg
  simp only [List.length_map, List.isEmpty_map]
  change Does C _ ((Promise.gatherFrom C.queue bundle target g 0 (ps.map .promise) _).bind _) _
  refine Does.bind ?_
  refine (((hf.does_gatherFrom hφ 0 _).beside htarget (C.pending [])).beside
    (x := .gather g) (by rw [Heap.set_of_ne hne]; exact hg) (.gather (.ofSize ps.length))).mono ?_
  rintro full T' _ d ⟨_, rfl, hg', h₁, rfl, htarget', rfl, rfl, slots, hl, hi, hv, hprospect, hT, hwithin, ha⟩
  rw [Heap.set_of_ne hne] at hg'
  cases ps with
  | nil =>
    cases hf
    obtain rfl : slots = [] := by simpa using hi
    refine does_settle (by rw [Heap.set_of_ne hne.symm]; exact Heap.set_self _ _ _) fun _ => ?_
    refine does_pure ⟨by simp, .inl ⟨.ok (bundle []), Heap.set_self _ _ _, ?_, hp [] 0 .nil⟩⟩
    have hT' : (0 : Multiset (Job V W)) = 0 + T' := hT
    simpa using hT'.symm
  | cons p ps =>
    have hlen : slots.length = ps.length + 1 := by
      have := congrArg List.length hi
      simpa using this
    have hslots : Seats g slots (h₁.set (.gather g) (.gather (.ofSize (ps.length + 1)))) := by
      rw [← hlen]
      refine .start ?_ hv hwithin hg' ha
      rw [hi, hlen, List.range_eq_range']
      rfl
    refine does_pure ⟨by simp, .inr ⟨h₁.set (.gather g) (.gather (.ofSize (ps.length + 1))),
      Heap.set_comm hne.symm _ _ _, ?_⟩⟩
    rw [add_zero, ← hT]
    refine Seats.Filling.live ?_ hl
    exact {
      seats := hslots
      vacant := by
        obtain ⟨s, hs⟩ := List.exists_mem_of_length_pos (l := slots) (by omega)
        exact ⟨s, hs, hv s hs⟩
      target := by
        rw [Heap.set_of_ne hne.symm]
        exact htarget'
      settles := fun vs e htogether => by
        have hpost : slots.map Seat.post = φs.map okPost := by
          have hsettles := congrArg (List.map Prospect.settles) hprospect
          rw [List.map_map, List.map_map] at hsettles
          exact hsettles
        rw [hpost] at htogether
        exact hp vs e htogether
      waits := fun s hs e e' hwaits => by
        have hmem : s.prospect ∈ φs.map Prospect.ofOk := hprospect ▸ List.mem_map_of_mem hs
        obtain ⟨ψ, hψ, hs'⟩ := List.mem_map.mp hmem
        exact hw ψ hψ e e' (by rw [← hs'] at hwaits; exact hwaits) }

end

end EntityQuery
