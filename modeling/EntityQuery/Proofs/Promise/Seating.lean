import EntityQuery.Proofs.Promise.Attendance

/-!
# Where the items of a list are

Each item of a list that is being gathered has a supplier: a value at hand, or a promise. An item with
a promise is at one place at a time: with the reactions to its promise, in the queue of that promise, or
among those that have come in.

* `Supplier`, `Supplier.Gives`. `Ledger.Seats`: each item is at one place.
* **`Seating`**: the invariant. What has come in has been given by its supplier and is in the slots.
* One lemma for each request: `Seating.append`, `Seating.settle`, `Seating.subscribe`, **`Seating.seat`**
  (the list gets one more supplier), **`Seating.arrive`** (an item comes in).
-/

namespace EntityQuery

variable {V W : Type}

/-- What a slot of a list gets its value from: a value at hand, or a promise. -/
inductive Supplier (V : Type)
  | value (v : V)
  | promise (p : Promise)

/-- An outcome that is the value at hand, or the outcome of the promise. -/
def Supplier.Gives (m : Machine V W) : Supplier V → Outcome V → Prop
  | value v, o => o = .ok v
  | promise p, o => m.outcome? p = some o

/-- An entry of a list with one more at its end. -/
theorem getElem?_snoc_eq_some {α : Type*} {l : List α} {a b : α} {i : Nat}
    (h : (l ++ [a])[i]? = some b) : l[i]? = some b ∨ i = l.length ∧ a = b := by
  rw [List.getElem?_append] at h
  split at h
  · exact .inl h
  · rename_i hi
    obtain ⟨hlt, hb⟩ := List.getElem?_eq_some_iff.mp h
    rw [List.length_singleton] at hlt
    exact .inr ⟨by omega, by simpa using hb⟩

/-! ## The places of the items -/

/-- Each item with a promise has come in or waits, at one place: with the reactions to its promise, or
in the queue of that promise. -/
structure Ledger.Seats (T : Ledger) (g : GatherId) (ps : List (Supplier V))
    (home : Promise → QueueId) (l : Arrivals V) : Prop where
  sole : ∀ i, T.Sole (.slot g i)
  away : ∀ i o, (i, o) ∈ l → ∀ x, some (.slot g i) ∉ T x
  waits : ∀ (i : Nat) p, ps[i]? = some (Supplier.promise p) → (∃ o, (i, o) ∈ l) ∨
    some (.slot g i) ∈ T (.promise p) ∨ some (.slot g i) ∈ T (.queue (home p))

namespace Ledger.Seats

variable {T : Ledger} {g : GatherId} {ps : List (Supplier V)} {home : Promise → QueueId}
  {l : Arrivals V}

theorem congr_home (h : T.Seats g ps home l) {home' : Promise → QueueId}
    (hhome : ∀ (i : Nat) p, ps[i]? = some (Supplier.promise p) → home' p = home p) : T.Seats g ps home' l where
  sole := h.sole
  away := h.away
  waits i p hp := by
    rw [hhome i p hp]
    exact h.waits i p hp

/-- Another task or reaction. -/
theorem push (h : T.Seats g ps home l) (x : Place) : (T.push x none).Seats g ps home l where
  sole i := (h.sole i).push x nofun
  away i o ho y hy := by
    rcases mem_push.mp hy with hy | ⟨-, hy⟩
    · exact h.away i o ho y hy
    · cases hy
  waits i p hp := (h.waits i p hp).imp_right <|
    Or.imp (fun hmem => mem_push.mpr (.inl hmem)) fun hmem => mem_push.mpr (.inl hmem)

/-- An item gets a promise, and waits with it or in its queue. -/
theorem seat (h : T.Seats g ps home l) {p : Promise} {x : Place}
    (hx : x = .promise p ∨ x = .queue (home p)) (hnew : ∀ y, some (.slot g ps.length) ∉ T y)
    (hl : ∀ o, (ps.length, o) ∉ l) :
    (T.push x (some (.slot g ps.length))).Seats g (ps ++ [.promise p]) home l where
  sole i := (h.sole i).push x fun he y => by
    obtain rfl : ps.length = i := (Duty.slot.inj (Option.some.inj he)).2
    exact hnew y
  away i o ho y hy := by
    rcases mem_push.mp hy with hy | ⟨-, he⟩
    · exact h.away i o ho y hy
    · obtain rfl : i = ps.length := (Duty.slot.inj (Option.some.inj he)).2
      exact hl o ho
  waits i p' hp' := by
    rcases getElem?_snoc_eq_some hp' with hp' | ⟨rfl, he⟩
    · exact (h.waits i p' hp').imp_right <|
        Or.imp (fun hmem => mem_push.mpr (.inl hmem)) fun hmem => mem_push.mpr (.inl hmem)
    · obtain rfl := Supplier.promise.inj he
      rcases hx with rfl | rfl
      · exact .inr (.inl (mem_push.mpr (.inr ⟨rfl, rfl⟩)))
      · exact .inr (.inr (mem_push.mpr (.inr ⟨rfl, rfl⟩)))

/-- A promise settles: the items that wait for it go to its queue. -/
theorem move (h : T.Seats g ps home l) (p : Promise) :
    (T.move (.promise p) (.queue (home p))).Seats g ps home l where
  sole i := (h.sole i).move (by simp)
  away i o ho y hy := by
    rcases (mem_move (by simp)).mp hy with ⟨-, hy⟩ | ⟨-, hy⟩
    · exact h.away i o ho y hy
    · exact h.away i o ho _ hy
  waits i p' hp' := by
    rcases h.waits i p' hp' with ho | hmem | hmem
    · exact .inl ho
    · by_cases hpp : p' = p
      · subst hpp
        exact .inr (.inr ((mem_move (by simp)).mpr (.inr ⟨rfl, hmem⟩)))
      · exact .inr (.inl ((mem_move (by simp)).mpr (.inl ⟨by simpa using hpp, hmem⟩)))
    · exact .inr (.inr ((mem_move (by simp)).mpr (.inl ⟨by simp, hmem⟩)))

/-- Reactions that are no items are dropped. -/
theorem drop (h : T.Seats g ps home l) {x : Place} (hx : ∀ i, some (.slot g i) ∉ T x) :
    Seats (Function.update T x []) g ps home l where
  sole i := by
    obtain ⟨y, hy⟩ := h.sole i
    refine ⟨y, fun z => ?_⟩
    by_cases hz : z = x
    · subst hz
      rw [← hy z, List.count_eq_zero.mpr (hx i)]
      simp
    · simp [hz, hy]
  away i o ho y hy := by
    by_cases hyx : y = x
    · subst hyx
      simp at hy
    · exact h.away i o ho y (by simpa [hyx] using hy)
  waits i p hp := by
    have hkeep : ∀ y, some (.slot g i) ∈ T y → some (.slot g i) ∈ Function.update T x [] y := by
      intro y hy
      have hne : y ≠ x := by
        rintro rfl
        exact hx i hy
      simpa [hne] using hy
    exact (h.waits i p hp).imp_right (Or.imp (hkeep _) (hkeep _))

/-- A task leaves its queue, and the item that it is about has come in. -/
theorem pop (h : T.Seats g ps home l) {x : Place} {t : Option Duty} {ts : List (Option Duty)}
    (hx : T x = t :: ts) {l' : Arrivals V} (hl : ∀ a ∈ l, a ∈ l')
    (hl' : ∀ a ∈ l', a ∈ l ∨ t = some (.slot g a.1))
    (ht : ∀ i, t = some (.slot g i) → ∃ o, (i, o) ∈ l') :
    Seats (Function.update T x ts) g ps home l' where
  sole i := ((h.sole i).pop hx).1
  away i o ho y hy := by
    rcases hl' _ ho with ho | he
    · refine h.away i o ho y ?_
      by_cases hyx : y = x
      · subst hyx
        rw [hx]
        exact List.mem_cons_of_mem _ (by simpa using hy)
      · simpa [hyx] using hy
    · exact ((h.sole i).pop hx).2 he y hy
  waits i p hp := by
    by_cases he : t = some (.slot g i)
    · exact .inl (ht i he)
    have hkeep : ∀ y, some (.slot g i) ∈ T y → some (.slot g i) ∈ Function.update T x ts y := by
      intro y hy
      by_cases hyx : y = x
      · subst hyx
        rw [hx] at hy
        simpa using (List.mem_cons.mp hy).resolve_left (Ne.symm he)
      · simpa [hyx] using hy
    rcases h.waits i p hp with ⟨o, ho⟩ | hmem | hmem
    · exact .inl ⟨o, hl _ ho⟩
    · exact .inr (.inl (hkeep _ hmem))
    · exact .inr (.inr (hkeep _ hmem))

end Ledger.Seats

/-! ## Tasks and reactions in their places -/

variable {L : Roll V W} {ps : List (Supplier V)}

variable (L ps) in
/-- A promise that gathering has made to stand for an item. -/
structure Roll.Stands (i : Nat) (item : Thenable V W) (p : Promise) : Prop where
  item : L.items[i]? = some item
  supplier : ps[i]? = some (.promise p)
  made : p ∈ L.made
  ne : p ≠ L.target

variable (L ps) in
/-- A task of a queue settles a promise that stands for an item, an item comes in with what its promise
has settled with, or it is another task. -/
def Arriving.Fits (m : Machine V W) (q : QueueId) : Arriving V W → Prop
  | other j => L.Spared j.steps
  | follow p source => ∃ i, L.Stands ps i (.promise source) p
  | work i p steps => L.Stands ps i (.deferred steps) p ∧ L.Spared steps
  | item i o => ∃ p, ps[i]? = some (Supplier.promise p) ∧ m.home p = q ∧ m.outcome? p = some o

variable (L ps) in
/-- A reaction to a promise is another one, or the promise is that of an item. -/
def Awaiting.Fits (p : Promise) : Awaiting V W → Prop
  | other r => ∀ o, L.Spared (r o).steps
  | item i => ps[i]? = some (Supplier.promise p)

namespace Sheet

variable (S : Sheet L.attendance)

theorem slot_mem_queue {q : QueueId} {i : Nat} :
    some (.slot L.slots i) ∈ S.ledger (.queue q) ↔ ∃ o, .item i o ∈ S.tasks q := by
  constructor
  · intro h
    obtain ⟨t, ht, hd⟩ := List.mem_map.mp h
    cases t with
    | other | follow | work => cases hd
    | item j o =>
      obtain rfl : j = i := (Duty.slot.inj (Option.some.inj hd)).2
      exact ⟨o, ht⟩
  · rintro ⟨o, ho⟩
    exact List.mem_map.mpr ⟨_, ho, rfl⟩

theorem slot_mem_promise {p : Promise} {i : Nat} :
    some (.slot L.slots i) ∈ S.ledger (.promise p) ↔ .item i ∈ S.reactions p := by
  constructor
  · intro h
    obtain ⟨r, hr, hd⟩ := List.mem_map.mp h
    cases r with
    | other r => cases hd
    | item j =>
      obtain rfl : j = i := (Duty.slot.inj (Option.some.inj hd)).2
      exact hr
  · intro h
    exact List.mem_map.mpr ⟨_, h, rfl⟩

end Sheet

/-- What a machine comes to: outcomes and homes of promises stay as they are. -/
structure Machine.Later (m m' : Machine V W) : Prop where
  cells : m.cells.size ≤ m'.cells.size
  queues : m.queues.size ≤ m'.queues.size
  outcome : ∀ p o, m.outcome? p = some o → m'.outcome? p = some o
  home : ∀ p, p.index < m.cells.size → m'.home p = m.home p

theorem Machine.Later.trans {m m₁ m₂ : Machine V W} (h : m.Later m₁) (h' : m₁.Later m₂) :
    m.Later m₂ where
  cells := h.cells.trans h'.cells
  queues := h.queues.trans h'.queues
  outcome p o ho := h'.outcome p o (h.outcome p o ho)
  home p hp := (h'.home p (hp.trans_le h.cells)).trans (h.home p hp)

theorem Supplier.Gives.later {m m' : Machine V W} (hm : m.Later m') {x : Supplier V}
    {o : Outcome V} (h : x.Gives m o) : x.Gives m' o := by
  cases x with
  | value v => exact h
  | promise p => exact hm.outcome p o h

/-! ## The invariant -/

/-- **The items of a list that is being gathered**: the suppliers that it has so far, the tasks and
reactions that wait for them, and what has come in of the list. -/
structure Seating (ps : List (Supplier V)) (S : Sheet L.attendance)
    (m : Machine V W) (l : Arrivals V) : Prop where
  known : ∀ (i : Nat) p, ps[i]? = some (Supplier.promise p) →
    p.index < m.cells.size ∧ (m.home p).index < m.queues.size
  tasks : ∀ q, ∀ t ∈ S.tasks q, t.Fits L ps m q
  reactions : ∀ p, ∀ r ∈ S.reactions p, r.Fits L ps p
  seats : S.ledger.Seats L.slots ps m.home l
  once : l.Once L.items.length
  given : ∀ i o, (i, o) ∈ l → ∃ x, ps[i]? = some x ∧ x.Gives m o
  values : ∀ (i : Nat) v, ps[i]? = some (Supplier.value v) → (i, .ok v) ∈ l

namespace Seating

variable {S S' : Sheet L.attendance}
  {m m' : Machine V W} {l : Arrivals V}

theorem lt_of_mem (h : Seating ps S m l) {i : Nat} {o : Outcome V} (ho : (i, o) ∈ l) :
    i < ps.length := by
  obtain ⟨x, hx, -⟩ := h.given i o ho
  exact (List.getElem?_eq_some_iff.mp hx).1

/-- What waits belongs to an item of the list. -/
theorem not_mem_ledger (h : Seating ps S m l) (x : Place) :
    some (.slot L.slots ps.length) ∉ S.ledger x := by
  have hnone : ∀ p, ps[ps.length]? ≠ some (Supplier.promise p) := by simp
  cases x with
  | queue q =>
    intro hmem
    obtain ⟨o, ho⟩ := S.slot_mem_queue.mp hmem
    obtain ⟨p, hp, -⟩ := h.tasks q _ ho
    exact hnone p hp
  | promise p => exact fun hmem => hnone p (h.reactions p _ (S.slot_mem_promise.mp hmem))

/-- The machine goes on, and the tasks and reactions stay as they are. -/
theorem later (h : Seating ps S m l) (hm : m.Later m') : Seating ps S m' l where
  known i p hp := by
    obtain ⟨hlt, hq⟩ := h.known i p hp
    exact ⟨hlt.trans_le hm.cells, hm.home p hlt ▸ hq.trans_le hm.queues⟩
  tasks q t ht := by
    have hfits := h.tasks q t ht
    cases t with
    | other | follow | work => exact hfits
    | item i o =>
      obtain ⟨p, hp, hhome, ho⟩ := hfits
      exact ⟨p, hp, (hm.home p (h.known i p hp).1).trans hhome, hm.outcome p o ho⟩
  reactions := h.reactions
  seats := h.seats.congr_home fun i p hp => hm.home p (h.known i p hp).1
  once := h.once
  given i o ho := by
    obtain ⟨x, hx, hgives⟩ := h.given i o ho
    exact ⟨x, hx, hgives.later hm⟩
  values := h.values

/-! ## Tasks and reactions -/

/-- Other tasks and reactions, with the items in their places. -/
theorem change (h : Seating ps S m l)
    (htasks : ∀ q, ∀ t ∈ S'.tasks q, t ∈ S.tasks q ∨ t.Fits L ps m q)
    (hreactions : ∀ p, ∀ r ∈ S'.reactions p, r ∈ S.reactions p ∨ r.Fits L ps p)
    (hseats : S'.ledger.Seats L.slots ps m.home l) : Seating ps S' m l :=
  { h with
    tasks := fun q t ht => (htasks q t ht).elim (h.tasks q t) id
    reactions := fun p r hr => (hreactions p r hr).elim (h.reactions p r) id
    seats := hseats }

/-- Another task at the end of a queue. -/
theorem append (h : Seating ps S m l) {t : Arriving V W} (hduty : t.duty? L = none) {q : QueueId}
    (ht : t.Fits L ps m q) : Seating ps (S.append q [t]) m l := by
  refine h.change (fun q' t' ht' => ?_) (fun _ _ => .inl) ?_
  · rcases S.mem_tasks_append.mp ht' with hmem | ⟨rfl, hmem⟩
    · exact .inl hmem
    · obtain rfl := List.mem_singleton.mp hmem
      exact .inr ht
  · rw [S.ledger_append, hduty]
    exact h.seats.push _

/-- Another reaction to a promise. -/
theorem react (h : Seating ps S m l) {r : Outcome V → Job V W}
    (hr : ∀ o, L.Spared (r o).steps) (p : Promise) :
    Seating ps (S.react p (.other r)) m l := by
  refine h.change (fun _ _ => .inl) (fun p' r' hr' => ?_) ?_
  · rcases S.mem_reactions_react.mp hr' with hr' | ⟨-, rfl⟩
    · exact .inl hr'
    · exact .inr hr
  · rw [S.ledger_react]
    exact h.seats.push _

/-- **A promise has settled**: the reactions to it come to tasks in its queue. -/
theorem release (h : Seating ps S m l) {p : Promise} {o : Outcome V}
    (ho : m.outcome? p = some o) : Seating ps (S.release p (m.home p) o) m l := by
  refine h.change (fun q t ht => ?_) (fun p' r hr => .inl (S.mem_reactions_drop.mp hr).2) ?_
  · rcases S.mem_tasks_append.mp ht with hmem | ⟨rfl, hmem⟩
    · exact .inl hmem
    · obtain ⟨r, hr, rfl⟩ := List.mem_map.mp hmem
      have hfits := h.reactions p r hr
      cases r with
      | other r => exact .inr (hfits o)
      | item i => exact .inr ⟨p, hfits, rfl, ho⟩
  · rw [S.ledger_release]
    exact h.seats.move p

/-- A promise has settled whose queue does not exist: it is not the promise of an item. -/
theorem drop (h : Seating ps S m l) {p : Promise} (hq : ¬(m.home p).index < m.queues.size) :
    Seating ps (S.drop p) m l := by
  refine h.change (fun _ _ => .inl) (fun p' r hr => .inl (S.mem_reactions_drop.mp hr).2) ?_
  rw [S.ledger_drop]
  refine h.seats.drop fun i hmem => hq ?_
  exact (h.known i p (h.reactions p _ (S.slot_mem_promise.mp hmem))).2

/-- Another task starts. -/
theorem rest (h : Seating ps S m l) {q : QueueId} {t : Arriving V W} {ts : List (Arriving V W)}
    (hq : S.tasks q = t :: ts) (hduty : t.duty? L = none) : Seating ps (S.rest q ts) m l := by
  refine h.change (fun q' t ht => .inl (S.mem_tasks_rest hq ht)) (fun _ _ => .inl) ?_
  have hledger : S.ledger (.queue q) = none :: ts.map (Arriving.duty? L) := by
    rw [← hduty]
    exact congrArg (List.map (Arriving.duty? L)) hq
  rw [S.ledger_rest]
  exact h.seats.pop hledger (fun _ ha => ha) (fun _ ha => .inl ha) nofun

/-! ## Items -/

/-- **An item comes in** that has not come in before. -/
theorem arrive (h : Seating ps S m l) (hn : ps.length ≤ L.items.length) {q : QueueId} {i : Nat}
    {o : Outcome V} {ts : List (Arriving V W)} (hq : S.tasks q = .item i o :: ts) :
    (i < L.items.length ∧ ∀ o, (i, o) ∉ l) ∧ Seating ps (S.rest q ts) m (l ++ [(i, o)]) := by
  have hledger : S.ledger (.queue q) = some (.slot L.slots i) :: ts.map (Arriving.duty? L) :=
    congrArg (List.map (Arriving.duty? L)) hq
  obtain ⟨p, hp, -, ho⟩ := h.tasks q (.item i o) (hq ▸ List.mem_cons_self)
  have hi : i < L.items.length := (List.getElem?_eq_some_iff.mp hp).1.trans_le hn
  have hnew : ∀ o', (i, o') ∉ l := fun o' ho' =>
    h.seats.away i o' ho' (.queue q) (hledger ▸ List.mem_cons_self)
  refine ⟨⟨hi, hnew⟩, ?_⟩
  exact {
    known := h.known
    tasks := fun q' t ht => h.tasks q' t (S.mem_tasks_rest hq ht)
    reactions := h.reactions
    seats := by
      rw [S.ledger_rest]
      refine h.seats.pop hledger (fun a ha => List.mem_append_left _ ha) (fun a ha => ?_)
        fun j hj => ?_
      · rcases List.mem_append.mp ha with ha | ha
        · exact .inl ha
        · obtain rfl := List.mem_singleton.mp ha
          exact .inr rfl
      · obtain rfl := (Duty.slot.inj (Option.some.inj hj)).2
        exact ⟨o, by simp⟩
    once := h.once.snoc hi hnew
    given := fun j o' ho' => by
      rcases List.mem_append.mp ho' with ho' | ho'
      · exact h.given j o' ho'
      · obtain ⟨rfl, rfl⟩ := Prod.mk.inj (List.mem_singleton.mp ho')
        exact ⟨.promise p, hp, ho⟩
    values := fun j v hv => List.mem_append_left _ (h.values j v hv) }

/-- The suppliers so far, in a longer list. -/
theorem fits_snoc (h : Seating ps S m l) (x : Supplier V) :
    (∀ q, ∀ t ∈ S.tasks q, t.Fits L (ps ++ [x]) m q) ∧
      (∀ p, ∀ r ∈ S.reactions p, r.Fits L (ps ++ [x]) p) ∧
        ∀ i o, (i, o) ∈ l → ∃ y, (ps ++ [x])[i]? = some y ∧ y.Gives m o := by
  have hsnoc : ∀ {i : Nat} {y : Supplier V}, ps[i]? = some y → (ps ++ [x])[i]? = some y :=
    fun hy => by
      rw [List.getElem?_append_left (List.getElem?_eq_some_iff.mp hy).1]
      exact hy
  refine ⟨fun q t ht => ?_, fun p r hr => ?_, fun i o ho => ?_⟩
  · have hfits := h.tasks q t ht
    cases t with
    | other j => exact hfits
    | follow p source =>
      obtain ⟨i, hstands⟩ := hfits
      exact ⟨i, { hstands with supplier := hsnoc hstands.supplier }⟩
    | work i p steps =>
      obtain ⟨hstands, hspared⟩ := hfits
      exact ⟨{ hstands with supplier := hsnoc hstands.supplier }, hspared⟩
    | item i o =>
      obtain ⟨p, hp, hrest⟩ := hfits
      exact ⟨p, hsnoc hp, hrest⟩
  · have hfits := h.reactions p r hr
    cases r with
    | other r => exact hfits
    | item i => exact hsnoc hfits
  · obtain ⟨y, hy, hgives⟩ := h.given i o ho
    exact ⟨y, hsnoc hy, hgives⟩

/-- **The list gets a value at hand**, which comes in at once. -/
theorem value (h : Seating ps S m l) (hn : ps.length < L.items.length) (v : V) :
    (∀ o, (ps.length, o) ∉ l) ∧
      Seating (ps ++ [.value v]) S m (l ++ [(ps.length, .ok v)]) := by
  have hnew : ∀ o, (ps.length, o) ∉ l := fun o ho => absurd (h.lt_of_mem ho) (Nat.lt_irrefl _)
  have hps : ∀ (i : Nat) p, (ps ++ [Supplier.value v])[i]? = some (Supplier.promise p) →
      ps[i]? = some (Supplier.promise p) := fun i p hp => by
    rcases getElem?_snoc_eq_some hp with hp | ⟨-, he⟩
    · exact hp
    · cases he
  obtain ⟨htasks, hreactions, hgiven⟩ := h.fits_snoc (.value v)
  refine ⟨hnew, ?_⟩
  exact {
    known := fun i p hp => h.known i p (hps i p hp)
    tasks := htasks
    reactions := hreactions
    seats := {
      sole := h.seats.sole
      away := fun i o ho x hx => by
        rcases List.mem_append.mp ho with ho | ho
        · exact h.seats.away i o ho x hx
        · obtain ⟨rfl, -⟩ := Prod.mk.inj (List.mem_singleton.mp ho)
          exact h.not_mem_ledger x hx
      waits := fun i p hp => (h.seats.waits i p (hps i p hp)).imp_left fun ⟨o, ho⟩ =>
        ⟨o, List.mem_append_left _ ho⟩ }
    once := h.once.snoc hn hnew
    given := fun i o ho => by
      rcases List.mem_append.mp ho with ho | ho
      · exact hgiven i o ho
      · obtain ⟨rfl, rfl⟩ := Prod.mk.inj (List.mem_singleton.mp ho)
        exact ⟨.value v, by simp, rfl⟩
    values := fun i w hw => by
      rcases getElem?_snoc_eq_some hw with hw | ⟨rfl, he⟩
      · exact List.mem_append_left _ (h.values i w hw)
      · cases he
        simp }

/-- **The list gets a promise**, and an item that waits for it. -/
theorem promise (h : Seating ps S m l) {p : Promise}
    (hp : p.index < m.cells.size ∧ (m.home p).index < m.queues.size)
    (htasks : ∀ q, ∀ t ∈ S'.tasks q, t ∈ S.tasks q ∨
      ∃ o, t = .item ps.length o ∧ m.home p = q ∧ m.outcome? p = some o)
    (hreactions : ∀ p', ∀ r ∈ S'.reactions p', r ∈ S.reactions p' ∨
      r = .item ps.length ∧ p' = p)
    {x : Place} (hx : x = .promise p ∨ x = .queue (m.home p))
    (hledger : S'.ledger = S.ledger.push x (some (.slot L.slots ps.length))) :
    Seating (ps ++ [.promise p]) S' m l := by
  obtain ⟨htasks', hreactions', hgiven⟩ := h.fits_snoc (.promise p)
  have hlast : (ps ++ [Supplier.promise p])[ps.length]? = some (Supplier.promise p) := by simp
  exact {
    known := fun i p' hp' => by
      rcases getElem?_snoc_eq_some hp' with hp' | ⟨-, he⟩
      · exact h.known i p' hp'
      · obtain rfl := Supplier.promise.inj he
        exact hp
    tasks := fun q t ht => by
      rcases htasks q t ht with ht | ⟨o, rfl, hq, ho⟩
      · exact htasks' q t ht
      · exact ⟨p, hlast, hq, ho⟩
    reactions := fun p' r hr => by
      rcases hreactions p' r hr with hr | ⟨rfl, rfl⟩
      · exact hreactions' p' r hr
      · exact hlast
    seats := hledger ▸ h.seats.seat hx h.not_mem_ledger fun o ho =>
      absurd (h.lt_of_mem ho) (Nat.lt_irrefl _)
    once := h.once
    given := hgiven
    values := fun i v hv => by
      rcases getElem?_snoc_eq_some hv with hv | ⟨-, he⟩
      · exact h.values i v hv
      · cases he }

end Seating

end EntityQuery
