import EntityQuery.Proofs.Promise.Pledges

/-!
# Promises that are made for something

What can be done with promises keeps their pledges: a promise that follows another one, or what a callback
makes of that, is made for what is known of the values that it may settle with.

* `Stage.Promises`: what is known of the values of a promise. `Thenable.Honours`: of a thenable.
* **`honours_thenOrElse`**, **`honours_andThen`**, **`honours_adopt`** and others: the callbacks may rely on
  what is known of the promise that they are given the outcome of.
-/

namespace EntityQuery

variable {V W α β : Type} [Preorder W] {I : W → Prop}

/-- Whenever the promise is seen to have settled with a value, that says of the world what `T` does. -/
def Stage.Promises (g : Stage V W) (p : Promise) (T : V → UpperSet W) : Prop :=
  ∀ w v, g.Meets p w (.ok v) → w ∈ T v

/-- What the thenable comes to, if that is a value, says of the world what `T` does. -/
def Thenable.Honours (I : W → Prop) (g : Stage V W) (T : V → UpperSet W) : Thenable V W → Prop
  | .value v => g.world ∈ T v
  | .deferred compute => ∀ g', g ≤ g' →
      compute.Honours I g' fun g'' o => g''.world ∈ Pledge.ofValues T o
  | .promise p => g.Promises p T

section

variable {g g' : Stage V W} {p : Promise} {q : QueueId} {T : V → UpperSet W} {th : Thenable V W}

theorem Stage.Pledged.promises (h : g.Pledged p (Pledge.ofValues T)) : g.Promises p T :=
  fun _ _ hmeets => hmeets _ h

theorem Stage.Promises.mono (h : g.Promises p T) (hle : g ≤ g') : g'.Promises p T :=
  fun w v hmeets => h w v (hmeets.earlier hle)

/-- Nothing is known of what any value says. -/
theorem Stage.promises_bot (g : Stage V W) (p : Promise) : g.Promises p ⊥ :=
  fun _ _ _ => UpperSet.mem_bot

theorem Thenable.Honours.later (h : th.Honours I g T) (hle : g ≤ g') : th.Honours I g' T := by
  cases th with
  | value v => exact (T v).upper hle.2 h
  | deferred compute => exact fun g'' hle' => h g'' (hle.trans hle')
  | promise p => exact Stage.Promises.mono h hle

/-! ## Settling -/

theorem honours_ignore {s : Work V W α} {Q : Stage V W → α → Prop} (hs : s.Honours I g Q) :
    (Promise.ignore s).Honours I g fun _ _ => True :=
  hs.bind fun _ _ _ _ => .pure trivial

theorem honours_settle {o : Outcome V} (ho : g.Meets p g.world o) :
    (p.settle o : Work V W Bool).Honours I g fun _ _ => True :=
  .settle ho fun _ => .pure trivial

/-- A promise that was made for `T` is settled with what says so. -/
theorem honours_settleJob {o : Outcome V} (hp : g.Pledged p (Pledge.ofValues T))
    (ho : g.world ∈ Pledge.ofValues T o) :
    (Promise.ignore (p.settle o) : Work V W Unit).Honours I g fun _ _ => True :=
  honours_ignore (honours_settle (hp.meets ho))

theorem honours_settled {o : Outcome V} (ho : g.world ∈ Pledge.ofValues T o) :
    (Promise.settled q o : Work V W Promise).Honours I g fun g' p => g'.Promises p T :=
  .newPromise (Pledge.ofValues T) fun _ _ hle hp =>
    .settle (hp.meets ((Pledge.ofValues T o).upper hle.2 ho)) fun _ => .pure hp.promises

theorem honours_settleFrom (hp : g.Pledged p (Pledge.ofValues T)) (h : th.Honours I g T) :
    (p.settleFrom th).Honours I g fun _ _ => True := by
  cases th with
  | value v => exact honours_settleJob hp h
  | deferred compute =>
    refine .home fun q => .enqueue (fun g' hle => ?_) (.pure trivial)
    exact Steps.Honours.bind (h g' hle) fun g'' o hle' ho => honours_settleJob (hp.mono (hle.trans hle')) ho
  | promise source =>
    refine .subscribe (fun g' o hle ho => honours_settleJob (hp.mono hle) ?_) (.pure trivial)
    cases o with
    | ok v => exact h g'.world v ho
    | error f => exact Pledge.mem_ofValues_error

/-! ## Callbacks -/

theorem honours_thenOrElse {onValue : V → Work V W (Outcome V)}
    {onFailure : Failure → Work V W (Outcome V)}
    (hv : ∀ g' v, g ≤ g' → g.Meets p g'.world (.ok v) →
      (onValue v).Honours I g' fun g'' o => g''.world ∈ Pledge.ofValues T o)
    (hf : ∀ g' f, g ≤ g' → (onFailure f).Honours I g' fun g'' o => g''.world ∈ Pledge.ofValues T o) :
    (p.thenOrElse onValue onFailure).Honours I g fun g' target => g'.Promises target T := by
  refine .home fun q => .newPromise (Pledge.ofValues T) fun target g₁ hle htarget =>
    .subscribe (fun g₂ o hle' ho => ?_) (.pure htarget.promises)
  have settled : ∀ {s : Work V W (Outcome V)},
      (s.Honours I g₂ fun g'' o => g''.world ∈ Pledge.ofValues T o) →
      (s.bind fun o => Promise.ignore (target.settle o)).Honours I g₂ fun _ _ => True := fun hs =>
    hs.bind fun g₃ o hle'' ho => honours_settleJob (htarget.mono (hle'.trans hle'')) ho
  cases o with
  | ok v => exact settled (hv g₂ v (hle.trans hle') (ho.earlier hle))
  | error f => exact settled (hf g₂ f (hle.trans hle'))

theorem honours_map {onValue : V → Work V W (Outcome V)}
    (hv : ∀ g' v, g ≤ g' → g.Meets p g'.world (.ok v) →
      (onValue v).Honours I g' fun g'' o => g''.world ∈ Pledge.ofValues T o) :
    (p.map onValue).Honours I g fun g' target => g'.Promises target T :=
  honours_thenOrElse hv fun _ _ _ => .pure Pledge.mem_ofValues_error

theorem honours_recover {onFailure : Failure → Work V W (Outcome V)} (hp : g.Promises p T)
    (hf : ∀ g' f, g ≤ g' → (onFailure f).Honours I g' fun g'' o => g''.world ∈ Pledge.ofValues T o) :
    (p.recover onFailure).Honours I g fun g' target => g'.Promises target T :=
  honours_thenOrElse (fun g' v _ hmeets => .pure (hp g'.world v hmeets)) hf

theorem honours_andThen {onValue : V → Work V W (Except Failure (Thenable V W))}
    (hv : ∀ g' v, g ≤ g' → g.Meets p g'.world (.ok v) →
      (onValue v).Honours I g' fun g'' r => ∀ th, r = .ok th → th.Honours I g'' T) :
    (p.andThen onValue).Honours I g fun g' target => g'.Promises target T := by
  refine .home fun q => .newPromise (Pledge.ofValues T) fun target g₁ hle htarget =>
    .subscribe (fun g₂ o hle' ho => ?_) (.pure htarget.promises)
  cases o with
  | ok v =>
    refine (hv g₂ v (hle.trans hle') (ho.earlier hle)).bind fun g₃ r hle'' hr => ?_
    cases r with
    | ok th => exact honours_settleFrom (htarget.mono (hle'.trans hle'')) (hr th rfl)
    | error f =>
      exact honours_settleJob (htarget.mono (hle'.trans hle'')) Pledge.mem_ofValues_error
  | error f => exact honours_settleJob (htarget.mono hle') Pledge.mem_ofValues_error

/-! ## Thenables as promises -/

/-- A promise of another queue says what its source does, whenever that has been drained. -/
theorem honours_followForeign {source : Promise} (hp : g.Pledged p (Pledge.ofValues T))
    (hsource : g.Promises source T) :
    (Promise.followForeign p source : Job V W).steps.Honours I g fun _ _ => True := by
  refine .home fun q => .drain fun _ g' hle => .outcome fun o ho => honours_settleJob (hp.mono hle) ?_
  obtain _ | f | v := o
  · exact Pledge.mem_ofValues_error
  · exact Pledge.mem_ofValues_error
  · exact hsource.mono hle g'.world v (ho _ rfl)

theorem honours_adopt (h : th.Honours I g T) :
    (Promise.adopt q th).Honours I g fun g' p => g'.Promises p T := by
  have started : ∀ {th : Thenable V W}, th.Honours I g T →
      Steps.Honours I g (fun g' p => g'.Promises p T)
        (.newPromise q fun p => (p.settleFrom th).bind fun _ => .pure p : Work V W Promise) :=
    fun h => .newPromise (Pledge.ofValues T) fun p g' hle hp =>
      (honours_settleFrom hp (h.later hle)).bind fun g'' _ hle' _ => .pure (hp.mono hle').promises
  cases th with
  | value v => exact started h
  | deferred compute => exact started h
  | promise source =>
    refine .home fun home => ?_
    simp only [Steps.bind]
    split
    · exact .pure h
    · refine .newPromise (Pledge.ofValues T) fun p g₁ hle hp => .enqueue (fun g₂ hle' => ?_)
        (.pure hp.promises)
      exact honours_followForeign (hp.mono hle') (Stage.Promises.mono h (hle.trans hle'))

/-! ## Lists -/

theorem honours_fillSlot {bundle : List V → V} {target : Promise} {i : GatherId} {slot : Nat} {v : V}
    (ht : g.Pledged target (Pledge.ofValues ⊥)) :
    (Promise.fillSlot bundle target i slot v : Work V W Unit).Honours I g fun _ _ => True := by
  refine .fill fun values => ?_
  cases values with
  | none => exact .pure trivial
  | some vs => exact honours_settleJob ht UpperSet.mem_bot

theorem honours_gatherFrom {bundle : List V → V} {target : Promise} {i : GatherId}
    {items : List (Thenable V W)} (ht : g.Pledged target (Pledge.ofValues ⊥))
    (h : ∀ th ∈ items, th.Honours I g ⊥) (slot : Nat) (full : Option (List V)) :
    (Promise.gatherFrom q bundle target i slot items full).Honours I g fun _ _ => True := by
  induction items generalizing g slot full with
  | nil => exact .pure trivial
  | cons th rest ih =>
    obtain ⟨hth, hrest⟩ := List.forall_mem_cons.mp h
    have subscribed : ∀ reaction : Outcome V → Job V W,
        (∀ v, reaction (.ok v) = .mk (Promise.fillSlot bundle target i slot v)) →
        (∀ f, reaction (.error f) = .mk (Promise.ignore (target.settle (.error f)))) →
        Steps.Honours I g (fun _ _ => True) ((Promise.adopt q th).bind fun p =>
          .subscribe p reaction (Promise.gatherFrom q bundle target i (slot + 1) rest full)) := by
      intro reaction hv he
      refine (honours_adopt hth).bind fun g₁ p hle _ => .subscribe (fun g₂ o hle' _ => ?_)
        (ih (ht.mono hle) (fun th hth => (hrest th hth).later hle) _ _)
      cases o with
      | ok v =>
        rw [hv]
        exact honours_fillSlot (ht.mono (hle.trans hle'))
      | error f =>
        rw [he]
        exact honours_settleJob (ht.mono (hle.trans hle')) Pledge.mem_ofValues_error
    cases th with
    | value v => exact .fill fun full => ih ht hrest _ _
    | deferred compute => exact subscribed _ (fun _ => rfl) fun _ => rfl
    | promise source => exact subscribed _ (fun _ => rfl) fun _ => rfl

theorem honours_gather {bundle : List V → V} {items : List (Thenable V W)}
    (h : ∀ th ∈ items, th.Honours I g ⊥) :
    (Promise.gather q bundle items).Honours I g fun _ _ => True := by
  refine .newPromise (Pledge.ofValues ⊥) fun target g₁ hle ht => .newGather fun i =>
    (honours_gatherFrom ht (fun th hth => (h th hth).later hle) 0 _).bind fun g₂ values hle' _ => ?_
  cases values with
  | none => exact .pure trivial
  | some vs => exact .settle ((ht.mono hle').meets UpperSet.mem_bot) fun _ => .pure trivial

theorem honours_wait : (p.wait q : Work V W (Except WaitFault V)).Honours I g fun _ _ => True := by
  refine .drain fun _ g' _ => .outcome fun o _ => ?_
  obtain _ | f | v := o <;> exact .pure trivial

end

end EntityQuery
