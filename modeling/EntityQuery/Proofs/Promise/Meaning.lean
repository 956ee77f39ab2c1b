import EntityQuery.Proofs.Promise.Building
import EntityQuery.Proofs.Promise.Termination

/-!
# Programs of promises come to what they mean

Building a program and waiting for its promise gives an outcome that the program has by direct
evaluation, whatever else is waiting in the queues.

* **`Program.yields_build`**: building a program gives a promise of one of its outcomes.
* `Plans.Underway.run_tame`, **`Plans.Underway.run_serves`**: a task of others leaves plans under way,
  and a task with a duty does what there is to do about it.
* **`Plans.Underway.drains`**: draining a queue leaves plans under way.
* **`Program.wait_build`**: waiting for the promise of a program never stalls.
-/

namespace EntityQuery

variable {V W : Type} {n : Nat} {main : QueueId} {bundle : List V → V} {G G' : Plans V n main}
  {T T' : Ledger} {busy busy' : Set Duty} {m m' : Machine V W}
  {drain : QueueId → Drain → Machine V W → Ended V W Bool} {env : List Promise} {r r' : ℚ}

namespace Program

/-- A shared promise delivers its outcome. -/
theorem delivers_shared {Γ : List QueueId} {q : QueueId} (henv : G.Scoped Γ env r) {i : Nat}
    (hi : Γ[i]? = some q) (hr : r < r') :
    G.Delivers bundle (env.getD i default) q r' fun a o => o = look (env.map a) i := by
  induction henv generalizing i with
  | nil => simp at hi
  | cons hs _ ih =>
    cases i with
    | zero =>
      obtain ⟨plan, hp, hhome, hrank⟩ := hs
      cases hi
      exact ⟨plan, hp, hhome, hrank.trans_lt hr, fun a _ => rfl⟩
    | succ i => exact ih (by simpa using hi)

mutual

/-- **Building a program gives a promise of one of its outcomes**, and leaves plans that see to it. -/
theorem yields_build {Γ : List QueueId} {q : QueueId} {G : Plans V n main} {T : Ledger}
    {busy : Set Duty} {m : Machine V W} {env : List Promise} {r r' : ℚ} :
    ∀ (e : Program V n main Γ q), G.Underway bundle T busy m → q.index < n → G.Scoped Γ env r →
      r < r' → G.Yields bundle busy m drain (e.build bundle env) fun G' _ _ p =>
        G'.Delivers bundle p q r' fun a => e.Means bundle (env.map a)
  | .settled o, h, hq, henv, hr => h.yields_settled o hq hr henv
  | .create hops answer, h, hq, henv, hr => by
    obtain ⟨mid, hlo, hhi⟩ := exists_between hr
    obtain ⟨G', hl, hp, h'⟩ := h.newPromise (.create hops answer) hq hlo henv
    have henv' := hl.toExtends.inScope le_rfl henv
    rw [build, Promise.create_eq]
    refine .step hl rfl ?_
    beta_reduce
    rw [Steps.bind_assoc']
    refine (h'.yields_resolveAfter hp hlo henv' (answer.yields_build h' hq henv' hlo)
      (fun _ _ _ _ ho => ho) hops).bind fun G'' T'' m'' _ hl' h'' _ => ?_
    exact .pure h'' (Plans.delivers_plan (hl'.promise _ _ hp) hhi)
  | .shared i hi, h, _, henv, hr => .pure h (delivers_shared henv hi hr)
  | .adopt item, h, hq, henv, hr => by
    obtain ⟨mid, hlo, hhi⟩ := exists_between hr
    refine (item.yields_build h hq henv hlo).bind fun G' T' m' t hl h' ht => ?_
    exact (h'.yields_adopt hq hlo (hl.toExtends.inScope le_rfl henv) ht hhi).mono
      fun _ _ _ _ _ hd => hd.1
  | .thenOrElse e onValue onFailure, h, hq, henv, hr => by
    obtain ⟨mid, hlo, hhi⟩ := exists_between hr
    refine (e.yields_build h hq henv hlo).bind fun G' T' m' p hl h' hd => ?_
    exact h'.yields_thenOrElse hq hlo (hl.toExtends.inScope le_rfl henv) hd onValue onFailure hhi
  | .andThen e onValue, h, hq, henv, hr => by
    obtain ⟨mid, hlo, hhi⟩ := exists_between hr
    refine (e.yields_build h hq henv hlo).bind fun G' T' m' p hl h' hd => ?_
    exact h'.yields_andThen hq hlo (hl.toExtends.inScope le_rfl henv) hd onValue hhi
  | .all items, h, hq, henv, hr => by
    obtain ⟨mid, hlo, hhi⟩ := exists_between hr
    refine (items.yields_build h hq henv hlo).bind fun G' T' m' ts hl h' hts => ?_
    exact h'.yields_gather hq hlo (hl.toExtends.inScope le_rfl henv) hts hhi
  | .share q' hq' e body, h, hq, henv, hr => by
    obtain ⟨mid, hlo, hhi⟩ := exists_between hr
    refine (e.yields_build h hq' henv hlo).bind fun G' T' m' s hl h' hs => ?_
    have henv' : G'.Scoped (q' :: Γ) (s :: env) mid := by
      obtain ⟨plan, hp, hhome, hrank, -⟩ := hs
      exact .cons ⟨plan, hp, hhome, hrank.le⟩ (hl.toExtends.inScope hlo.le henv)
    refine (body.yields_build h' hq henv' hhi).mono fun G'' _ _ p hl' hd => ?_
    obtain ⟨plan, hp, hhome, hrank, hmeans⟩ := hd
    obtain ⟨-, -, -, -, hshared⟩ := hl'.toExtends.delivers hhi.le hs
    exact ⟨plan, hp, hhome, hrank, fun a hup => ⟨a s, hshared a hup, hmeans a hup⟩⟩

theorem Answer.yields_build {Γ : List QueueId} {q : QueueId} {G : Plans V n main} {T : Ledger}
    {busy : Set Duty} {m : Machine V W} {env : List Promise} {r r' : ℚ} :
    ∀ (t : Answer V n main Γ q), G.Underway bundle T busy m → q.index < n → G.Scoped Γ env r →
      r < r' → G.Yields bundle busy m drain (t.build bundle env) fun G' _ _ answer =>
        G'.Replies bundle q r' (fun a => t.Means bundle (env.map a)) answer
  | .failure _, h, _, _, _ => .pure h fun _ _ => rfl
  | .value _, h, _, _, _ => .pure h fun _ _ => rfl
  | .deferred o, h, _, _, _ => .pure h ⟨o, rfl, fun _ _ => rfl⟩
  | .promise e, h, hq, henv, hr =>
    (e.yields_build h hq henv hr).bind fun _ _ _ _ _ h' hd => .pure h' ⟨q, rfl, hd⟩

theorem Item.yields_build {Γ : List QueueId} {q : QueueId} {G : Plans V n main} {T : Ledger}
    {busy : Set Duty} {m : Machine V W} {env : List Promise} {r r' : ℚ} :
    ∀ (t : Item V n main Γ q), G.Underway bundle T busy m → q.index < n → G.Scoped Γ env r →
      r < r' → G.Yields bundle busy m drain (t.build bundle env) fun G' _ _ thenable =>
        G'.Offers bundle (fun q' => q' = q ∨ q = main) r' (fun a => t.Means bundle (env.map a))
          thenable
  | .value _, h, _, _, _ => .pure h fun _ _ => rfl
  | .deferred o, h, _, _, _ => .pure h ⟨o, rfl, fun _ _ => rfl⟩
  | .promise q' hq' hmain e, h, _, henv, hr =>
    (e.yields_build h hq' henv hr).bind fun _ _ _ _ _ h' hd => .pure h' ⟨q', hmain, hd⟩

theorem Items.yields_build {Γ : List QueueId} {q : QueueId} {G : Plans V n main} {T : Ledger}
    {busy : Set Duty} {m : Machine V W} {env : List Promise} {r r' : ℚ} :
    ∀ (ts : Items V n main Γ q), G.Underway bundle T busy m → q.index < n → G.Scoped Γ env r →
      r < r' → G.Yields bundle busy m drain (ts.build bundle env) fun G' _ _ thenables =>
        List.Forall₂ (fun item t => G'.Offers bundle (fun q' => q' = q ∨ q = main) r'
          (fun a => item.Means bundle (env.map a)) t) ts.toList thenables
  | .nil, h, _, _, _ => .pure h .nil
  | .cons item rest, h, hq, henv, hr => by
    refine (item.yields_build h hq henv hr).bind fun G' T' m' t hl h' ht => ?_
    refine (rest.yields_build h' hq (hl.toExtends.inScope le_rfl henv) hr).bind
      fun G'' T'' m'' ts hl' h'' hts => ?_
    exact .pure h'' (.cons (hl'.toExtends.offers le_rfl ht) hts)

end

end Program

/-! ## Running tasks -/

namespace Plans

variable (G) in
/-- The duties belong to promises of the main queue. -/
def OnMain (busy : Set Duty) : Prop := ∀ d ∈ busy, ∃ plan, G.duty d = some plan ∧ plan.home = main

variable (n main bundle drain) in
/-- What draining a queue does: it leaves plans under way, if what is busy belongs to the main queue,
and it stops early only where its promise is settled. -/
structure Drains : Prop where
  underway : ∀ (G : Plans V n main) T busy m q d ran m', G.Underway bundle T busy m →
    G.OnMain busy → drain q d m = .done ran m' →
      ∃ G' T', G.Later G' m m' ∧ G'.Underway bundle T' busy m'
  ends : ∀ q p m ran m', drain q (.until p) m = .done ran m' →
    m'.outcome? p ≠ none ∨ m'.tasks q = []

theorem OnMain.later (h : G.OnMain busy) (hl : G.Later G' m m') : G'.OnMain busy := fun d hd =>
  let ⟨plan, hp, hhome⟩ := h d hd
  ⟨plan, hl.toExtends.duty hp, hhome⟩

namespace Underway

/-- A promise that is new has no plan. -/
theorem promise_of_ge (h : G.Underway bundle T busy m) {p : Promise} (hp : m.cells.size ≤ p.index) :
    G.promise p = none := by
  by_contra hne
  obtain ⟨plan, hplan⟩ := Option.ne_none_iff_exists'.mp hne
  exact absurd (h.homes p plan hplan).1 (Nat.not_lt.mpr hp)

/-- A list that is new has no plan. -/
theorem list_of_ge (h : G.Underway bundle T busy m) {g : GatherId}
    (hg : m.gathers.size ≤ g.index) : G.list g = none := by
  by_contra hne
  obtain ⟨l, hl⟩ := Option.ne_none_iff_exists'.mp hne
  obtain ⟨c, -, hc, -⟩ := h.lists g l hl
  exact absurd (Array.getElem?_eq_some_iff.mp hc).1 (Nat.not_lt.mpr hg)

/-- **A task of others leaves plans under way.** -/
theorem run_tame {α : Type} {s : Work V W α} {ps : Set Promise} {gs : Set GatherId}
    (hs : s.Tame ps gs) (hdrains : Drains n main bundle drain) (h : G.Underway bundle T busy m)
    (hspares : G.Spares m ps gs) (hmain : G.OnMain busy) :
    G.Yields bundle busy m drain s fun _ _ _ _ => True := by
  induction hs generalizing G T m with
  | pure a => exact .pure h trivial
  | newQueue _ ih =>
    have hl : G.Later G m m.newQueue.2 := later_newQueue
    exact .step hl rfl (ih _ (h.quiet hl (fun _ => rfl) (by simp) (fun _ => rfl) fun _ _ _ => rfl)
      (hl.spares hspares) hmain)
  | @newPromise _ ps gs q _ _ ih =>
    have hl : G.Later G m (m.newPromise q).2 := later_newPromise q
    refine .step hl rfl (ih _ (h.quiet hl (by simp) (by simp) (by simp) fun _ _ _ => rfl) ⟨?_, ?_⟩
      hmain)
    · rintro p (rfl | hp)
      · exact ⟨by simp [Machine.newPromise], h.promise_of_ge le_rfl⟩
      · exact (hl.spares hspares).1 p hp
    · exact (hl.spares hspares).2
  | outcome _ ih => exact .step (.refl G m) rfl (ih _ h hspares hmain)
  | home _ ih => exact .step (.refl G m) rfl (ih _ h hspares hmain)
  | @settle _ _ _ p o _ hp _ ih =>
    obtain ⟨T', h', -⟩ := h.settle (p := p) (o := o) fun plan hplan _ => by
      rw [(hspares.1 p hp).2] at hplan
      cases hplan
    have hl : G.Later G m (m.settle p o).2 := later_settle p o
    exact .step hl rfl (ih _ h' (hl.spares hspares) hmain)
  | @subscribe _ ps gs p r _ hp hr _ _ ih =>
    obtain ⟨T', h', -⟩ := h.subscribe (p := p) (r := r) (t := none)
      (fun o => ⟨ps, gs, hspares, hr o⟩) fun _ _ he => by cases he
    have hl : G.Later G m (m.subscribe p r) := later_subscribe p r
    exact .step hl rfl (ih h' (hl.spares hspares) hmain)
  | @enqueue _ ps gs q t _ ht _ _ ih =>
    have hl : G.Later G m (m.enqueue q t) := later_append q [t]
    by_cases hq : q.index < m.queues.size
    · exact .step hl rfl (ih (h.enqueue hq (t := none) ⟨ps, gs, hspares, ht⟩ fun _ _ he => by
        cases he) (hl.spares hspares) hmain)
    · refine .step (.refl G m) ?_ (ih h hspares hmain)
      rw [Steps.run, Machine.enqueue, Machine.append_of_none (by simpa using hq)]
  | @drain _ _ _ q d next _ ih =>
    refine .drained fun ran m' hdrain => ?_
    obtain ⟨G', T', hl, h'⟩ := hdrains.underway G T busy m q d ran m' h hmain hdrain
    exact ⟨G', hl, ih ran h' (hl.spares hspares) (hmain.later hl)⟩
  | ticks _ ih => exact .step (.refl G m) rfl (ih _ h hspares hmain)
  | @newGather _ ps gs size _ _ ih =>
    have hl : G.Later G m (m.newGather size).2 := later_newGather size
    refine .step hl rfl (ih _ (h.quiet hl (fun _ => rfl) (fun _ => rfl) (fun _ => rfl)
      fun g l hg => ?_) ⟨?_, ?_⟩ hmain)
    · obtain ⟨c, -, hc, -⟩ := h.lists g l hg
      exact Machine.getElem?_gathers_newGather size (Array.getElem?_eq_some_iff.mp hc).1
    · exact (hl.spares hspares).1
    · rintro g (rfl | hg)
      · exact ⟨by simp [Machine.newGather], h.list_of_ge le_rfl⟩
      · exact (hl.spares hspares).2 g hg
  | @fill _ _ gs g i v _ hg _ ih =>
    have hl : G.Later G m (m.fill g i v).2 := later_fill g i v
    refine .step hl rfl (ih _ (h.quiet hl (by simp) (by simp) (by simp) fun g' l hg' => ?_)
      (hl.spares hspares) hmain)
    refine Machine.getElem?_gathers_fill_of_ne i v ?_
    rintro rfl
    rw [(hspares.2 g' hg).2] at hg'
    cases hg'
  | getWorld _ ih => exact .step (.refl G m) rfl (ih _ h hspares hmain)
  | @setWorld _ _ _ w _ _ ih =>
    have hl : G.Later G m { m with world := w } :=
      .of_machine le_rfl le_rfl le_rfl (fun _ _ h => h) fun _ _ => rfl
    exact .step hl rfl (ih (h.quiet hl (fun _ => rfl) (fun _ => rfl) (fun _ => rfl) fun _ _ _ => rfl)
      (hl.spares hspares) hmain)

section Fill

variable {target : Promise} {g : GatherId} {i : Nat} {v : V}

theorem run_fillSlot_of_full {vs : List V} (h : (m.fill g i v).1 = some vs) :
    (Promise.fillSlot bundle target g i v).run drain m =
      (Promise.ignore (target.settle (.ok (bundle vs)))).run drain (m.fill g i v).2 := by
  simp only [Promise.fillSlot, Bind.bind, Steps.bind, Steps.run, h]

theorem run_fillSlot_of_missing (h : (m.fill g i v).1 = none) :
    (Promise.fillSlot bundle target g i v).run drain m = .done () (m.fill g i v).2 := by
  simp only [Promise.fillSlot, Bind.bind, Steps.bind, Steps.run, h]
  rfl

end Fill

/-- **Following a promise of another queue**: once that queue has been drained, it is settled. -/
theorem run_follow {p s : Promise} {plan : Plan V n main} {q : QueueId}
    (hdrains : Drains n main bundle drain)
    (h : G.Underway bundle T (insert (.promise p) busy) m) (hmain : G.OnMain busy)
    (hp : G.promise p = some plan) (hhome : plan.home = main)
    (hs : G.Delivers bundle s q plan.rank (plan.Accepts bundle)) (hq : q ≠ main) :
    G.Yields bundle busy m drain (Promise.followForeign p s).steps fun _ _ _ _ => True := by
  have hbusy : G.OnMain (insert (.promise p) busy) := by
    rintro d (rfl | hd)
    · exact ⟨plan, hp, hhome⟩
    · exact hmain d hd
  obtain ⟨source, hsource, rfl, -, hdeliver⟩ := hs
  refine .step (.refl G m) rfl (.drained fun ran m' hdrain => ?_)
  rw [(h.homes s source hsource).2.1] at hdrain
  obtain ⟨G', T', hl, h'⟩ := hdrains.underway G T _ m _ _ ran m' h hbusy hdrain
  -- The queue that is drained is not the main one, so that none of its duties is busy.
  have hother : ∀ d ∈ insert (.promise p) busy, ∀ plan, G'.duty d = some plan →
      plan.home ≠ source.home := fun d hd plan' hplan' hc => by
    obtain ⟨plan'', hplan'', hhome''⟩ := hbusy.later hl d hd
    obtain rfl := Option.some_inj.mp (hplan'.symm.trans hplan'')
    exact hq (hc.symm.trans hhome'')
  obtain ⟨o, ho⟩ := h'.exists_outcome hother (hl.promise s source hsource) rfl
    (hdrains.ends _ _ _ _ _ hdrain)
  have hrun := congrArg (fun o => (Promise.ignore (p.settle (o.getD
    (.error WaitFault.stalled.failure)))).run drain m') ho
  refine ⟨G', hl, .step (.refl G' m') hrun ?_⟩
  exact h'.yields_settle (hl.promise p plan hp) fun a ha hup =>
    ha s o ho ▸ hdeliver a (hl.toExtends.upholds hup)

/-- **Filling a slot with what an item has come to.** -/
theorem run_fillJob {g : GatherId} {l : ListPlan V} {i : Nat} {S : Fate V → Outcome V → Prop}
    {plan : Plan V n main} {o : Outcome V} (h : G.Underway bundle T (insert (.slot g i) busy) m)
    (hfresh : G.Fresh T m (some (.slot g i))) (hg : G.list g = some l) (hi : l.items[i]? = some S)
    (hp : G.promise l.target = some plan) (ho : Right bundle G m.outcome? plan.rank S o) :
    G.Yields bundle busy m drain (fillJob bundle l.target g i o).steps fun _ _ _ _ => True := by
  cases o with
  | error f =>
    obtain ⟨c, plan', -, hp', hf⟩ := h.lists g l hg
    obtain rfl : plan = plan' := Option.some_inj.mp (hp.symm.trans hp')
    obtain ⟨T', h', -⟩ := (h.mono (Set.subset_insert (.promise l.target) _)).settle_busy hp
      fun a ha hup => hf.failure a S (List.mem_of_getElem? hi) f (ho a ha hup)
    refine .done (later_settle _ _) rfl (h'.discharge_insert fun hpend => ?_) trivial
    obtain ⟨-, l', hg', hnone⟩ := hpend
    obtain rfl : l = l' := Option.some_inj.mp (hg.symm.trans hg')
    exact absurd hnone (Machine.outcome?_settle_ne_none (h.homes _ plan hp).1 _)
  | ok v =>
    obtain ⟨h', hgathered⟩ := h.fill hg hp hi ho hfresh
    cases hvs : (m.fill g i v).1 with
    | some vs =>
      rw [hvs] at hgathered
      exact .step (later_fill g i v) (run_fillSlot_of_full hvs) (h'.yields_settle hp hgathered)
    | none =>
      rw [hvs] at hgathered
      obtain ⟨j, hv⟩ := hgathered
      exact .done (later_fill g i v) (run_fillSlot_of_missing hvs)
        (h'.discharge_insert fun _ => .list hg hv) trivial

/-- **A task with a duty does what there is to do about it.** -/
theorem run_serves {d : Duty} {j : Job V W} (hdrains : Drains n main bundle drain)
    (h : G.Underway bundle T (insert d busy) m) (hj : G.Serves bundle m.outcome? d j)
    (hfresh : G.Fresh T m (some d)) (hmain : G.OnMain busy) :
    G.Yields bundle busy m drain j.steps fun _ _ _ _ => True := by
  cases hj with
  | settle hp ho => exact h.yields_settle hp ho
  | @resolve p plan _ _ _ answer hops hp hr henv ho =>
    exact h.yields_resolveAfter hp hr henv
      (answer.yields_build h (h.homes p plan hp).2.2 henv hr) ho hops
  | follow hp hhome hs hq => exact run_follow hdrains h hmain hp hhome hs hq
  | fill hg hi hp ho => exact h.run_fillJob hfresh hg hi hp ho

/-- **Draining a queue leaves plans under way.** -/
theorem drains (limit : Nat) :
    Drains n main bundle (Machine.drain (W := W) limit) := by
  refine ⟨?_, fun q p m ran m' => Machine.settled_or_empty_of_drain⟩
  induction limit with
  | zero =>
    intro G T busy m q d ran m' _ _ hdrain
    simp [Machine.drain] at hdrain
  | succ limit ih =>
    intro G T busy m q d ran m' h hmain hdrain
    have hdrains : Drains n main bundle (Machine.drain (W := W) limit) :=
      ⟨ih, fun q p m ran m' => Machine.settled_or_empty_of_drain⟩
    obtain ⟨fuel, he, hcase⟩ := Machine.drain_cases hdrain
    obtain rfl := Nat.succ_inj.mp he
    rcases hcase with ⟨rfl, -⟩ | ⟨task, m₁, m₂, hpop, htask, hrest⟩
    · exact ⟨G, T, .refl G m', h⟩
    obtain ⟨hl, t, T₁, hj, hfresh, h₁⟩ := h.pop? hpop
    have hyields : G.Yields bundle busy m₁ (Machine.drain limit) task.steps fun _ _ _ _ => True := by
      cases t with
      | none =>
        obtain ⟨ps, gs, hspares, htame⟩ := hj
        exact run_tame htame hdrains (h₁.mono (by simp)) hspares hmain
      | some d =>
        refine run_serves hdrains (d := d) (h₁.mono ?_) hj hfresh hmain
        rintro d' (hd | hd)
        · exact .inr hd
        · exact .inl (Option.some_inj.mp hd).symm
    obtain ⟨G₂, T₂, hl₂, h₂, -⟩ := hyields () m₂ htask
    rcases hrest with ⟨-, rfl⟩ | ⟨ran', hrest⟩
    · exact ⟨G₂, T₂, hl.trans hl₂, h₂⟩
    · obtain ⟨G₃, T₃, hl₃, h₃⟩ := ih G₂ T₂ busy m₂ q d ran' m' h₂ (hmain.later (hl.trans hl₂)) hrest
      exact ⟨G₃, T₃, (hl.trans hl₂).trans hl₃, h₃⟩

/-! ## Waiting for a promise -/

/-- **Waiting for a promise gives an outcome that it is to take.** -/
theorem yields_wait (hdrains : Drains n main bundle drain) (h : G.Underway bundle T ∅ m)
    {p : Promise} {q : QueueId} {S : Fate V → Outcome V → Prop}
    (hp : G.Delivers bundle p q r S) :
    G.Yields bundle ∅ m drain (p.wait q) fun _ _ m' answer =>
      ∃ a o, Agrees m'.outcome? a ∧ S a o ∧ answer = o.mapError WaitFault.rejected := by
  obtain ⟨source, hsource, rfl, hrank, hmeans⟩ := hp
  refine .drained fun ran m' hdrain => ?_
  obtain ⟨G', T', hl, h'⟩ := hdrains.underway G T ∅ m _ _ ran m' h (fun _ hd => hd.elim) hdrain
  obtain ⟨o, ho⟩ := h'.exists_outcome (fun _ hd => hd.elim) (hl.promise p source hsource) rfl
    (hdrains.ends _ _ _ _ _ hdrain)
  obtain ⟨a, ha, haccepts⟩ := exists_fate (fun p plan hplan => (h'.homes p plan hplan).1) h'.scopes
    h'.right
  have hS : S a o := ha p o ho ▸ hmeans a fun s plan hs _ =>
    haccepts s plan (hl.promise s plan hs)
  refine ⟨G', hl, .done (.refl G' m') ?_ h' ⟨a, o, ha, hS, rfl⟩⟩
  simp only [Bind.bind, Steps.bind, Steps.run, ho]
  cases o <;> rfl

end Underway

variable (V n main) in
/-- Nothing is planned. -/
def empty : Plans V n main := ⟨fun _ => none, fun _ => none⟩

/-- All that a machine has put off, with nothing due in it. -/
def unmarked (m : Machine V W) : Ledger
  | .queue q => (m.tasks q).map fun _ => none
  | .promise p => (m.reactions p).map fun _ => none

/-- **Where nothing is planned, plans are under way**, if all that is put off keeps to the promises
and lists that are there. -/
theorem underway_empty (bundle : List V → V) (hn : n ≤ m.queues.size) (hm : m.Tame) :
    ∃ T, (empty V n main).Underway bundle T ∅ m := by
  have hstray : ∀ j : Job V W, j.steps.Tame { p | p.index < m.cells.size }
      { g | g.index < m.gathers.size } → (empty V n main).Stray m j :=
    fun j hj => ⟨_, _, ⟨fun _ hp => ⟨hp, rfl⟩, fun _ hg => ⟨hg, rfl⟩⟩, hj⟩
  set T := unmarked m
  have hT : ∀ x d, some d ∉ T x := by
    rintro (q | p) d <;> simp [T, unmarked]
  exact ⟨T, {
    queues := hn
    homes := fun _ _ hp => by cases hp
    scopes := fun _ _ hp => by cases hp
    right := fun _ _ _ hp => by cases hp
    tasks := fun q => by
      simp only [T, unmarked, List.forall₂_map_right_iff, List.forall₂_same]
      exact fun j hj => hstray j (hm.tasks q j hj)
    reactions := fun p => by
      simp only [T, unmarked, List.forall₂_map_right_iff, List.forall₂_same]
      exact fun k hk o => hstray _ (hm.reactions p k hk o)
    lists := fun _ _ hg => by cases hg
    vacant := fun x g i hmem => absurd hmem (hT x _)
    sole := fun g i => ⟨none, fun x => by simp [List.count_eq_zero.mpr (hT x _)]⟩
    held := fun d hd => by
      cases d with
      | promise p =>
        obtain ⟨⟨plan, hp⟩, -⟩ := hd
        cases hp
      | slot g i =>
        obtain ⟨⟨l, c, hg, -⟩, -⟩ := hd
        cases hg }⟩

end Plans

namespace Program

/-- **Waiting for the promise of a program gives an outcome of the program**, once enough tasks may be
started, and it never stalls. The queues may hold any tasks that never halt, and promises may have any
such reactions, as long as they keep to the promises and lists that were there before. -/
theorem wait_build (bundle : List V → V) (hmain : main.index < n) (hn : n ≤ m.queues.size)
    (hm : m.Tame) (e : Program V n main [] main) :
    ∃ o, e.Means bundle [] o ∧ ∃ enough m', ∀ limit ≥ enough,
      m.run limit ((e.build bundle []).bind fun p => p.wait main) =
        .done (o.mapError WaitFault.rejected) m' := by
  have hcalm : Steps.Calm ((e.build (W := W) bundle []).bind fun p => p.wait main) :=
    Steps.Calm.bind (e.calm_build bundle []) fun p => Promise.calm_wait main p
  obtain ⟨enough, ⟨answer, m', hrun, -⟩ | ⟨hf, -⟩⟩ :=
    Work.ends_of_calm hcalm hm.calm
  swap
  · exact hf.elim
  obtain ⟨T, h⟩ : ∃ T, (Plans.empty V n main).Underway bundle T ∅ m :=
    Plans.underway_empty bundle hn hm
  have hyields : Plans.Yields bundle (Plans.empty V n main) ∅ m (Machine.drain enough)
      ((e.build bundle []).bind fun p => p.wait main) fun _ _ _ answer =>
        ∃ a o, e.Means bundle (List.map (a : Fate V) []) o ∧
          answer = o.mapError WaitFault.rejected :=
    (e.yields_build h hmain .nil zero_lt_one).bind fun G' T' m' p _ h' hp =>
      (h'.yields_wait (Plans.Underway.drains enough) hp).mono
        fun _ _ _ _ _ ⟨a, o, _, ho, hanswer⟩ => ⟨a, o, ho, hanswer⟩
  obtain ⟨-, -, -, -, a, o, ho, rfl⟩ := hyields answer m' (hrun enough le_rfl)
  exact ⟨o, ho, enough, m', hrun⟩

/-- A program on the first one of two queues. It shares a promise of the second one, which takes its
value two tasks later, and gathers it, deferred work and what a rejected promise is recovered with;
then it adds one to the sum. -/
def gathered : Program Nat 2 ⟨0⟩ [] ⟨0⟩ :=
  .share ⟨1⟩ (by decide) (.create 2 (.value 3)) <|
    .andThen (.all <|
      .cons (.promise ⟨1⟩ (by decide) (.inr rfl) (.shared 0 rfl)) <|
      .cons (.deferred (.ok 4)) <|
      .cons (.promise ⟨0⟩ (by decide) (.inl rfl)
        (.recover (.settled (.error (.invariant ""))) fun _ => .ok 5)) .nil)
      fun v => .promise (.settled (.ok (v + 1)))

theorem means_gathered {o : Outcome Nat} (h : gathered.Means List.sum [] o) : o = .ok 13 := by
  obtain ⟨vs, hvs, rfl⟩ : ∃ vs : List Nat,
      ([.ok 3, .ok 4, .ok 5] : List (Outcome Nat)) = vs.map .ok ∧
        o = .ok (vs.sum + 1) := by
    simpa [gathered, Means, Items.Means, Item.Means, Answer.Means, recover, look, react] using h
  obtain rfl : vs = [3, 4, 5] :=
    List.map_injective_iff.mpr (fun _ _ => Except.ok.inj) hvs.symm
  rfl

/-- A machine with two queues and a promise. A task in the first queue drains the second one and
settles the promise. -/
def crowded : Machine Nat Unit :=
  ((Machine.start ()).newQueue.2.newQueue.2.newPromise ⟨0⟩).2.enqueue ⟨0⟩
    (.mk (.drain ⟨1⟩ .all fun _ => .settle ⟨0⟩ (.ok 1) fun _ => .pure ()))

theorem wait_build_gathered :
    ∃ enough m', ∀ limit ≥ enough,
      crowded.run limit ((gathered.build List.sum []).bind fun p => p.wait ⟨0⟩) =
        .done (.ok 13) m' := by
  have htask : Steps.Tame { p | p.index < 1 } { g | g.index < 0 } (W := Unit)
      (.drain ⟨1⟩ .all fun _ => .settle (V := Nat) ⟨0⟩ (.ok 1) fun _ => .pure ()) :=
    .drain fun _ => .settle Nat.zero_lt_one fun _ => .pure ()
  have hm : crowded.Tame :=
    ((Machine.Every.start ()).newQueue.newQueue.newPromise _).append _
      (List.forall_mem_singleton.mpr htask)
  obtain ⟨o, ho, enough, m', hrun⟩ := gathered.wait_build List.sum (by decide) le_rfl hm
  obtain rfl := means_gathered ho
  exact ⟨enough, m', hrun⟩

end Program

end EntityQuery

