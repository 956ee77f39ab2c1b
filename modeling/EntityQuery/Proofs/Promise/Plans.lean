import EntityQuery.Proofs.Promise.Gathering
import EntityQuery.Proofs.Promise.Program
import Mathlib.Algebra.Order.Ring.Rat
import Mathlib.Order.Interval.Finset.Nat
import Mathlib.Data.Finset.Max

/-!
# What the promises of a program are for

While a program runs, each promise that it has made is to take an outcome of one of its parts. That
part is the plan of the promise. Plans depend on promises of lower rank only, so outcomes that are
right one by one make up outcomes that are right together.

* `Plan`, `ListPlan`, `Plans`: what promises and lists are for.
* `Fate`: what all promises come to. `Plans.Upholds`: the plans up to a rank are carried out.
* `Right`: an outcome that is right whatever the pending promises come to.
* `Plans.Delivers`: a promise whose outcome has a property.
* `Plans.Serves`: tasks that carry out a duty. `Plans.Awaits`: reactions that come to such tasks.
* **`exists_fate`**: outcomes that are right make up a fate that upholds all plans.
-/

namespace EntityQuery

variable {V W : Type} {n : Nat} {main : QueueId}

/-- What all promises come to. -/
abbrev Fate (V : Type) := Promise → Outcome V

/-- What a promise is for: to take an outcome of a program, made from shared promises. Its rank is
above those of the promises that it depends on. -/
structure Plan (V : Type) (n : Nat) (main : QueueId) where
  scope : List QueueId
  home : QueueId
  program : Program V n main scope home
  env : List Promise
  rank : ℚ

/-- What a list is for: to gather values of items for a promise. -/
structure ListPlan (V : Type) where
  target : Promise
  items : List (Fate V → Outcome V → Prop)

/-- What the promises and lists are for. -/
structure Plans (V : Type) (n : Nat) (main : QueueId) where
  promise : Promise → Option (Plan V n main)
  list : GatherId → Option (ListPlan V)

/-- What is to be done: to settle a promise, or to fill a slot of a list. -/
inductive Duty
  | promise (p : Promise)
  | slot (g : GatherId) (i : Nat)
  deriving DecidableEq

variable (bundle : List V → V)

/-- The outcomes that a plan leaves to its promise. -/
def Plan.Accepts (plan : Plan V n main) (a : Fate V) (o : Outcome V) : Prop :=
  plan.program.Means bundle (plan.env.map a) o

namespace Plans

variable (G : Plans V n main)

/-- The plan that a duty belongs to. -/
def duty : Duty → Option (Plan V n main)
  | .promise p => G.promise p
  | .slot g _ => (G.list g).bind fun l => G.promise l.target

/-- The plans below a rank are carried out. -/
def Upholds (r : ℚ) (a : Fate V) : Prop :=
  ∀ p plan, G.promise p = some plan → plan.rank < r → plan.Accepts bundle a (a p)

/-- The shared promises have plans on their queues, up to a rank. -/
def Scoped (Γ : List QueueId) (env : List Promise) (r : ℚ) : Prop :=
  List.Forall₂ (fun q s => ∃ plan, G.promise s = some plan ∧ plan.home = q ∧ plan.rank ≤ r) Γ env

/-- A promise on a queue with a plan below a rank, whose outcome has a property. -/
def Delivers (p : Promise) (q : QueueId) (r : ℚ) (S : Fate V → Outcome V → Prop) : Prop :=
  ∃ plan, G.promise p = some plan ∧ plan.home = q ∧ plan.rank < r ∧
    ∀ a, G.Upholds bundle r a → S a (a p)

end Plans

/-- The fate agrees with the outcomes so far. -/
def Agrees (κ : Promise → Option (Outcome V)) (a : Fate V) : Prop := ∀ p o, κ p = some o → a p = o

/-- An outcome has a property, whatever the pending promises come to. -/
def Right (G : Plans V n main) (κ : Promise → Option (Outcome V)) (r : ℚ)
    (S : Fate V → Outcome V → Prop) (o : Outcome V) : Prop :=
  ∀ a, Agrees κ a → G.Upholds bundle r a → S a o

namespace Plans

variable (G : Plans V n main)

/-- Tasks that carry out a duty. -/
inductive Serves (κ : Promise → Option (Outcome V)) : Duty → Job V W → Prop
  /-- Settles a promise with a right outcome. -/
  | settle {p : Promise} {plan : Plan V n main} {o : Outcome V} (hp : G.promise p = some plan)
    (ho : Right bundle G κ plan.rank (plan.Accepts bundle) o) :
    Serves κ (.promise p) (p.settleJob o)
  /-- Resolves a promise, now or later, with an answer whose outcomes are right. -/
  | resolve {p : Promise} {plan : Plan V n main} {Γ : List QueueId} {env : List Promise} {r : ℚ}
    {answer : Program.Answer V n main Γ plan.home} (hops : Nat) (hp : G.promise p = some plan)
    (hr : r < plan.rank) (henv : G.Scoped Γ env r)
    (ho : ∀ a, Agrees κ a → G.Upholds bundle plan.rank a →
      ∀ o, answer.Means bundle (env.map a) o → plan.Accepts bundle a o) :
    Serves κ (.promise p) (.mk (p.resolveAfter (answer.build bundle env) hops))
  /-- Follows a promise of another queue. -/
  | follow {p s : Promise} {plan : Plan V n main} {q : QueueId} (hp : G.promise p = some plan)
    (hmain : plan.home = main) (hs : G.Delivers bundle s q plan.rank (plan.Accepts bundle))
    (hq : q ≠ main) : Serves κ (.promise p) (Promise.followForeign p s)
  /-- Fills a slot with a right value, or rejects the promise of the list. -/
  | fill {g : GatherId} {l : ListPlan V} {i : Nat} {S : Fate V → Outcome V → Prop}
    {plan : Plan V n main} {o : Outcome V} (hg : G.list g = some l) (hi : l.items[i]? = some S)
    (hp : G.promise l.target = some plan) (ho : Right bundle G κ plan.rank S o) :
    Serves κ (.slot g i) (fillJob bundle l.target g i o)

/-- Reactions to a promise that come to tasks that carry out a duty. -/
def Awaits (κ : Promise → Option (Outcome V)) (s : Promise) (d : Duty)
    (r : Outcome V → Job V W) : Prop :=
  ∃ source plan, G.promise s = some source ∧ G.duty d = some plan ∧ source.home = plan.home ∧
    source.rank < plan.rank ∧
      ∀ κ' : Promise → Option (Outcome V), (∀ p o, κ p = some o → κ' p = some o) →
        ∀ o, κ' s = some o → G.Serves bundle κ' d (r o)

end Plans

/-! ## More plans and more outcomes -/

/-- Plans that are added to. -/
structure Plans.Extends (G G' : Plans V n main) : Prop where
  promise : ∀ p plan, G.promise p = some plan → G'.promise p = some plan
  list : ∀ g l, G.list g = some l → G'.list g = some l

namespace Plans.Extends

variable {bundle} {G G' : Plans V n main} {κ κ' : Promise → Option (Outcome V)}

theorem duty (h : G.Extends G') {d : Duty} {plan : Plan V n main} (hd : G.duty d = some plan) :
    G'.duty d = some plan := by
  cases d with
  | promise p => exact h.promise p plan hd
  | slot g i =>
    obtain ⟨l, hl, hp⟩ := Option.bind_eq_some_iff.mp hd
    simp [Plans.duty, h.list g l hl, h.promise _ _ hp]

/-- A plan was there before, or its promise had none. -/
theorem promise_or (h : G.Extends G') {p : Promise} {plan : Plan V n main}
    (hp : G'.promise p = some plan) : G.promise p = some plan ∨ G.promise p = none := by
  cases hG : G.promise p with
  | none => exact .inr rfl
  | some plan' => exact .inl ((h.promise p plan' hG).symm.trans hp)

/-- A plan was there before, or its list had none. -/
theorem list_or (h : G.Extends G') {g : GatherId} {l : ListPlan V} (hg : G'.list g = some l) :
    G.list g = some l ∨ G.list g = none := by
  cases hG : G.list g with
  | none => exact .inr rfl
  | some l' => exact .inl ((h.list g l' hG).symm.trans hg)

theorem upholds (h : G.Extends G') {r : ℚ} {a : Fate V} (ha : G'.Upholds bundle r a) :
    G.Upholds bundle r a := fun p plan hp => ha p plan (h.promise p plan hp)

theorem inScope (h : G.Extends G') {Γ : List QueueId} {env : List Promise} {r r' : ℚ} (hr : r ≤ r')
    (hs : G.Scoped Γ env r) : G'.Scoped Γ env r' :=
  List.Forall₂.imp (fun _ s ⟨plan, hp, hq, hrank⟩ => ⟨plan, h.promise s plan hp, hq, hrank.trans hr⟩)
    hs

theorem right (h : G.Extends G') (hκ : ∀ p o, κ p = some o → κ' p = some o) {r : ℚ}
    {S : Fate V → Outcome V → Prop} {o : Outcome V} (ho : Right bundle G κ r S o) :
    Right bundle G' κ' r S o :=
  fun a ha hup => ho a (fun p o hp => ha p o (hκ p o hp)) (h.upholds hup)

theorem delivers (h : G.Extends G') {p : Promise} {q : QueueId} {r r' : ℚ} (hr : r ≤ r')
    {S : Fate V → Outcome V → Prop} (hd : G.Delivers bundle p q r S) :
    G'.Delivers bundle p q r' S := by
  obtain ⟨plan, hp, hq, hrank, hS⟩ := hd
  exact ⟨plan, h.promise p plan hp, hq, hrank.trans_le hr, fun a ha =>
    hS a fun p' plan' hp' hr' => ha p' plan' (h.promise _ _ hp') (hr'.trans_le hr)⟩

theorem serves (h : G.Extends G') (hκ : ∀ p o, κ p = some o → κ' p = some o) {d : Duty}
    {j : Job V W} (hs : G.Serves bundle κ d j) : G'.Serves bundle κ' d j := by
  cases hs with
  | settle hp ho => exact .settle (h.promise _ _ hp) (h.right hκ ho)
  | resolve hops hp hr henv ho =>
    exact .resolve hops (h.promise _ _ hp) hr (h.inScope le_rfl henv) fun a ha hup =>
      ho a (fun p o hp => ha p o (hκ p o hp)) (h.upholds hup)
  | follow hp hmain hs hq => exact .follow (h.promise _ _ hp) hmain (h.delivers le_rfl hs) hq
  | fill hg hi hp ho => exact .fill (h.list _ _ hg) hi (h.promise _ _ hp) (h.right hκ ho)

theorem awaits (h : G.Extends G') (hκ : ∀ p o, κ p = some o → κ' p = some o) {s : Promise}
    {d : Duty} {r : Outcome V → Job V W} (hr : G.Awaits bundle κ s d r) :
    G'.Awaits bundle κ' s d r := by
  obtain ⟨source, plan, hs, hd, hhome, hrank, hserves⟩ := hr
  exact ⟨source, plan, h.promise _ _ hs, h.duty hd, hhome, hrank, fun κ'' hκ'' o ho =>
    h.serves (fun _ _ h => h) (hserves κ'' (fun p o hp => hκ'' p o (hκ p o hp)) o ho)⟩

theorem refl (G : Plans V n main) : G.Extends G := ⟨fun _ _ h => h, fun _ _ h => h⟩

theorem trans {G'' : Plans V n main} (h : G.Extends G') (h' : G'.Extends G'') : G.Extends G'' :=
  ⟨fun p plan hp => h'.promise _ _ (h.promise p plan hp),
    fun g l hl => h'.list _ _ (h.list g l hl)⟩

end Plans.Extends

/-! ## Outcomes that are right together -/

/-- Every plan has an outcome. -/
theorem Plan.exists_accepts (plan : Plan V n main) (a : Fate V) : ∃ o, plan.Accepts bundle a o :=
  ⟨_, plan.program.means_eval bundle _⟩

/-- What a plan accepts depends on the shared promises only. -/
theorem Plan.accepts_congr {plan : Plan V n main} {a a' : Fate V} (h : ∀ s ∈ plan.env, a s = a' s)
    {o : Outcome V} (ho : plan.Accepts bundle a o) : plan.Accepts bundle a' o := by
  rwa [Plan.Accepts, ← List.map_congr_left h]

/-- A shared promise is below the rank of its scope. -/
theorem Plans.Scoped.rank_le {G : Plans V n main} {Γ : List QueueId} {env : List Promise} {r : ℚ}
    (h : G.Scoped Γ env r) : ∀ s ∈ env, ∃ plan, G.promise s = some plan ∧ plan.rank ≤ r := by
  induction h with
  | nil => simp
  | cons hs _ ih =>
    obtain ⟨plan, hp, -, hr⟩ := hs
    exact List.forall_mem_cons.mpr ⟨⟨plan, hp, hr⟩, ih⟩

variable {bundle}

/-- One more promise takes its outcome, where the plans below it are carried out and none of those
above depends on it. -/
theorem exists_fate_insert {G : Plans V n main} {κ : Promise → Option (Outcome V)} {a : Fate V}
    {F : Finset Promise} {x : Promise} (hx : x ∉ F) (ha : Agrees κ a)
    (hF : ∀ p ∈ F, ∀ plan, G.promise p = some plan → plan.Accepts bundle a (a p))
    (hbelow : ∀ plan, G.promise x = some plan → G.Upholds bundle plan.rank a)
    (hfree : ∀ p ∈ insert x F, ∀ plan, G.promise p = some plan → x ∉ plan.env)
    (hright : ∀ plan o, G.promise x = some plan → κ x = some o →
      Right bundle G κ plan.rank (plan.Accepts bundle) o) :
    ∃ a, Agrees κ a ∧
      ∀ p ∈ insert x F, ∀ plan, G.promise p = some plan → plan.Accepts bundle a (a p) := by
  simp only [Finset.forall_mem_insert] at hfree ⊢
  cases hplan : G.promise x with
  | none => exact ⟨a, ha, by simp, hF⟩
  | some xplan =>
    cases hκ : κ x with
    | some o =>
      refine ⟨a, ha, fun plan he => ?_, hF⟩
      obtain rfl := Option.some_inj.mp he
      rw [ha x o hκ]
      exact hright xplan o hplan hκ a ha (hbelow xplan hplan)
    | none =>
      obtain ⟨o, ho⟩ := xplan.exists_accepts bundle a
      have hkeep : ∀ plan : Plan V n main, x ∉ plan.env →
          ∀ s ∈ plan.env, a s = Function.update a x o s := fun plan hfree s hs => by
        rw [Function.update_of_ne (by rintro rfl; exact hfree hs)]
      refine ⟨Function.update a x o, fun p o' hp => ?_, fun plan he => ?_, fun p hp plan hpp => ?_⟩
      · rw [Function.update_of_ne (by rintro rfl; simp [hκ] at hp), ha p o' hp]
      · obtain rfl := Option.some_inj.mp he
        rw [Function.update_self]
        exact Plan.accepts_congr bundle (hkeep xplan (hfree.1 xplan hplan)) ho
      · rw [Function.update_of_ne (by rintro rfl; exact hx hp)]
        exact Plan.accepts_congr bundle (hkeep plan (hfree.2 p hp plan hpp)) (hF p hp plan hpp)

/-- **Outcomes that are right one by one are right together.** Pending promises are given outcomes in
the order of their ranks. -/
theorem exists_fate {G : Plans V n main} {κ : Promise → Option (Outcome V)} {size : Nat}
    (hsize : ∀ p plan, G.promise p = some plan → p.index < size)
    (hscoped : ∀ p plan, G.promise p = some plan → ∃ r < plan.rank, G.Scoped plan.scope plan.env r)
    (hright : ∀ p plan o, G.promise p = some plan → κ p = some o →
      Right bundle G κ plan.rank (plan.Accepts bundle) o) :
    ∃ a, Agrees κ a ∧ ∀ p plan, G.promise p = some plan → plan.Accepts bundle a (a p) := by
  let rank (p : Promise) : ℚ := ((G.promise p).map Plan.rank).getD 0
  have hrank : ∀ p plan, G.promise p = some plan → rank p = plan.rank := fun p plan hp => by
    simp [rank, hp]
  have hreads : ∀ p plan, G.promise p = some plan → ∀ s ∈ plan.env, rank s < rank p := by
    intro p plan hp s hs
    obtain ⟨r, hr, hscope⟩ := hscoped p plan hp
    obtain ⟨source, hsource, hle⟩ := hscope.rank_le s hs
    rw [hrank p plan hp, hrank s source hsource]
    exact hle.trans_lt hr
  -- The induction adds the promises in the order of their ranks.
  have upTo : ∀ F : Finset Promise,
      (∀ x ∈ F, ∀ p plan, G.promise p = some plan → rank p < rank x → p ∈ F) →
      ∃ a, Agrees κ a ∧ ∀ p ∈ F, ∀ plan, G.promise p = some plan →
        plan.Accepts bundle a (a p) := by
    intro F
    induction F using Finset.induction_on_max_value rank with
    | empty => exact fun _ => ⟨fun p => (κ p).getD (.error WaitFault.stalled.failure),
        fun p o hp => by simp [hp], by simp⟩
    | insert x F hx hmax ih =>
      intro hclosed
      have hbefore : ∀ y ∈ insert x F, ∀ p plan, G.promise p = some plan → rank p < rank y →
          p ∈ F := fun y hy p plan hp hlt => by
        refine Finset.mem_of_mem_insert_of_ne (hclosed y hy p plan hp hlt) ?_
        rintro rfl
        exact absurd ((Finset.forall_mem_insert p F fun y => rank y ≤ rank p).mpr
          ⟨le_rfl, hmax⟩ y hy) (not_le.mpr hlt)
      obtain ⟨a, ha, hacc⟩ := ih fun y hy => hbefore y (Finset.mem_insert_of_mem hy)
      refine exists_fate_insert hx ha hacc (fun xplan hplan p plan hp hlt => ?_)
        (fun p hp plan hpp hmem => ?_) (hright x)
      · refine hacc p (hbefore x (Finset.mem_insert_self x F) p plan hp ?_) plan hp
        rwa [hrank p plan hp, hrank x xplan hplan]
      · obtain ⟨r, -, hscope⟩ := hscoped p plan hpp
        obtain ⟨source, hsource, -⟩ := hscope.rank_le x hmem
        exact hx (hbefore p hp x source hsource (hreads p plan hpp x hmem))
  obtain ⟨a, ha, hacc⟩ := upTo ((Finset.range size).image Promise.mk) fun _ _ p plan hp _ =>
    Finset.mem_image.mpr ⟨p.index, Finset.mem_range.mpr (hsize p plan hp), rfl⟩
  exact ⟨a, ha, fun p plan hp => hacc p
    (Finset.mem_image.mpr ⟨p.index, Finset.mem_range.mpr (hsize p plan hp), rfl⟩) plan hp⟩

end EntityQuery
