import McpSdk.OutstandingCalls

/-!
# The courses of tasks

What can be said of a task from its launch to its end by its own text, whatever the others do: a
relation between the history of a task and what is left of it holds in every run if each way to
go on preserves it. `Then` is such a relation between a call and what follows it in the text.
-/

namespace CooperativeTasks
variable {I : Interface} {ι ε α β : Type}

/-- What follows each call that the coroutine makes itself is as `R` says. -/
def Coroutine.Then : {α : Type} → ((op : I.Op) → I.Res op → Coroutine I ι ε α → Prop) →
    Coroutine I ι ε α → Prop
  | _, _, .ret _ => True
  | _, _, .throw _ => True
  | _, R, .call op k => ∀ r, R op r (k r) ∧ (k r).Then R
  | _, R, .await k => ∀ v, (k v).Then R
  | _, R, .wait op k => ∀ r, R op r (k r) ∧ (k r).Then R
  | _, R, .fork _ k => k.Then R
  | _, R, .invokeOn _ _ k => k.Then R

/-- The coroutine makes the call `op` as soon as it goes on. -/
def Coroutine.Nears (op : I.Op) : {α : Type} → Coroutine I ι ε α → Prop
  | _, .call op' _ => op' = op
  | _, .await k => ∀ v, (k v).Nears op
  | _, _ => False

namespace Coroutine

/-- The rule of composition: what follows a call of the first part ends with the second. -/
theorem Then.andThen {R : (op : I.Op) → I.Res op → Coroutine I ι ε α → Prop}
    {R' : (op : I.Op) → I.Res op → Coroutine I ι ε β → Prop} {t : Coroutine I ι ε α}
    {k : α → Coroutine I ι ε β} {h : ε → Coroutine I ι ε β} (ht : t.Then R)
    (hR : ∀ op r c, R op r c → R' op r (c.andThen k h)) (hk : ∀ a, (k a).Then R')
    (hh : ∀ e, (h e).Then R') : (t.andThen k h).Then R' := by
  induction t with
  | ret a => exact hk a
  | throw e => exact hh e
  | call op c ih => exact fun r => ⟨hR op r _ (ht r).1, ih r (ht r).2 hR hk⟩
  | await c ih => exact fun v => ih v (ht v) hR hk
  | wait op c ih => exact fun r => ⟨hR op r _ (ht r).1, ih r (ht r).2 hR hk⟩
  | fork u c _ ih => exact ih ht hR hk
  | invokeOn n u c _ ih => exact ih ht hR hk

theorem Then.mono {R R' : (op : I.Op) → I.Res op → Coroutine I ι ε α → Prop}
    {t : Coroutine I ι ε α} (ht : t.Then R) (hR : ∀ op r c, R op r c → R' op r c) : t.Then R' := by
  induction t with
  | ret a => trivial
  | throw e => trivial
  | call op c ih => exact fun r => ⟨hR op r _ (ht r).1, ih r (ht r).2 hR⟩
  | await c ih => exact fun v => ih v (ht v) hR
  | wait op c ih => exact fun r => ⟨hR op r _ (ht r).1, ih r (ht r).2 hR⟩
  | fork u c _ ih => exact ih ht hR
  | invokeOn n u c _ ih => exact ih ht hR

/-- A coroutine may make calls after which nothing in particular has to follow. -/
theorem Calls.allThen {A : I.Op → Prop} {T : ℕ → Prop}
    {R : (op : I.Op) → I.Res op → Coroutine I ι ε α → Prop} {t : Coroutine I ι ε α}
    (ht : t.Calls A T) (hR : ∀ op r c, A op → R op r c) : t.Then R := by
  induction t with
  | ret a => trivial
  | throw e => trivial
  | call op c ih => exact fun r => ⟨hR op r _ ht.1, ih r (ht.2 r trivial) hR⟩
  | await c ih => exact fun v => ih v (ht.2 v) hR
  | wait op c ih => exact fun r => ⟨hR op r _ ht.2.1, ih r (ht.2.2 r trivial) hR⟩
  | fork u c _ ih => exact ih ht.2 hR
  | invokeOn n u c _ ih => exact ih ht.2 hR

/-- What follows the calls of a coroutine whose first part has none that matter. -/
theorem Then.bind {A : I.Op → Prop} {T : ℕ → Prop} {P : α → Prop}
    {R : (op : I.Op) → I.Res op → Coroutine I ι ε β → Prop} {t : Coroutine I ι ε α}
    {k : α → Coroutine I ι ε β} (ht : t.Yields A T P) (hR : ∀ op r c, A op → R op r c)
    (hk : ∀ a, P a → (k a).Then R) : (t >>= k).Then R := by
  induction t with
  | ret a => exact hk a ht
  | throw e => trivial
  | call op c ih => exact fun r => ⟨hR op r _ ht.1, ih r (ht.2 r trivial) hk⟩
  | await c ih => exact fun v => ih v (ht.2 v) hk
  | wait op c ih => exact fun r => ⟨hR op r _ ht.2.1, ih r (ht.2.2 r trivial) hk⟩
  | fork u c _ ih => exact ih ht.2 hk
  | invokeOn n u c _ ih => exact ih ht.2 hk

end Coroutine
end CooperativeTasks

namespace ClusterRuns
open CooperativeTasks LabelledRuns

variable {I : Interface} {ι ε O X σ : Type} {S : System I ι ε O X σ}
  {c : Cluster I ι ε O X σ}

/-- How a task of origin `o` goes on: what the world outside tells it, and what it does. -/
inductive Goes (S : System I ι ε O X σ) (o : O) : Coroutine I ι ε (Option X) → Option ι →
    List (Mark I) → Coroutine I ι ε (Option X) → Prop
  | resume (k : ι → Coroutine I ι ε (Option X)) (v : ι) : Goes S o (.await k) (some v) [] (k v)
  | call (op : I.Op) (k : I.Res op → Coroutine I ι ε (Option X)) (r : I.Res op) :
      Goes S o (.call op k) none [.did op r] (k r)
  | wait (op : I.Op) (k : I.Res op → Coroutine I ι ε (Option X)) (r : I.Res op) :
      Goes S o (.wait op k) none [.did op r] (k r)
  | fork (u : Coroutine I ι ε Unit) (k : Coroutine I ι ε (Option X)) :
      Goes S o (.fork u k) none [] k
  | invokeOn (n : ℕ) (u : Coroutine I ι ε Unit) (k : Coroutine I ι ε (Option X)) :
      Goes S o (.invokeOn n u k) none [] k
  | again (x : X) : Goes S o (.ret (some x)) none [] (S.again o x)

theorem goes_of_act {t : Running I ι ε O X} {op : I.Op} {k : I.Res op → Coroutine I ι ε (Option X)}
    {P : Prop} (htask : t.task = .call op k ∨ t.task = .wait op k ∧ P) (r : I.Res op) :
    Goes S t.origin t.task none [.did op r] (k r) := by
  rcases htask with htask | ⟨htask, -⟩ <;> rw [htask]
  · exact .call op k r
  · exact .wait op k r

theorem nears_of_goes {o : O} {t t' : Coroutine I ι ε (Option X)} {heard : Option ι} {op : I.Op}
    (h : t.Nears op) (hgoes : Goes S o t heard [] t') : t'.Nears op := by
  cases hgoes with
  | resume k v => exact h v
  | fork u k | invokeOn n u k | again x => exact h.elim

/-- What starts a task next makes no call next. -/
theorem not_nears_of_starts {t k : Coroutine I ι ε (Option X)} {n : ℕ} {u : Coroutine I ι ε Unit}
    (ht : t = .fork u k ∨ t = .invokeOn n u k) (op : I.Op) : ¬t.Nears op := by
  rcases ht with rfl | rfl <;> exact id

theorem op_of_goes {o : O} {t t' : Coroutine I ι ε (Option X)} {op op' : I.Op} {r : I.Res op'}
    (h : t.Nears op) (hgoes : Goes S o t none [.did op' r] t') : op' = op := by
  cases hgoes with
  | call _ k _ => exact h
  | wait _ k _ => exact h.elim

/-- The cases of a step: nobody goes on, a task goes on without a call, or it makes a call. -/
inductive Advance (S : System I ι ε O X σ) (c : Cluster I ι ε O X σ) (l : Label ι O)
    (c' : Cluster I ι ε O X σ) : Prop
  | stays (more : List (Running I ι ε O X)) (htasks : c'.tasks = c.tasks ++ more)
      (hshards : c'.shards = c.shards) (hlog : c'.log = c.log)
  | goes {i : ℕ} {t : Running I ι ε O X} {heard : Option ι} {task : Coroutine I ι ε (Option X)}
      (more : List (Running I ι ε O X)) (hi : c.tasks[i]? = some t)
      (hgoes : Goes S t.origin t.task heard [] task)
      (hheard : ∀ v, heard = some v → l = .resume i v)
      (htasks : c'.tasks = c.tasks.set i { t with task := task } ++ more)
      (hshards : c'.shards = c.shards) (hlog : c'.log = c.log)
  | calls {i : ℕ} {t : Running I ι ε O X} {task : Coroutine I ι ε (Option X)} (e : Event I O σ)
      (hi : c.tasks[i]? = some t) (hgoes : Goes S t.origin t.task none [.did e.op e.res] task)
      (hshard : e.shard = t.shard) (horigin : e.origin = t.origin) (hpast : e.past = t.past)
      (hbefore : e.before = c.shards e.shard)
      (hexec : S.exec e.shard e.now e.op e.before = (e.res, e.after))
      (htasks : c'.tasks = c.tasks.set i { t with past := e.history, task := task })
      (hshards : c'.shards = Function.update c.shards e.shard e.after)
      (hlog : c'.log = e :: c.log)

theorem advance_of_step {c' : Cluster I ι ε O X σ} {l : Label ι O} (h : S.step c l = some c') :
    Advance S c l c' := by
  cases step_cases h with
  | tick d => exact .stays [] (List.append_nil _).symm rfl rfl
  | launch o hj => exact .stays _ rfl rfl rfl
  | @resume i t k v hi htask =>
    have hgoes : Goes S t.origin t.task (some v) [] (k v) := htask ▸ Goes.resume k v
    exact .goes [] hi hgoes (by rintro _ ⟨⟩; rfl) (List.append_nil _).symm rfl rfl
  | @act i l t op k hi htask =>
    exact .calls ⟨t.shard, c.now, t.origin, t.past, op, _, _, _⟩ hi (goes_of_act htask _) rfl rfl
      rfl rfl rfl rfl rfl rfl
  | @fork i l t u k hi htask =>
    have hgoes : Goes S t.origin t.task none [] k := htask ▸ Goes.fork u k
    exact .goes _ hi hgoes nofun rfl rfl rfl
  | @invokeOn i n l t u k hi htask =>
    have hgoes : Goes S t.origin t.task none [] k := htask ▸ Goes.invokeOn n u k
    exact .goes _ hi hgoes nofun rfl rfl rfl
  | @again i l t x hi htask =>
    have hgoes : Goes S t.origin t.task none [] (S.again t.origin x) := htask ▸ Goes.again x
    exact .goes [] hi hgoes nofun (List.append_nil _).symm rfl rfl

/-- What every way to go on preserves holds of all tasks that no other task has started. -/
theorem courses_of_run (P : O → Prop)
    (B : O → List (Mark I) → Coroutine I ι ε (Option X) → Prop)
    (hlaunch : ∀ o, P o → B o [] (S.program o))
    (hgoes : ∀ o past t heard marks t', B o past t → Goes S o t heard marks t' →
      B o (marks ++ past) t')
    {ls : List (Label ι O)} (hls : ∀ l ∈ ls, l.Launches P)
    (hrun : run S.step S.start ls = some c) :
    ∀ t ∈ c.tasks, .started ∉ t.past → B t.origin t.past t.task := by
  refine run_induction P (fun c => ∀ t ∈ c.tasks, .started ∉ t.past → B t.origin t.past t.task)
    (fun t ht => (List.not_mem_nil ht).elim) ?_ hls hrun
  intro c l c' hc hl hm
  cases hm with
  | tick d => exact hc
  | launch o hj => exact forall_tasks_append hc (fun _ => hlaunch o hl)
  | @resume i t k v hi htask =>
    refine forall_tasks_set hc (fun hnew => ?_) i
    have hold := hc t (List.mem_of_getElem? hi) hnew
    rw [htask] at hold
    exact hgoes _ _ _ _ _ _ hold (.resume k v)
  | @act i l t op k hi htask =>
    refine forall_tasks_set hc (fun hnew => ?_) i
    have hold := hc t (List.mem_of_getElem? hi) (fun hmem => hnew (.tail _ hmem))
    exact hgoes _ _ _ _ _ _ hold (goes_of_act htask _)
  | @fork i l t u k hi htask =>
    refine forall_tasks_append (forall_tasks_set hc (fun hnew => ?_) i)
      (fun hnew => absurd (.head _) hnew)
    have hold := hc t (List.mem_of_getElem? hi) hnew
    rw [htask] at hold
    exact hgoes _ _ _ _ _ _ hold (.fork u k)
  | @invokeOn i n l t u k hi htask =>
    refine forall_tasks_append (forall_tasks_set hc (fun hnew => ?_) i)
      (fun hnew => absurd (.head _) hnew)
    have hold := hc t (List.mem_of_getElem? hi) hnew
    rw [htask] at hold
    exact hgoes _ _ _ _ _ _ hold (.invokeOn n u k)
  | @again i l t x hi htask =>
    refine forall_tasks_set hc (fun hnew => ?_) i
    have hold := hc t (List.mem_of_getElem? hi) hnew
    rw [htask] at hold
    exact hgoes _ _ _ _ _ _ hold (.again x)

theorem exists_tasks_set {T : Running I ι ε O X → Prop} {i : ℕ} {t u : Running I ι ε O X}
    (hi : c.tasks[i]? = some t) (h : ∃ t ∈ c.tasks, T t) (hu : T t → T u) :
    ∃ t' ∈ c.tasks.set i u, T t' := by
  obtain ⟨t', ht', hT⟩ := h
  obtain ⟨k, hk⟩ := List.mem_iff_getElem?.mp ht'
  by_cases hki : k = i
  · obtain rfl : t = t' := Option.some.inj ((hki ▸ hi).symm.trans hk)
    exact ⟨u, List.mem_set (List.getElem?_eq_some_iff.mp hi).1 u, hu hT⟩
  · refine ⟨t', List.mem_iff_getElem?.mpr ⟨k, ?_⟩, hT⟩
    rw [List.getElem?_set_ne (Ne.symm hki), hk]

theorem countP_set_le {α : Type*} {p : α → Bool} {ts : List α} {i : ℕ} {t u : α}
    (hi : ts[i]? = some t) (h : p u → p t) : (ts.set i u).countP p ≤ ts.countP p := by
  have hset := countP_set_add (p := p) hi u
  have hle := Bool.toNat_le_toNat h
  omega

/-- A property that no task starts with is of one task at most if a call gives it to none while
another has it, and nothing else gives it. -/
theorem countP_le_one_of_run {C : Cluster I ι ε O X σ → Label ι O → Cluster I ι ε O X σ → Prop}
    (p : Running I ι ε O X → Bool)
    (hnil : ∀ j o task, p ⟨j, o, [], task⟩ = false)
    (hstarted : ∀ j o past task, p ⟨j, o, .started :: past, task⟩ = false)
    (hgoes : ∀ (t : Running I ι ε O X) heard task, Goes S t.origin t.task heard [] task →
      p { t with task := task } → p t)
    (hcalls : ∀ steps c l c', run S.step S.start steps = some c → C c l c' →
      ∀ (e : Event I O σ), c'.log = e :: c.log → ∀ t ∈ c.tasks, e.shard = t.shard →
        ∀ task, Goes S t.origin t.task none [.did e.op e.res] task →
          p { t with past := .did e.op e.res :: t.past, task := task } →
            p t ∨ ∀ u ∈ c.tasks, p u = false)
    {ls : List (Label ι O)} (halong : Along S.step C S.start ls)
    (hrun : run S.step S.start ls = some c) : c.tasks.countP p ≤ 1 := by
  refine invariant_of_reached (J := fun c : Cluster I ι ε O X σ => c.tasks.countP p ≤ 1)
    (Nat.zero_le _) ?_ halong hrun
  intro steps c l c' hreached hone hstep hl
  have added : ∀ {ts : List (Running I ι ε O X)} {u : Running I ι ε O X}, p u = false →
      ts.countP p ≤ 1 → (ts ++ [u]).countP p ≤ 1 := by
    intro ts u hu hts
    rwa [List.countP_append, List.countP_singleton, hu, if_neg Bool.false_ne_true, Nat.add_zero]
  have moved : ∀ (heard : Option ι) {i : ℕ} {t : Running I ι ε O X}
      {task : Coroutine I ι ε (Option X)}, c.tasks[i]? = some t →
      Goes S t.origin t.task heard [] task →
        (c.tasks.set i { t with task := task }).countP p ≤ 1 :=
    fun _ _ _ _ hi hg => (countP_set_le hi (hgoes _ _ _ hg)).trans hone
  cases step_cases hstep with
  | tick d => exact hone
  | launch o hj => exact added (hnil _ _ _) hone
  | @resume i t k v hi htask => exact moved (some v) hi (htask ▸ .resume k v)
  | @fork i l t u k hi htask =>
    exact added (hstarted _ _ _ _) (moved none hi (htask ▸ .fork u k))
  | @invokeOn i n l t u k hi htask =>
    exact added (hstarted _ _ _ _) (moved none hi (htask ▸ .invokeOn n u k))
  | @again i l t x hi htask => exact moved none hi (htask ▸ .again x)
  | @act i l t op k hi htask =>
    have hcall := hcalls steps c l _ hreached hl _ rfl t (List.mem_of_getElem? hi) rfl _
      (goes_of_act htask _)
    dsimp only [Cluster.act]
    by_cases hu : p { t with
        past := .did op (S.exec t.shard c.now op (c.shards t.shard)).1 :: t.past
        task := k (S.exec t.shard c.now op (c.shards t.shard)).1 }
    · rcases hcall hu with ht | hnone
      · exact (countP_set_le hi (fun _ => ht)).trans hone
      · -- nobody had it, so the task that acts is the only one
        have hzero : c.tasks.countP p = 0 := List.countP_eq_zero.mpr (by simpa using hnone)
        rw [List.countP_set (List.getElem?_eq_some_iff.mp hi).1, hzero, Nat.zero_sub, if_pos hu]
    · exact (countP_set_le hi (fun h => absurd h hu)).trans hone

section Gifts
variable (p : O → Bool) (has : Running I ι ε O X → Bool) (gives : Event I O σ → Bool)

/-- A task has one thing to give at most: it has it from its launch, as work of `p`, or from the task
that has started it, which then has it no more. What an event gives its task had, and has no
more. -/
structure Spends (S : System I ι ε O X σ) (c c' : Cluster I ι ε O X σ) : Prop where
  launch : ∀ o, has ⟨S.place o, o, [], S.program o⟩ → p o
  goes : ∀ t ∈ c.tasks, ∀ heard task, Goes S t.origin t.task heard [] task →
    has { t with task := task } → has t
  starts : ∀ t ∈ c.tasks, ∀ n u k, t.task = .fork u k ∨ t.task = .invokeOn n u k →
    has ⟨n, t.origin, .started :: t.past,
      .await (fun _ => u.andThen (fun _ => .ret none) .throw)⟩ →
    has t ∧ ¬has { t with task := k }
  calls : ∀ t ∈ c.tasks, ∀ (e : Event I O σ) task, c'.log = e :: c.log → e.origin = t.origin →
    e.past = t.past → Goes S t.origin t.task none [.did e.op e.res] task →
    has { t with past := e.history, task := task } ∨ gives e →
    has t ∧ ¬(has { t with past := e.history, task := task } ∧ gives e)

variable {p has gives}

theorem Spends.countP_le {c' : Cluster I ι ε O X σ} {l : Label ι O} (h : Spends p has gives S c c')
    (hm : Move S c l c') (hl : ∀ o, l ≠ .launch o) :
    c'.tasks.countP has + c'.log.countP gives ≤ c.tasks.countP has + c.log.countP gives := by
  have goes : ∀ (heard : Option ι) {i : ℕ} {t : Running I ι ε O X}
      {task : Coroutine I ι ε (Option X)}, c.tasks[i]? = some t →
      Goes S t.origin t.task heard [] task →
      (c.tasks.set i { t with task := task }).countP has ≤ c.tasks.countP has :=
    fun _ _ _ _ hi hgoes => countP_set_le hi (h.goes _ (List.mem_of_getElem? hi) _ _ hgoes)
  have starts : ∀ {i n : ℕ} {t : Running I ι ε O X} {u : Coroutine I ι ε Unit}
      {k : Coroutine I ι ε (Option X)}, c.tasks[i]? = some t →
      t.task = .fork u k ∨ t.task = .invokeOn n u k → Goes S t.origin t.task none [] k →
      (c.start i t n u k).tasks.countP has ≤ c.tasks.countP has := by
    intro i n t u k hi htask hgoes
    simp only [Cluster.start, List.countP_append, List.countP_singleton]
    split
    · rename_i hnew
      obtain ⟨ht, hk⟩ := h.starts t (List.mem_of_getElem? hi) n u k htask hnew
      have hset := countP_set_add (p := has) hi { t with task := k }
      rw [ht, Bool.eq_false_iff.mpr hk] at hset
      exact hset.le
    · exact goes none hi hgoes
  cases hm with
  | tick d => exact Nat.le_refl _
  | launch o => exact absurd rfl (hl o)
  | resume v hi htask =>
    exact Nat.add_le_add_right (goes (some v) hi (htask ▸ .resume _ v)) _
  | again hi htask => exact Nat.add_le_add_right (goes none hi (htask ▸ .again _)) _
  | @fork i l t u k hi htask =>
    exact Nat.add_le_add_right (starts hi (.inl htask) (htask ▸ .fork u k)) _
  | @invokeOn i n l t u k hi htask =>
    exact Nat.add_le_add_right (starts hi (.inr htask) (htask ▸ .invokeOn n u k)) _
  | @act i l t op k hi htask =>
    have hcall := h.calls t (List.mem_of_getElem? hi) _ _ rfl rfl rfl (goes_of_act htask _)
    have hset := countP_set_add (p := has) hi { t with
      past := .did op (S.exec t.shard c.now op (c.shards t.shard)).1 :: t.past
      task := k (S.exec t.shard c.now op (c.shards t.shard)).1 }
    simp only [Event.history] at hcall
    simp only [Cluster.act, List.countP_cons]
    generalize has { t with
      past := .did op (S.exec t.shard c.now op (c.shards t.shard)).1 :: t.past
      task := k (S.exec t.shard c.now op (c.shards t.shard)).1 } = keeps at *
    generalize gives _ = given at *
    cases ht : has t <;> cases keeps <;> cases given <;> simp [ht] at hcall hset ⊢ <;> omega

/-- No more is given than work of `p` has been launched. -/
theorem given_of_run (hspends : ∀ ls c l c', run S.step S.start ls = some c →
      S.step c l = some c' → Spends p has gives S c c')
    {ls : List (Label ι O)} (hrun : run S.step S.start ls = some c) :
    c.log.countP gives ≤ ls.countP (Label.starts p) := by
  rw [← countP_launched_of_run p hrun]
  suffices h : c.tasks.countP has + c.log.countP gives ≤ c.tasks.countP (Running.launched p) from
    (Nat.le_add_left _ _).trans h
  refine invariant_of_reached (J := fun c : Cluster I ι ε O X σ =>
    c.tasks.countP has + c.log.countP gives ≤ c.tasks.countP (Running.launched p))
    (Nat.zero_le _) ?_ (along_true _ ls) hrun
  intro steps c l c' hreached hle hstep _
  have hs := hspends steps c l c' hreached hstep
  cases l with
  | launch o =>
    simp only [System.step] at hstep
    split at hstep
    · obtain rfl := Option.some.inj hstep
      have hnew := hs.launch o
      simp only [List.countP_append, List.countP_singleton, Running.launched, isNew, Bool.and_true]
      split
      · rename_i hhas
        rw [if_pos (hnew hhas)]
        omega
      · omega
    · cases hstep
  | _ =>
    rw [countP_launched_of_move (step_cases hstep) (fun _ h => by cases h)]
    exact (hs.countP_le (step_cases hstep) (fun _ h => by cases h)).trans hle

end Gifts
/-- A task of this origin that makes the call next stands on the shard with this history, or it has
made the call. -/
def Makes (c : Cluster I ι ε O X σ) (o : O) (j : ℕ) (past : List (Mark I)) (op : I.Op) : Prop :=
  (∃ t ∈ c.tasks, (t.origin = o ∧ t.shard = j ∧ t.past = past) ∧ t.task.Nears op) ∨
    ∃ e ∈ c.log, e.origin = o ∧ e.shard = j ∧ e.past = past ∧ e.op = op

theorem Makes.step {c' : Cluster I ι ε O X σ} {l : Label ι O} {o : O} {j : ℕ}
    {past : List (Mark I)} {op : I.Op} (h : Makes c o j past op) (hstep : S.step c l = some c') :
    Makes c' o j past op := by
  cases advance_of_step hstep with
  | stays more htasks hshards hlog =>
    rcases h with ⟨t, ht, hrest⟩ | ⟨e, he, hrest⟩
    · exact .inl ⟨t, htasks ▸ List.mem_append_left _ ht, hrest⟩
    · exact .inr ⟨e, hlog ▸ he, hrest⟩
  | @goes i t heard task more hi hgoes hheard htasks hshards hlog =>
    rcases h with h | ⟨e, he, hrest⟩
    · obtain ⟨t', ht', hrest⟩ := exists_tasks_set (u := { t with task := task }) hi h
        (fun hrest => ⟨hrest.1, nears_of_goes hrest.2 hgoes⟩)
      exact .inl ⟨t', htasks ▸ List.mem_append_left _ ht', hrest⟩
    · exact .inr ⟨e, hlog ▸ he, hrest⟩
  | @calls i t task e hi hgoes hshard horigin hpast hbefore hexec htasks hshards hlog =>
    by_cases hacts : (t.origin = o ∧ t.shard = j ∧ t.past = past) ∧ t.task.Nears op
    · obtain ⟨⟨ho, hj, hp⟩, hnears⟩ := hacts
      exact .inr ⟨e, hlog ▸ .head _, horigin.trans ho, hshard.trans hj, hpast.trans hp,
        op_of_goes hnears hgoes⟩
    · rcases h with h | ⟨e', he', hrest⟩
      · obtain ⟨t', ht', hrest⟩ := exists_tasks_set hi h (fun hrest => absurd hrest hacts)
        exact .inl ⟨t', htasks ▸ ht', hrest⟩
      · exact .inr ⟨e', hlog ▸ .tail _ he', hrest⟩

section Stories
variable {β : Type} (w : (op : I.Op) → I.Res op → List β)

/-- What the calls of a task yield since it was started, in order. -/
def story : List (Mark I) → List β
  | [] => []
  | .did op r :: past => story past ++ w op r
  | .started :: _ => []

/-- What the calls on shard `j` are said to yield, in order. -/
def chronicle (f : Event I O σ → List β) (j : ℕ) : List (Event I O σ) → List β
  | [] => []
  | e :: log => chronicle f j log ++ if e.shard = j then f e else []

/-- What the calls of task `i` yield, if it is on shard `j`. -/
def told (j : ℕ) (ts : List (Running I ι ε O X)) (i : ℕ) : List β :=
  ts[i]?.elim [] (fun t => if t.shard = j then story w t.past else [])

theorem told_append {j : ℕ} {ts : List (Running I ι ε O X)} {u : Running I ι ε O X}
    (hu : story w u.past = []) (i : ℕ) : told w j (ts ++ [u]) i = told w j ts i := by
  unfold told
  rw [List.getElem?_append]
  split
  · rfl
  · rename_i hlength
    rw [List.getElem?_eq_none (not_lt.mp hlength)]
    cases i - ts.length with
    | zero => simp [hu]
    | succ n => rfl

/-- A task goes on: to what it has yielded comes what it now yields. -/
theorem told_set {j i : ℕ} {ts : List (Running I ι ε O X)} {t u : Running I ι ε O X} {bs : List β}
    (hi : ts[i]? = some t) (hshard : u.shard = t.shard)
    (hpast : story w u.past = story w t.past ++ bs) :
    told w j (ts.set i u) =
      Function.update (told w j ts) i (told w j ts i ++ if t.shard = j then bs else []) := by
  funext k
  by_cases hk : k = i
  · subst hk
    rw [Function.update_self]
    unfold told
    rw [List.getElem?_set_self (List.getElem?_eq_some_iff.mp hi).1, hi]
    simp only [Option.elim_some, hshard, hpast]
    split <;> rfl
  · rw [Function.update_of_ne hk]
    unfold told
    rw [List.getElem?_set_ne (Ne.symm hk)]

theorem told_goOn {j i : ℕ} {ts : List (Running I ι ε O X)} {t : Running I ι ε O X}
    (hi : ts[i]? = some t) (task : Coroutine I ι ε (Option X)) :
    told w j (ts.set i { t with task := task }) = told w j ts := by
  rw [told_set w hi (u := { t with task := task }) rfl (List.append_nil _).symm, ite_self,
    List.append_nil, Function.update_eq_self]

/-- What holds of the log and the tasks of a shard at the start, and whenever a task yields more,
holds in every run. -/
theorem stories_of_run {J : List β → (ℕ → List β) → Prop} (hnil : J [] (fun _ => []))
    (hyields : ∀ log stories i bs, J log stories →
      J (log ++ bs) (Function.update stories i (stories i ++ bs)))
    {ls : List (Label ι O)} (hrun : run S.step S.start ls = some c) (j : ℕ) :
    J (chronicle (fun e => w e.op e.res) j c.log) (told w j c.tasks) := by
  refine run_induction (fun _ => True)
    (fun c => J (chronicle (fun e => w e.op e.res) j c.log) (told w j c.tasks))
    hnil ?_ (fun l _ => l.launches_true) hrun
  intro c l c' hc hl hm
  have same : ∀ {ts : List (Running I ι ε O X)}, told w j ts = told w j c.tasks →
      J (chronicle (fun e => w e.op e.res) j c.log) (told w j ts) := by
    intro ts hts
    rw [hts]
    exact hc
  cases hm with
  | tick d => exact hc
  | launch o hj => exact same (funext (told_append w rfl))
  | resume v hi htask => exact same (told_goOn w hi _)
  | fork hi htask | invokeOn hi htask =>
    exact same ((funext (told_append w rfl)).trans (told_goOn w hi _))
  | again hi htask => exact same (told_goOn w hi _)
  | @act i l t op k hi htask =>
    dsimp only [Cluster.act]
    generalize (S.exec t.shard c.now op (c.shards t.shard)).1 = r
    rw [told_set w hi (u := { t with past := .did op r :: t.past, task := k r }) rfl rfl]
    exact hyields _ _ i (if t.shard = j then w op r else []) hc

/-- What a task has yielded is a part of what all calls on its shard have, and all of it if the
other tasks have yielded nothing, and only then. -/
theorem told_of_run {ls : List (Label ι O)} (hrun : run S.step S.start ls = some c) (j i : ℕ) :
    (told w j c.tasks i).Sublist (chronicle (fun e => w e.op e.res) j c.log) ∧
      ((told w j c.tasks i).length = (chronicle (fun e => w e.op e.res) j c.log).length ↔
        ∀ k ≠ i, told w j c.tasks k = []) := by
  refine stories_of_run w (J := fun log stories => ∀ i, (stories i).Sublist log ∧
    ((stories i).length = log.length ↔ ∀ k ≠ i, stories k = [])) ?_ ?_ hrun j i
  · exact fun i => ⟨List.Sublist.refl [], fun _ _ _ => rfl, fun _ => rfl⟩
  intro log stories i₀ bs hall i
  obtain ⟨hsublist, hlength⟩ := hall i
  by_cases hi : i = i₀
  · subst hi
    have hothers : (∀ k ≠ i, Function.update stories i (stories i ++ bs) k = []) ↔
        ∀ k ≠ i, stories k = [] :=
      forall₂_congr fun k hk => by rw [Function.update_of_ne hk]
    rw [Function.update_self, hothers, ← hlength, List.length_append, List.length_append]
    exact ⟨hsublist.append_right bs, Nat.add_right_cancel_iff⟩
  · rw [Function.update_of_ne hi, List.length_append]
    refine ⟨hsublist.trans (List.sublist_append_left log bs), ?_⟩
    have hle := hsublist.length_le
    constructor
    · intro hsame k hk
      have hbs : bs = [] := List.length_eq_zero_iff.mp (by omega)
      have hold := hlength.mp (by omega)
      rw [hbs, List.append_nil, Function.update_eq_self]
      exact hold k hk
    · intro hnone
      have hacts := hnone i₀ (Ne.symm hi)
      rw [Function.update_self] at hacts
      obtain ⟨hstory, hbs⟩ := List.append_eq_nil_iff.mp hacts
      rw [hbs, List.append_nil, Function.update_eq_self] at hnone
      rw [hlength.mpr hnone, hbs]
      rfl

theorem mem_chronicle {f : Event I O σ → List β} {j : ℕ} {log : List (Event I O σ)} {b : β} :
    b ∈ chronicle f j log ↔ ∃ e ∈ log, e.shard = j ∧ b ∈ f e := by
  induction log with
  | nil => simp [chronicle]
  | cons e log ih =>
    rw [chronicle, List.mem_append, ih, or_comm, List.exists_mem_cons_iff]
    by_cases hj : e.shard = j <;> simp [hj]

/-- What the calls of a task have yielded, its shard has yielded, also to what acts on it. -/
theorem story_subset_of_run {ls : List (Label ι O)} (hrun : run S.step S.start ls = some c) :
    (∀ t ∈ c.tasks, story w t.past ⊆ chronicle (fun e => w e.op e.res) t.shard c.log) ∧
      ∀ e older, e :: older <:+ c.log →
        story w e.past ⊆ chronicle (fun e => w e.op e.res) e.shard older := by
  refine histories_of_run (fun _ => True)
    (fun log j _ past => story w past ⊆ chronicle (fun e => w e.op e.res) j log) ?_ ?_ ?_ ?_
    (fun l _ => l.launches_true) hrun
  · exact fun _ _ _ => List.nil_subset _
  · exact fun log e j _ past h => List.subset_append_of_subset_left _ h
  · intro log e h
    rw [Event.history, story, chronicle, if_pos rfl]
    exact List.append_subset.mpr
      ⟨List.subset_append_of_subset_left _ h, List.subset_append_right _ _⟩
  · exact fun _ _ _ _ _ _ => List.nil_subset _

end Stories

end ClusterRuns
