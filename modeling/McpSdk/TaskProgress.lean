import McpSdk.TaskCourses
import McpSdk.TaskTurns

/-!
# What a cluster can still do

A shard can always be brought to rest: the task that holds its core comes to its next suspension.
Then a task of the shard whose operations need not be waited for can go on alone, as far as its
text leads. The other shards take no part in it, and nothing new has to be started.
-/

namespace CooperativeTasks
variable {I : Interface} {ι ε α β : Type}

namespace Coroutine

/-- Induction on the text of a coroutine, without that of the tasks it starts. -/
@[elab_as_elim]
theorem text_induction {motive : Coroutine I ι ε α → Prop} (ret : ∀ a, motive (.ret a))
    (throw : ∀ e, motive (.throw e))
    (call : ∀ op k, (∀ r, motive (k r)) → motive (.call op k))
    (await : ∀ k, (∀ v, motive (k v)) → motive (.await k))
    (wait : ∀ op k, (∀ r, motive (k r)) → motive (.wait op k))
    (fork : ∀ u k, motive k → motive (.fork u k))
    (invokeOn : ∀ n u k, motive k → motive (.invokeOn n u k)) (t : Coroutine I ι ε α) :
    motive t := by
  induction t with
  | ret a => exact ret a
  | throw e => exact throw e
  | call op k ih => exact call op k (fun r => ih r ret throw call await wait fork invokeOn)
  | await k ih => exact await k (fun v => ih v ret throw call await wait fork invokeOn)
  | wait op k ih => exact wait op k (fun r => ih r ret throw call await wait fork invokeOn)
  | fork u k _ ih => exact fork u k (ih ret throw call await wait fork invokeOn)
  | invokeOn n u k _ ih => exact invokeOn n u k (ih ret throw call await wait fork invokeOn)

/-- Before its first suspension the coroutine returns nothing but values of `R`. -/
def AtOnce : {α : Type} → (α → Prop) → Coroutine I ι ε α → Prop
  | _, R, .ret a => R a
  | _, _, .throw _ => True
  | _, R, .call _ k => ∀ r, (k r).AtOnce R
  | _, _, .await _ => True
  | _, _, .wait _ _ => True
  | _, R, .fork _ k => k.AtOnce R
  | _, R, .invokeOn _ _ k => k.AtOnce R

theorem atOnce_true (t : Coroutine I ι ε α) : t.AtOnce (fun _ => True) := by
  induction t with
  | call op k ih => exact fun r => ih r
  | fork u k _ ih => exact ih
  | invokeOn n u k _ ih => exact ih
  | _ => trivial

theorem AtOnce.andThen {R : α → Prop} {R' : β → Prop} {t : Coroutine I ι ε α}
    {k : α → Coroutine I ι ε β} {h : ε → Coroutine I ι ε β} (ht : t.AtOnce R)
    (hk : ∀ a, R a → (k a).AtOnce R') (hh : ∀ e, (h e).AtOnce R') :
    (t.andThen k h).AtOnce R' := by
  induction t with
  | ret a => exact hk a ht
  | throw e => exact hh e
  | call op c ih => exact fun r => ih r (ht r) hk
  | await c _ => trivial
  | wait op c _ => trivial
  | fork u c _ ih => exact ih ht hk
  | invokeOn n u c _ ih => exact ih ht hk

theorem AtOnce.bind {R : α → Prop} {R' : β → Prop} {t : Coroutine I ι ε α}
    {k : α → Coroutine I ι ε β} (ht : t.AtOnce R) (hk : ∀ a, R a → (k a).AtOnce R') :
    (t >>= k).AtOnce R' :=
  ht.andThen hk (fun _ => trivial)

end Coroutine
end CooperativeTasks

namespace ClusterRuns
open CooperativeTasks LabelledRuns

variable {I : Interface} {ι ε O X σ Φ : Type} {S : System I ι ε O X σ}
  {c c' c'' : Cluster I ι ε O X σ} {i j : ℕ} {t u : Running I ι ε O X}

/-- The history has grown by calls. -/
def Grown (past past' : List (Mark I)) : Prop :=
  ∃ marks, .started ∉ marks ∧ past' = marks ++ past

theorem Grown.refl (past : List (Mark I)) : Grown past past := ⟨[], List.not_mem_nil, rfl⟩

theorem Grown.trans {past past' past'' : List (Mark I)} (h : Grown past past')
    (h' : Grown past' past'') : Grown past past'' := by
  obtain ⟨marks, hmarks, rfl⟩ := h
  obtain ⟨marks', hmarks', rfl⟩ := h'
  refine ⟨marks' ++ marks, ?_, (List.append_assoc _ _ _).symm⟩
  simp [hmarks, hmarks']

theorem Grown.notMem {past past' : List (Mark I)} (h : Grown past past') (hnew : .started ∉ past) :
    .started ∉ past' := by
  obtain ⟨marks, hmarks, rfl⟩ := h
  simp [hmarks, hnew]

/-- What calls keep of the phases of a contract. -/
theorem Grown.phase {C : Contract I Φ} {G : Φ → Prop} (hnext : ∀ q op r, G q → G (C.next q op r))
    {past past' : List (Mark I)} (h : Grown past past') (hG : G (phase C past)) :
    G (phase C past') := by
  obtain ⟨marks, hmarks, rfl⟩ := h
  induction marks with
  | nil => exact hG
  | cons mark marks ih =>
    have hold := ih (fun hmem => hmarks (.tail _ hmem))
    cases mark with
    | did op r => exact hnext _ op r hold
    | started => exact absurd (.head _) hmarks

/-- Task `i`, which is `t`, goes on as `u`. What it starts does not run yet. -/
structure Onward (c c' : Cluster I ι ε O X σ) (i : ℕ) (t u : Running I ι ε O X) : Prop where
  found : c.tasks[i]? = some t
  shard : u.shard = t.shard
  origin : u.origin = t.origin
  past : Grown t.past u.past
  tasks : ∃ more : List (Running I ι ε O X), (∀ m ∈ more, m.busy = false) ∧
    c'.tasks = c.tasks.set i u ++ more
  now : c'.now = c.now
  shards : ∀ k, k ≠ t.shard → c'.shards k = c.shards k

theorem onward_act (hi : c.tasks[i]? = some t) (op : I.Op)
    (k : I.Res op → Coroutine I ι ε (Option X)) : ∃ r, r = (S.exec t.shard c.now op
      (c.shards t.shard)).1 ∧ Onward c (c.act S i t op k) i t
        { t with past := .did op r :: t.past, task := k r } :=
  ⟨_, rfl, hi, rfl, rfl, ⟨[_], by simp, rfl⟩, ⟨[], nofun, (List.append_nil _).symm⟩, rfl,
    fun _ hk => Function.update_of_ne hk _ _⟩

theorem onward_start (hi : c.tasks[i]? = some t) (n : ℕ) (v : Coroutine I ι ε Unit)
    (k : Coroutine I ι ε (Option X)) :
    Onward c (c.start i t n v k) i t { t with task := k } :=
  ⟨hi, rfl, rfl, .refl _, ⟨_, List.forall_mem_singleton.mpr rfl, rfl⟩, rfl,
    fun _ _ => rfl⟩

theorem onward_goOn (hi : c.tasks[i]? = some t) (k : Coroutine I ι ε (Option X)) :
    Onward c (c.goOn i t k) i t { t with task := k } :=
  ⟨hi, rfl, rfl, .refl _, ⟨[], nofun, (List.append_nil _).symm⟩, rfl, fun _ _ => rfl⟩

namespace Onward

theorem getElem (h : Onward c c' i t u) : c'.tasks[i]? = some u := by
  obtain ⟨more, -, htasks⟩ := h.tasks
  have hlt : i < (c.tasks.set i u).length := by
    rw [List.length_set]
    exact (List.getElem?_eq_some_iff.mp h.found).1
  rw [htasks, List.getElem?_append_left hlt, List.getElem?_set_self (by simpa using hlt)]

end Onward

/-- Nothing but shard `j` has taken part, and its tasks have at most gone on. -/
structure OnShard (j : ℕ) (c c' : Cluster I ι ε O X σ) : Prop where
  now : c'.now = c.now
  shards : ∀ k, k ≠ j → c'.shards k = c.shards k
  tasks : ∀ (i : ℕ) (t : Running I ι ε O X), c.tasks[i]? = some t → ∃ t', c'.tasks[i]? = some t' ∧
    t'.shard = t.shard ∧ t'.origin = t.origin ∧ Grown t.past t'.past ∧ (t.shard ≠ j → t' = t)

theorem OnShard.refl (j : ℕ) (c : Cluster I ι ε O X σ) : OnShard j c c :=
  ⟨rfl, fun _ _ => rfl, fun _ t ht => ⟨t, ht, rfl, rfl, .refl _, fun _ => rfl⟩⟩

theorem OnShard.trans (h : OnShard j c c') (h' : OnShard j c' c'') : OnShard j c c'' := by
  refine ⟨h'.now.trans h.now, fun k hk => (h'.shards k hk).trans (h.shards k hk), ?_⟩
  intro i t ht
  obtain ⟨t', ht', hshard, horigin, hpast, helse⟩ := h.tasks i t ht
  obtain ⟨t'', ht'', hshard', horigin', hpast', helse'⟩ := h'.tasks i t' ht'
  refine ⟨t'', ht'', hshard'.trans hshard, horigin'.trans horigin, hpast.trans hpast', ?_⟩
  intro hj
  rw [helse' (by rwa [hshard]), helse hj]

theorem Onward.onShard (h : Onward c c' i t u) : OnShard t.shard c c' := by
  refine ⟨h.now, h.shards, fun k v hv => ?_⟩
  by_cases hk : k = i
  · subst hk
    obtain rfl : t = v := Option.some.inj (h.found.symm.trans hv)
    exact ⟨u, h.getElem, h.shard, h.origin, h.past, fun hne => absurd rfl hne⟩
  · obtain ⟨more, -, htasks⟩ := h.tasks
    have hlt : k < (c.tasks.set i u).length := by
      rw [List.length_set]
      exact (List.getElem?_eq_some_iff.mp hv).1
    refine ⟨v, ?_, rfl, rfl, .refl _, fun _ => rfl⟩
    rw [htasks, List.getElem?_append_left hlt, List.getElem?_set_ne (Ne.symm hk), hv]

variable (S) in
/-- The cluster comes from one state to the other by steps of the tasks of shard `j` alone. -/
def Proceeds (j : ℕ) (c c' : Cluster I ι ε O X σ) : Prop :=
  ∃ ls : List (Label ι O), (∀ l ∈ ls, l.Launches (fun _ => False)) ∧
    run S.step c ls = some c' ∧ OnShard j c c'

theorem Proceeds.refl (j : ℕ) (c : Cluster I ι ε O X σ) : Proceeds S j c c :=
  ⟨[], nofun, rfl, .refl j c⟩

theorem Proceeds.trans (h : Proceeds S j c c') (h' : Proceeds S j c' c'') :
    Proceeds S j c c'' := by
  obtain ⟨ls, hls, hrun, hshard⟩ := h
  obtain ⟨ls', hls', hrun', hshard'⟩ := h'
  refine ⟨ls ++ ls', ?_, run_trans hrun hrun', hshard.trans hshard'⟩
  intro l hl
  rcases List.mem_append.mp hl with hl | hl
  · exact hls l hl
  · exact hls' l hl

theorem Onward.proceeds (h : Onward c c' i t u) {l : Label ι O} (hstep : S.step c l = some c')
    (hl : l.Launches (fun _ => False)) : Proceeds S t.shard c c' :=
  ⟨[l], List.forall_mem_singleton.mpr hl, by rw [run_singleton, hstep], h.onShard⟩

/-- No other task than `i` holds the core of shard `j`. -/
def OthersRest (c : Cluster I ι ε O X σ) (i j : ℕ) : Prop :=
  ∀ (k : ℕ) (v : Running I ι ε O X), k ≠ i → c.tasks[k]? = some v → v.shard = j → v.busy = false

theorem OthersRest.idle (h : OthersRest c i j) (hi : c.tasks[i]? = some t) (ht : t.busy = false) :
    c.idle j := by
  apply List.all_eq_true.mpr
  intro v hv
  obtain ⟨k, hk⟩ := List.mem_iff_getElem?.mp hv
  by_cases hki : k = i
  · subst hki
    obtain rfl : t = v := Option.some.inj (hi.symm.trans hk)
    simp [ht]
  · by_cases hj : v.shard = j
    · simp [h k v hki hk hj]
    · simp [hj]

theorem OthersRest.of_idle (h : c.idle j) : OthersRest c i j :=
  fun _ _ _ hk hj => busy_of_idle h (List.mem_of_getElem? hk) hj

theorem Onward.othersRest (h : Onward c c' i t u) (hothers : OthersRest c i j) :
    OthersRest c' i j := by
  intro k v hk hv hj
  obtain ⟨more, hmore, htasks⟩ := h.tasks
  rw [htasks, List.getElem?_append] at hv
  split at hv
  · rw [List.getElem?_set_ne (Ne.symm hk)] at hv
    exact hothers k v hk hv hj
  · exact hmore v (List.mem_of_getElem? hv)

/-- Steps of its shard bring task `i`, which is `t`, to where `Z` holds. -/
def Comes (S : System I ι ε O X σ) (i : ℕ)
    (Z : Cluster I ι ε O X σ → Running I ι ε O X → Prop) (c : Cluster I ι ε O X σ)
    (t : Running I ι ε O X) : Prop :=
  ∃ c' u, Proceeds S t.shard c c' ∧ c'.tasks[i]? = some u ∧ u.shard = t.shard ∧
    u.origin = t.origin ∧ Z c' u

section Comes
variable {Z Z' : Cluster I ι ε O X σ → Running I ι ε O X → Prop}

theorem Comes.here (hi : c.tasks[i]? = some t) (h : Z c t) : Comes S i Z c t :=
  ⟨c, t, .refl _ _, hi, rfl, rfl, h⟩

theorem Comes.onward (honward : Onward c c' i t u) {l : Label ι O} (hstep : S.step c l = some c')
    (hl : l.Launches (fun _ => False)) (h : Comes S i Z c' u) : Comes S i Z c t := by
  obtain ⟨c'', v, hproceeds, hv, hshard, horigin, hZ⟩ := h
  rw [honward.shard] at hproceeds hshard
  exact ⟨c'', v, (honward.proceeds hstep hl).trans hproceeds, hv, hshard,
    horigin.trans honward.origin, hZ⟩

theorem Comes.andThen (h : Comes S i Z c t)
    (hZ : ∀ c' u, c'.tasks[i]? = some u → u.shard = t.shard → u.origin = t.origin → Z c' u →
      Comes S i Z' c' u) : Comes S i Z' c t := by
  obtain ⟨c', u, hproceeds, hu, hshard, horigin, h⟩ := h
  obtain ⟨c'', v, hproceeds', hv, hshard', horigin', h'⟩ := hZ c' u hu hshard horigin h
  rw [hshard] at hproceeds' hshard'
  exact ⟨c'', v, hproceeds.trans hproceeds', hv, hshard', horigin'.trans horigin, h'⟩

end Comes

/-- The turn of a task is over, or it is at the head of its loop with a value of `R`. -/
def TurnOver (i : ℕ) (R : Option X → Prop) (c : Cluster I ι ε O X σ) (t : Running I ι ε O X) :
    Prop :=
  OthersRest c i t.shard ∧ (t.busy = false ∨ ∃ x, t.task = .ret (some x) ∧ R (some x))

/-- A task that holds the core of its shard comes to the end of its turn. -/
theorem comes_turnOver {R : Option X → Prop} (task : Coroutine I ι ε (Option X)) :
    ∀ {c : Cluster I ι ε O X σ} {t : Running I ι ε O X}, c.tasks[i]? = some t → t.task = task →
      task.AtOnce R → OthersRest c i t.shard → Comes S i (TurnOver i R) c t := by
  induction task using Coroutine.text_induction with
  | ret x =>
    intro c t hi htask honce hothers
    apply Comes.here hi
    cases x with
    | none => exact ⟨hothers, .inl (by rw [Running.busy, htask])⟩
    | some x => exact ⟨hothers, .inr ⟨x, htask, honce⟩⟩
  | throw | await | wait =>
    intro c t hi htask _ hothers
    exact .here hi ⟨hothers, .inl (by rw [Running.busy, htask])⟩
  | call op k ih =>
    intro c t hi htask honce hothers
    obtain ⟨r, -, honward⟩ := onward_act (S := S) hi op k
    have hstep : S.step c (.advance i) = some (c.act S i t op k) := by
      simp [System.step, hi, htask]
    apply Comes.onward honward hstep trivial
    exact ih r honward.getElem rfl (honce r) (honward.othersRest hothers)
  | fork v k ih =>
    intro c t hi htask honce hothers
    have honward := onward_start hi t.shard v k
    have hstep : S.step c (.advance i) = some (c.start i t t.shard v k) := by
      simp [System.step, hi, htask]
    apply Comes.onward honward hstep trivial
    exact ih honward.getElem rfl honce (honward.othersRest hothers)
  | invokeOn n v k ih =>
    intro c t hi htask honce hothers
    have honward := onward_start hi n v k
    have hstep : S.step c (.advance i) = some (c.start i t n v k) := by
      simp [System.step, hi, htask]
    apply Comes.onward honward hstep trivial
    exact ih honward.getElem rfl honce (honward.othersRest hothers)

/-- A shard can be brought to rest, if each turn of a loop comes to a suspension. -/
theorem exists_idle (hagain : ∀ o x, (S.again o x).AtOnce (· = none)) (hone : OneBusy c) (j : ℕ) :
    ∃ c', Proceeds S j c c' ∧ c'.idle j := by
  by_cases hidle : c.idle j
  · exact ⟨c, .refl j c, hidle⟩
  · simp only [Cluster.idle, List.all_eq_true, Bool.or_eq_true, bne_iff_ne, ne_eq,
      Bool.not_eq_true', not_forall, not_or, not_not, Bool.not_eq_false] at hidle
    obtain ⟨t, ht, rfl, hbusy⟩ := hidle
    obtain ⟨i, hi⟩ := List.mem_iff_getElem?.mp ht
    have hothers : OthersRest c i t.shard := by
      intro k v hk hv hshard
      by_contra hv'
      exact hk (hone k i v t hv hi hshard (Bool.of_not_eq_false hv') hbusy)
    have hcomes : Comes S i (TurnOver i (· = none)) c t := by
      apply (comes_turnOver t.task hi rfl t.task.atOnce_true hothers).andThen
      rintro c₁ u hu hshard horigin ⟨hothers₁, hrest | ⟨x, hx, -⟩⟩
      · exact .here hu ⟨hothers₁, .inl hrest⟩
      · have honward := onward_goOn hu (S.again u.origin x)
        have hstep : S.step c₁ (.advance i) = some (c₁.goOn i u (S.again u.origin x)) := by
          simp [System.step, hu, hx]
        apply Comes.onward honward hstep trivial
        exact comes_turnOver _ honward.getElem rfl (hagain _ x) (honward.othersRest hothers₁)
    obtain ⟨c', u, hproceeds, hu, hshard, -, hothers', hrest | ⟨x, -, hx⟩⟩ := hcomes
    · rw [hshard] at hothers'
      exact ⟨c', hproceeds, hothers'.idle hu hrest⟩
    · cases hx

section Arrivals
variable {C : Contract I Φ} {G : Φ → Prop} {Q : Option X → Φ → Prop} {E : ε → Φ → Prop}

/-- What a task comes to by its text alone: the phase `G`, which it is in at its end. Up to there
its operations are ready, and none waits for other tasks. -/
structure Leads (S : System I ι ε O X σ) (C : Contract I Φ) (G : Φ → Prop)
    (Q : Option X → Φ → Prop) (E : ε → Φ → Prop) : Prop where
  ready : ∀ q op s, ¬G q → C.allows q op → S.ready op s ∧ S.gathers op = none
  answers : ∀ op r, C.answers op r
  returns : ∀ x q, Q x q → G q
  fails : ∀ e q, E e q → G q

/-- On a shard where nothing else runs a task comes to where its text leads. -/
theorem comes_arrival [Inhabited ι] (hC : Leads S C G Q E) (task : Coroutine I ι ε (Option X)) :
    ∀ {c : Cluster I ι ε O X σ} {t : Running I ι ε O X}, c.tasks[i]? = some t → t.task = task →
      t.shard < S.count → OthersRest c i t.shard → task.Follows C (phase C t.past) Q E →
      Comes S i (fun _ u => G (phase C u.past)) c t := by
  induction task using Coroutine.text_induction with
  | ret x =>
    intro c t hi _ _ _ hfollows
    exact .here hi (hC.returns x _ hfollows)
  | throw e =>
    intro c t hi _ _ _ hfollows
    exact .here hi (hC.fails e _ hfollows)
  | call op k ih =>
    intro c t hi htask hj hothers hfollows
    obtain ⟨r, -, honward⟩ := onward_act (S := S) hi op k
    have hstep : S.step c (.advance i) = some (c.act S i t op k) := by
      simp [System.step, hi, htask]
    apply Comes.onward honward hstep trivial
    exact ih r honward.getElem rfl hj (honward.othersRest hothers)
      (hfollows.2 r (hC.answers op r))
  | await k ih =>
    intro c t hi htask hj hothers hfollows
    have honward := onward_goOn hi (k default)
    have hidle := hothers.idle hi (by rw [Running.busy, htask])
    have hstep : S.step c (.resume i default) = some (c.goOn i t (k default)) := by
      simp [System.step, hi, htask, hj, hidle]
    apply Comes.onward honward hstep trivial
    exact ih default honward.getElem rfl hj (honward.othersRest hothers) (hfollows.2 default)
  | wait op k ih =>
    intro c t hi htask hj hothers hfollows
    by_cases hG : G (phase C t.past)
    · exact .here hi hG
    · obtain ⟨r, -, honward⟩ := onward_act (S := S) hi op k
      have hidle := hothers.idle hi (by rw [Running.busy, htask])
      obtain ⟨hready, hgathers⟩ := hC.ready _ op (c.shards t.shard) hG hfollows.2.1
      have hstep : S.step c (.wake i) = some (c.act S i t op k) := by
        simp [System.step, hi, htask, hj, hidle, hready, hgathers]
      apply Comes.onward honward hstep trivial
      exact ih r honward.getElem rfl hj (honward.othersRest hothers)
        (hfollows.2.2 r (hC.answers op r))
  | fork v k ih =>
    intro c t hi htask hj hothers hfollows
    have honward := onward_start hi t.shard v k
    have hstep : S.step c (.advance i) = some (c.start i t t.shard v k) := by
      simp [System.step, hi, htask]
    apply Comes.onward honward hstep trivial
    exact ih honward.getElem rfl hj (honward.othersRest hothers) hfollows.2
  | invokeOn n v k ih =>
    intro c t hi htask hj hothers hfollows
    have honward := onward_start hi n v k
    have hstep : S.step c (.advance i) = some (c.start i t n v k) := by
      simp [System.step, hi, htask]
    apply Comes.onward honward hstep trivial
    exact ih honward.getElem rfl hj (honward.othersRest hothers) hfollows.2

variable (P : O → Prop) {ls : List (Label ι O)}

/-- The programs of `P` lead to where `G` holds, and their loops keep it. -/
structure LeadsAll (S : System I ι ε O X σ) (C : Contract I Φ) (P : O → Prop) (G : Φ → Prop)
    (Q : Option X → Φ → Prop) (E : ε → Φ → Prop) : Prop extends Leads S C G Q E where
  pauses : ∀ o x, (S.again o x).AtOnce (· = none)
  program : ∀ o, P o → (S.program o).Follows C C.init Q E
  again : ∀ o x q, P o → Q (some x) q → (S.again o x).Follows C q Q E

theorem oneBusy_of_run (hrun : run S.step S.start ls = some c) : OneBusy c := by
  refine invariant_of_run (I := fun c => OneBusy c) (C := fun _ _ _ => True) ?_ ?_
    (along_true _ _) hrun
  · exact fun c l c' h hstep _ => h.turn (turn_of_step hstep)
  · intro i k t u hi
    cases hi

/-- A program that no other task has started runs on a shard that is there. -/
theorem launched_lt_of_run (hrun : run S.step S.start ls = some c) :
    ∀ t ∈ c.tasks, .started ∉ t.past → t.shard < S.count := by
  refine run_induction (fun _ => True)
    (fun c => ∀ t ∈ c.tasks, .started ∉ t.past → t.shard < S.count)
    (fun t ht => (List.not_mem_nil ht).elim) ?_ (fun l _ => l.launches_true) hrun
  intro c l c' hc _ hmove
  cases hmove with
  | tick d => exact hc
  | launch o hj => exact forall_tasks_append hc (fun _ => hj)
  | resume v hi htask | again hi htask =>
    have hold := hc _ (List.mem_of_getElem? hi)
    refine forall_tasks_set hc ?_ _
    exact hold
  | act hi htask =>
    have hold := hc _ (List.mem_of_getElem? hi)
    refine forall_tasks_set hc (fun hnew => ?_) _
    exact hold (fun hmem => hnew (.tail _ hmem))
  | fork hi htask | invokeOn hi htask =>
    have hold := hc _ (List.mem_of_getElem? hi)
    refine forall_tasks_append (forall_tasks_set hc ?_ _) (fun hnew => absurd (.head _) hnew)
    exact hold

/-- In every reached state a program of `P` can still come to where it leads, by steps of its own
shard. -/
theorem arrives_of_run [Inhabited ι] (hC : LeadsAll S C P G Q E)
    (hrun : run S.step S.start ls = some c) (hi : c.tasks[i]? = some t) (hP : P t.origin)
    (hnew : .started ∉ t.past) : ∃ c' u, Proceeds S t.shard c c' ∧ c'.tasks[i]? = some u ∧
      G (phase C u.past) := by
  obtain ⟨c₁, hproceeds, hidle⟩ := exists_idle hC.pauses (oneBusy_of_run hrun) t.shard
  obtain ⟨ls₁, hls₁, hrun₁, hshard₁⟩ := id hproceeds
  obtain ⟨t₁, hi₁, hshard, horigin, hgrown, -⟩ := hshard₁.tasks i t hi
  have hreached := run_trans hrun hrun₁
  have hnew₁ := hgrown.notMem hnew
  have hmem₁ := List.mem_of_getElem? hi₁
  have hfollows : t₁.task.Follows C (phase C t₁.past) Q E := by
    refine courses_of_run (fun _ => True)
      (fun o past task => P o → task.Follows C (phase C past) Q E) (fun o _ => hC.program o) ?_
      (fun l _ => l.launches_true) hreached t₁ hmem₁ hnew₁ (horigin ▸ hP)
    intro o past task heard marks task' hold hgoes ho
    have hold := hold ho
    cases hgoes with
    | resume k v => exact hold.2 v
    | call op k r => exact hold.2 r (hC.answers op r)
    | wait op k r => exact hold.2.2 r (hC.answers op r)
    | fork v k => exact hold.2
    | invokeOn n v k => exact hold.2
    | again x => exact hC.again o x _ ho hold
  have hlt := launched_lt_of_run hreached t₁ hmem₁ hnew₁
  rw [← hshard] at hidle
  obtain ⟨c', u, hproceeds', hu, -, -, hG⟩ :=
    comes_arrival hC.toLeads t₁.task hi₁ rfl hlt (.of_idle hidle) hfollows
  rw [hshard] at hproceeds'
  exact ⟨c', u, hproceeds.trans hproceeds', hu, hG⟩

/-- So can all of them, one after another. -/
theorem all_arrive_of_run [Inhabited ι] (hC : LeadsAll S C P G Q E)
    (hG : ∀ q op r, G q → G (C.next q op r)) (hrun : run S.step S.start ls = some c) :
    ∃ more c', (∀ l ∈ more, l.Launches (fun _ => False)) ∧
      run S.step S.start (ls ++ more) = some c' ∧ c'.now = c.now ∧
      ∀ (i : ℕ) (t : Running I ι ε O X), c.tasks[i]? = some t → P t.origin → .started ∉ t.past →
        ∃ u, c'.tasks[i]? = some u ∧ u.origin = t.origin ∧ G (phase C u.past) := by
  have first : ∀ n : ℕ, ∃ more c', (∀ l ∈ more, l.Launches (fun _ => False)) ∧
      run S.step S.start (ls ++ more) = some c' ∧ c'.now = c.now ∧
      ∀ (i : ℕ) (t : Running I ι ε O X), c.tasks[i]? = some t → ∃ u, c'.tasks[i]? = some u ∧
        u.origin = t.origin ∧ Grown t.past u.past ∧
        (i < n → P t.origin → .started ∉ t.past → G (phase C u.past)) := by
    intro n
    induction n with
    | zero =>
      refine ⟨[], c, nofun, by rw [List.append_nil, hrun], rfl, fun i t hi => ?_⟩
      exact ⟨t, hi, rfl, .refl _, fun hlt => absurd hlt (Nat.not_lt_zero i)⟩
    | succ n ih =>
      obtain ⟨more, c', hmore, hrun', hnow, htasks⟩ := ih
      -- task `n` goes on, if it is a program of `P`
      have hnext : ∃ j c'', Proceeds S j c' c'' ∧ ∀ t, c.tasks[n]? = some t → P t.origin →
          .started ∉ t.past → ∃ u, c''.tasks[n]? = some u ∧ G (phase C u.past) := by
        cases hn : c.tasks[n]? with
        | none => exact ⟨0, c', .refl 0 c', fun t ht => by cases ht⟩
        | some t =>
          by_cases ht : P t.origin ∧ .started ∉ t.past
          · obtain ⟨u, hu, horigin, hgrown, -⟩ := htasks n t hn
            obtain ⟨c'', v, hproceeds, hv, hG'⟩ :=
              arrives_of_run P hC hrun' hu (horigin ▸ ht.1) (hgrown.notMem ht.2)
            refine ⟨u.shard, c'', hproceeds, fun t' ht' _ _ => ⟨v, hv, hG'⟩⟩
          · refine ⟨0, c', .refl 0 c', fun t' ht' hP hnew => ?_⟩
            obtain rfl := Option.some.inj ht'
            exact absurd ⟨hP, hnew⟩ ht
      obtain ⟨j, c'', ⟨ls₁, hls₁, hrun₁, hshard⟩, hn⟩ := hnext
      refine ⟨more ++ ls₁, c'', ?_, ?_, hshard.now.trans hnow, fun i t hi => ?_⟩
      · intro l hl
        rcases List.mem_append.mp hl with hl | hl
        · exact hmore l hl
        · exact hls₁ l hl
      · rw [← List.append_assoc]
        exact run_trans hrun' hrun₁
      · obtain ⟨u, hu, horigin, hgrown, hG'⟩ := htasks i t hi
        obtain ⟨v, hv, -, horigin', hgrown', -⟩ := hshard.tasks i u hu
        refine ⟨v, hv, horigin'.trans horigin, hgrown.trans hgrown', fun hlt hP hnew => ?_⟩
        rcases Nat.lt_succ_iff_lt_or_eq.mp hlt with hlt | rfl
        · exact hgrown'.phase hG (hG' hlt hP hnew)
        · obtain ⟨w, hw, hGw⟩ := hn t hi hP hnew
          obtain rfl : v = w := Option.some.inj (hv.symm.trans hw)
          exact hGw
  obtain ⟨more, c', hmore, hrun', hnow, htasks⟩ := first c.tasks.length
  refine ⟨more, c', hmore, hrun', hnow, fun i t hi hP hnew => ?_⟩
  obtain ⟨u, hu, horigin, -, hG'⟩ := htasks i t hi
  exact ⟨u, hu, horigin, hG' (List.getElem?_eq_some_iff.mp hi).1 hP hnew⟩

end Arrivals

end ClusterRuns
