import McpSdk.ClusterRuns
import Mathlib.Data.List.Induction

/-!
# Turns of a task

A task that is at no suspension holds the core of its shard: no other task of the shard does
anything before it rests. On the log this says that a call after which its task may not rest is
followed, on its shard, by the next call of that task.
-/

namespace ClusterRuns
open CooperativeTasks LabelledRuns

variable {I : Interface} {ι ε O X σ Φ : Type} {S : System I ι ε O X σ}
  {c c' : Cluster I ι ε O X σ}

theorem busy_of_idle {j : ℕ} (h : c.idle j) {t : Running I ι ε O X} (ht : t ∈ c.tasks)
    (hj : t.shard = j) : t.busy = false := by
  have hall := List.all_eq_true.mp h t ht
  simpa [hj] using hall

/-- The cases of a step, as far as they concern who goes on: a program is started on an idle shard,
or a task goes on that held its core or had an idle shard. What it starts does not run yet. -/
inductive Turn (S : System I ι ε O X σ) (c c' : Cluster I ι ε O X σ) : Prop
  | still (htasks : c'.tasks = c.tasks) (hlog : c'.log = c.log)
  | launched (t : Running I ι ε O X) (hidle : c.idle t.shard) (htasks : c'.tasks = c.tasks ++ [t])
      (hlog : c'.log = c.log)
  | goes {i : ℕ} {t : Running I ι ε O X} (u : Running I ι ε O X) (more : List (Running I ι ε O X))
      (hi : c.tasks[i]? = some t) (hcore : t.busy = true ∨ c.idle t.shard)
      (hshard : u.shard = t.shard) (horigin : u.origin = t.origin)
      (hmore : ∀ t' ∈ more, t'.busy = false) (htasks : c'.tasks = c.tasks.set i u ++ more)
      (hlog : c'.log = c.log ∧ u.past = t.past ∨ ∃ e, c'.log = e :: c.log ∧ e.shard = t.shard ∧
        e.origin = t.origin ∧ e.past = t.past ∧ u.past = e.history)

theorem turn_of_step {l : Label ι O} (h : S.step c l = some c') : Turn S c c' := by
  have acts : ∀ {i : ℕ} {t : Running I ι ε O X} (op : I.Op)
      (k : I.Res op → Coroutine I ι ε (Option X)), c.tasks[i]? = some t →
      t.busy = true ∨ c.idle t.shard → Turn S c (c.act S i t op k) := by
    intro i t op k hi hcore
    refine .goes _ [] hi hcore ?_ ?_ nofun (List.append_nil (c.act S i t op k).tasks).symm
      (.inr ⟨_, rfl, ?_, ?_, ?_, ?_⟩) <;> rfl
  have starts : ∀ {i : ℕ} {t : Running I ι ε O X} (n : ℕ) (u : Coroutine I ι ε Unit)
      (k : Coroutine I ι ε (Option X)), c.tasks[i]? = some t → t.busy = true →
      Turn S c (c.start i t n u k) := by
    intro i t n u k hi hbusy
    refine .goes { t with task := k } _ hi (.inl hbusy) rfl rfl ?_ rfl (.inl ⟨rfl, rfl⟩)
    exact List.forall_mem_singleton.mpr rfl
  have goesOn : ∀ {i : ℕ} {t : Running I ι ε O X} (k : Coroutine I ι ε (Option X)),
      c.tasks[i]? = some t → t.busy = true ∨ c.idle t.shard → Turn S c (c.goOn i t k) := by
    intro i t k hi hcore
    exact .goes { t with task := k } [] hi hcore rfl rfl nofun (List.append_nil _).symm
      (.inl ⟨rfl, rfl⟩)
  have busy : ∀ {t : Running I ι ε O X} {task : Coroutine I ι ε (Option X)}, t.task = task →
      Running.busy { t with task := task } = true → t.busy = true := by
    rintro t _ rfl h
    exact h
  cases l with
  | tick d =>
    obtain rfl := Option.some.inj h
    exact .still rfl rfl
  | launch o =>
    simp only [System.step] at h
    split at h
    · rename_i hj
      obtain rfl := Option.some.inj h
      exact .launched _ hj.2 rfl rfl
    · cases h
  | resume i v =>
    obtain ⟨t, hi, h⟩ := Option.bind_eq_some_iff.mp h
    split at h
    · rename_i hj
      split at h
      · obtain rfl := Option.some.inj h
        exact goesOn _ hi (.inr hj.2)
      · cases h
    · cases h
  | wake i =>
    obtain ⟨t, hi, h⟩ := Option.bind_eq_some_iff.mp h
    split at h
    · split at h
      · rename_i hr
        obtain rfl := Option.some.inj h
        exact acts _ _ hi (.inr hr.2.1)
      · cases h
    · cases h
  | advance i =>
    obtain ⟨t, hi, h⟩ := Option.bind_eq_some_iff.mp h
    split at h
    · obtain rfl := Option.some.inj h
      exact acts _ _ hi (.inl (busy ‹_› rfl))
    · obtain rfl := Option.some.inj h
      exact starts _ _ _ hi (busy ‹_› rfl)
    · obtain rfl := Option.some.inj h
      exact starts _ _ _ hi (busy ‹_› rfl)
    · obtain rfl := Option.some.inj h
      exact goesOn _ hi (.inl (busy ‹_› rfl))
    · cases h

/-- The log only grows. -/
theorem log_suffix_of_run {ls : List (Label ι O)} (hrun : run S.step c ls = some c') :
    c.log <:+ c'.log := by
  refine invariant_of_run (I := fun c' => c.log <:+ c'.log) (C := fun _ _ _ => True) ?_
    (List.suffix_refl _) ?_ hrun
  · intro c₁ l c₂ hs hstep _
    cases turn_of_step hstep with
    | still _ hlog | launched _ _ _ hlog =>
      rw [hlog]
      exact hs
    | goes _ _ _ _ _ _ _ _ hlog =>
      rcases hlog with ⟨hlog, -⟩ | ⟨e, hlog, -⟩ <;> rw [hlog]
      · exact hs
      · exact hs.trans (List.suffix_cons e _)
  · exact along_true _ _

/-- At most one task of a shard is at no suspension. -/
def OneBusy (c : Cluster I ι ε O X σ) : Prop :=
  ∀ (i k : ℕ) (t u : Running I ι ε O X), c.tasks[i]? = some t → c.tasks[k]? = some u →
    t.shard = u.shard → t.busy = true → u.busy = true → i = k

theorem OneBusy.turn (h : OneBusy c) (hturn : Turn S c c') : OneBusy c' := by
  cases hturn with
  | still htasks =>
    unfold OneBusy
    rw [htasks]
    exact h
  | launched t₀ hidle htasks =>
    have old : ∀ {a : ℕ} {v : Running I ι ε O X}, c'.tasks[a]? = some v →
        a = c.tasks.length ∧ v = t₀ ∨ c.tasks[a]? = some v := by
      intro a v ha
      rw [htasks] at ha
      grind
    intro i k t u hi hk hshard ht hu
    rcases old hi with ⟨rfl, rfl⟩ | hi <;> rcases old hk with ⟨rfl, rfl⟩ | hk
    · rfl
    · have hrest := busy_of_idle hidle (List.mem_of_getElem? hk) hshard.symm
      rw [hu] at hrest
      cases hrest
    · have hrest := busy_of_idle hidle (List.mem_of_getElem? hi) hshard
      rw [ht] at hrest
      cases hrest
    · exact h i k t u hi hk hshard ht hu
  | @goes i₀ t₀ u₀ more hi₀ hcore hshard₀ _ hmore htasks =>
    have old : ∀ {a : ℕ} {v : Running I ι ε O X}, c'.tasks[a]? = some v → v.busy = true →
        a = i₀ ∧ v = u₀ ∨ a ≠ i₀ ∧ c.tasks[a]? = some v := by
      intro a v ha hv
      rw [htasks] at ha
      grind
    -- the task that goes on is alone: its shard was idle, or it was the one that held it
    have alone : ∀ {a : ℕ} {v : Running I ι ε O X}, a ≠ i₀ → c.tasks[a]? = some v →
        v.shard = u₀.shard → v.busy = true → False := by
      intro a v hne ha hv hbusy
      rw [hshard₀] at hv
      rcases hcore with hcore | hidle
      · exact hne (h a i₀ v t₀ ha hi₀ hv hbusy hcore)
      · have hrest := busy_of_idle hidle (List.mem_of_getElem? ha) hv
        rw [hbusy] at hrest
        cases hrest
    intro i k t u hi hk hshard ht hu
    rcases old hi ht with ⟨rfl, rfl⟩ | ⟨hne, hi⟩ <;> rcases old hk hu with ⟨rfl, rfl⟩ | ⟨hne', hk⟩
    · rfl
    · exact (alone hne' hk hshard.symm hu).elim
    · exact (alone hne hi hshard ht).elim
    · exact h i k t u hi hk hshard ht hu

section Windows

/-- The clock never goes back. -/
theorem times_of_run {ls : List (Label ι O)} (hrun : run S.step S.start ls = some c) :
    (∀ e ∈ c.log, e.now ≤ c.now) ∧ c.log.Pairwise (fun e d => d.now ≤ e.now) := by
  refine run_induction (fun _ => True) (fun c : Cluster I ι ε O X σ =>
    (∀ e ∈ c.log, e.now ≤ c.now) ∧ c.log.Pairwise (fun e d => d.now ≤ e.now))
    ⟨fun e he => absurd he List.not_mem_nil, List.Pairwise.nil⟩ ?_
    (fun l _ => l.launches_true) hrun
  rintro c l c' ⟨hnow, hlog⟩ - hmove
  cases hmove with
  | tick d =>
    refine ⟨fun e he => ?_, hlog⟩
    have hold := hnow e he
    dsimp only
    omega
  | act hi htask =>
    refine ⟨fun e he => ?_, List.pairwise_cons.mpr ⟨hnow, hlog⟩⟩
    rcases List.mem_cons.mp he with rfl | he
    · exact le_rfl
    · exact hnow e he
  | launch o hj => exact ⟨hnow, hlog⟩
  | resume v hi htask => exact ⟨hnow, hlog⟩
  | fork hi htask => exact ⟨hnow, hlog⟩
  | invokeOn hi htask => exact ⟨hnow, hlog⟩
  | again hi htask => exact ⟨hnow, hlog⟩

variable {α : Type*} (time : α → ℤ) (t t' : ℤ)

/-- The events of a kind that happen from `t` to `t'`. -/
def countIn (p : α → Bool) (log : List α) : ℕ :=
  log.countP (fun e => p e && (decide (t ≤ time e) && decide (time e ≤ t')))

variable {time t t'} {p : α → Bool} {log : List α}

theorem countIn_cons (e : α) : countIn time t t' p (e :: log) = countIn time t t' p log +
    if p e = true ∧ t ≤ time e ∧ time e ≤ t' then 1 else 0 := by
  simp [countIn, List.countP_cons]

theorem countIn_append_of_not {front : List α} (h : ∀ e ∈ front, ¬p e = true) :
    countIn time t t' p (front ++ log) = countIn time t t' p log := by
  induction front with
  | nil => rfl
  | cons e front ih =>
    have he : ¬p e = true := h e (.head _)
    rw [List.cons_append, countIn_cons, ih (fun e' he' => h e' (.tail _ he'))]
    simp [he]

theorem countIn_le_append (front : List α) :
    countIn time t t' p log ≤ countIn time t t' p (front ++ log) := by
  simp [countIn]

theorem countIn_eq_zero (h : ∀ e ∈ log, time e < t) : countIn time t t' p log = 0 := by
  apply List.countP_eq_zero.mpr
  intro e he
  have hlt := h e he
  simp only [Bool.and_eq_true, decide_eq_true_eq, not_and]
  omega

/-- If each entrance needs an opening of its own before it, the entrances of a window are at most
one more than its openings: one opening may lie before the window. -/
theorem countIn_le_of_preceded {opens enters : α → Bool}
    (hsorted : log.Pairwise (fun e d => time d ≤ time e))
    (hapart : ∀ e, opens e = true → ¬enters e = true)
    (hpreceded : ∀ e older, e :: older <:+ log → enters e = true → ∃ front a back,
      older = front ++ a :: back ∧ opens a = true ∧ ∀ b ∈ front, ¬enters b = true) :
    countIn time t t' enters log ≤ countIn time t t' opens log + 1 := by
  induction hlength : log.length using Nat.strong_induction_on generalizing log with
  | _ n ih =>
    cases log with
    | nil => simp [countIn]
    | cons e older =>
      have hrest : ∀ rest : List α, rest <:+ older →
          countIn time t t' enters rest ≤ countIn time t t' opens rest + 1 := by
        intro rest hs
        have hs' : rest <:+ e :: older := hs.trans (List.suffix_cons e older)
        refine ih rest.length ?_ (hsorted.sublist hs'.sublist)
          (fun e' older' hs'' => hpreceded e' older' (hs''.trans hs')) rfl
        rw [← hlength, List.length_cons]
        exact Nat.lt_succ_of_le hs.length_le
      rw [countIn_cons, countIn_cons]
      by_cases he : enters e = true ∧ t ≤ time e ∧ time e ≤ t'
      · obtain ⟨front, a, back, rfl, ha, hfront⟩ := hpreceded e older (List.suffix_refl _) he.1
        have hback := hrest back ⟨front ++ [a], by simp⟩
        have hae : time a ≤ time e := (List.pairwise_cons.mp hsorted).1 a (by simp)
        -- all entrances before this one are before its opening
        have hopen : countIn time t t' enters (front ++ a :: back) ≤
            countIn time t t' opens (a :: back) := by
          rw [countIn_append_of_not hfront, countIn_cons, countIn_cons]
          have hnot : ¬enters a = true := hapart a ha
          by_cases hta : t ≤ time a
          · have hin : opens a = true ∧ t ≤ time a ∧ time a ≤ t' := ⟨ha, hta, by omega⟩
            rw [if_neg (fun h => hnot h.1), if_pos hin]
            omega
          · have hsub : a :: back <:+ e :: (front ++ a :: back) := ⟨e :: front, rfl⟩
            have hsorted' := List.pairwise_cons.mp (hsorted.sublist hsub.sublist)
            have hzero : countIn time t t' enters back = 0 := by
              apply countIn_eq_zero
              intro d hd
              have hda := hsorted'.1 d hd
              omega
            simp [hnot, hzero]
        have hmore : countIn time t t' opens (a :: back) ≤
            countIn time t t' opens (front ++ a :: back) := countIn_le_append front
        rw [if_pos he]
        omega
      · have hold := hrest older (List.suffix_refl _)
        rw [if_neg he]
        omega

end Windows

section Log
variable {C : O → Contract I Φ} {P : O → Prop} {post : O → X → Φ → Prop}

/-- After the call its task may not rest. -/
def GoesOn (C : O → Contract I Φ) (e : Event I O σ) : Prop :=
  ¬(C e.origin).rests (phase (C e.origin) e.history)

/-- What stands in the log about calls after which their tasks go on: if one is the newest of its
shard, the task still stands there, and if not, the next call of the shard is the task's. -/
structure InTurns (C : O → Contract I Φ) (c : Cluster I ι ε O X σ) : Prop where
  oneBusy : OneBusy c
  standing : ∀ j e, newest some j c.log = some e → GoesOn C e →
    ∃ t ∈ c.tasks, t.shard = j ∧ t.origin = e.origin ∧ t.past = e.history
  next : ∀ e' older, e' :: older <:+ c.log → ∀ e, newest some e'.shard older = some e →
    GoesOn C e → e'.origin = e.origin ∧ e'.past = e.history

theorem busy_of_goesOn {e : Event I O σ} (hgoes : GoesOn C e) {t : Running I ι ε O X}
    (ht : OnTrack S C post t) (horigin : t.origin = e.origin) (hpast : t.past = e.history) :
    t.busy = true := by
  by_contra hb
  apply hgoes
  rw [← horigin, ← hpast]
  exact ht.rests (Bool.eq_false_iff.mpr hb)

theorem InTurns.turn (h : InTurns C c) (htracks : ∀ t ∈ c.tasks, OnTrack S C post t)
    (hturn : Turn S c c') : InTurns C c' := by
  refine ⟨h.oneBusy.turn hturn, fun j e hnewest hgoes => ?_, fun e' older hs e hnewest hgoes => ?_⟩
  · cases hturn with
    | still htasks hlog =>
      rw [hlog] at hnewest
      rw [htasks]
      exact h.standing j e hnewest hgoes
    | launched t₀ _ htasks hlog =>
      rw [hlog] at hnewest
      obtain ⟨t, ht, hrest⟩ := h.standing j e hnewest hgoes
      exact ⟨t, htasks ▸ List.mem_append_left _ ht, hrest⟩
    | @goes i t₀ u more hi hcore hshard horigin hmore htasks hlog =>
      have hu : u ∈ c'.tasks := by
        rw [htasks]
        exact List.mem_append_left _ (List.mem_set (List.getElem?_eq_some_iff.mp hi).1 u)
      have hkept : newest some j c.log = some e →
          (t₀.shard = j → t₀.origin = e.origin → t₀.past = e.history → u.past = e.history) →
          ∃ t ∈ c'.tasks, t.shard = j ∧ t.origin = e.origin ∧ t.past = e.history := by
        intro hnewest hsame
        obtain ⟨t, ht, htj, hto, htp⟩ := h.standing j e hnewest hgoes
        obtain ⟨k, hk⟩ := List.mem_iff_getElem?.mp ht
        by_cases hki : k = i
        · obtain rfl : t₀ = t := Option.some.inj ((hki ▸ hi).symm.trans hk)
          exact ⟨u, hu, hshard.trans htj, horigin.trans hto, hsame htj hto htp⟩
        · refine ⟨t, ?_, htj, hto, htp⟩
          rw [htasks]
          refine List.mem_append_left _ (List.mem_iff_getElem?.mpr ⟨k, ?_⟩)
          rw [List.getElem?_set_ne (Ne.symm hki), hk]
      rcases hlog with ⟨hlog, hpast⟩ | ⟨e₀, hlog, hej, heo, -, hpast⟩
      · rw [hlog] at hnewest
        exact hkept hnewest (fun _ _ htp => hpast.trans htp)
      · rw [hlog, newest_cons] at hnewest
        by_cases hj : e₀.shard = j
        · rw [if_pos hj] at hnewest
          obtain rfl := Option.some.inj hnewest
          exact ⟨u, hu, hshard.trans (hej.symm.trans hj), horigin.trans heo.symm, hpast⟩
        · rw [if_neg hj] at hnewest
          exact hkept hnewest (fun htj => absurd (hej.trans htj) hj)
  · cases hturn with
    | still _ hlog | launched _ _ _ hlog =>
      rw [hlog] at hs
      exact h.next e' older hs e hnewest hgoes
    | @goes i t₀ u more hi hcore hshard horigin hmore htasks hlog =>
      rcases hlog with ⟨hlog, -⟩ | ⟨e₀, hlog, hej, heo, hep, -⟩
      · rw [hlog] at hs
        exact h.next e' older hs e hnewest hgoes
      · rw [hlog] at hs
        rcases List.suffix_cons_iff.mp hs with heq | hs
        · obtain ⟨rfl, rfl⟩ := List.cons.inj heq
          obtain ⟨t, ht, htj, hto, htp⟩ := h.standing _ e hnewest hgoes
          have hbusy := busy_of_goesOn hgoes (htracks t ht) hto htp
          obtain ⟨k, hk⟩ := List.mem_iff_getElem?.mp ht
          have htt : t₀ = t := by
            rcases hcore with hcore | hidle
            · obtain rfl := h.oneBusy i k t₀ t hi hk (hej.symm.trans htj.symm) hcore hbusy
              exact Option.some.inj (hi.symm.trans hk)
            · have hrest := busy_of_idle hidle ht (htj.trans hej)
              rw [hbusy] at hrest
              cases hrest
          rw [heo, hep, htt]
          exact ⟨hto, htp⟩
        · exact h.next e' older hs e hnewest hgoes

/-- The rule of turns. -/
theorem inTurns_of_run (hk : Keeps S C P post) {ls : List (Label ι O)}
    (hls : ∀ l ∈ ls, l.Launches P) (hrun : run S.step S.start ls = some c) : InTurns C c := by
  induction ls using List.reverseRecOn generalizing c with
  | nil =>
    obtain rfl := Option.some.inj hrun
    exact ⟨nofun, nofun, fun e' older hs => nomatch List.suffix_nil.mp hs⟩
  | append_singleton ls l ih =>
    rw [run_append] at hrun
    obtain ⟨c₁, hrun₁, hstep⟩ := Option.bind_eq_some_iff.mp hrun
    rw [run_singleton] at hstep
    have hls₁ : ∀ l ∈ ls, l.Launches P := fun l hl => hls l (List.mem_append_left _ hl)
    exact (ih hls₁ hrun₁).turn (onTrack_of_run hk hls₁ hrun₁).1 (turn_of_step hstep)

/-- What a step adds and nothing else is a program or a task that another one has started. -/
theorem fresh_of_step {l : Label ι O} (h : S.step c l = some c') {t : Running I ι ε O X}
    (htasks : c'.tasks = c.tasks ++ [t]) : t.past = [] ∨ ∃ past, t.past = .started :: past := by
  have longer : ∀ {ts : List (Running I ι ε O X)}, ts.length = c.tasks.length →
      ts ≠ c.tasks ++ [t] := by
    rintro ts hlength rfl
    simp at hlength
  cases step_cases h with
  | tick d => exact absurd htasks (longer rfl)
  | launch o hj =>
    obtain rfl := List.singleton_inj.mp (List.append_cancel_left htasks)
    exact .inl rfl
  | resume v hi htask | again hi htask => exact absurd htasks (longer List.length_set)
  | act hi htask => exact absurd htasks (longer List.length_set)
  | fork hi htask | invokeOn hi htask =>
    have hlast := (List.append_inj' htasks rfl).2
    obtain rfl := List.singleton_inj.mp hlast
    exact .inr ⟨_, rfl⟩

/-- Who is in a phase in which it may not rest has made the newest call of its shard. -/
def Held (C : O → Contract I Φ) (log : List (Event I O σ)) (j : ℕ) (o : O)
    (past : List (Mark I)) : Prop :=
  ¬(C o).rests (phase (C o) past) →
    ∃ e, newest some j log = some e ∧ e.origin = o ∧ e.history = past

theorem held_turn (hinit : ∀ o, (C o).rests (C o).init)
    (hchild : ∀ o q, (C o).rests ((C o).child q)) (hone : OneBusy c)
    (htracks : ∀ t ∈ c.tasks, OnTrack S C post t) (htracks' : ∀ t ∈ c'.tasks, OnTrack S C post t)
    {l : Label ι O} (hstep : S.step c l = some c')
    (htasks : ∀ t ∈ c.tasks, Held C c.log t.shard t.origin t.past)
    (hlog : ∀ e older, e :: older <:+ c.log → Held C older e.shard e.origin e.past) :
    (∀ t ∈ c'.tasks, Held C c'.log t.shard t.origin t.past) ∧
      ∀ e older, e :: older <:+ c'.log → Held C older e.shard e.origin e.past := by
  cases turn_of_step hstep with
  | still ht hl =>
    rw [ht, hl]
    exact ⟨htasks, hlog⟩
  | launched t₀ _ ht hl =>
    rw [ht, hl]
    refine ⟨forall_tasks_append htasks (fun hnot => ?_), hlog⟩
    rcases fresh_of_step hstep ht with hpast | ⟨past, hpast⟩ <;> rw [hpast] at hnot
    · exact absurd (hinit _) hnot
    · exact absurd (hchild _ _) hnot
  | @goes i t₀ u more hi hcore hshard horigin hmore ht hl =>
    have hold := htasks t₀ (List.mem_of_getElem? hi)
    -- the other tasks of the shard are at suspensions
    have apart : ∀ k v, k ≠ i → c.tasks[k]? = some v → v.shard = t₀.shard →
        (C v.origin).rests (phase (C v.origin) v.past) := by
      intro k v hne hk hv
      apply (htracks v (List.mem_of_getElem? hk)).rests
      by_contra hbusy
      rw [Bool.not_eq_false] at hbusy
      rcases hcore with hcore | hidle
      · exact hne (hone k i v t₀ hk hi hv hbusy hcore)
      · rw [busy_of_idle hidle (List.mem_of_getElem? hk) hv] at hbusy
        cases hbusy
    have started : ∀ log : List (Event I O σ), ∀ v ∈ more, Held C log v.shard v.origin v.past := by
      intro log v hv hnot
      exact absurd ((htracks' v (ht ▸ List.mem_append_right _ hv)).rests (hmore v hv)) hnot
    have places : ∀ v ∈ c'.tasks, v = u ∨ (∃ k, k ≠ i ∧ c.tasks[k]? = some v) ∨ v ∈ more := by
      intro v hv
      rw [ht] at hv
      rcases List.mem_append.mp hv with hv | hv
      · obtain ⟨k, hk⟩ := List.mem_iff_getElem?.mp hv
        grind
      · exact .inr (.inr hv)
    rcases hl with ⟨hl, hpast⟩ | ⟨e, hl, hej, heo, hep, hpast⟩
    · rw [hl]
      refine ⟨fun v hv => ?_, hlog⟩
      rcases places v hv with rfl | ⟨k, hne, hk⟩ | hv
      · rw [hshard, horigin, hpast]
        exact hold
      · exact htasks v (List.mem_of_getElem? hk)
      · exact started _ v hv
    · rw [hl]
      constructor
      · intro v hv
        rcases places v hv with rfl | ⟨k, hne, hk⟩ | hv
        · intro _
          refine ⟨e, ?_, heo.trans horigin.symm, hpast.symm⟩
          rw [newest_cons, if_pos (hej.trans hshard.symm)]
          rfl
        · intro hnot
          have hj : e.shard ≠ v.shard := fun hsame =>
            hnot (apart k v hne hk (hsame.symm.trans hej))
          rw [newest_cons, if_neg hj]
          exact htasks v (List.mem_of_getElem? hk) hnot
        · exact started _ v hv
      · intro e' older hs
        rcases List.suffix_cons_iff.mp hs with heq | hs
        · obtain ⟨rfl, rfl⟩ := List.cons.inj heq
          rw [hej, heo, hep]
          exact hold
        · exact hlog e' older hs

theorem held_of_run (hk : Keeps S C P post) (hinit : ∀ o, (C o).rests (C o).init)
    (hchild : ∀ o q, (C o).rests ((C o).child q)) {ls : List (Label ι O)}
    (hls : ∀ l ∈ ls, l.Launches P) (hrun : run S.step S.start ls = some c) :
    (∀ t ∈ c.tasks, Held C c.log t.shard t.origin t.past) ∧
      ∀ e older, e :: older <:+ c.log → Held C older e.shard e.origin e.past := by
  induction ls using List.reverseRecOn generalizing c with
  | nil =>
    obtain rfl := Option.some.inj hrun
    exact ⟨fun t ht => (List.not_mem_nil ht).elim, fun e older hs => by cases List.suffix_nil.mp hs⟩
  | append_singleton ls l ih =>
    have htracks' := (onTrack_of_run hk hls hrun).1
    rw [run_append] at hrun
    obtain ⟨c₁, hrun₁, hstep⟩ := Option.bind_eq_some_iff.mp hrun
    rw [run_singleton] at hstep
    have hls₁ : ∀ l ∈ ls, l.Launches P := fun l hl => hls l (List.mem_append_left _ hl)
    obtain ⟨htasks, hlog⟩ := ih hls₁ hrun₁
    exact held_turn hinit hchild (inTurns_of_run hk hls₁ hrun₁).oneBusy
      (onTrack_of_run hk hls₁ hrun₁).1 htracks' hstep htasks hlog

theorem Coherent.of_newest {shards : ℕ → σ} {log : List (Event I O σ)} (h : Coherent S shards log)
    {j : ℕ} {e : Event I O σ} (hnewest : newest some j log = some e) : shards j = e.after := by
  have hstate := h.eq_newest id (fun e => some e.after) (fun _ _ _ => rfl) j
  obtain ⟨newer, e, older, rfl, hj, ⟨⟩, hnone⟩ := newest_eq_some_iff.mp hnewest
  have hafter : newest (fun e => some e.after) j (newer ++ e :: older) = some e.after :=
    newest_eq_some_iff.mpr ⟨newer, e, older, rfl, hj, rfl,
      fun e' he' hj' => nomatch hnone e' he' hj'⟩
  rw [hafter] at hstate
  exact hstate

/-- A call in a phase in which its task may not rest finds what the call before it in the history
of the task has left. -/
theorem previous_of_run (hk : Keeps S C P post) (hinit : ∀ o, (C o).rests (C o).init)
    (hchild : ∀ o q, (C o).rests ((C o).child q)) {ls : List (Label ι O)}
    (hls : ∀ l ∈ ls, l.Launches P) (hrun : run S.step S.start ls = some c) {e : Event I O σ}
    {older : List (Event I O σ)} (hs : e :: older <:+ c.log)
    (hnot : ¬(C e.origin).rests (phase (C e.origin) e.past)) :
    ∃ a ∈ older, a.shard = e.shard ∧ a.origin = e.origin ∧ a.history = e.past ∧
      e.before = a.after := by
  obtain ⟨a, hnewest, ho, hp⟩ := (held_of_run hk hinit hchild hls hrun).2 e older hs hnot
  obtain ⟨shards, hshards, hbefore, -⟩ := (coherent_of_run hrun).of_suffix hs
  obtain ⟨front, a', back, rfl, hj, hsame, -⟩ := newest_eq_some_iff.mp hnewest
  obtain rfl := Option.some.inj hsame
  exact ⟨a', List.mem_append_right _ (.head _), hj, ho, hp,
    hbefore.trans (hshards.of_newest hnewest)⟩

/-- What the events of a shard preserve holds from one of them on. -/
theorem Coherent.since {K : σ → Prop} {shards : ℕ → σ} {newer older : List (Event I O σ)}
    {e : Event I O σ} (h : Coherent S shards (newer ++ e :: older)) (he : K e.after)
    (hstep : ∀ e' ∈ newer, S.exec e'.shard e'.now e'.op e'.before = (e'.res, e'.after) →
      K e'.before → K e'.after) : K (shards e.shard) := by
  induction newer generalizing shards with
  | nil =>
    cases h with
    | cons e h hbefore hexec =>
      rw [Function.update_self]
      exact he
  | cons e' newer ih =>
    cases h with
    | @cons shards' _ _ h hbefore hexec =>
      have hold := ih h (fun e' he' => hstep e' (.tail _ he'))
      by_cases hj : e.shard = e'.shard
      · rw [hj, Function.update_self]
        refine hstep e' (.head _) hexec ?_
        rwa [hbefore, ← hj]
      · rwa [Function.update_of_ne hj]

/-- The last of the entries with a property. -/
theorem exists_last {α : Type*} {p : α → Prop} {l : List α} (h : ∃ a ∈ l, p a) :
    ∃ front a back, l = front ++ a :: back ∧ p a ∧ ∀ b ∈ back, ¬p b := by
  induction l with
  | nil =>
    obtain ⟨a, ha, -⟩ := h
    exact absurd ha List.not_mem_nil
  | cons b l ih =>
    by_cases hl : ∃ a ∈ l, p a
    · obtain ⟨front, a, back, rfl, hrest⟩ := ih hl
      exact ⟨b :: front, a, back, rfl, hrest⟩
    · obtain ⟨a, ha, hp⟩ := h
      rcases List.mem_cons.mp ha with rfl | ha
      · exact ⟨[], a, l, rfl, hp, fun b hb hpb => hl ⟨b, hb, hpb⟩⟩
      · exact absurd ⟨a, ha, hp⟩ hl

/-- Of a call after which its task goes on, what follows it on its shard is the next call of the
task, which finds what it has left; and if nothing follows it, the task is in the middle of its
turn. -/
theorem next_of_goesOn (hk : Keeps S C P post) {ls : List (Label ι O)}
    (hls : ∀ l ∈ ls, l.Launches P) (hrun : run S.step S.start ls = some c) {e : Event I O σ}
    {newer older : List (Event I O σ)} (hlog : c.log = newer ++ e :: older) (hgoes : GoesOn C e) :
    (∃ t ∈ c.tasks, t.busy = true ∧ t.shard = e.shard ∧ t.origin = e.origin ∧
      t.past = e.history) ∨
    ∃ e' between, e' :: (between ++ e :: older) <:+ c.log ∧ e'.shard = e.shard ∧
      e'.origin = e.origin ∧ e'.past = e.history ∧ e'.before = e.after := by
  have hturns := inTurns_of_run hk hls hrun
  by_cases hsome : ∃ e' ∈ newer, e'.shard = e.shard
  · obtain ⟨front, e', between, rfl, hj, hnone⟩ := exists_last hsome
    have hs : e' :: (between ++ e :: older) <:+ c.log :=
      ⟨front, by rw [hlog, List.append_assoc, List.cons_append]⟩
    have hnewest : newest some e'.shard (between ++ e :: older) = some e :=
      newest_eq_some_iff.mpr ⟨between, e, older, rfl, hj.symm, rfl,
        fun b hb hbj => absurd (hbj.trans hj) (hnone b hb)⟩
    obtain ⟨ho, hp⟩ := hturns.next e' _ hs e hnewest hgoes
    obtain ⟨shards', hcoherent, hbefore, -⟩ := (coherent_of_run hrun).of_suffix hs
    exact .inr ⟨e', between, hs, hj, ho, hp, hbefore.trans (hcoherent.of_newest hnewest)⟩
  · have hnewest : newest some e.shard c.log = some e :=
      newest_eq_some_iff.mpr ⟨newer, e, older, hlog, rfl, rfl,
        fun e' he' hj => absurd ⟨e', he', hj⟩ hsome⟩
    obtain ⟨t, ht, htj, hto, htp⟩ := hturns.standing _ e hnewest hgoes
    have htrack := (onTrack_of_run hk hls hrun).1 t ht
    exact .inl ⟨t, ht, busy_of_goesOn hgoes htrack hto htp, htj, hto, htp⟩

end Log
end ClusterRuns
