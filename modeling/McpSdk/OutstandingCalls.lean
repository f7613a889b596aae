import McpSdk.ClusterRuns

/-!
# Calls that are still to come

Some programs make a fixed number of certain calls, whatever they are answered and wherever the
tasks they start run. In every run the calls of that kind that have been made and those still
owed add up to what the programs started so far have promised.
-/

namespace ClusterRuns
open CooperativeTasks LabelledRuns

variable {I : Interface} {ι ε O X σ : Type} (a : I.Op → Bool) (K : ℕ)

/-- One if the call is counted: it is of the kind `a`, on the shard `K`. -/
def counts (op : I.Op) (j : ℕ) : ℕ := if a op && j == K then 1 else 0

/-- The task, on shard `j`, and what it starts have `n` calls to make that are counted, and the
task returns a value of `Q` if it returns. -/
def Owes : {α : Type} → (α → Prop) → ℕ → Coroutine I ι ε α → ℕ → Prop
  | _, Q, _, .ret x, n => n = 0 ∧ Q x
  | _, _, _, .throw _, n => n = 0
  | _, Q, j, .call op k, n | _, Q, j, .wait op k, n =>
      ∃ m, n = counts a K op j + m ∧ ∀ r, Owes Q j (k r) m
  | _, Q, j, .await k, n => ∀ v, Owes Q j (k v) n
  | _, Q, j, .fork u k, n => ∃ m m', n = m + m' ∧ Owes (fun _ => True) j u m ∧ Owes Q j k m'
  | _, Q, j, .invokeOn i u k, n =>
      ∃ m m', n = m + m' ∧ Owes (fun _ => True) i u m ∧ Owes Q j k m'

variable {a K}

theorem Owes.andThen {α β : Type} {Q : α → Prop} {Q' : β → Prop} {t : Coroutine I ι ε α}
    {k : α → Coroutine I ι ε β} {h : ε → Coroutine I ι ε β} {j n m : ℕ} (ht : Owes a K Q j t n)
    (hk : ∀ x, Q x → Owes a K Q' j (k x) m) (hh : ∀ e, Owes a K Q' j (h e) m) :
    Owes a K Q' j (t.andThen k h) (n + m) := by
  induction t generalizing n with
  | ret x =>
    obtain ⟨rfl, hx⟩ := ht
    rw [Nat.zero_add]
    exact hk x hx
  | throw e =>
    obtain rfl : n = 0 := ht
    rw [Nat.zero_add]
    exact hh e
  | call op c ih | wait op c ih =>
    obtain ⟨n', rfl, hc⟩ := ht
    exact ⟨n' + m, Nat.add_assoc .., fun r => ih r (hc r) hk⟩
  | await c ih => exact fun v => ih v (ht v) hk
  | fork u c _ ih | invokeOn i u c _ ih =>
    obtain ⟨n₁, n₂, rfl, hu, hc⟩ := ht
    exact ⟨n₁, n₂ + m, Nat.add_assoc .., hu, ih hc hk⟩

theorem Owes.unique [Inhabited ι] {α : Type} {Q : α → Prop} {t : Coroutine I ι ε α} {j n n' : ℕ}
    (h : Owes a K Q j t n) (h' : Owes a K Q j t n') : n = n' := by
  induction t generalizing j n n' with
  | ret => exact h.1.trans h'.1.symm
  | throw => exact Eq.trans h (Eq.symm h')
  | call op c ih | wait op c ih =>
    obtain ⟨m, rfl, hc⟩ := h
    obtain ⟨m', rfl, hc'⟩ := h'
    obtain ⟨r⟩ := I.answer op
    rw [ih r (hc r) (hc' r)]
  | await c ih => exact ih default (h default) (h' default)
  | fork u c ihu ih | invokeOn i u c ihu ih =>
    obtain ⟨m₁, m₂, rfl, hu, hc⟩ := h
    obtain ⟨m₁', m₂', rfl, hu', hc'⟩ := h'
    rw [ihu hu hu', ih hc hc']

/-- What a task owes where it is counted, it owes once when it is sent to all shards and waited
for. -/
theorem Owes.invokeOnAll {gathered : ℕ → I.Op} (hgathered : ∀ n, a (gathered n) = false)
    {count j m : ℕ} {t : Coroutine I ι ε Unit} (hK : K < count)
    (ht : ∀ i, Owes a K (fun _ => True) i t (if i = K then m else 0)) :
    Owes a K (fun _ => True) j (Coroutine.invokeOnAll gathered count t) m := by
  have visits : ∀ (l : ℕ) (shards : List ℕ), Owes a K (fun _ => True) j
      (shards.foldr (fun n rest => Coroutine.invokeOn n t rest)
        (.wait (gathered l) (fun _ => .ret ()))) (shards.count K * m) := by
    intro l shards
    induction shards with
    | nil => exact ⟨0, by simp [counts, hgathered], fun _ => ⟨rfl, trivial⟩⟩
    | cons i shards ih =>
      refine ⟨_, _, ?_, ht i, ih⟩
      by_cases hi : i = K
      · simp [hi, Nat.add_mul, Nat.add_comm]
      · simp [hi]
  have hvisits := visits (List.range count).length (List.range count)
  rwa [List.count_range, if_pos hK, Nat.one_mul] at hvisits

def isNew : List (Mark I) → Bool
  | .started :: _ => false
  | .did _ _ :: past => isNew past
  | [] => true

theorem started_notMem {past : List (Mark I)} (h : isNew past) : .started ∉ past := by
  induction past with
  | nil => exact List.not_mem_nil
  | cons mark past ih =>
    cases mark with
    | started => cases h
    | did op r =>
      intro hmem
      rcases List.mem_cons.mp hmem with heq | hmem
      · cases heq
      · exact ih h hmem

section Runs
variable (a K) (p : O → Bool) (w : ℕ)

/-- A program of one of the origins `p`. -/
def Running.launched (t : Running I ι ε O X) : Bool := p t.origin && isNew t.past

/-- The event is a counted call in the work of one of the origins `p`. -/
def Event.counted (e : Event I O σ) : Bool := p e.origin && (a e.op && e.shard == K)

def Running.Owing (t : Running I ι ε O X) (n : ℕ) : Prop := Owes a K (· = none) t.shard t.task n

open Classical in
/-- What a task owes, less what its launch has promised. -/
noncomputable def debt (t : Running I ι ε O X) : Int :=
  if p t.origin then
    (if h : ∃ n, t.Owing a K n then h.choose else 0 : ℕ) - (if isNew t.past then w else 0 : ℕ)
  else 0

variable {a K p w}

theorem debt_eq [Inhabited ι] {t : Running I ι ε O X} (hp : p t.origin) {n : ℕ}
    (h : t.Owing a K n) : debt a K p w t = n - (if isNew t.past then w else 0 : ℕ) := by
  have hex : ∃ n, t.Owing a K n := ⟨n, h⟩
  rw [debt, if_pos hp, dif_pos hex, hex.choose_spec.unique h]

theorem debt_of_not {t : Running I ι ε O X} (hp : ¬p t.origin) : debt a K p w t = 0 := if_neg hp

theorem debt_goOn [Inhabited ι] {t t' : Running I ι ε O X} (horigin : t'.origin = t.origin)
    (hnew : isNew t'.past = isNew t.past) {d : ℕ}
    (h : p t.origin → ∃ m, t.Owing a K (d + m) ∧ t'.Owing a K m) :
    debt a K p w t' - debt a K p w t = if p t.origin then -(d : Int) else 0 := by
  by_cases hp : p t.origin
  · obtain ⟨m, ht, ht'⟩ := h hp
    rw [debt_eq hp ht, debt_eq (horigin ▸ hp) ht', hnew, if_pos hp]
    omega
  · rw [debt_of_not hp, debt_of_not (horigin ▸ hp), if_neg hp, sub_zero]

theorem debt_started [Inhabited ι] {j : ℕ} {o : O} {past : List (Mark I)}
    {u : Coroutine I ι ε Unit} {m : ℕ} (h : p o → Owes a K (fun _ => True) j u m) :
    debt a K p w (⟨j, o, .started :: past,
      .await (fun _ => u.andThen (fun _ => .ret none) .throw)⟩ : Running I ι ε O X) =
      if p o then (m : Int) else 0 := by
  by_cases hp : p o
  · have howing : (⟨j, o, .started :: past,
        .await (fun _ => u.andThen (fun _ => .ret none) .throw)⟩ : Running I ι ε O X).Owing a K m :=
      fun _ => Owes.andThen (m := 0) (h hp) (fun _ _ => ⟨rfl, rfl⟩) (fun _ => rfl)
    rw [debt_eq hp howing, if_pos hp]
    simp [isNew]
  · rw [debt_of_not hp, if_neg hp]

/-- The tasks of the origins `p` owe what they do, and the calls made and the calls owed are the
calls promised. -/
structure Balanced (a : I.Op → Bool) (K : ℕ) (p : O → Bool) (w : ℕ) (c : Cluster I ι ε O X σ) :
    Prop where
  owing : ∀ t ∈ c.tasks, p t.origin → ∃ n, t.Owing a K n
  sum : (c.tasks.map (debt a K p w)).sum + c.log.countP (Event.counted a K p) = 0

namespace Balanced
variable {S : System I ι ε O X σ} {c : Cluster I ι ε O X σ} {i : ℕ} {t : Running I ι ε O X}

theorem owing_task (h : Balanced a K p w c) (hi : c.tasks[i]? = some t) (hp : p t.origin) :
    ∃ n, Owes a K (· = none) t.shard t.task n := h.owing t (List.mem_of_getElem? hi) hp

theorem set [Inhabited ι] (h : Balanced a K p w c) (hi : c.tasks[i]? = some t)
    {u : Running I ι ε O X} {d : ℕ} (horigin : u.origin = t.origin)
    (hnew : isNew u.past = isNew t.past)
    (howes : p t.origin → ∃ m, t.Owing a K (d + m) ∧ u.Owing a K m) :
    (∀ v ∈ c.tasks.set i u, p v.origin → ∃ n, v.Owing a K n) ∧
      ((c.tasks.set i u).map (debt a K p w)).sum =
        (c.tasks.map (debt a K p w)).sum + if p t.origin then -(d : Int) else 0 := by
  constructor
  · refine forall_tasks_set h.owing (fun hp => ?_) i
    obtain ⟨m, -, hm⟩ := howes (horigin ▸ hp)
    exact ⟨m, hm⟩
  · rw [List.map_set, sum_map_set _ hi, debt_goOn horigin hnew howes]

theorem goOn [Inhabited ι] (h : Balanced a K p w c) (hi : c.tasks[i]? = some t)
    {k : Coroutine I ι ε (Option X)}
    (hk : p t.origin → ∃ n, Owes a K (· = none) t.shard t.task n ∧
      Owes a K (· = none) t.shard k n) : Balanced a K p w (c.goOn i t k) := by
  obtain ⟨hall, hmap⟩ := h.set hi (u := { t with task := k }) (d := 0) rfl rfl (fun hp => by
    obtain ⟨n, hn, hkn⟩ := hk hp
    exact ⟨n, by rwa [Nat.zero_add], hkn⟩)
  refine ⟨hall, ?_⟩
  have hnone : (if p t.origin then -((0 : ℕ) : Int) else 0) = 0 := by simp
  rw [Cluster.goOn, hmap, hnone, add_zero]
  exact h.sum

theorem act [Inhabited ι] (h : Balanced a K p w c) (hi : c.tasks[i]? = some t) {op : I.Op}
    {k : I.Res op → Coroutine I ι ε (Option X)}
    (hk : p t.origin → ∃ m, Owes a K (· = none) t.shard t.task (counts a K op t.shard + m) ∧
      ∀ r, Owes a K (· = none) t.shard (k r) m) : Balanced a K p w (c.act S i t op k) := by
  obtain ⟨hall, hmap⟩ := h.set hi (d := counts a K op t.shard) (u := { t with
      past := .did op (S.exec t.shard c.now op (c.shards t.shard)).1 :: t.past
      task := k (S.exec t.shard c.now op (c.shards t.shard)).1 }) rfl rfl (fun hp => by
    obtain ⟨m, hn, hm⟩ := hk hp
    exact ⟨m, hn, hm _⟩)
  have hcount : (c.act S i t op k).log.countP (Event.counted a K p) =
      c.log.countP (Event.counted a K p) + if p t.origin then counts a K op t.shard else 0 := by
    simp only [Cluster.act, List.countP_cons, Event.counted, counts]
    by_cases hp : p t.origin <;> simp [hp]
  have hsum := h.sum
  refine ⟨hall, ?_⟩
  rw [hcount, Cluster.act, hmap]
  split <;> omega

theorem start [Inhabited ι] (h : Balanced a K p w c) (hi : c.tasks[i]? = some t) {n : ℕ}
    {u : Coroutine I ι ε Unit} {k : Coroutine I ι ε (Option X)}
    (hu : p t.origin → ∃ m m', Owes a K (· = none) t.shard t.task (m + m') ∧
      Owes a K (fun _ => True) n u m ∧ Owes a K (· = none) t.shard k m') :
    Balanced a K p w (c.start i t n u k) := by
  obtain ⟨m, hm⟩ : ∃ m, p t.origin → ∃ m', Owes a K (· = none) t.shard t.task (m + m') ∧
      Owes a K (fun _ => True) n u m ∧ Owes a K (· = none) t.shard k m' := by
    by_cases hp : p t.origin
    · obtain ⟨m, m', hm⟩ := hu hp
      exact ⟨m, fun _ => ⟨m', hm⟩⟩
    · exact ⟨0, fun hp' => absurd hp' hp⟩
  have hum : p t.origin → Owes a K (fun _ => True) n u m := fun hp => by
    obtain ⟨m', -, hum, -⟩ := hm hp
    exact hum
  obtain ⟨hall, hmap⟩ := h.set hi (u := { t with task := k }) (d := m) rfl rfl (fun hp => by
    obtain ⟨m', howes, -, hk⟩ := hm hp
    exact ⟨m', howes, hk⟩)
  have hsum := h.sum
  constructor
  · exact forall_tasks_append hall (fun hp =>
      ⟨m, fun _ => Owes.andThen (m := 0) (hum hp) (fun _ _ => ⟨rfl, rfl⟩) (fun _ => rfl)⟩)
  · simp only [Cluster.start, List.map_append, List.sum_append, hmap, List.map_cons,
      List.map_nil, List.sum_singleton, debt_started hum]
    split <;> omega

theorem launch [Inhabited ι] (h : Balanced a K p w c) (o : O)
    (hprogram : p o → Owes a K (· = none) (S.place o) (S.program o) w) :
    Balanced a K p w { c with tasks := c.tasks ++ [⟨S.place o, o, [], S.program o⟩] } := by
  constructor
  · exact forall_tasks_append h.owing (fun hp => ⟨w, hprogram hp⟩)
  · have hnew : debt a K p w (⟨S.place o, o, [], S.program o⟩ : Running I ι ε O X) = 0 := by
      by_cases hp : p o
      · rw [debt_eq (t := ⟨S.place o, o, [], S.program o⟩) hp (hprogram hp)]
        simp [isNew]
      · exact debt_of_not hp
    simpa [hnew] using h.sum

theorem move [Inhabited ι] (hprogram : ∀ o, p o → Owes a K (· = none) (S.place o) (S.program o) w)
    {c' : Cluster I ι ε O X σ} {l : Label ι O} (h : Balanced a K p w c) (hm : Move S c l c') :
    Balanced a K p w c' := by
  cases hm with
  | tick d => exact ⟨h.owing, h.sum⟩
  | launch o hj => exact h.launch o (hprogram o)
  | resume v hi htask =>
    refine h.goOn hi (fun hp => ?_)
    obtain ⟨n, hn⟩ := h.owing_task hi hp
    refine ⟨n, hn, ?_⟩
    rw [htask] at hn
    exact hn v
  | act hi htask =>
    refine h.act hi (fun hp => ?_)
    obtain ⟨n, hn⟩ := h.owing_task hi hp
    rcases htask with htask | ⟨htask, -⟩ <;>
    · rw [htask] at hn ⊢
      obtain ⟨m, rfl, hm⟩ := hn
      exact ⟨m, ⟨m, rfl, hm⟩, hm⟩
  | fork hi htask | invokeOn hi htask =>
    refine h.start hi (fun hp => ?_)
    obtain ⟨n, hn⟩ := h.owing_task hi hp
    rw [htask] at hn ⊢
    obtain ⟨m, m', rfl, hu, hk⟩ := hn
    exact ⟨m, m', ⟨m, m', rfl, hu, hk⟩, hu, hk⟩
  | again hi htask =>
    -- A loop owes nothing that could be settled, so its origin is none of `p`.
    refine h.goOn hi (fun hp => ?_)
    obtain ⟨n, hn⟩ := h.owing_task hi hp
    rw [htask] at hn
    cases hn.2

end Balanced

variable {S : System I ι ε O X σ}

theorem balanced_of_run [Inhabited ι]
    (hprogram : ∀ o, p o → Owes a K (· = none) (S.place o) (S.program o) w)
    {ls : List (Label ι O)} {c : Cluster I ι ε O X σ} (hrun : run S.step S.start ls = some c) :
    Balanced a K p w c :=
  run_induction (fun _ => True) (Balanced a K p w) ⟨fun _ ht => (List.not_mem_nil ht).elim, rfl⟩
    (fun _ _ _ h _ hm => h.move hprogram hm) (fun l _ => l.launches_true) hrun

/-- What is owed in all is never less than nothing, and nothing when all tasks are done. -/
theorem sum_debt [Inhabited ι] {ts : List (Running I ι ε O X)}
    (howing : ∀ t ∈ ts, p t.origin → ∃ n, t.Owing a K n) :
    0 ≤ (ts.map (debt a K p w)).sum + w * ts.countP (Running.launched p) ∧
      ((∀ t ∈ ts, p t.origin → t.done) →
        (ts.map (debt a K p w)).sum + w * ts.countP (Running.launched p) = 0) := by
  induction ts with
  | nil => simp
  | cons t ts ih =>
    obtain ⟨hle, heq⟩ := ih (fun u hu => howing u (.tail _ hu))
    have hlaunched : (w * (t :: ts).countP (Running.launched p) : Int) =
        w * ts.countP (Running.launched p) + if t.launched p then (w : Int) else 0 := by
      rw [List.countP_cons]
      split <;> simp [Int.mul_add]
    have hdebt : ∃ n : ℕ, debt a K p w t + (if t.launched p then (w : Int) else 0) = n ∧
        ((p t.origin → t.done) → n = 0) := by
      by_cases hp : p t.origin
      · obtain ⟨n, hn⟩ := howing t (.head _) hp
        refine ⟨n, ?_, fun hdone => ?_⟩
        · rw [debt_eq hp hn, Running.launched, hp, Bool.true_and]
          split <;> simp
        · obtain ⟨j, o, past, task⟩ := t
          cases task with
          | ret x => exact hn.1
          | throw e => exact hn
          | call | await | wait | fork | invokeOn => cases hdone hp
      · refine ⟨0, ?_, fun _ => rfl⟩
        rw [debt_of_not hp, Running.launched, Bool.eq_false_iff.mpr hp]
        simp
    obtain ⟨n, hn, hzero⟩ := hdebt
    rw [List.map_cons, List.sum_cons, hlaunched]
    refine ⟨by omega, fun hdone => ?_⟩
    have hrest := heq (fun u hu => hdone u (.tail _ hu))
    have hnone := hzero (hdone t (.head _))
    omega

theorem calls_of_run [Inhabited ι]
    (hprogram : ∀ o, p o → Owes a K (· = none) (S.place o) (S.program o) w)
    {ls : List (Label ι O)} {c : Cluster I ι ε O X σ} (hrun : run S.step S.start ls = some c) :
    c.log.countP (Event.counted a K p) ≤ w * c.tasks.countP (Running.launched p) ∧
      ((∀ t ∈ c.tasks, p t.origin → t.done) →
        c.log.countP (Event.counted a K p) = w * c.tasks.countP (Running.launched p)) := by
  obtain ⟨howing, hsum⟩ := balanced_of_run hprogram hrun
  obtain ⟨hle, heq⟩ := sum_debt (w := w) howing
  refine ⟨by omega, fun hdone => ?_⟩
  have hzero := heq hdone
  omega

end Runs

section Launches

/-- The label starts a program of one of the origins `p`. -/
def Label.starts (p : O → Bool) : Label ι O → Bool
  | .launch o => p o
  | _ => false

theorem countP_set_add {α : Type*} {p : α → Bool} {ts : List α} {i : ℕ} {t : α}
    (hi : ts[i]? = some t) (u : α) :
    (ts.set i u).countP p + (p t).toNat = ts.countP p + (p u).toNat := by
  obtain ⟨hlt, rfl⟩ := List.getElem?_eq_some_iff.mp hi
  rw [List.countP_set hlt]
  by_cases ht : p ts[i]
  · have hpos : 0 < ts.countP p := List.countP_pos_iff.mpr ⟨_, List.getElem_mem hlt, ht⟩
    cases hu : p u <;> simp [ht] <;> omega
  · cases hu : p u <;> simp [ht]

theorem countP_set_eq {α : Type*} {p : α → Bool} {ts : List α} {i : ℕ} {t u : α}
    (hi : ts[i]? = some t) (h : p u = p t) : (ts.set i u).countP p = ts.countP p := by
  have hset := countP_set_add (p := p) hi u
  rw [h] at hset
  omega

theorem countP_launched_of_move {S : System I ι ε O X σ} {p : O → Bool}
    {c c' : Cluster I ι ε O X σ} {l : Label ι O} (hm : Move S c l c') (hl : ∀ o, l ≠ .launch o) :
    c'.tasks.countP (Running.launched p) = c.tasks.countP (Running.launched p) := by
  have started : ∀ (ts : List (Running I ι ε O X)) (u : Running I ι ε O X), u.launched p = false →
      (ts ++ [u]).countP (Running.launched p) = ts.countP (Running.launched p) := by
    intro ts u hu
    rw [List.countP_append, List.countP_singleton, hu]
    rfl
  cases hm with
  | tick d => rfl
  | launch o => exact absurd rfl (hl o)
  | resume v hi htask | again hi htask => exact countP_set_eq hi rfl
  | act hi htask => exact countP_set_eq hi rfl
  | fork hi htask | invokeOn hi htask =>
    refine (started _ _ ?_).trans (countP_set_eq hi rfl)
    exact Bool.and_false _

theorem countP_launched_of_run {S : System I ι ε O X σ} (p : O → Bool) {ls : List (Label ι O)}
    {c : Cluster I ι ε O X σ} (hrun : run S.step S.start ls = some c) :
    c.tasks.countP (Running.launched p) = ls.countP (Label.starts p) := by
  induction ls using List.reverseRecOn generalizing c with
  | nil =>
    obtain rfl := Option.some.inj hrun
    rfl
  | append_singleton ls l ih =>
    rw [run_append] at hrun
    obtain ⟨c₁, hrun₁, hstep⟩ := Option.bind_eq_some_iff.mp hrun
    rw [run_singleton] at hstep
    rw [List.countP_append, List.countP_singleton, ← ih hrun₁]
    cases l with
    | launch o =>
      simp only [System.step] at hstep
      split at hstep
      · obtain rfl := Option.some.inj hstep
        rw [List.countP_append, List.countP_singleton, Running.launched, isNew, Bool.and_true]
        rfl
      · cases hstep
    | _ => exact countP_launched_of_move (step_cases hstep) (fun _ h => by cases h)

theorem exists_sole {α : Type*} {p : α → Bool} {ts : List α} (h : ts.countP p ≤ 1) :
    ∃ i : ℕ, ∀ k ≠ i, ∀ u, ts[k]? = some u → p u = false := by
  induction ts with
  | nil => exact ⟨0, fun k _ u hu => by cases hu⟩
  | cons t ts ih =>
    rw [List.countP_cons] at h
    by_cases ht : p t
    · rw [if_pos ht] at h
      have hnone := List.countP_eq_zero.mp (Nat.le_zero.mp (Nat.le_of_succ_le_succ h))
      refine ⟨0, fun k hk u hu => ?_⟩
      obtain ⟨k, rfl⟩ := Nat.exists_eq_succ_of_ne_zero hk
      exact Bool.eq_false_iff.mpr (hnone u (List.mem_of_getElem? hu))
    · obtain ⟨i, hi⟩ := ih ((Nat.le_add_right _ _).trans h)
      refine ⟨i + 1, fun k hk u hu => ?_⟩
      cases k with
      | zero =>
        obtain rfl := Option.some.inj hu
        exact Bool.eq_false_iff.mpr ht
      | succ k => exact hi k (fun hki => hk (congrArg _ hki)) u hu

end Launches

end ClusterRuns
