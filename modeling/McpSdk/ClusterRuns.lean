import McpSdk.CooperativeTasks
import McpSdk.LabelledRuns
import Mathlib.Algebra.BigOperators.Group.List.Basic
import Mathlib.Tactic.Linarith
import Mathlib.Logic.Function.Basic

/-!
# Runs of a cluster of shards

A cluster is a number of shards, each with a state of its own, and tasks that run on them. A
shard runs one task at a time, up to its next suspension, and only the tasks of a shard touch
its state. A step is one call, one start of a task, the end of one suspension, or the passing
of time; which one comes next is free.

Two history variables serve the statements, and no step reads them: what each task has done
so far, and the log of all calls, newest first. Three rules follow from the cases of a step: the
log is a coherent account of the shards' states, tasks that follow a contract at their
start keep to it, and a quantity kept by the tasks adds up to what the log says.
-/

namespace ClusterRuns
open CooperativeTasks LabelledRuns

/-- An entry of the history of a task. A task starts with the history of the one that started
it and the mark `started`. -/
inductive Mark (I : Interface) where
  | did (op : I.Op) (res : I.Res op)
  | started

variable {I : Interface} {ι ε O X σ Φ : Type}

/-- The phase of a contract that a history leads to. -/
def phase (C : Contract I Φ) : List (Mark I) → Φ
  | [] => C.init
  | .did op r :: past => C.next (phase C past) op r
  | .started :: past => C.child (phase C past)

/-- Every call of the history was allowed in its phase. -/
def Lawful (C : Contract I Φ) : List (Mark I) → Prop
  | [] => True
  | .did op r :: past => (C.allows (phase C past) op ∧ C.answers op r) ∧ Lawful C past
  | .started :: past => Lawful C past

/-- A task on a shard, with the origin of the work it does and what it has done. -/
structure Running (I : Interface) (ι ε O X : Type) where
  shard : ℕ
  origin : O
  past : List (Mark I)
  task : Coroutine I ι ε (Option X)

/-- A task that is not at a suspension: it holds the core of its shard. -/
def Running.busy (t : Running I ι ε O X) : Bool :=
  match t.task with
  | .call _ _ | .fork _ _ | .invokeOn _ _ _ | .ret (some _) => true
  | _ => false

/-- The task is at its end. -/
def Running.done (t : Running I ι ε O X) : Bool :=
  match t.task with
  | .ret none | .throw _ => true
  | _ => false

/-- One call of an operation, with the state of its shard before and after it. -/
structure Event (I : Interface) (O σ : Type) where
  shard : ℕ
  now : Int
  origin : O
  past : List (Mark I)
  op : I.Op
  res : I.Res op
  before : σ
  after : σ

/-- The history of the acting task with the event itself. -/
def Event.history (e : Event I O σ) : List (Mark I) := .did e.op e.res :: e.past

/-- The shards of a server and the programs that may be started on them, each on the shard where
its origin places it. A program that ends with `some x` goes on as `again x`: it is at the head of
a loop. An operation that `gathers` waits for the ends of so many tasks, the last ones that its own
task has started. -/
structure System (I : Interface) (ι ε O X σ : Type) where
  count : ℕ
  init : ℕ → σ
  exec : ℕ → Int → (op : I.Op) → σ → I.Res op × σ
  ready : I.Op → σ → Bool
  gathers : I.Op → Option ℕ
  place : O → ℕ
  program : O → Coroutine I ι ε (Option X)
  again : O → X → Coroutine I ι ε (Option X)

/-- `started i` are the tasks that task `i` has started, newest first; those of the task that has
started `i` follow. -/
structure Cluster (I : Interface) (ι ε O X σ : Type) where
  now : Int
  shards : ℕ → σ
  tasks : List (Running I ι ε O X)
  log : List (Event I O σ)
  started : ℕ → List ℕ

/-- What happens next: time passes, a program is started on its shard, the world outside answers
task `i`, task `i` performs the operation it waits for, or task `i` takes a step. -/
inductive Label (ι O : Type) where
  | tick (d : ℕ)
  | launch (o : O)
  | resume (i : ℕ) (v : ι)
  | wake (i : ℕ)
  | advance (i : ℕ)

/-- The label starts no program but those of `P`. -/
def Label.Launches (P : O → Prop) : Label ι O → Prop
  | .launch o => P o
  | _ => True

theorem Label.launches_true (l : Label ι O) : l.Launches (fun _ => True) := by
  cases l <;> trivial

namespace Cluster

def idle (c : Cluster I ι ε O X σ) (j : ℕ) : Bool := c.tasks.all (fun t => t.shard != j || !t.busy)

/-- The last `n` tasks that task `i` has started are at their ends. -/
def gathered (c : Cluster I ι ε O X σ) (i n : ℕ) : Bool :=
  ((c.started i).take n).all (fun m => c.tasks[m]?.all Running.done)

/-- Coroutine `i`, which is `t`, calls `op` and goes on as `k`. -/
def act (S : System I ι ε O X σ) (c : Cluster I ι ε O X σ) (i : ℕ) (t : Running I ι ε O X)
    (op : I.Op) (k : I.Res op → Coroutine I ι ε (Option X)) : Cluster I ι ε O X σ :=
  let r := S.exec t.shard c.now op (c.shards t.shard)
  { now := c.now
    shards := Function.update c.shards t.shard r.2
    tasks := c.tasks.set i { t with past := .did op r.1 :: t.past, task := k r.1 }
    log := ⟨t.shard, c.now, t.origin, t.past, op, r.1, c.shards t.shard, r.2⟩ :: c.log
    started := c.started }

/-- Coroutine `i`, which is `t`, starts the task `u` on shard `n` and goes on as `k`. -/
def start (c : Cluster I ι ε O X σ) (i : ℕ) (t : Running I ι ε O X) (n : ℕ)
    (u : Coroutine I ι ε Unit) (k : Coroutine I ι ε (Option X)) : Cluster I ι ε O X σ :=
  { c with
    tasks := c.tasks.set i { t with task := k } ++
      [⟨n, t.origin, .started :: t.past, .await (fun _ => u.andThen (fun _ => .ret none) .throw)⟩]
    started := Function.update (Function.update c.started i (c.tasks.length :: c.started i))
      c.tasks.length (c.started i) }

/-- Coroutine `i`, which is `t`, goes on as `k`. -/
def goOn (c : Cluster I ι ε O X σ) (i : ℕ) (t : Running I ι ε O X)
    (k : Coroutine I ι ε (Option X)) : Cluster I ι ε O X σ :=
  { c with tasks := c.tasks.set i { t with task := k } }

end Cluster

open Cluster

/-- The cluster before anything runs. -/
def System.start (S : System I ι ε O X σ) : Cluster I ι ε O X σ := ⟨0, S.init, [], [], fun _ => []⟩

/-- One step of the cluster. -/
def System.step (S : System I ι ε O X σ) (c : Cluster I ι ε O X σ) :
    Label ι O → Option (Cluster I ι ε O X σ)
  | .tick d => some { c with now := c.now + d }
  | .launch o =>
      if S.place o < S.count ∧ c.idle (S.place o) then
        some { c with tasks := c.tasks ++ [⟨S.place o, o, [], S.program o⟩] }
      else none
  | .resume i v => do
      let t ← c.tasks[i]?
      if t.shard < S.count ∧ c.idle t.shard then
        match t.task with
        | .await k => some (c.goOn i t (k v))
        | _ => none
      else none
  | .wake i => do
      let t ← c.tasks[i]?
      match t.task with
      | .wait op k =>
          if t.shard < S.count ∧ c.idle t.shard ∧ S.ready op (c.shards t.shard) ∧
              (S.gathers op).all (c.gathered i) then
            some (c.act S i t op k)
          else none
      | _ => none
  | .advance i => do
      let t ← c.tasks[i]?
      match t.task with
      | .call op k => some (c.act S i t op k)
      | .fork u k => some (c.start i t t.shard u k)
      | .invokeOn n u k => some (c.start i t n u k)
      | .ret (some x) => some (c.goOn i t (S.again t.origin x))
      | _ => none

/-- The cases of a step. -/
inductive Move (S : System I ι ε O X σ) (c : Cluster I ι ε O X σ) :
    Label ι O → Cluster I ι ε O X σ → Prop
  | tick (d : ℕ) : Move S c (.tick d) { c with now := c.now + d }
  | launch (o : O) (hj : S.place o < S.count) :
      Move S c (.launch o) { c with tasks := c.tasks ++ [⟨S.place o, o, [], S.program o⟩] }
  | resume {i : ℕ} {t : Running I ι ε O X} {k : ι → Coroutine I ι ε (Option X)} (v : ι)
      (hi : c.tasks[i]? = some t) (ht : t.task = .await k) :
      Move S c (.resume i v) (c.goOn i t (k v))
  | act {i : ℕ} {l : Label ι O} {t : Running I ι ε O X} {op : I.Op}
      {k : I.Res op → Coroutine I ι ε (Option X)} (hi : c.tasks[i]? = some t)
      (ht : t.task = .call op k ∨ t.task = .wait op k ∧ S.ready op (c.shards t.shard)) :
      Move S c l (c.act S i t op k)
  | fork {i : ℕ} {l : Label ι O} {t : Running I ι ε O X} {u : Coroutine I ι ε Unit}
      {k : Coroutine I ι ε (Option X)} (hi : c.tasks[i]? = some t) (ht : t.task = .fork u k) :
      Move S c l (c.start i t t.shard u k)
  | invokeOn {i n : ℕ} {l : Label ι O} {t : Running I ι ε O X} {u : Coroutine I ι ε Unit}
      {k : Coroutine I ι ε (Option X)} (hi : c.tasks[i]? = some t) (ht : t.task = .invokeOn n u k) :
      Move S c l (c.start i t n u k)
  | again {i : ℕ} {l : Label ι O} {t : Running I ι ε O X} {x : X} (hi : c.tasks[i]? = some t)
      (ht : t.task = .ret (some x)) :
      Move S c l (c.goOn i t (S.again t.origin x))

variable {S : System I ι ε O X σ}

theorem step_cases {c c' : Cluster I ι ε O X σ} {l : Label ι O} (h : S.step c l = some c') :
    Move S c l c' := by
  cases l with
  | tick d =>
    obtain rfl := Option.some.inj h
    exact .tick d
  | launch o =>
    simp only [System.step] at h
    split at h
    · rename_i hj
      obtain rfl := Option.some.inj h
      exact .launch o hj.1
    · cases h
  | resume i v =>
    obtain ⟨t, hi, h⟩ := Option.bind_eq_some_iff.mp h
    split at h
    · split at h
      · rename_i k ht
        obtain rfl := Option.some.inj h
        exact .resume v hi ht
      · cases h
    · cases h
  | wake i =>
    obtain ⟨t, hi, h⟩ := Option.bind_eq_some_iff.mp h
    split at h
    · rename_i op k ht
      split at h
      · rename_i hr
        obtain rfl := Option.some.inj h
        exact .act hi (.inr ⟨ht, hr.2.2.1⟩)
      · cases h
    · cases h
  | advance i =>
    obtain ⟨t, hi, h⟩ := Option.bind_eq_some_iff.mp h
    split at h
    · obtain rfl := Option.some.inj h
      exact .act hi (.inl ‹_›)
    · obtain rfl := Option.some.inj h
      exact .fork hi ‹_›
    · obtain rfl := Option.some.inj h
      exact .invokeOn hi ‹_›
    · obtain rfl := Option.some.inj h
      exact .again hi ‹_›
    · cases h

/-- What every case of a step preserves holds in every state of a run that starts only
programs of `P`. -/
theorem run_induction (P : O → Prop) (J : Cluster I ι ε O X σ → Prop) (h0 : J S.start)
    (hmove : ∀ c l c', J c → l.Launches P → Move S c l c' → J c')
    {ls : List (Label ι O)} (hls : ∀ l ∈ ls, l.Launches P) {c : Cluster I ι ε O X σ}
    (hrun : run S.step S.start ls = some c) : J c := by
  have along : ∀ s, Along S.step (fun _ l _ => l.Launches P) s ls := by
    clear hrun
    induction ls with
    | nil => exact fun _ => trivial
    | cons l ls ih =>
      exact fun s s' _ => ⟨hls l (List.mem_cons_self ..), ih (fun l hl => hls l (.tail _ hl)) s'⟩
  exact invariant_of_run (fun s l s' hs h hl => hmove s l s' hs hl (step_cases h)) h0 (along _) hrun

section TaskList
variable {Q : Running I ι ε O X → Prop} {c : Cluster I ι ε O X σ}

theorem forall_tasks_set (h : ∀ t ∈ c.tasks, Q t) {u : Running I ι ε O X} (hu : Q u) (i : ℕ) :
    ∀ t ∈ c.tasks.set i u, Q t := by
  intro t ht
  rcases List.mem_or_eq_of_mem_set ht with ht | rfl
  · exact h t ht
  · exact hu

theorem forall_tasks_append {ts : List (Running I ι ε O X)} (h : ∀ t ∈ ts, Q t)
    {u : Running I ι ε O X} (hu : Q u) : ∀ t ∈ ts ++ [u], Q t :=
  List.forall_mem_append.mpr ⟨h, List.forall_mem_singleton.mpr hu⟩

end TaskList

section Log

/-- The log accounts for the states of the shards: each event is the effect of its operation on
the state that the earlier events left. -/
inductive Coherent (S : System I ι ε O X σ) : (ℕ → σ) → List (Event I O σ) → Prop
  | nil : Coherent S S.init []
  | cons {shards : ℕ → σ} {log : List (Event I O σ)} (e : Event I O σ) (h : Coherent S shards log)
      (hbefore : e.before = shards e.shard)
      (hexec : S.exec e.shard e.now e.op e.before = (e.res, e.after)) :
      Coherent S (Function.update shards e.shard e.after) (e :: log)

/-- The states that an event of a coherent log finds and leaves. -/
theorem Coherent.of_suffix {shards : ℕ → σ} {log : List (Event I O σ)} (h : Coherent S shards log)
    {e : Event I O σ} {older : List (Event I O σ)} (hs : e :: older <:+ log) :
    ∃ shards', Coherent S shards' older ∧ e.before = shards' e.shard ∧
      S.exec e.shard e.now e.op e.before = (e.res, e.after) := by
  induction h with
  | nil => cases List.suffix_nil.mp hs
  | @cons shards log e' h hbefore hexec ih =>
    rcases List.suffix_cons_iff.mp hs with heq | hs
    · obtain ⟨rfl, rfl⟩ := List.cons.inj heq
      exact ⟨shards, h, hbefore, hexec⟩
    · exact ih hs

theorem Coherent.exec {shards : ℕ → σ} {log : List (Event I O σ)} (h : Coherent S shards log) :
    ∀ e ∈ log, S.exec e.shard e.now e.op e.before = (e.res, e.after) := by
  intro e he
  obtain ⟨newer, older, rfl⟩ := List.append_of_mem he
  obtain ⟨-, -, -, hexec⟩ := h.of_suffix (List.suffix_append newer (e :: older))
  exact hexec

/-- What every event of the log preserves holds of all shards, and before and after every event. -/
theorem Coherent.invariant {shards : ℕ → σ} {log : List (Event I O σ)} (h : Coherent S shards log)
    (K : ℕ → σ → Prop) (h0 : ∀ j, K j (S.init j))
    (hstep : ∀ e ∈ log, S.exec e.shard e.now e.op e.before = (e.res, e.after) →
      K e.shard e.before → K e.shard e.after) :
    (∀ j, K j (shards j)) ∧ ∀ e ∈ log, K e.shard e.before ∧ K e.shard e.after := by
  induction h with
  | nil => exact ⟨h0, fun e he => (List.not_mem_nil he).elim⟩
  | @cons shards log e _ hbefore hexec ih =>
    obtain ⟨hshards, hlog⟩ := ih (fun e he => hstep e (.tail _ he))
    have hbefore' : K e.shard e.before := hbefore ▸ hshards e.shard
    have hafter := hstep e (.head _) hexec hbefore'
    constructor
    · intro j
      by_cases hj : j = e.shard
      · rw [hj, Function.update_self]
        exact hafter
      · rw [Function.update_of_ne hj]
        exact hshards j
    · intro e' he'
      rcases List.mem_cons.mp he' with rfl | he'
      · exact ⟨hbefore', hafter⟩
      · exact hlog e' he'

/-- The event takes `f` past the number `n` on shard `j`. -/
def passes (f : σ → ℕ) (j n : ℕ) (e : Event I O σ) : Bool :=
  e.shard == j && (decide (f e.before < n) && decide (n ≤ f e.after))

/-- What only grows passes each number once. -/
theorem Coherent.countP_passes_le {shards : ℕ → σ} {log : List (Event I O σ)}
    (h : Coherent S shards log) (f : σ → ℕ) (hgrows : ∀ e ∈ log, f e.before ≤ f e.after)
    (j n : ℕ) : log.countP (passes f j n) ≤ if n ≤ f (shards j) then 1 else 0 := by
  induction h with
  | nil => exact Nat.zero_le _
  | @cons shards log e _ hbefore _ ih =>
    have hold := ih (fun e he => hgrows e (.tail _ he))
    have hstep := hgrows e (.head _)
    rw [List.countP_cons]
    by_cases hj : e.shard = j
    · subst hj
      rw [Function.update_self]
      rw [← hbefore] at hold
      by_cases hpasses : passes f e.shard n e = true
      · simp only [passes, beq_self_eq_true, Bool.true_and, Bool.and_eq_true,
          decide_eq_true_eq] at hpasses
        rw [if_neg (not_le.mpr hpasses.1)] at hold
        rw [if_pos hpasses.2]
        split <;> omega
      · rw [if_neg hpasses, Nat.add_zero]
        by_cases hn : n ≤ f e.before
        · rw [if_pos hn] at hold
          rwa [if_pos (hn.trans hstep)]
        · rw [if_neg hn] at hold
          exact hold.trans (Nat.zero_le _)
    · have hpasses : passes f j n e = false := by simp [passes, hj]
      rw [Function.update_of_ne (Ne.symm hj), hpasses]
      exact hold

/-- The newest of the values that events of the shard have written. -/
def newest {V : Type} (w : Event I O σ → Option V) (j : ℕ) (log : List (Event I O σ)) : Option V :=
  log.findSome? (fun e => if e.shard = j then w e else none)

theorem newest_cons {V : Type} (w : Event I O σ → Option V) (j : ℕ) (e : Event I O σ)
    (log : List (Event I O σ)) :
    newest w j (e :: log) = if e.shard = j then (w e).or (newest w j log) else newest w j log := by
  rw [newest, List.findSome?_cons]
  by_cases hj : e.shard = j
  · rw [if_pos hj, if_pos hj]
    cases w e <;> rfl
  · rw [if_neg hj, if_neg hj]
    rfl

theorem newest_congr {V : Type} {w w' : Event I O σ → Option V} {j : ℕ} {log : List (Event I O σ)}
    (h : ∀ e ∈ log, e.shard = j → w e = w' e) : newest w j log = newest w' j log := by
  induction log with
  | nil => rfl
  | cons e log ih =>
    rw [newest_cons, newest_cons, ih (fun e he => h e (.tail _ he))]
    by_cases hj : e.shard = j
    · rw [if_pos hj, if_pos hj, h e (.head _) hj]
    · rw [if_neg hj, if_neg hj]

/-- What only the events that write it can change has the value written last. -/
theorem Coherent.eq_newest {shards : ℕ → σ} {log : List (Event I O σ)} (h : Coherent S shards log)
    {V : Type} (f : σ → V) (w : Event I O σ → Option V)
    (hstep : ∀ e ∈ log, S.exec e.shard e.now e.op e.before = (e.res, e.after) →
      f e.after = (w e).getD (f e.before)) (j : ℕ) :
    f (shards j) = (newest w j log).getD (f (S.init j)) := by
  induction h with
  | nil => rfl
  | @cons shards log e _ hbefore hexec ih =>
    have hold := ih (fun e he => hstep e (.tail _ he))
    have hnew := hstep e (.head _) hexec
    rw [newest_cons]
    by_cases hj : e.shard = j
    · subst hj
      rw [Function.update_self, if_pos rfl, hnew, hbefore, hold]
      cases w e <;> rfl
    · rw [Function.update_of_ne (Ne.symm hj), if_neg hj, hold]

theorem Coherent.unique {shards shards' : ℕ → σ} {log : List (Event I O σ)}
    (h : Coherent S shards log) (h' : Coherent S shards' log) : shards = shards' := by
  funext j
  have hstate := h.eq_newest id (fun e => some e.after) (fun _ _ _ => rfl) j
  exact hstate.trans (h'.eq_newest id (fun e => some e.after) (fun _ _ _ => rfl) j).symm

theorem newest_eq_some_iff {V : Type} {w : Event I O σ → Option V} {j : ℕ}
    {log : List (Event I O σ)} {v : V} : newest w j log = some v ↔
      ∃ newer e older, log = newer ++ e :: older ∧ e.shard = j ∧ w e = some v ∧
        ∀ e' ∈ newer, e'.shard = j → w e' = none := by
  simp only [newest, List.findSome?_eq_some_iff, Option.ite_none_right_eq_some, ite_eq_right_iff,
    and_assoc]

theorem newest_eq_none_iff {V : Type} {w : Event I O σ → Option V} {j : ℕ}
    {log : List (Event I O σ)} :
    newest w j log = none ↔ ∀ e ∈ log, e.shard = j → w e = none := by
  simp only [newest, List.findSome?_eq_none_iff, ite_eq_right_iff]

theorem coherent_of_run {ls : List (Label ι O)} {c : Cluster I ι ε O X σ}
    (hrun : run S.step S.start ls = some c) : Coherent S c.shards c.log := by
  refine run_induction (fun _ => True) (fun c => Coherent S c.shards c.log) .nil ?_ ?_ hrun
  · intro c l c' hc _ hm
    cases hm with
    | act hi ht =>
      exact .cons ⟨_, _, _, _, _, _, _, _⟩ hc rfl rfl
    | _ => exact hc
  · exact fun l _ => l.launches_true

end Log

section Tasks

/-- How the programs of a system keep to the contracts of their origins: `post` is the phase in
which a loop may be at its head. -/
structure Keeps (S : System I ι ε O X σ) (C : O → Contract I Φ) (P : O → Prop)
    (post : O → X → Φ → Prop) : Prop where
  answers : ∀ o j now op s, (C o).answers op (S.exec j now op s).1
  program : ∀ o, P o → (S.program o).Follows (C o) (C o).init
    (fun x q => x.elim ((C o).rests q) (fun x => post o x q)) (fun _ q => (C o).rests q)
  again : ∀ o x q, post o x q → (S.again o x).Follows (C o) q
    (fun x q => x.elim ((C o).rests q) (fun x => post o x q)) (fun _ q => (C o).rests q)

variable {C : O → Contract I Φ} {P : O → Prop} {post : O → X → Φ → Prop}

/-- The task is on its way through its contract. -/
def OnTrack (S : System I ι ε O X σ) (C : O → Contract I Φ) (post : O → X → Φ → Prop)
    (t : Running I ι ε O X) : Prop :=
  (t.shard < S.count ∨ (C t.origin).addresses t.shard) ∧ Lawful (C t.origin) t.past ∧
  t.task.Follows (C t.origin) (phase (C t.origin) t.past)
    (fun x q => x.elim ((C t.origin).rests q) (fun x => post t.origin x q))
    (fun _ q => (C t.origin).rests q)

/-- A task at a suspension, or at its end, is in a phase where it may rest. -/
theorem OnTrack.rests {t : Running I ι ε O X} (h : OnTrack S C post t) (hb : t.busy = false) :
    (C t.origin).rests (phase (C t.origin) t.past) := by
  obtain ⟨j, o, past, task⟩ := t
  have hf := h.2.2
  cases task with
  | ret x =>
    cases x with
    | none => exact hf
    | some x => cases hb
  | throw e => exact hf
  | await k => exact hf.1
  | wait op k => exact hf.1
  | call | fork | invokeOn => cases hb

private theorem onTrack_child {C : Contract I Φ} {q : Φ} {u : Coroutine I ι ε Unit}
    {R : X → Φ → Prop}
    (hr : C.rests (C.child q))
    (hu : u.Follows C (C.child q) (fun _ q => C.rests q) (fun _ q => C.rests q)) :
    (Coroutine.await (fun _ => u.andThen (fun _ => .ret none) .throw) :
      Coroutine I ι ε (Option X)).Follows C (C.child q)
      (fun x q => x.elim (C.rests q) (fun x => R x q)) (fun _ q => C.rests q) :=
  ⟨hr, fun _ => (Coroutine.follows_andThen _ _ _).mpr hu⟩

/-- In a run all tasks are on track, and every call of the log was allowed in its phase. -/
theorem onTrack_of_run (hk : Keeps S C P post) {ls : List (Label ι O)}
    (hls : ∀ l ∈ ls, l.Launches P) {c : Cluster I ι ε O X σ}
    (hrun : run S.step S.start ls = some c) :
    (∀ t ∈ c.tasks, OnTrack S C post t) ∧ ∀ e ∈ c.log, Lawful (C e.origin) e.history := by
  refine run_induction P (fun c => (∀ t ∈ c.tasks, OnTrack S C post t) ∧
    ∀ e ∈ c.log, Lawful (C e.origin) e.history) ?_ ?_ hls hrun
  · exact ⟨fun t ht => (List.not_mem_nil ht).elim, fun e he => (List.not_mem_nil he).elim⟩
  · rintro c l c' ⟨ht, hlog⟩ hl hm
    cases hm with
    | tick d => exact ⟨ht, hlog⟩
    | launch o hj =>
      exact ⟨forall_tasks_append ht ⟨.inl hj, trivial, hk.program o hl⟩, hlog⟩
    | @resume i t k v hi htask =>
      obtain ⟨hs, hlaw, hf⟩ := ht t (List.mem_of_getElem? hi)
      rw [htask] at hf
      refine ⟨forall_tasks_set ht ?_ i, hlog⟩
      exact ⟨hs, hlaw, hf.2 v⟩
    | @act i l t op k hi htask =>
      obtain ⟨hs, hlaw, hf⟩ := ht t (List.mem_of_getElem? hi)
      have hans := hk.answers t.origin t.shard c.now op (c.shards t.shard)
      have hf' : (C t.origin).allows (phase (C t.origin) t.past) op ∧
          ∀ r, (C t.origin).answers op r → (k r).Follows (C t.origin)
            ((C t.origin).next (phase (C t.origin) t.past) op r)
            (fun x q => x.elim ((C t.origin).rests q) (fun x => post t.origin x q))
            (fun _ q => (C t.origin).rests q) := by
        rcases htask with htask | ⟨htask, -⟩ <;> rw [htask] at hf
        · exact hf
        · exact hf.2
      have hdid : Lawful (C t.origin)
          (.did op (S.exec t.shard c.now op (c.shards t.shard)).1 :: t.past) :=
        ⟨⟨hf'.1, hans⟩, hlaw⟩
      refine ⟨forall_tasks_set ht ?_ i, List.forall_mem_cons.mpr ⟨hdid, hlog⟩⟩
      exact ⟨hs, hdid, hf'.2 _ hans⟩
    | @fork i l t u k hi htask =>
      obtain ⟨hs, hlaw, hf⟩ := ht t (List.mem_of_getElem? hi)
      rw [htask] at hf
      have hgoes := forall_tasks_set ht (u := { t with task := k }) ⟨hs, hlaw, hf.2⟩ i
      exact ⟨forall_tasks_append hgoes ⟨hs, hlaw, onTrack_child hf.1.1 hf.1.2⟩, hlog⟩
    | @invokeOn i n l t u k hi htask =>
      obtain ⟨hs, hlaw, hf⟩ := ht t (List.mem_of_getElem? hi)
      rw [htask] at hf
      have hgoes := forall_tasks_set ht (u := { t with task := k }) ⟨hs, hlaw, hf.2⟩ i
      exact ⟨forall_tasks_append hgoes ⟨.inr hf.1.1, hlaw, onTrack_child hf.1.2.1 hf.1.2.2⟩, hlog⟩
    | @again i l t x hi htask =>
      obtain ⟨hs, hlaw, hf⟩ := ht t (List.mem_of_getElem? hi)
      rw [htask] at hf
      refine ⟨forall_tasks_set ht ?_ i, hlog⟩
      exact ⟨hs, hlaw, hk.again _ _ _ hf⟩

end Tasks

section Histories

theorem suffix_of_mem {α : Type*} {l : List α} {a : α} (h : a ∈ l) : ∃ l', a :: l' <:+ l := by
  obtain ⟨newer, older, rfl⟩ := List.append_of_mem h
  exact ⟨older, List.suffix_append newer _⟩

/-- What holds of the shard, the origin and the history of every task and every event, given what
its three ways to grow preserve. -/
theorem histories_of_run (P : O → Prop) (R : List (Event I O σ) → ℕ → O → List (Mark I) → Prop)
    (hnil : ∀ log o, P o → R log (S.place o) o [])
    (hcons : ∀ log e j o past, R log j o past → R (e :: log) j o past)
    (hdid : ∀ log e, R log e.shard e.origin e.past → R (e :: log) e.shard e.origin e.history)
    (hstarted : ∀ log j n o past, R log j o past → R log n o (.started :: past))
    {ls : List (Label ι O)} (hls : ∀ l ∈ ls, l.Launches P) {c : Cluster I ι ε O X σ}
    (hrun : run S.step S.start ls = some c) :
    (∀ t ∈ c.tasks, R c.log t.shard t.origin t.past) ∧
      ∀ e older, e :: older <:+ c.log → R older e.shard e.origin e.past := by
  refine run_induction P (fun c => (∀ t ∈ c.tasks, R c.log t.shard t.origin t.past) ∧
    ∀ e older, e :: older <:+ c.log → R older e.shard e.origin e.past) ?_ ?_ hls hrun
  · exact ⟨fun t ht => (List.not_mem_nil ht).elim, fun e older he => by cases List.suffix_nil.mp he⟩
  · rintro c l c' ⟨ht, hlog⟩ hl hm
    cases hm with
    | tick d => exact ⟨ht, hlog⟩
    | launch o hj => exact ⟨forall_tasks_append ht (hnil _ o hl), hlog⟩
    | resume v hi htask | again hi htask =>
      have hold := ht _ (List.mem_of_getElem? hi)
      refine ⟨forall_tasks_set ht ?_ _, hlog⟩
      exact hold
    | @act i l t op k hi htask =>
      have hold := ht t (List.mem_of_getElem? hi)
      constructor
      · refine forall_tasks_set (fun u hu => hcons _ _ _ _ _ (ht u hu)) ?_ i
        exact hdid _ ⟨_, _, _, _, _, _, _, _⟩ hold
      · intro e older he
        rcases List.suffix_cons_iff.mp he with heq | he
        · obtain ⟨rfl, rfl⟩ := List.cons.inj heq
          exact hold
        · exact hlog e older he
    | @fork i l t u k hi htask | @invokeOn i n l t u k hi htask =>
      have hold := ht t (List.mem_of_getElem? hi)
      have hgoes := forall_tasks_set ht (u := { t with task := k }) hold i
      exact ⟨forall_tasks_append hgoes (hstarted _ _ _ _ _ hold), hlog⟩

theorem origins_of_run (P : O → Prop) {ls : List (Label ι O)} (hls : ∀ l ∈ ls, l.Launches P)
    {c : Cluster I ι ε O X σ} (hrun : run S.step S.start ls = some c) :
    (∀ t ∈ c.tasks, P t.origin) ∧ ∀ e ∈ c.log, P e.origin := by
  have h := histories_of_run P (fun _ _ o _ => P o) (fun _ _ h => h) (fun _ _ _ _ _ h => h)
    (fun _ _ h => h) (fun _ _ _ _ _ h => h) hls hrun
  refine ⟨h.1, fun e he => ?_⟩
  obtain ⟨older, hs⟩ := suffix_of_mem he
  exact h.2 e older hs

/-- Every call in the history is an event of the log, with what stands before it as its past. -/
def Recorded (log : List (Event I O σ)) (o : O) (past : List (Mark I)) : Prop :=
  ∀ op r earlier, .did op r :: earlier <:+ past →
    ∃ e ∈ log, e.origin = o ∧ e.history = .did op r :: earlier

/-- In a run the histories of the tasks and of the events are recorded, and what an event looks
back on stands in the log before it. -/
theorem recorded_of_run {ls : List (Label ι O)} {c : Cluster I ι ε O X σ}
    (hrun : run S.step S.start ls = some c) :
    (∀ t ∈ c.tasks, Recorded c.log t.origin t.past) ∧
      ∀ e older, e :: older <:+ c.log → Recorded older e.origin e.past := by
  have cons : ∀ (log : List (Event I O σ)) (e : Event I O σ) (o : O) (past : List (Mark I)),
      Recorded log o past → Recorded (e :: log) o past := by
    intro log e o past h op r earlier hs
    obtain ⟨e', he', hrest⟩ := h op r earlier hs
    exact ⟨e', .tail _ he', hrest⟩
  refine histories_of_run (fun _ => True) (fun log _ o past => Recorded log o past) ?_ ?_ ?_ ?_
    (fun l _ => l.launches_true) hrun
  · intro log o _ op r earlier hs
    cases List.suffix_nil.mp hs
  · exact fun log e _ o past h => cons log e o past h
  · intro log e h op r earlier hs
    rcases List.suffix_cons_iff.mp hs with heq | hs
    · exact ⟨e, .head _, rfl, heq.symm⟩
    · exact cons log e _ _ h op r earlier hs
  · intro log _ _ o past h op r earlier hs
    rcases List.suffix_cons_iff.mp hs with heq | hs
    · cases heq
    · exact h op r earlier hs

/-- A task that no other task has started runs where its origin places it. -/
theorem placed_of_run {ls : List (Label ι O)} {c : Cluster I ι ε O X σ}
    (hrun : run S.step S.start ls = some c) :
    (∀ t ∈ c.tasks, .started ∉ t.past → t.shard = S.place t.origin) ∧
      ∀ e ∈ c.log, .started ∉ e.past → e.shard = S.place e.origin := by
  have h := histories_of_run (fun _ => True) (fun _ j o past => .started ∉ past → j = S.place o)
    (fun _ _ _ _ => rfl) (fun _ _ _ _ _ h => h)
    (fun _ _ h hnew => h (fun hmem => hnew (.tail _ hmem)))
    (fun _ _ _ _ _ _ hnew => absurd (.head _) hnew) (fun l _ => l.launches_true) hrun
  refine ⟨h.1, fun e he => ?_⟩
  obtain ⟨older, hs⟩ := suffix_of_mem he
  exact h.2 e older hs

/-- What is sent to a shard that is not there stays there: all calls are made on shards of the
server. -/
theorem shard_lt_of_run {ls : List (Label ι O)} {c : Cluster I ι ε O X σ}
    (hrun : run S.step S.start ls = some c) : ∀ e ∈ c.log, e.shard < S.count := by
  have hinvariant : (∀ t ∈ c.tasks, t.shard < S.count ∨ ∃ k, t.task = .await k) ∧
      ∀ e ∈ c.log, e.shard < S.count := by
    refine invariant_of_run (C := fun _ _ _ => True)
      (I := fun c => (∀ t ∈ c.tasks, t.shard < S.count ∨ ∃ k, t.task = .await k) ∧
        ∀ e ∈ c.log, e.shard < S.count) ?_
      ⟨fun t ht => (List.not_mem_nil ht).elim, fun e he => (List.not_mem_nil he).elim⟩
      (along_true _ _) hrun
    rintro c l c' ⟨ht, hlog⟩ hstep -
    have runs : ∀ {i : ℕ} {t : Running I ι ε O X}, c.tasks[i]? = some t →
        (∀ k, t.task ≠ .await k) → t.shard < S.count := by
      intro i t hi htask
      rcases ht t (List.mem_of_getElem? hi) with hj | ⟨k, hk⟩
      · exact hj
      · exact absurd hk (htask k)
    have hm := step_cases hstep
    cases hm with
    | tick d => exact ⟨ht, hlog⟩
    | launch o hj => exact ⟨forall_tasks_append ht (.inl hj), hlog⟩
    | @resume i t k v hi htask =>
      obtain ⟨t', hi', hguarded⟩ := Option.bind_eq_some_iff.mp hstep
      obtain rfl : t = t' := Option.some.inj (hi.symm.trans hi')
      split at hguarded
      · rename_i hj
        refine ⟨forall_tasks_set ht ?_ i, hlog⟩
        exact .inl hj.1
      · cases hguarded
    | @act i l t op k hi htask =>
      have hj := runs hi (by rcases htask with htask | ⟨htask, -⟩ <;> rw [htask] <;> exact nofun)
      refine ⟨forall_tasks_set ht ?_ i, List.forall_mem_cons.mpr ⟨hj, hlog⟩⟩
      exact .inl hj
    | @fork i l t u k hi htask | @invokeOn i n l t u k hi htask =>
      have hj := runs hi (by rw [htask]; exact nofun)
      have hgoes := forall_tasks_set ht (u := { t with task := k }) (.inl hj) i
      exact ⟨forall_tasks_append hgoes (.inr ⟨_, rfl⟩), hlog⟩
    | again hi htask =>
      have hj := runs hi (by rw [htask]; exact nofun)
      refine ⟨forall_tasks_set ht ?_ _, hlog⟩
      exact .inl hj
  exact hinvariant.2

end Histories

section Alone

/-- How a coroutine on shard `j` can go on when nothing else runs, from one state of the shard to
another. The clock stands at 0. -/
inductive Path (S : System I ι ε O X σ) (j : ℕ) :
    Coroutine I ι ε (Option X) → σ → Coroutine I ι ε (Option X) → σ → Prop
  | refl (t : Coroutine I ι ε (Option X)) (s : σ) : Path S j t s t s
  | call {op : I.Op} {k : I.Res op → Coroutine I ι ε (Option X)} {s s' : σ}
      {t : Coroutine I ι ε (Option X)}
      (h : Path S j (k (S.exec j 0 op s).1) (S.exec j 0 op s).2 t s') :
      Path S j (.call op k) s t s'
  | await (v : ι) {k : ι → Coroutine I ι ε (Option X)} {s s' : σ}
      {t : Coroutine I ι ε (Option X)} (h : Path S j (k v) s t s') : Path S j (.await k) s t s'

/-- Only the task `t` is there, on shard `j` in state `s`. -/
structure Alone (c : Cluster I ι ε O X σ) (j : ℕ) (t : Coroutine I ι ε (Option X)) (s : σ) :
    Prop where
  now : c.now = 0
  shard : c.shards j = s
  tasks : ∃ o past, c.tasks = [⟨j, o, past, t⟩]

theorem Alone.run {j : ℕ} (hj : j < S.count) {t t' : Coroutine I ι ε (Option X)} {s s' : σ}
    (hp : Path S j t s t' s') {c : Cluster I ι ε O X σ} (hc : Alone c j t s) :
    ∃ ls c', (∀ P : O → Prop, ∀ l ∈ ls, l.Launches P) ∧
      LabelledRuns.run S.step c ls = some c' ∧ Alone c' j t' s' := by
  induction hp generalizing c with
  | refl t s => exact ⟨[], c, fun _ _ h => (List.not_mem_nil h).elim, rfl, hc⟩
  | @call op k s s' t h ih =>
    obtain ⟨hnow, hs, o, past, ht⟩ := hc
    have hstep : S.step c (.advance 0) = some (c.act S 0 ⟨j, o, past, .call op k⟩ op k) := by
      simp [System.step, ht]
    have halone : Alone (c.act S 0 ⟨j, o, past, .call op k⟩ op k) j
        (k (S.exec j 0 op s).1) (S.exec j 0 op s).2 :=
      ⟨hnow, by simp only [Cluster.act, Function.update_self, hnow, hs], o,
        .did op (S.exec j 0 op s).1 :: past, by
        simp only [Cluster.act, ht, hnow, hs, List.set_cons_zero]⟩
    obtain ⟨ls, c', hl, hrun, hc'⟩ := ih halone
    refine ⟨.advance 0 :: ls, c', fun P l hmem => ?_, ?_, hc'⟩
    · rcases List.mem_cons.mp hmem with rfl | hmem
      · trivial
      · exact hl P l hmem
    · rw [LabelledRuns.run_cons, hstep]
      exact hrun
  | @await v k s s' t h ih =>
    obtain ⟨hnow, hs, o, past, ht⟩ := hc
    have hstep : S.step c (.resume 0 v) = some (c.goOn 0 ⟨j, o, past, .await k⟩ (k v)) := by
      simp [System.step, ht, hj, Cluster.idle, Running.busy]
    have halone : Alone (c.goOn 0 ⟨j, o, past, .await k⟩ (k v)) j (k v) s :=
      ⟨hnow, hs, o, past, by simp [Cluster.goOn, ht]⟩
    obtain ⟨ls, c', hl, hrun, hc'⟩ := ih halone
    refine ⟨.resume 0 v :: ls, c', fun P l hmem => ?_, ?_, hc'⟩
    · rcases List.mem_cons.mp hmem with rfl | hmem
      · trivial
      · exact hl P l hmem
    · rw [LabelledRuns.run_cons, hstep]
      exact hrun

/-- A program started on an idle cluster whose path leads to the start of a task on shard `n` puts
a task there. -/
theorem exists_run_invokeOn {o : O} (hj : S.place o < S.count) {n : ℕ} {u : Coroutine I ι ε Unit}
    {k : Coroutine I ι ε (Option X)} {s : σ}
    (hp : Path S (S.place o) (S.program o) (S.init (S.place o)) (.invokeOn n u k) s)
    {P : O → Prop} (hP : P o) :
    ∃ ls c, (∀ l ∈ ls, l.Launches P) ∧ LabelledRuns.run S.step S.start ls = some c ∧
      ∃ t ∈ c.tasks, t.shard = n := by
  have hlaunch : S.step S.start (.launch o) =
      some { S.start with tasks := [⟨S.place o, o, [], S.program o⟩] } := by
    simp [System.step, System.start, hj, Cluster.idle]
  have halone : Alone { S.start with tasks := [⟨S.place o, o, [], S.program o⟩] } (S.place o)
      (S.program o) (S.init (S.place o)) := ⟨rfl, rfl, o, [], rfl⟩
  obtain ⟨ls, c, hl, hrun, hnow, hs, o', past, ht⟩ := halone.run hj hp
  have hstep : S.step c (.advance 0) =
      some (c.start 0 ⟨S.place o, o', past, .invokeOn n u k⟩ n u k) := by
    simp [System.step, ht]
  refine ⟨.launch o :: (ls ++ [.advance 0]),
    c.start 0 ⟨S.place o, o', past, .invokeOn n u k⟩ n u k, fun l hmem => ?_, ?_, ?_⟩
  · rcases List.mem_cons.mp hmem with rfl | hmem
    · exact hP
    · rcases List.mem_append.mp hmem with hmem | hmem
      · exact hl P l hmem
      · obtain rfl := List.mem_singleton.mp hmem
        trivial
  · rw [LabelledRuns.run_cons, hlaunch, Option.bind_some, LabelledRuns.run_append, hrun,
      Option.bind_some, LabelledRuns.run_cons, hstep]
    rfl
  · exact ⟨_, List.mem_append_right _ (List.mem_singleton.mpr rfl), rfl⟩

end Alone

section Totals

/-- What an event adds to a quantity `m` that its task keeps. -/
def Event.gain (m : O → List (Mark I) → Int) (e : Event I O σ) : Int :=
  m e.origin e.history - m e.origin e.past

theorem sum_map_set {α : Type*} {f : α → Int} {ts : List α} {i : ℕ} {t : α} (x : Int)
    (hi : ts[i]? = some t) : ((ts.map f).set i x).sum = (ts.map f).sum + (x - f t) := by
  obtain ⟨h, rfl⟩ := List.getElem?_eq_some_iff.mp hi
  rw [List.sum_set', dif_pos (by simpa using h), List.getElem_map]
  omega

theorem sum_indicators {α : Type*} {f : α → Int} {a b : α → Bool} {l : List α}
    (h : ∀ x ∈ l, f x = (if a x then 1 else 0) - (if b x then 1 else 0)) :
    (l.map f).sum = l.countP a - l.countP b := by
  induction l with
  | nil => rfl
  | cons x l ih =>
    have hx := h x (.head _)
    have hl := ih (fun y hy => h y (.tail _ hy))
    rw [List.map_cons, List.sum_cons, hx, hl, List.countP_cons, List.countP_cons]
    split <;> split <;> omega

/-- A quantity that a new task has none of adds up over the tasks to the gains of the log. -/
theorem total_of_run (m : O → List (Mark I) → Int) (hnil : ∀ o, m o [] = 0)
    (hstarted : ∀ o past, m o (.started :: past) = 0) {ls : List (Label ι O)}
    {c : Cluster I ι ε O X σ} (hrun : run S.step S.start ls = some c) :
    (c.tasks.map (fun t => m t.origin t.past)).sum = (c.log.map (Event.gain m)).sum := by
  refine run_induction (fun _ => True) (fun c : Cluster I ι ε O X σ =>
    (c.tasks.map (fun t => m t.origin t.past)).sum = (c.log.map (Event.gain m)).sum)
    rfl ?_ ?_ hrun
  · intro c l c' hc _ hm
    cases hm with
    | tick d => exact hc
    | launch o hj => simpa [hnil] using hc
    | resume v hi htask | again hi htask => simpa [Cluster.goOn, sum_map_set _ hi] using hc
    | fork hi htask | invokeOn hi htask =>
      simpa [Cluster.start, sum_map_set _ hi, hstarted] using hc
    | act hi htask =>
      simp only [Cluster.act, List.map_set, sum_map_set _ hi, List.map_cons, List.sum_cons, hc,
        Event.gain, Event.history]
      omega
  · exact fun l _ => l.launches_true

end Totals

end ClusterRuns
