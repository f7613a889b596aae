import McpSdk.CooperativeTasks

/-!
# Executions of a task

What a task does in surroundings of any kind: a world that its calls change, that takes over the
tasks it starts, and that goes on by itself while it is suspended. `Executes` says from which world
to which a task may come, with which calls in which order and with which result. As `Follows`, it
computes through the text of the task.
-/

namespace CooperativeTasks

/-- The surroundings of a task, with the world `W` as their state. -/
structure Environment (I : Interface) (ι ε W : Type) where
  perform : (op : I.Op) → W → I.Res op × W
  ready : I.Op → W → Prop
  /-- A background task is started. -/
  start : Coroutine I ι ε Unit → W → W
  /-- A task is sent to a shard. -/
  send : Nat → Coroutine I ι ε Unit → W → W
  /-- What may happen while the task is suspended. -/
  meanwhile : W → W → Prop

variable {I : Interface} {ι ε W α β : Type}

/-- From the world `w` the task may come to `w'`, with these calls and this result. -/
def Coroutine.Executes (env : Environment I ι ε W) : {α : Type} → Coroutine I ι ε α → W →
    List I.Op → W → Except ε α → Prop
  | _, .ret a, w, ops, w', r => ops = [] ∧ w' = w ∧ r = .ok a
  | _, .throw e, w, ops, w', r => ops = [] ∧ w' = w ∧ r = .error e
  | _, .call op k, w, ops, w', r => ∃ rest, ops = op :: rest ∧
      (k (env.perform op w).1).Executes env (env.perform op w).2 rest w' r
  | _, .await k, w, ops, w', r => ∃ v w₁, env.meanwhile w w₁ ∧ (k v).Executes env w₁ ops w' r
  | _, .wait op k, w, ops, w', r => ∃ w₁, env.meanwhile w w₁ ∧ env.ready op w₁ ∧
      ∃ rest, ops = op :: rest ∧
        (k (env.perform op w₁).1).Executes env (env.perform op w₁).2 rest w' r
  | _, .fork t k, w, ops, w', r => k.Executes env (env.start t w) ops w' r
  | _, .invokeOn n t k, w, ops, w', r => k.Executes env (env.send n t w) ops w' r

/-- The tasks are executed one after the other, and all of them return. -/
def InTurn (env : Environment I ι ε W) : List (Coroutine I ι ε α) → W → List I.Op → W →
    List α → Prop
  | [], w, ops, w', results => ops = [] ∧ w' = w ∧ results = []
  | t :: ts, w, ops, w', results => ∃ first rest w₁ a more, ops = first ++ rest ∧
      results = a :: more ∧ t.Executes env w first w₁ (.ok a) ∧ InTurn env ts w₁ rest w' more

theorem InTurn.nil {env : Environment I ι ε W} {w : W} :
    InTurn env ([] : List (Coroutine I ι ε α)) w [] w [] := ⟨rfl, rfl, rfl⟩

theorem InTurn.cons {env : Environment I ι ε W} {t : Coroutine I ι ε α}
    {ts : List (Coroutine I ι ε α)} {w w₁ w' : W} {first rest : List I.Op} {a : α} {more : List α}
    (hx : t.Executes env w first w₁ (.ok a)) (h : InTurn env ts w₁ rest w' more) :
    InTurn env (t :: ts) w (first ++ rest) w' (a :: more) :=
  ⟨first, rest, w₁, a, more, rfl, rfl, hx, h⟩

namespace Coroutine
variable {env : Environment I ι ε W} {w w' : W} {ops : List I.Op}

section Rules
variable {r : Except ε α}

@[simp] theorem executes_ret (a : α) : (ret a : Coroutine I ι ε α).Executes env w ops w' r ↔
    ops = [] ∧ w' = w ∧ r = .ok a := Iff.rfl

@[simp] theorem executes_pure (a : α) : (pure a : Coroutine I ι ε α).Executes env w ops w' r ↔
    ops = [] ∧ w' = w ∧ r = .ok a := Iff.rfl

@[simp] theorem executes_throw (e : ε) : (throw e : Coroutine I ι ε α).Executes env w ops w' r ↔
    ops = [] ∧ w' = w ∧ r = .error e := Iff.rfl

@[simp] theorem executes_call (op : I.Op) (k : I.Res op → Coroutine I ι ε α) :
    (call op k).Executes env w ops w' r ↔ ∃ rest, ops = op :: rest ∧
      (k (env.perform op w).1).Executes env (env.perform op w).2 rest w' r := Iff.rfl

@[simp] theorem executes_await (k : ι → Coroutine I ι ε α) :
    (await k).Executes env w ops w' r ↔
      ∃ v w₁, env.meanwhile w w₁ ∧ (k v).Executes env w₁ ops w' r := Iff.rfl

@[simp] theorem executes_wait (op : I.Op) (k : I.Res op → Coroutine I ι ε α) :
    (wait op k).Executes env w ops w' r ↔ ∃ w₁, env.meanwhile w w₁ ∧ env.ready op w₁ ∧
      ∃ rest, ops = op :: rest ∧
        (k (env.perform op w₁).1).Executes env (env.perform op w₁).2 rest w' r := Iff.rfl

@[simp] theorem executes_fork (t : Coroutine I ι ε Unit) (k : Coroutine I ι ε α) :
    (fork t k).Executes env w ops w' r ↔ k.Executes env (env.start t w) ops w' r := Iff.rfl

@[simp] theorem executes_invokeOn (n : Nat) (t : Coroutine I ι ε Unit) (k : Coroutine I ι ε α) :
    (invokeOn n t k).Executes env w ops w' r ↔ k.Executes env (env.send n t w) ops w' r := Iff.rfl

end Rules

/-- The rule of composition: the execution of the second task starts where that of the first one
ends. -/
theorem executes_andThen {r : Except ε β} (t : Coroutine I ι ε α) (k : α → Coroutine I ι ε β)
    (h : ε → Coroutine I ι ε β) :
    (t.andThen k h).Executes env w ops w' r ↔ ∃ first rest w₁ r₁, ops = first ++ rest ∧
      t.Executes env w first w₁ r₁ ∧
      match r₁ with
      | .ok a => (k a).Executes env w₁ rest w' r
      | .error e => (h e).Executes env w₁ rest w' r := by
  induction t generalizing w ops with
  | ret a =>
    constructor
    · exact fun hx => ⟨[], ops, w, .ok a, rfl, ⟨rfl, rfl, rfl⟩, hx⟩
    · rintro ⟨_, rest, _, _, rfl, ⟨rfl, rfl, rfl⟩, hx⟩
      exact hx
  | throw e =>
    constructor
    · exact fun hx => ⟨[], ops, w, .error e, rfl, ⟨rfl, rfl, rfl⟩, hx⟩
    · rintro ⟨_, rest, _, _, rfl, ⟨rfl, rfl, rfl⟩, hx⟩
      exact hx
  | call op c ih =>
    simp only [andThen, executes_call, ih]
    constructor
    · rintro ⟨_, rfl, first, rest, w₁, r₁, rfl, ht, hx⟩
      exact ⟨op :: first, rest, w₁, r₁, rfl, ⟨first, rfl, ht⟩, hx⟩
    · rintro ⟨_, rest, w₁, r₁, rfl, ⟨first, rfl, ht⟩, hx⟩
      exact ⟨first ++ rest, rfl, first, rest, w₁, r₁, rfl, ht, hx⟩
  | await c ih =>
    simp only [andThen, executes_await, ih]
    constructor
    · rintro ⟨v, w₀, hm, first, rest, w₁, r₁, hops, ht, hx⟩
      exact ⟨first, rest, w₁, r₁, hops, ⟨v, w₀, hm, ht⟩, hx⟩
    · rintro ⟨first, rest, w₁, r₁, hops, ⟨v, w₀, hm, ht⟩, hx⟩
      exact ⟨v, w₀, hm, first, rest, w₁, r₁, hops, ht, hx⟩
  | wait op c ih =>
    simp only [andThen, executes_wait, ih]
    constructor
    · rintro ⟨w₀, hm, hr, _, rfl, first, rest, w₁, r₁, rfl, ht, hx⟩
      exact ⟨op :: first, rest, w₁, r₁, rfl, ⟨w₀, hm, hr, first, rfl, ht⟩, hx⟩
    · rintro ⟨_, rest, w₁, r₁, rfl, ⟨w₀, hm, hr, first, rfl, ht⟩, hx⟩
      exact ⟨w₀, hm, hr, first ++ rest, rfl, first, rest, w₁, r₁, rfl, ht, hx⟩
  | fork t c _ ih => simp only [andThen, executes_fork, ih]
  | invokeOn n t c _ ih => simp only [andThen, executes_invokeOn, ih]

theorem executes_bind {r : Except ε β} (t : Coroutine I ι ε α) (k : α → Coroutine I ι ε β) :
    (t >>= k).Executes env w ops w' r ↔ ∃ first rest w₁ r₁, ops = first ++ rest ∧
      t.Executes env w first w₁ r₁ ∧
      match r₁ with
      | .ok a => (k a).Executes env w₁ rest w' r
      | .error e => (throw e : Coroutine I ι ε β).Executes env w₁ rest w' r :=
  executes_andThen t k .throw

/-- What is awaited is done before the world goes on by itself. -/
theorem executes_coAwait [Inhabited ι] {t : Coroutine I ι ε α} {r : Except ε α} :
    t.coAwait.Executes env w ops w' r ↔
      ∃ w₁, t.Executes env w ops w₁ r ∧ env.meanwhile w₁ w' := by
  rw [coAwait, executes_andThen]
  constructor
  · rintro ⟨first, rest, w₁, r₁, rfl, ht, hx⟩
    cases r₁ with
    | ok a | error e =>
      obtain ⟨v, w₂, hmeanwhile, rfl, rfl, rfl⟩ := hx
      exact ⟨w₁, (List.append_nil first).symm ▸ ht, hmeanwhile⟩
  · rintro ⟨w₁, ht, hmeanwhile⟩
    refine ⟨ops, [], w₁, r, (List.append_nil ops).symm, ht, ?_⟩
    cases r with
    | ok a | error e => exact ⟨default, w', hmeanwhile, rfl, rfl, rfl⟩

/-- A task that follows a contract ends as the contract says, if the answers it gets are those
that the contract assumes. -/
theorem Follows.of_executes {Φ : Type} {C : Contract I Φ} {q : Φ} {Q : α → Φ → Prop}
    {E : ε → Φ → Prop} {t : Coroutine I ι ε α} {r : Except ε α} (h : t.Follows C q Q E)
    (hanswers : ∀ op w, C.answers op (env.perform op w).1) (hx : t.Executes env w ops w' r) :
    ∃ q', match r with
      | .ok a => Q a q'
      | .error e => E e q' := by
  induction t generalizing q w ops with
  | ret a =>
    obtain ⟨-, -, rfl⟩ := hx
    exact ⟨q, h⟩
  | throw e =>
    obtain ⟨-, -, rfl⟩ := hx
    exact ⟨q, h⟩
  | call op k ih =>
    obtain ⟨rest, -, hx⟩ := hx
    exact ih _ (h.2 _ (hanswers op w)) hx
  | await k ih =>
    obtain ⟨v, w₁, -, hx⟩ := hx
    exact ih v (h.2 v) hx
  | wait op k ih =>
    obtain ⟨w₁, -, -, rest, -, hx⟩ := hx
    exact ih _ (h.2.2 _ (hanswers op w₁)) hx
  | fork t k _ ih => exact ih h.2 hx
  | invokeOn n t k _ ih => exact ih h.2 hx

end Coroutine
end CooperativeTasks
