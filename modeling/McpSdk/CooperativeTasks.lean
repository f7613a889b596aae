/-!
# Cooperative tasks

A task is a coroutine of a share-nothing runtime: a tree of calls of operations of the shard
it runs on, of suspensions, and of tasks it starts in the background or on other shards.
Between two suspensions nothing else runs on its shard. `andThen` composes tasks along both
their exits; sequencing, exception handlers and `co_await` are cases of it.

A contract is a typestate for tasks: a phase that calls advance, with the calls each phase
allows. `Follows` is its weakest precondition, so a task is checked against a contract
by computing through its text.
-/

namespace CooperativeTasks

/-- The operations of a shard, with the type of their answers. No operation is without one. -/
structure Interface where
  Op : Type
  Res : Op → Type
  answer : ∀ op, Nonempty (Res op)

/-- Two groups of operations side by side. -/
def Interface.sum (I J : Interface) : Interface where
  Op := I.Op ⊕ J.Op
  Res := Sum.elim I.Res J.Res
  answer
    | .inl op => I.answer op
    | .inr op => J.answer op

/-- Tasks over the interface `I` that may fail with an `ε`; `ι` is what the world outside the
server answers to an `await`. -/
inductive Coroutine (I : Interface) (ι ε : Type) : Type → Type 1
  | ret {α : Type} (a : α) : Coroutine I ι ε α
  | throw {α : Type} (e : ε) : Coroutine I ι ε α
  /-- A synchronous call on the task's own shard. -/
  | call {α : Type} (op : I.Op) (k : I.Res op → Coroutine I ι ε α) : Coroutine I ι ε α
  /-- A suspension that the world outside ends. -/
  | await {α : Type} (k : ι → Coroutine I ι ε α) : Coroutine I ι ε α
  /-- A suspension that lasts until the operation can be performed. -/
  | wait {α : Type} (op : I.Op) (k : I.Res op → Coroutine I ι ε α) : Coroutine I ι ε α
  /-- Start a background task on the same shard. -/
  | fork {α : Type} (t : Coroutine I ι ε Unit) (k : Coroutine I ι ε α) : Coroutine I ι ε α
  /-- Send a task to shard `j`. -/
  | invokeOn {α : Type} (j : Nat) (t : Coroutine I ι ε Unit) (k : Coroutine I ι ε α) :
      Coroutine I ι ε α

variable {I J : Interface} {ι ε α β : Type}

namespace Coroutine

/-- Run `t`, then `k` on its result, or `h` on the exception it fails with. -/
def andThen : {α : Type} → Coroutine I ι ε α → (α → Coroutine I ι ε β) →
    (ε → Coroutine I ι ε β) → Coroutine I ι ε β
  | _, .ret a, k, _ => k a
  | _, .throw e, _, h => h e
  | _, .call op c, k, h => .call op (fun r => (c r).andThen k h)
  | _, .await c, k, h => .await (fun v => (c v).andThen k h)
  | _, .wait op c, k, h => .wait op (fun r => (c r).andThen k h)
  | _, .fork t c, k, h => .fork t (c.andThen k h)
  | _, .invokeOn j t c, k, h => .invokeOn j t (c.andThen k h)

instance : Monad (Coroutine I ι ε) where
  pure := .ret
  bind t k := t.andThen k .throw

/-- `try t catch e => h e`. -/
def tryCatch (t : Coroutine I ι ε α) (h : ε → Coroutine I ι ε α) : Coroutine I ι ε α :=
  t.andThen .ret h

/-- `co_await t`: the caller may be suspended once more before it goes on. -/
def coAwait (t : Coroutine I ι ε α) : Coroutine I ι ε α :=
  t.andThen (fun a => .await (fun _ => .ret a)) (fun e => .await (fun _ => .throw e))

/-- One synchronous call. -/
def perform (op : I.Op) : Coroutine I ι ε (I.Res op) := .call op .ret

/-- Wait until `op` can be performed, and perform it. -/
def waitFor (op : I.Op) : Coroutine I ι ε (I.Res op) := .wait op .ret

/-- An answer of the world outside. -/
def external : Coroutine I ι ε ι := .await .ret

/-- `invoke_on(j, t)` whose future is left alone. -/
def send (j : Nat) (t : Coroutine I ι ε Unit) : Coroutine I ι ε Unit := .invokeOn j t (.ret ())

/-- Send `t` to the shards `ns`, and wait until all of it has been done there: `gathered n` is the
operation that can be performed once the last `n` tasks that were sent are at their ends. -/
def invokeOnEach (gathered : Nat → I.Op) (ns : List Nat) (t : Coroutine I ι ε Unit) :
    Coroutine I ι ε Unit :=
  ns.foldr (fun n rest => .invokeOn n t rest) (.wait (gathered ns.length) (fun _ => .ret ()))

/-- `invoke_on_all(t)`. -/
def invokeOnAll (gathered : Nat → I.Op) (count : Nat) (t : Coroutine I ι ε Unit) :
    Coroutine I ι ε Unit :=
  invokeOnEach gathered (List.range count) t

/-- `invoke_on_others(t)` on shard `j`. -/
def invokeOnOthers (gathered : Nat → I.Op) (count j : Nat) (t : Coroutine I ι ε Unit) :
    Coroutine I ι ε Unit :=
  invokeOnEach gathered ((List.range count).filter (· ≠ j)) t

def ofExcept : Except ε α → Coroutine I ι ε α
  | .ok a => .ret a
  | .error e => .throw e

/-- `run_in_background(t)`: `t` runs up to its first suspension, and the rest of it in the
background, where a failure is only reported. -/
def background : {α : Type} → Coroutine I ι ε α → Coroutine I ι ε Unit
  | _, .ret _ => .ret ()
  | _, .throw _ => .ret ()
  | _, .call op k => .call op (fun r => (k r).background)
  | _, .await k => .fork (.await (fun v => (k v).andThen (fun _ => .ret ()) .throw)) (.ret ())
  | _, .wait op k => .fork (.wait op (fun r => (k r).andThen (fun _ => .ret ()) .throw)) (.ret ())
  | _, .fork t k => .fork t k.background
  | _, .invokeOn j t k => .invokeOn j t k.background

/-- A task of the first group of operations, run on a shard that offers both. -/
def inl : {α : Type} → Coroutine I ι ε α → Coroutine (I.sum J) ι ε α
  | _, .ret a => .ret a
  | _, .throw e => .throw e
  | _, .call op k => .call (.inl op) (fun r => (k r).inl)
  | _, .await k => .await (fun v => (k v).inl)
  | _, .wait op k => .wait (.inl op) (fun r => (k r).inl)
  | _, .fork t k => .fork t.inl k.inl
  | _, .invokeOn j t k => .invokeOn j t.inl k.inl

end Coroutine

/-- The task on a shard of its own up to where it is suspended or starts another one: what is left
of it, and the state. -/
def Coroutine.proceed {σ : Type} (exec : (op : I.Op) → σ → I.Res op × σ) : {α : Type} →
    Coroutine I ι ε α → σ → Coroutine I ι ε α × σ
  | _, .call op k, s => (k (exec op s).1).proceed exec (exec op s).2
  | _, t, s => (t, s)

/-- A first part that ends is followed by the second. -/
theorem Coroutine.proceed_bind {σ : Type} {exec : (op : I.Op) → σ → I.Res op × σ}
    {t : Coroutine I ι ε α} {k : α → Coroutine I ι ε β} {s s' : σ} {a : α}
    (h : t.proceed exec s = (.ret a, s')) :
    (t >>= k).proceed exec s = (k a).proceed exec s' := by
  induction t generalizing s with
  | ret b =>
    obtain ⟨hb, rfl⟩ := Prod.mk.inj h
    cases hb
    rfl
  | call op c ih => exact ih _ h
  | _ => cases h

theorem Coroutine.proceed_coAwait {σ : Type} (exec : (op : I.Op) → σ → I.Res op × σ)
    (t : Coroutine I ι ε α) (s : σ) (a : α) : (t.coAwait.proceed exec s).1 ≠ .ret a := by
  induction t generalizing s with
  | call op k ih => exact ih _ _ _
  | _ => exact fun h => by cases h

theorem Coroutine.inl_invokeOnAll (gathered : Nat → I.Op) (count : Nat)
    (t : Coroutine I ι ε Unit) :
    ((invokeOnAll gathered count t).inl : Coroutine (I.sum J) ι ε Unit) =
      invokeOnAll (I := I.sum J) (fun n => .inl (gathered n)) count t.inl := by
  unfold invokeOnAll invokeOnEach
  generalize (List.range count).length = m
  induction List.range count with
  | nil => rfl
  | cons n ns ih => exact congrArg (Coroutine.invokeOn n t.inl) ih

/-- A typestate for tasks. `allows` says which calls may be made in which phase, `answers` what
may be assumed of their results, `next` where they lead, `child` in which phase a task started
in a phase begins, `rests` in which phases a task may be suspended or end, and `addresses` which
shards may be named. -/
structure Contract (I : Interface) (Φ : Type) where
  init : Φ
  allows : Φ → I.Op → Prop
  answers : (op : I.Op) → I.Res op → Prop
  next : Φ → (op : I.Op) → I.Res op → Φ
  child : Φ → Φ
  rests : Φ → Prop
  addresses : Nat → Prop

variable {Φ : Type}

/-- From phase `q` the task keeps to the contract and ends in `Q` or fails in `E`. So do the
tasks it starts, which end where they may rest. -/
def Coroutine.Follows (C : Contract I Φ) : {α : Type} → Coroutine I ι ε α → Φ →
    (α → Φ → Prop) → (ε → Φ → Prop) → Prop
  | _, .ret a, q, Q, _ => Q a q
  | _, .throw e, q, _, E => E e q
  | _, .call op k, q, Q, E => C.allows q op ∧
      ∀ r, C.answers op r → (k r).Follows C (C.next q op r) Q E
  | _, .await k, q, Q, E => C.rests q ∧ ∀ v, (k v).Follows C q Q E
  | _, .wait op k, q, Q, E => C.rests q ∧ C.allows q op ∧
      ∀ r, C.answers op r → (k r).Follows C (C.next q op r) Q E
  | _, .fork t k, q, Q, E =>
      (C.rests (C.child q) ∧
        t.Follows C (C.child q) (fun _ q => C.rests q) (fun _ q => C.rests q)) ∧
      k.Follows C q Q E
  | _, .invokeOn n t k, q, Q, E =>
      (C.addresses n ∧ C.rests (C.child q) ∧
        t.Follows C (C.child q) (fun _ q => C.rests q) (fun _ q => C.rests q)) ∧
      k.Follows C q Q E

namespace Coroutine
variable {C : Contract I Φ} {q : Φ}

section Rules
variable {Q : α → Φ → Prop} {E : ε → Φ → Prop}

@[simp] theorem follows_ret (a : α) :
    (ret a : Coroutine I ι ε α).Follows C q Q E ↔ Q a q := Iff.rfl

@[simp] theorem follows_pure (a : α) :
    (pure a : Coroutine I ι ε α).Follows C q Q E ↔ Q a q := Iff.rfl

@[simp] theorem follows_throw (e : ε) :
    (throw e : Coroutine I ι ε α).Follows C q Q E ↔ E e q := Iff.rfl

@[simp] theorem follows_call (op : I.Op) (k : I.Res op → Coroutine I ι ε α) :
    (call op k).Follows C q Q E ↔ C.allows q op ∧
      ∀ r, C.answers op r → (k r).Follows C (C.next q op r) Q E := Iff.rfl

@[simp] theorem follows_await (k : ι → Coroutine I ι ε α) :
    (await k).Follows C q Q E ↔ C.rests q ∧ ∀ v, (k v).Follows C q Q E := Iff.rfl

@[simp] theorem follows_wait (op : I.Op) (k : I.Res op → Coroutine I ι ε α) :
    (wait op k).Follows C q Q E ↔ C.rests q ∧ C.allows q op ∧
      ∀ r, C.answers op r → (k r).Follows C (C.next q op r) Q E := Iff.rfl

@[simp] theorem follows_fork (t : Coroutine I ι ε Unit) (k : Coroutine I ι ε α) :
    (fork t k).Follows C q Q E ↔
      (C.rests (C.child q) ∧
        t.Follows C (C.child q) (fun _ q => C.rests q) (fun _ q => C.rests q)) ∧
      k.Follows C q Q E := Iff.rfl

@[simp] theorem follows_invokeOn (n : Nat) (t : Coroutine I ι ε Unit) (k : Coroutine I ι ε α) :
    (invokeOn n t k).Follows C q Q E ↔
      (C.addresses n ∧ C.rests (C.child q) ∧
        t.Follows C (C.child q) (fun _ q => C.rests q) (fun _ q => C.rests q)) ∧
      k.Follows C q Q E := Iff.rfl

/-- The rule of composition: the first task ends where the second can start. -/
theorem follows_andThen {Q : β → Φ → Prop} (t : Coroutine I ι ε α) (k : α → Coroutine I ι ε β)
    (h : ε → Coroutine I ι ε β) :
    (t.andThen k h).Follows C q Q E ↔
      t.Follows C q (fun a q' => (k a).Follows C q' Q E) (fun e q' => (h e).Follows C q' Q E) := by
  induction t generalizing q with
  | ret a => rfl
  | throw e => rfl
  | call op c ih => simp only [andThen, follows_call, ih]
  | await c ih => simp only [andThen, follows_await, ih]
  | wait op c ih => simp only [andThen, follows_wait, ih]
  | fork t c _ ih => simp only [andThen, follows_fork, ih]
  | invokeOn n t c _ ih => simp only [andThen, follows_invokeOn, ih]

@[simp] theorem follows_bind {Q : β → Φ → Prop} (t : Coroutine I ι ε α)
    (k : α → Coroutine I ι ε β) :
    (t >>= k).Follows C q Q E ↔ t.Follows C q (fun a q' => (k a).Follows C q' Q E) E :=
  follows_andThen t k .throw

@[simp] theorem follows_tryCatch (t : Coroutine I ι ε α) (h : ε → Coroutine I ι ε α) :
    (t.tryCatch h).Follows C q Q E ↔ t.Follows C q Q (fun e q' => (h e).Follows C q' Q E) :=
  follows_andThen t .ret h

@[simp] theorem follows_coAwait (t : Coroutine I ι ε α) :
    t.coAwait.Follows C q Q E ↔
      t.Follows C q (fun a q' => C.rests q' ∧ (ι → Q a q'))
        (fun e q' => C.rests q' ∧ (ι → E e q')) :=
  follows_andThen t _ _

@[simp] theorem follows_perform (op : I.Op) {Q : I.Res op → Φ → Prop} :
    (perform op : Coroutine I ι ε _).Follows C q Q E ↔
      C.allows q op ∧ ∀ r, C.answers op r → Q r (C.next q op r) := Iff.rfl

@[simp] theorem follows_waitFor (op : I.Op) {Q : I.Res op → Φ → Prop} :
    (waitFor op : Coroutine I ι ε _).Follows C q Q E ↔
      C.rests q ∧ C.allows q op ∧ ∀ r, C.answers op r → Q r (C.next q op r) := Iff.rfl

@[simp] theorem follows_external {Q : ι → Φ → Prop} :
    (external : Coroutine I ι ε ι).Follows C q Q E ↔ C.rests q ∧ ∀ v, Q v q := Iff.rfl

@[simp] theorem follows_send (n : Nat) (t : Coroutine I ι ε Unit) {Q : Unit → Φ → Prop} :
    (send n t).Follows C q Q E ↔
      (C.addresses n ∧ C.rests (C.child q) ∧
        t.Follows C (C.child q) (fun _ q => C.rests q) (fun _ q => C.rests q)) ∧ Q () q := Iff.rfl

end Rules

/-- The rule of consequence. -/
theorem Follows.mono {Q Q' : α → Φ → Prop} {E E' : ε → Φ → Prop} {t : Coroutine I ι ε α}
    (h : t.Follows C q Q E) (hQ : ∀ a q, Q a q → Q' a q) (hE : ∀ e q, E e q → E' e q) :
    t.Follows C q Q' E' := by
  induction t generalizing q with
  | ret a => exact hQ a q h
  | throw e => exact hE e q h
  | call op k ih => exact ⟨h.1, fun r hr => ih r (h.2 r hr) hQ⟩
  | await k ih => exact ⟨h.1, fun v => ih v (h.2 v) hQ⟩
  | wait op k ih => exact ⟨h.1, h.2.1, fun r hr => ih r (h.2.2 r hr) hQ⟩
  | fork t k _ ih => exact ⟨h.1, ih h.2 hQ⟩
  | invokeOn n t k _ ih => exact ⟨h.1, ih h.2 hQ⟩

/-- The rule of conjunction. -/
theorem Follows.and {Q Q' : α → Φ → Prop} {E E' : ε → Φ → Prop} {t : Coroutine I ι ε α}
    (h : t.Follows C q Q E) (h' : t.Follows C q Q' E') :
    t.Follows C q (fun a q => Q a q ∧ Q' a q) (fun e q => E e q ∧ E' e q) := by
  induction t generalizing q E E' with
  | ret a => exact ⟨h, h'⟩
  | throw e => exact ⟨h, h'⟩
  | call op k ih => exact ⟨h.1, fun r hr => ih r (h.2 r hr) (h'.2 r hr)⟩
  | await k ih => exact ⟨h.1, fun v => ih v (h.2 v) (h'.2 v)⟩
  | wait op k ih => exact ⟨h.1, h.2.1, fun r hr => ih r (h.2.2 r hr) (h'.2.2 r hr)⟩
  | fork t k _ ih => exact ⟨h.1, ih h.2 h'.2⟩
  | invokeOn n t k _ ih => exact ⟨h.1, ih h.2 h'.2⟩

end Coroutine

/-- What a contract says about the first of two groups of operations. -/
def Contract.left (C : Contract (I.sum J) Φ) : Contract I Φ where
  init := C.init
  allows q op := C.allows q (.inl op)
  answers op r := C.answers (.inl op) r
  next q op r := C.next q (.inl op) r
  child := C.child
  rests := C.rests
  addresses := C.addresses

theorem Coroutine.follows_inl {C : Contract (I.sum J) Φ} {q : Φ} {Q : α → Φ → Prop}
    {E : ε → Φ → Prop} (t : Coroutine I ι ε α) :
    (t.inl : Coroutine (I.sum J) ι ε α).Follows C q Q E ↔ t.Follows C.left q Q E := by
  induction t generalizing q E with
  | ret a => rfl
  | throw e => rfl
  | call op k ih => exact and_congr Iff.rfl (forall_congr' fun r => imp_congr Iff.rfl (ih r))
  | await k ih => exact and_congr Iff.rfl (forall_congr' fun v => ih v)
  | wait op k ih =>
    exact and_congr Iff.rfl
      (and_congr Iff.rfl (forall_congr' fun r => imp_congr Iff.rfl (ih r)))
  | fork t k iht ih => exact and_congr (and_congr Iff.rfl iht) ih
  | invokeOn n t k iht ih => exact and_congr (and_congr Iff.rfl (and_congr Iff.rfl iht)) ih

/-- The contract that only says which calls are made and which shards are addressed. -/
def Contract.calling (I : Interface) (A : I.Op → Prop) (T : Nat → Prop) : Contract I Unit where
  init := ()
  allows _ := A
  answers _ _ := True
  next _ _ _ := ()
  child _ := ()
  rests _ := True
  addresses := T

/-- The contract that asks for nothing, except which shards are addressed. -/
abbrev Contract.addressing (I : Interface) (T : Nat → Prop) : Contract I Unit :=
  .calling I (fun _ => True) T

/-- A contract without demands. -/
structure Contract.Free (C : Contract I Φ) : Prop where
  allows : ∀ q op, C.allows q op
  rests : ∀ q, C.rests q
  addresses : ∀ n, C.addresses n

theorem Coroutine.Follows.of_free {C : Contract I Φ} (hC : C.Free) (t : Coroutine I ι ε α) (q : Φ) :
    t.Follows C q (fun _ _ => True) (fun _ _ => True) := by
  induction t generalizing q with
  | ret a => trivial
  | throw e => trivial
  | call op k ih => exact ⟨hC.allows q op, fun r _ => ih r _⟩
  | await k ih => exact ⟨hC.rests q, fun v => ih v q⟩
  | wait op k ih => exact ⟨hC.rests q, hC.allows q op, fun r _ => ih r _⟩
  | fork t k iht ih =>
    exact ⟨⟨hC.rests _, (iht _).mono (fun _ q _ => hC.rests q) (fun _ q _ => hC.rests q)⟩, ih q⟩
  | invokeOn n t k iht ih =>
    exact ⟨⟨hC.addresses n, hC.rests _,
      (iht _).mono (fun _ q _ => hC.rests q) (fun _ q _ => hC.rests q)⟩, ih q⟩

/-- A contract under which a task that stays in `P` may make the calls of `A`, and they keep its
phase. -/
structure Contract.Idle (C : Contract I Φ) (A : I.Op → Prop) (P : Φ → Prop) : Prop where
  allows : ∀ q op, P q → A op → C.allows q op
  next : ∀ q op r, P q → A op → C.next q op r = q
  rests : ∀ q, P q → C.rests q
  child : ∀ q, P q → P (C.child q)

theorem Contract.Idle.mono {C : Contract I Φ} {A B : I.Op → Prop} {P : Φ → Prop} (h : C.Idle B P)
    (hAB : ∀ op, A op → B op) : C.Idle A P where
  allows q op hq hop := h.allows q op hq (hAB op hop)
  next q op r hq hop := h.next q op r hq (hAB op hop)
  rests := h.rests
  child := h.child

/-- Under an idle contract all that matters of a task is what it calls, whom it addresses and how
it ends. -/
theorem Coroutine.Follows.of_calling {C : Contract I Φ} {A : I.Op → Prop} {P : Φ → Prop}
    (hC : C.Idle A P) {T : Nat → Prop} (hT : ∀ n, T n → C.addresses n)
    {t : Coroutine I ι ε α} {q : Φ} (hq : P q) {Q : α → Unit → Prop} {E : ε → Unit → Prop}
    (h : t.Follows (.calling I A T) () Q E) :
    t.Follows C q (fun a q' => Q a () ∧ q' = q) (fun e q' => E e () ∧ q' = q) := by
  induction t generalizing q E with
  | ret a => exact ⟨h, rfl⟩
  | throw e => exact ⟨h, rfl⟩
  | call op k ih =>
    refine ⟨hC.allows q op hq h.1, fun r _ => ?_⟩
    rw [hC.next q op r hq h.1]
    exact ih r hq (h.2 r trivial)
  | await k ih => exact ⟨hC.rests q hq, fun v => ih v hq (h.2 v)⟩
  | wait op k ih =>
    refine ⟨hC.rests q hq, hC.allows q op hq h.2.1, fun r _ => ?_⟩
    rw [hC.next q op r hq h.2.1]
    exact ih r hq (h.2.2 r trivial)
  | fork t k iht ih =>
    have hc := hC.child q hq
    refine ⟨⟨hC.rests _ hc, (iht hc h.1.2).mono ?_ ?_⟩, ih hq h.2⟩ <;>
      exact fun _ _ hr => hr.2 ▸ hC.rests _ hc
  | invokeOn n t k iht ih =>
    have hc := hC.child q hq
    refine ⟨⟨hT n h.1.1, hC.rests _ hc, (iht hc h.1.2.2).mono ?_ ?_⟩, ih hq h.2⟩ <;>
      exact fun _ _ hr => hr.2 ▸ hC.rests _ hc

theorem Contract.Idle.perform_bind {C : Contract I Φ} {A : I.Op → Prop} {P : Φ → Prop}
    (hC : C.Idle A P) {q : Φ} (hq : P q) {op : I.Op} (hop : A op)
    {k : I.Res op → Coroutine I ι ε β} {Q : β → Φ → Prop} {E : ε → Φ → Prop}
    (hk : ∀ r, (k r).Follows C q Q E) : (Coroutine.perform op >>= k).Follows C q Q E := by
  rw [Coroutine.follows_bind, Coroutine.follows_perform]
  refine ⟨hC.allows q op hq hop, fun r _ => ?_⟩
  rw [hC.next q op r hq hop]
  exact hk r

/-- A task that asks for nothing ends somewhere, whatever it is answered. -/
theorem Coroutine.Follows.exists_end [Inhabited ι] {T : Nat → Prop} {t : Coroutine I ι ε α}
    {Q : α → Unit → Prop} {E : ε → Unit → Prop} (h : t.Follows (.addressing I T) () Q E) :
    (∃ a, Q a ()) ∨ ∃ e, E e () := by
  induction t with
  | ret a => exact .inl ⟨a, h⟩
  | throw e => exact .inr ⟨e, h⟩
  | call op k ih => exact (I.answer op).elim fun r => ih r (h.2 r trivial)
  | await k ih => exact ih default (h.2 default)
  | wait op k ih => exact (I.answer op).elim fun r => ih r (h.2.2 r trivial)
  | fork t k _ ih => exact ih h.2
  | invokeOn n t k _ ih => exact ih h.2

/-- The coroutine, and what it starts, makes only the calls of `A` and sends work only to the shards
of `T`. -/
def Coroutine.Calls (A : I.Op → Prop) (T : Nat → Prop) (t : Coroutine I ι ε α) : Prop :=
  t.Follows (.calling I A T) () (fun _ _ => True) (fun _ _ => True)

/-- The shards that the coroutine sends work to, itself or through what it starts, are in `T`. -/
abbrev Coroutine.Addresses (T : Nat → Prop) (t : Coroutine I ι ε α) : Prop :=
  t.Calls (fun _ => True) T

/-- The contract that allows only calls of `A`. -/
def Contract.restrict (C : Contract I Φ) (A : I.Op → Prop) : Contract I Φ :=
  { C with allows := fun q op => C.allows q op ∧ A op }

/-- What a task calls is added to what it follows. -/
theorem Coroutine.Follows.restrict {C : Contract I Φ} {A : I.Op → Prop} {T : Nat → Prop}
    {t : Coroutine I ι ε α} {q : Φ} {Q : α → Φ → Prop} {E : ε → Φ → Prop}
    (h : t.Follows C q Q E) (hA : t.Calls A T) : t.Follows (C.restrict A) q Q E := by
  induction t generalizing q E with
  | ret a => exact h
  | throw e => exact h
  | call op k ih => exact ⟨⟨h.1, hA.1⟩, fun r hr => ih r (h.2 r hr) (hA.2 r trivial)⟩
  | await k ih => exact ⟨h.1, fun v => ih v (h.2 v) (hA.2 v)⟩
  | wait op k ih =>
    exact ⟨h.1, ⟨h.2.1, hA.2.1⟩, fun r hr => ih r (h.2.2 r hr) (hA.2.2 r trivial)⟩
  | fork t k iht ih => exact ⟨⟨h.1.1, iht h.1.2 hA.1.2⟩, ih h.2 hA.2⟩
  | invokeOn n t k iht ih =>
    exact ⟨⟨h.1.1, h.1.2.1, iht h.1.2.2 hA.1.2.2⟩, ih h.2 hA.2⟩

/-- Nothing of the end of a background task reaches the task that starts it. -/
theorem Coroutine.Calls.follows_background {A : I.Op → Prop} {T : Nat → Prop}
    {t : Coroutine I ι ε α} {Q : Unit → Unit → Prop} {E : ε → Unit → Prop} (h : t.Calls A T)
    (hQ : Q () ()) : t.background.Follows (.calling I A T) () Q E := by
  induction t with
  | ret a => exact hQ
  | throw e => exact hQ
  | call op k ih => exact ⟨h.1, fun r _ => ih r (h.2 r trivial)⟩
  | await k _ =>
    refine ⟨⟨trivial, trivial, fun v => ?_⟩, hQ⟩
    exact (Coroutine.follows_andThen _ _ _).mpr (h.2 v)
  | wait op k _ =>
    refine ⟨⟨trivial, trivial, h.2.1, fun r _ => ?_⟩, hQ⟩
    exact (Coroutine.follows_andThen _ _ _).mpr (h.2.2 r trivial)
  | fork t k _ ih => exact ⟨h.1, ih h.2⟩
  | invokeOn n t k _ ih => exact ⟨h.1, ih h.2⟩

theorem Coroutine.Addresses.of_all {T : Nat → Prop} (hT : ∀ n, T n) (t : Coroutine I ι ε α) :
    t.Addresses T := by
  induction t with
  | ret a => trivial
  | throw e => trivial
  | call op k ih => exact ⟨trivial, fun r _ => ih r⟩
  | await k ih => exact ⟨trivial, fun v => ih v⟩
  | wait op k ih => exact ⟨trivial, trivial, fun r _ => ih r⟩
  | fork t k iht ih => exact ⟨⟨trivial, iht⟩, ih⟩
  | invokeOn n t k iht ih => exact ⟨⟨hT n, trivial, iht⟩, ih⟩

namespace Coroutine.Calls
variable {A : I.Op → Prop} {T : Nat → Prop}

theorem mono {A' : I.Op → Prop} (hA : ∀ op, A op → A' op) {t : Coroutine I ι ε α}
    (ht : t.Calls A T) : t.Calls A' T := by
  induction t with
  | ret a => trivial
  | throw e => trivial
  | call op k ih => exact ⟨hA op ht.1, fun r _ => ih r (ht.2 r trivial)⟩
  | await k ih => exact ⟨trivial, fun v => ih v (ht.2 v)⟩
  | wait op k ih => exact ⟨trivial, hA op ht.2.1, fun r _ => ih r (ht.2.2 r trivial)⟩
  | fork t k iht ih => exact ⟨⟨trivial, iht ht.1.2⟩, ih ht.2⟩
  | invokeOn n t k iht ih => exact ⟨⟨ht.1.1, trivial, iht ht.1.2.2⟩, ih ht.2⟩

theorem pure (a : α) : (pure a : Coroutine I ι ε α).Calls A T := trivial

theorem throw (e : ε) : (throw e : Coroutine I ι ε α).Calls A T := trivial

theorem perform {op : I.Op} (hop : A op) : (perform op : Coroutine I ι ε _).Calls A T :=
  ⟨hop, fun _ _ => trivial⟩

theorem waitFor {op : I.Op} (hop : A op) : (waitFor op : Coroutine I ι ε _).Calls A T :=
  ⟨trivial, hop, fun _ _ => trivial⟩

theorem external : (external : Coroutine I ι ε ι).Calls A T := ⟨trivial, fun _ => trivial⟩

theorem ofExcept (x : Except ε α) : (ofExcept x : Coroutine I ι ε α).Calls A T := by
  cases x <;> trivial

theorem send {n : Nat} (hn : T n) {t : Coroutine I ι ε Unit} (ht : t.Calls A T) :
    (send n t).Calls A T := ⟨⟨hn, trivial, ht⟩, trivial⟩

theorem invokeOnEach {gathered : Nat → I.Op} {ns : List Nat} (hA : ∀ n, A (gathered n))
    (hT : ∀ n ∈ ns, T n) {t : Coroutine I ι ε Unit} (ht : t.Calls A T) :
    (invokeOnEach gathered ns t).Calls A T := by
  have visits : ∀ (m : Nat) (ns : List Nat), (∀ n ∈ ns, T n) →
      (ns.foldr (fun n rest => Coroutine.invokeOn n t rest)
        (.wait (gathered m) (fun _ => .ret ()))).Calls A T := by
    intro m ns hns
    induction ns with
    | nil => exact ⟨trivial, hA m, fun _ _ => trivial⟩
    | cons n ns ih =>
      exact ⟨⟨hns n (.head _), trivial, ht⟩, ih (fun n hn => hns n (.tail _ hn))⟩
  exact visits ns.length ns hT

theorem invokeOnAll {gathered : Nat → I.Op} {count : Nat} (hA : ∀ n, A (gathered n))
    (hT : ∀ n, n < count → T n) {t : Coroutine I ι ε Unit} (ht : t.Calls A T) :
    (invokeOnAll gathered count t).Calls A T :=
  invokeOnEach hA (fun n hn => hT n (List.mem_range.mp hn)) ht

theorem invokeOnOthers {gathered : Nat → I.Op} {count j : Nat} (hA : ∀ n, A (gathered n))
    (hT : ∀ n, n < count → T n) {t : Coroutine I ι ε Unit} (ht : t.Calls A T) :
    (invokeOnOthers gathered count j t).Calls A T :=
  invokeOnEach hA (fun n hn => hT n (List.mem_range.mp (List.mem_filter.mp hn).1)) ht

theorem bind {t : Coroutine I ι ε α} {k : α → Coroutine I ι ε β} (ht : t.Calls A T)
    (hk : ∀ a, (k a).Calls A T) : (t >>= k).Calls A T :=
  (follows_bind t k).mpr (Follows.mono ht (fun a _ _ => hk a) (fun _ _ _ => trivial))

theorem tryCatch {t : Coroutine I ι ε α} {h : ε → Coroutine I ι ε α} (ht : t.Calls A T)
    (hh : ∀ e, (h e).Calls A T) : (t.tryCatch h).Calls A T :=
  (follows_tryCatch t h).mpr (Follows.mono ht (fun _ _ _ => trivial) (fun e _ _ => hh e))

theorem coAwait {t : Coroutine I ι ε α} (ht : t.Calls A T) : t.coAwait.Calls A T :=
  (follows_coAwait t).mpr (Follows.mono ht (fun _ _ _ => ⟨trivial, fun _ => trivial⟩)
    (fun _ _ _ => ⟨trivial, fun _ => trivial⟩))

theorem background {t : Coroutine I ι ε α} (ht : t.Calls A T) : t.background.Calls A T :=
  ht.follows_background trivial

theorem inl {A : (I.sum J).Op → Prop} {t : Coroutine I ι ε α}
    (ht : t.Calls (fun op => A (.inl op)) T) : (t.inl : Coroutine (I.sum J) ι ε α).Calls A T :=
  (follows_inl t).mpr ht

end Coroutine.Calls

/-- What all sets of calls have in common that a coroutine keeps to, it keeps to. -/
theorem Coroutine.calls_common {A₀ : I.Op → Prop} {T : Nat → Prop} {t : Coroutine I ι ε α}
    (h : t.Calls A₀ T) : t.Calls (fun op => ∀ A, t.Calls A T → A op) T := by
  induction t with
  | ret a => trivial
  | throw e => trivial
  | call op k ih =>
    exact ⟨fun A hA => hA.1,
      fun r _ => (ih r (h.2 r trivial)).mono (fun op hop A hA => hop A (hA.2 r trivial))⟩
  | await k ih =>
    exact ⟨trivial, fun v => (ih v (h.2 v)).mono (fun op hop A hA => hop A (hA.2 v))⟩
  | wait op k ih =>
    exact ⟨trivial, fun A hA => hA.2.1,
      fun r _ => (ih r (h.2.2 r trivial)).mono (fun op hop A hA => hop A (hA.2.2 r trivial))⟩
  | fork u k ihu ih =>
    exact ⟨⟨trivial, (ihu h.1.2).mono (fun op hop A hA => hop A hA.1.2)⟩,
      (ih h.2).mono (fun op hop A hA => hop A hA.2)⟩
  | invokeOn n u k ihu ih =>
    exact ⟨⟨h.1.1, trivial, (ihu h.1.2.2).mono (fun op hop A hA => hop A hA.1.2.2)⟩,
      (ih h.2).mono (fun op hop A hA => hop A hA.2)⟩

/-- The coroutine makes only the calls of `A`, sends work only to the shards of `T`, and returns
what satisfies `R`. -/
def Coroutine.Yields (A : I.Op → Prop) (T : Nat → Prop) (R : α → Prop) (t : Coroutine I ι ε α) :
    Prop :=
  t.Follows (.calling I A T) () (fun a _ => R a) (fun _ _ => True)

namespace Coroutine.Yields
variable {A : I.Op → Prop} {T : Nat → Prop} {R : α → Prop}

theorem calls {t : Coroutine I ι ε α} (h : t.Yields A T R) : t.Calls A T :=
  Follows.mono h (fun _ _ _ => trivial) (fun _ _ _ => trivial)

theorem weaken {A' : I.Op → Prop} {R' : α → Prop} {t : Coroutine I ι ε α} (h : t.Yields A T R)
    (hA : ∀ op, A op → A' op) (hR : ∀ a, R a → R' a) : t.Yields A' T R' := by
  induction t with
  | ret a => exact hR a h
  | throw e => trivial
  | call op k ih => exact ⟨hA op h.1, fun r _ => ih r (h.2 r trivial) hR⟩
  | await k ih => exact ⟨trivial, fun v => ih v (h.2 v) hR⟩
  | wait op k ih => exact ⟨trivial, hA op h.2.1, fun r _ => ih r (h.2.2 r trivial) hR⟩
  | fork t k _ ih => exact ⟨⟨trivial, Calls.mono hA h.1.2⟩, ih h.2 hR⟩
  | invokeOn n t k _ ih => exact ⟨⟨h.1.1, trivial, Calls.mono hA h.1.2.2⟩, ih h.2 hR⟩

theorem pure {a : α} (h : R a) : (pure a : Coroutine I ι ε α).Yields A T R := h

theorem throw (e : ε) : (throw e : Coroutine I ι ε α).Yields A T R := trivial

theorem bind {R : β → Prop} {t : Coroutine I ι ε α} {k : α → Coroutine I ι ε β}
    (ht : t.Calls A T) (hk : ∀ a, (k a).Yields A T R) : (t >>= k).Yields A T R :=
  (follows_bind t k).mpr (Follows.mono ht (fun a _ _ => hk a) (fun _ _ _ => trivial))

theorem bind_of_yields {R' : β → Prop} {t : Coroutine I ι ε α} {k : α → Coroutine I ι ε β}
    (ht : t.Yields A T R) (hk : ∀ a, R a → (k a).Yields A T R') : (t >>= k).Yields A T R' :=
  (follows_bind t k).mpr (Follows.mono ht (fun a _ ha => hk a ha) (fun _ _ _ => trivial))

theorem tryCatch {t : Coroutine I ι ε α} {h : ε → Coroutine I ι ε α} (ht : t.Yields A T R)
    (hh : ∀ e, (h e).Yields A T R) : (t.tryCatch h).Yields A T R :=
  (follows_tryCatch t h).mpr (Follows.mono ht (fun _ _ hr => hr) (fun e _ _ => hh e))

theorem coAwait {t : Coroutine I ι ε α} (ht : t.Yields A T R) : t.coAwait.Yields A T R :=
  (follows_coAwait t).mpr (Follows.mono ht (fun _ _ hr => ⟨trivial, fun _ => hr⟩)
    (fun _ _ _ => ⟨trivial, fun _ => trivial⟩))

theorem inl {A : (I.sum J).Op → Prop} {t : Coroutine I ι ε α}
    (ht : t.Yields (fun op => A (.inl op)) T R) :
    (t.inl : Coroutine (I.sum J) ι ε α).Yields A T R :=
  (follows_inl t).mpr ht

end Coroutine.Yields

end CooperativeTasks
