import McpSdk.CooperativeTasks
import Mathlib.Logic.Function.Basic

/-!
# The outcomes of a task

How a task may end, and what it leaves: a relation between the states of the shards before and
after it. While the task is suspended the rest of the server may change the states, as far as
the surroundings allow. Background tasks are part of that rest; messages to other shards are
handled at once, or left to the rest too.
-/

namespace CooperativeTasks
variable {I J : Interface} {ι ε α β σ : Type}

/-- What a task runs in: the effect of calls, when a wait may end, what happens to the shards while
the task is suspended, and whether messages may be left for later. -/
structure Surroundings (I : Interface) (σ : Type) where
  exec : Nat → (op : I.Op) → σ → I.Res op × σ
  ready : I.Op → σ → Bool
  meanwhile : (Nat → σ) → (Nat → σ) → Prop
  later : Prop

/-- The surroundings of a task that uses the first group of operations only. -/
def Surroundings.left (S : Surroundings (I.sum J) σ) : Surroundings I σ where
  exec j op := S.exec j (.inl op)
  ready op := S.ready (.inl op)
  meanwhile := S.meanwhile
  later := S.later

/-- The surroundings with a mark on each shard, which the calls set that `f` looks for. -/
def Surroundings.marking (S : Surroundings I σ) (f : I.Op → σ → Bool) :
    Surroundings I (σ × Bool) where
  exec j op x := ((S.exec j op x.1).1, (S.exec j op x.1).2, x.2 || f op x.1)
  ready op x := S.ready op x.1
  meanwhile x x₁ := S.meanwhile (fun i => (x i).1) (fun i => (x₁ i).1) ∧ ∀ i, (x₁ i).2 = (x i).2
  later := S.later

/-- On shard `j`, from the states `s`, the task may end so and leave the states `s'`. -/
def Coroutine.Ends (S : Surroundings I σ) : {α : Type} → Nat → Coroutine I ι ε α → (Nat → σ) →
    Except ε α → (Nat → σ) → Prop
  | _, _, .ret a, s, out, s' => out = .ok a ∧ s' = s
  | _, _, .throw e, s, out, s' => out = .error e ∧ s' = s
  | _, j, .call op k, s, out, s' =>
      (k (S.exec j op (s j)).1).Ends S j (Function.update s j (S.exec j op (s j)).2) out s'
  | _, j, .await k, s, out, s' => ∃ v s₁, S.meanwhile s s₁ ∧ (k v).Ends S j s₁ out s'
  | _, j, .wait op k, s, out, s' => ∃ s₁, S.meanwhile s s₁ ∧ S.ready op (s₁ j) ∧
      (k (S.exec j op (s₁ j)).1).Ends S j (Function.update s₁ j (S.exec j op (s₁ j)).2) out s'
  | _, j, .fork _ k, s, out, s' => k.Ends S j s out s'
  | _, j, .invokeOn i t k, s, out, s' =>
      (∃ out₁ s₁, t.Ends S i s out₁ s₁ ∧ k.Ends S j s₁ out s') ∨ S.later ∧ k.Ends S j s out s'

namespace Coroutine
variable {S : Surroundings I σ} {j : Nat} {s s' : Nat → σ}

@[simp] theorem ends_ret {a : α} {out : Except ε α} :
    (ret a : Coroutine I ι ε α).Ends S j s out s' ↔ out = .ok a ∧ s' = s := Iff.rfl

@[simp] theorem ends_pure {a : α} {out : Except ε α} :
    (pure a : Coroutine I ι ε α).Ends S j s out s' ↔ out = .ok a ∧ s' = s := Iff.rfl

@[simp] theorem ends_throw {e : ε} {out : Except ε α} :
    (throw e : Coroutine I ι ε α).Ends S j s out s' ↔ out = .error e ∧ s' = s := Iff.rfl

theorem ends_perform {op : I.Op} {out : Except ε (I.Res op)} :
    (perform op : Coroutine I ι ε _).Ends S j s out s' ↔
      out = .ok (S.exec j op (s j)).1 ∧ s' = Function.update s j (S.exec j op (s j)).2 := Iff.rfl

theorem ends_perform_bind {op : I.Op} {k : I.Res op → Coroutine I ι ε α} {out : Except ε α} :
    (perform op >>= k).Ends S j s out s' ↔
      (k (S.exec j op (s j)).1).Ends S j (Function.update s j (S.exec j op (s j)).2) out s' :=
  Iff.rfl

theorem ends_send {i : Nat} {t : Coroutine I ι ε Unit} {out : Except ε Unit} :
    (send i t).Ends S j s out s' ↔
      (∃ out₁ s₁, t.Ends S i s out₁ s₁ ∧ out = .ok () ∧ s' = s₁) ∨
        S.later ∧ out = .ok () ∧ s' = s := Iff.rfl

/-- The rule of composition: the first part ends, and the second goes on from there. -/
theorem ends_andThen {t : Coroutine I ι ε α} {k : α → Coroutine I ι ε β}
    {h : ε → Coroutine I ι ε β} {out : Except ε β} :
    (t.andThen k h).Ends S j s out s' ↔
      (∃ a s₁, t.Ends S j s (.ok a) s₁ ∧ (k a).Ends S j s₁ out s') ∨
      ∃ e s₁, t.Ends S j s (.error e) s₁ ∧ (h e).Ends S j s₁ out s' := by
  induction t generalizing s with
  | ret a =>
    refine ⟨fun hk => .inl ⟨a, s, ⟨rfl, rfl⟩, hk⟩, ?_⟩
    rintro (⟨_, _, ⟨⟨⟩, rfl⟩, hk⟩ | ⟨e, _, ⟨he, -⟩, -⟩)
    · exact hk
    · cases he
  | throw e =>
    refine ⟨fun hk => .inr ⟨e, s, ⟨rfl, rfl⟩, hk⟩, ?_⟩
    rintro (⟨a, _, ⟨ha, -⟩, -⟩ | ⟨_, _, ⟨⟨⟩, rfl⟩, hk⟩)
    · cases ha
    · exact hk
  | call op c ih => exact ih _
  | await c ih =>
    simp only [andThen, Ends, ih]
    constructor
    · rintro ⟨v, s₁, hs₁, ⟨a, s₂, ha, hk⟩ | ⟨e, s₂, he, hk⟩⟩
      · exact .inl ⟨a, s₂, ⟨v, s₁, hs₁, ha⟩, hk⟩
      · exact .inr ⟨e, s₂, ⟨v, s₁, hs₁, he⟩, hk⟩
    · rintro (⟨a, s₂, ⟨v, s₁, hs₁, ha⟩, hk⟩ | ⟨e, s₂, ⟨v, s₁, hs₁, he⟩, hk⟩)
      · exact ⟨v, s₁, hs₁, .inl ⟨a, s₂, ha, hk⟩⟩
      · exact ⟨v, s₁, hs₁, .inr ⟨e, s₂, he, hk⟩⟩
  | wait op c ih =>
    simp only [andThen, Ends, ih]
    constructor
    · rintro ⟨s₁, hs₁, hr, ⟨a, s₂, ha, hk⟩ | ⟨e, s₂, he, hk⟩⟩
      · exact .inl ⟨a, s₂, ⟨s₁, hs₁, hr, ha⟩, hk⟩
      · exact .inr ⟨e, s₂, ⟨s₁, hs₁, hr, he⟩, hk⟩
    · rintro (⟨a, s₂, ⟨s₁, hs₁, hr, ha⟩, hk⟩ | ⟨e, s₂, ⟨s₁, hs₁, hr, he⟩, hk⟩)
      · exact ⟨s₁, hs₁, hr, .inl ⟨a, s₂, ha, hk⟩⟩
      · exact ⟨s₁, hs₁, hr, .inr ⟨e, s₂, he, hk⟩⟩
  | fork u c _ ih => exact ih
  | invokeOn i u c _ ih =>
    simp only [andThen, Ends, ih]
    constructor
    · rintro (⟨out₁, s₁, hu, ⟨a, s₂, ha, hk⟩ | ⟨e, s₂, he, hk⟩⟩ |
        ⟨hl, ⟨a, s₂, ha, hk⟩ | ⟨e, s₂, he, hk⟩⟩)
      · exact .inl ⟨a, s₂, .inl ⟨out₁, s₁, hu, ha⟩, hk⟩
      · exact .inr ⟨e, s₂, .inl ⟨out₁, s₁, hu, he⟩, hk⟩
      · exact .inl ⟨a, s₂, .inr ⟨hl, ha⟩, hk⟩
      · exact .inr ⟨e, s₂, .inr ⟨hl, he⟩, hk⟩
    · rintro (⟨a, s₂, ⟨out₁, s₁, hu, ha⟩ | ⟨hl, ha⟩, hk⟩ |
        ⟨e, s₂, ⟨out₁, s₁, hu, he⟩ | ⟨hl, he⟩, hk⟩)
      · exact .inl ⟨out₁, s₁, hu, .inl ⟨a, s₂, ha, hk⟩⟩
      · exact .inr ⟨hl, .inl ⟨a, s₂, ha, hk⟩⟩
      · exact .inl ⟨out₁, s₁, hu, .inr ⟨e, s₂, he, hk⟩⟩
      · exact .inr ⟨hl, .inr ⟨e, s₂, he, hk⟩⟩

theorem ends_bind {t : Coroutine I ι ε α} {k : α → Coroutine I ι ε β} {out : Except ε β} :
    (t >>= k).Ends S j s out s' ↔
      (∃ a s₁, t.Ends S j s (.ok a) s₁ ∧ (k a).Ends S j s₁ out s') ∨
      ∃ e, t.Ends S j s (.error e) s' ∧ out = .error e := by
  refine (ends_andThen (h := throw)).trans (or_congr Iff.rfl ?_)
  constructor
  · rintro ⟨e, s₁, he, rfl, rfl⟩
    exact ⟨e, he, rfl⟩
  · rintro ⟨e, he, rfl⟩
    exact ⟨e, s', he, rfl, rfl⟩

theorem ends_coAwait {t : Coroutine I ι ε α} {out : Except ε α} [Nonempty ι] :
    t.coAwait.Ends S j s out s' ↔ ∃ s₁, t.Ends S j s out s₁ ∧ S.meanwhile s₁ s' := by
  refine ends_andThen.trans ?_
  constructor
  · rintro (⟨a, s₁, ha, v, s₂, hs₂, rfl, rfl⟩ | ⟨e, s₁, he, v, s₂, hs₂, rfl, rfl⟩)
    · exact ⟨s₁, ha, hs₂⟩
    · exact ⟨s₁, he, hs₂⟩
  · rintro ⟨s₁, hs₁, hs'⟩
    obtain ⟨v⟩ := (inferInstance : Nonempty ι)
    cases out with
    | ok a => exact .inl ⟨a, s₁, hs₁, v, s', hs', rfl, rfl⟩
    | error e => exact .inr ⟨e, s₁, hs₁, v, s', hs', rfl, rfl⟩

theorem ends_inl {S : Surroundings (I.sum J) σ} {t : Coroutine I ι ε α} {out : Except ε α} :
    (t.inl : Coroutine (I.sum J) ι ε α).Ends S j s out s' ↔ t.Ends S.left j s out s' := by
  induction t generalizing j s s' with
  | ret a => rfl
  | throw e => rfl
  | call op c ih => exact ih _
  | await c ih => exact exists_congr fun v => exists_congr fun s₁ => and_congr Iff.rfl (ih v)
  | wait op c ih => exact exists_congr fun s₁ => and_congr Iff.rfl (and_congr Iff.rfl (ih _))
  | fork u c _ ih => exact ih
  | invokeOn i u c ihu ih =>
    exact or_congr (exists_congr fun out₁ => exists_congr fun s₁ => and_congr ihu ih)
      (and_congr Iff.rfl ih)

/-- Nothing of a failure reaches the task that starts another one in the background. -/
theorem ends_background {t : Coroutine I ι ε α} {out : Except ε Unit}
    (h : t.background.Ends S j s out s') : out = .ok () := by
  induction t generalizing s with
  | ret a => exact h.1
  | throw e => exact h.1
  | call op c ih => exact ih _ h
  | await c _ => exact h.1
  | wait op c _ => exact h.1
  | fork u c _ ih => exact ih h
  | invokeOn i u c _ ih =>
    rcases h with ⟨out₁, s₁, -, hc⟩ | ⟨-, hc⟩
    · exact ih hc
    · exact ih hc

/-- A relation that the calls of a task keep and the rest of the server keeps, holds between the
states before and after it. -/
theorem Ends.keeps {R : (Nat → σ) → (Nat → σ) → Prop} (hrefl : ∀ s, R s s)
    (htrans : ∀ s₁ s₂ s₃, R s₁ s₂ → R s₂ s₃ → R s₁ s₃) (hmean : ∀ s s₁, S.meanwhile s s₁ → R s s₁)
    {A : I.Op → Prop} {T : Nat → Prop}
    (hexec : ∀ j op s, A op → R s (Function.update s j (S.exec j op (s j)).2))
    {t : Coroutine I ι ε α} (hcalls : t.Calls A T) {out : Except ε α} (h : t.Ends S j s out s') :
    R s s' := by
  induction t generalizing j s s' with
  | ret a =>
    obtain ⟨-, rfl⟩ := h
    exact hrefl _
  | throw e =>
    obtain ⟨-, rfl⟩ := h
    exact hrefl _
  | call op c ih =>
    exact htrans _ _ _ (hexec j op s hcalls.1) (ih _ (hcalls.2 _ trivial) h)
  | await c ih =>
    obtain ⟨v, s₁, hs₁, hc⟩ := h
    exact htrans _ _ _ (hmean _ _ hs₁) (ih v (hcalls.2 v) hc)
  | wait op c ih =>
    obtain ⟨s₁, hs₁, -, hc⟩ := h
    exact htrans _ _ _ (hmean _ _ hs₁) (htrans _ _ _ (hexec j op s₁ hcalls.2.1)
      (ih _ (hcalls.2.2 _ trivial) hc))
  | fork u c _ ih => exact ih hcalls.2 h
  | invokeOn i u c ihu ih =>
    rcases h with ⟨out₁, s₁, hu, hc⟩ | ⟨-, hc⟩
    · exact htrans _ _ _ (ihu hcalls.1.2.2 hu) (ih hcalls.2 hc)
    · exact ih hcalls.2 hc

/-- The task may fail. -/
def Fails (S : Surroundings I σ) (j : Nat) (s : Nat → σ) (t : Coroutine I ι ε α) : Prop :=
  ∃ e s', t.Ends S j s (.error e) s'

@[simp] theorem fails_ret {a : α} : ¬(ret a : Coroutine I ι ε α).Fails S j s := by
  rintro ⟨e, s', h, -⟩
  cases h

@[simp] theorem fails_pure {a : α} : ¬(pure a : Coroutine I ι ε α).Fails S j s := fails_ret

@[simp] theorem fails_throw {e : ε} : (throw e : Coroutine I ι ε α).Fails S j s :=
  ⟨e, s, rfl, rfl⟩

theorem fails_bind {t : Coroutine I ι ε α} {k : α → Coroutine I ι ε β} :
    (t >>= k).Fails S j s ↔
      t.Fails S j s ∨ ∃ a s₁, t.Ends S j s (.ok a) s₁ ∧ (k a).Fails S j s₁ := by
  constructor
  · rintro ⟨e, s', h⟩
    rcases ends_bind.mp h with ⟨a, s₁, ha, hk⟩ | ⟨e', he, -⟩
    · exact .inr ⟨a, s₁, ha, e, s', hk⟩
    · exact .inl ⟨e', s', he⟩
  · rintro (⟨e, s', he⟩ | ⟨a, s₁, ha, e, s', hk⟩)
    · exact ⟨e, s', ends_bind.mpr (.inr ⟨e, he, rfl⟩)⟩
    · exact ⟨e, s', ends_bind.mpr (.inl ⟨a, s₁, ha, hk⟩)⟩

theorem ends_error_bind {t : Coroutine I ι ε α} {k : α → Coroutine I ι ε β}
    (hk : ∀ a s₁, ¬(k a).Fails S j s₁) {e : ε} :
    (t >>= k).Ends S j s (.error e) s' ↔ t.Ends S j s (.error e) s' := by
  constructor
  · intro h
    rcases ends_bind.mp h with ⟨a, s₁, -, hend⟩ | ⟨e', he, heq⟩
    · exact absurd ⟨e, s', hend⟩ (hk a s₁)
    · cases heq
      exact he
  · exact fun h => ends_bind.mpr (.inr ⟨e, h, rfl⟩)

theorem fails_perform_bind {op : I.Op} {k : I.Res op → Coroutine I ι ε α} :
    (perform op >>= k).Fails S j s ↔
      (k (S.exec j op (s j)).1).Fails S j (Function.update s j (S.exec j op (s j)).2) := Iff.rfl

theorem fails_coAwait [Nonempty ι] (hmean : ∀ s, S.meanwhile s s) {t : Coroutine I ι ε α} :
    t.coAwait.Fails S j s ↔ t.Fails S j s := by
  constructor
  · rintro ⟨e, s', h⟩
    obtain ⟨s₁, hs₁, -⟩ := ends_coAwait.mp h
    exact ⟨e, s₁, hs₁⟩
  · rintro ⟨e, s', h⟩
    exact ⟨e, s', ends_coAwait.mpr ⟨s', h, hmean s'⟩⟩

theorem fails_ofExcept {x : Except ε α} :
    (ofExcept x : Coroutine I ι ε α).Fails S j s ↔ ∃ e, x = .error e := by
  cases x with
  | ok a => exact iff_of_false fails_ret (fun ⟨e, h⟩ => by cases h)
  | error e => exact iff_of_true fails_throw ⟨e, rfl⟩

theorem fails_inl {S : Surroundings (I.sum J) σ} {t : Coroutine I ι ε α} :
    (t.inl : Coroutine (I.sum J) ι ε α).Fails S j s ↔ t.Fails S.left j s :=
  exists_congr fun _ => exists_congr fun _ => ends_inl

theorem not_fails_background {t : Coroutine I ι ε α} : ¬t.background.Fails S j s := by
  rintro ⟨e, s', h⟩
  cases ends_background h

/-- A part without suspensions is what it computes. -/
theorem ends_of_proceed {t : Coroutine I ι ε α} {a : α} {x : σ}
    (h : t.proceed (S.exec j) (s j) = (.ret a, x)) {out : Except ε α} :
    t.Ends S j s out s' ↔ out = .ok a ∧ s' = Function.update s j x := by
  induction t generalizing s with
  | ret b =>
    obtain ⟨hb, rfl⟩ := Prod.mk.inj h
    cases hb
    rw [Function.update_eq_self]
    rfl
  | call op c ih =>
    have hnext : (c (S.exec j op (s j)).1).proceed (S.exec j)
        (Function.update s j (S.exec j op (s j)).2 j) = (.ret a, x) := by
      rwa [Function.update_self]
    refine (ih (S.exec j op (s j)).1 hnext).trans ?_
    rw [Function.update_idem]
  | _ => cases h

theorem ends_bind_of_proceed {t : Coroutine I ι ε α} {k : α → Coroutine I ι ε β} {a : α} {x : σ}
    (h : t.proceed (S.exec j) (s j) = (.ret a, x)) {out : Except ε β} :
    (t >>= k).Ends S j s out s' ↔ (k a).Ends S j (Function.update s j x) out s' := by
  rw [ends_bind]
  constructor
  · rintro (⟨a', s₁, ha, hk⟩ | ⟨e, he, -⟩)
    · obtain ⟨hout, rfl⟩ := (ends_of_proceed h).mp ha
      cases hout
      exact hk
    · cases ((ends_of_proceed h).mp he).1
  · exact fun hk => .inl ⟨a, _, (ends_of_proceed h).mpr ⟨rfl, rfl⟩, hk⟩

theorem fails_bind_of_proceed {t : Coroutine I ι ε α} {k : α → Coroutine I ι ε β} {a : α} {x : σ}
    (h : t.proceed (S.exec j) (s j) = (.ret a, x)) :
    (t >>= k).Fails S j s ↔ (k a).Fails S j (Function.update s j x) := by
  rw [fails_bind]
  constructor
  · rintro (⟨e, s', he⟩ | ⟨a', s₁, ha, hk⟩)
    · cases ((ends_of_proceed h).mp he).1
    · obtain ⟨hout, rfl⟩ := (ends_of_proceed h).mp ha
      cases hout
      exact hk
  · exact fun hk => .inr ⟨a, _, (ends_of_proceed h).mpr ⟨rfl, rfl⟩, hk⟩

section Marks
variable {f : I.Op → σ → Bool} {A : I.Op → Prop} {T : Nat → Prop}

/-- A part without suspensions that makes no call with a mark is what it is without marks. -/
theorem proceed_marking {t : Coroutine I ι ε α} (hcalls : t.Calls A T)
    (hA : ∀ op s, A op → f op s = false) {a : α} {x x' : σ}
    (h : t.proceed (S.exec j) x = (.ret a, x')) (mark : Bool) :
    t.proceed ((S.marking f).exec j) (x, mark) = (.ret a, x', mark) := by
  induction t generalizing x with
  | ret b =>
    obtain ⟨hb, rfl⟩ := Prod.mk.inj h
    cases hb
    rfl
  | call op c ih =>
    have hnext := ih _ (hcalls.2 _ trivial) h
    have hmark : (mark || f op x) = mark := by rw [hA op x hcalls.1, Bool.or_false]
    change (c _).proceed _ (_, mark || f op x) = _
    rw [hmark]
    exact hnext
  | _ => cases h

/-- A task that makes no call with a mark leaves the marks as they are. -/
theorem mark_of_calls {t : Coroutine I ι ε α} (hcalls : t.Calls A T)
    (hA : ∀ op s, A op → f op s = false) {x x' : Nat → σ × Bool} {out : Except ε α}
    (h : t.Ends (S.marking f) j x out x') (i : Nat) : (x' i).2 = (x i).2 := by
  have hexec : ∀ n op (x : Nat → σ × Bool), A op → ∀ i,
      (Function.update x n ((S.marking f).exec n op (x n)).2 i).2 = (x i).2 := by
    intro n op x hop i
    by_cases hi : i = n
    · subst hi
      rw [Function.update_self]
      exact (congrArg ((x i).2 || ·) (hA op (x i).1 hop)).trans (Bool.or_false _)
    · rw [Function.update_of_ne hi]
  exact Ends.keeps (S := S.marking f) (R := fun x x' => ∀ i, (x' i).2 = (x i).2)
    (fun _ _ => rfl) (fun _ _ _ h₁ h₂ i => (h₂ i).trans (h₁ i)) (fun _ _ hmean => hmean.2) hexec
    hcalls h i

end Marks

/-- On shard `j`, from the states `s`, this is a possible outcome of the task. -/
def MayEnd (S : Surroundings I σ) (j : Nat) (s : Nat → σ) (t : Coroutine I ι ε α)
    (out : Except ε α) : Prop :=
  ∃ s', t.Ends S j s out s'

@[simp] theorem mayEnd_pure {a : α} {out : Except ε α} :
    (pure a : Coroutine I ι ε α).MayEnd S j s out ↔ out = .ok a := by
  simp [MayEnd]

@[simp] theorem mayEnd_throw {e : ε} {out : Except ε α} :
    (throw e : Coroutine I ι ε α).MayEnd S j s out ↔ out = .error e := by
  simp [MayEnd]

@[simp] theorem mayEnd_ofExcept {x out : Except ε α} :
    (ofExcept x : Coroutine I ι ε α).MayEnd S j s out ↔ out = x := by
  cases x with
  | ok a => exact mayEnd_pure
  | error e => exact mayEnd_throw

theorem mayEnd_coAwait [Nonempty ι] (hmean : ∀ s, S.meanwhile s s) {t : Coroutine I ι ε α}
    {out : Except ε α} : t.coAwait.MayEnd S j s out ↔ t.MayEnd S j s out := by
  constructor
  · rintro ⟨s', h⟩
    obtain ⟨s₁, hs₁, -⟩ := ends_coAwait.mp h
    exact ⟨s₁, hs₁⟩
  · rintro ⟨s', h⟩
    exact ⟨s', ends_coAwait.mpr ⟨s', h, hmean s'⟩⟩

/-- What is computed from the result of a task has its outcomes, computed on. -/
theorem mayEnd_bind_ofExcept {t : Coroutine I ι ε α} {f : α → Except ε β} {out : Except ε β} :
    (t >>= fun a => ofExcept (f a)).MayEnd S j s out ↔
      ∃ x, t.MayEnd S j s x ∧ out = x.bind f := by
  constructor
  · rintro ⟨s', h⟩
    rcases ends_bind.mp h with ⟨a, s₁, ha, hk⟩ | ⟨e, he, rfl⟩
    · exact ⟨.ok a, ⟨s₁, ha⟩, mayEnd_ofExcept.mp ⟨s', hk⟩⟩
    · exact ⟨.error e, ⟨s', he⟩, rfl⟩
  · rintro ⟨x, ⟨s₁, h⟩, rfl⟩
    cases x with
    | ok a =>
      obtain ⟨s', hk⟩ := (mayEnd_ofExcept (S := S) (j := j) (s := s₁)).mpr (rfl : f a = f a)
      exact ⟨s', ends_bind.mpr (.inl ⟨a, s₁, h, hk⟩)⟩
    | error e => exact ⟨s₁, ends_bind.mpr (.inr ⟨e, h, rfl⟩)⟩

theorem mayEnd_bind_pure {t : Coroutine I ι ε α} {f : α → β} {out : Except ε β} :
    (t >>= fun a => pure (f a)).MayEnd S j s out ↔ ∃ x, t.MayEnd S j s x ∧ out = x.map f := by
  refine (mayEnd_bind_ofExcept (f := fun a => .ok (f a))).trans ?_
  refine exists_congr fun x => and_congr_right' ?_
  cases x <;> rfl

/-- A task whose failures are turned into values. -/
theorem mayEnd_tryCatch {t : Coroutine I ι ε α} {g : ε → α} {out : Except ε α} :
    (t.tryCatch (fun e => pure (g e))).MayEnd S j s out ↔
      ∃ x, t.MayEnd S j s x ∧ out = .ok (match x with
        | .ok a => a
        | .error e => g e) := by
  constructor
  · rintro ⟨s', h⟩
    rcases ends_andThen.mp h with ⟨a, s₁, ha, hout, -⟩ | ⟨e, s₁, he, hout, -⟩
    · exact ⟨.ok a, ⟨s₁, ha⟩, hout⟩
    · exact ⟨.error e, ⟨s₁, he⟩, hout⟩
  · rintro ⟨x, ⟨s₁, h⟩, rfl⟩
    cases x with
    | ok a => exact ⟨s₁, ends_andThen.mpr (.inl ⟨a, s₁, h, rfl, rfl⟩)⟩
    | error e => exact ⟨s₁, ends_andThen.mpr (.inr ⟨e, s₁, h, rfl, rfl⟩)⟩

end Coroutine
end CooperativeTasks
