import Mathlib.Algebra.BigOperators.Intervals
import Mathlib.Algebra.Order.Field.Basic
import Mathlib.Tactic.Linarith
import Mathlib.Tactic.Ring

/-!
# Token buckets

A level that rises at a constant rate up to a capacity, and from which amounts are taken. It need
not be kept up to date: filling it in two steps or in one makes no difference. What is there at
the `n`-th time is the least, over all earlier times, of the capacity and what has flowed in
since then, less what has been taken since then.
-/

namespace TokenBuckets

variable {K : Type*} [Field K] [LinearOrder K]

/-- The level after some time has passed. -/
def fill (capacity rate elapsed level : K) : K := min capacity (level + rate * elapsed)

variable {capacity rate : K}

theorem fill_le_capacity (elapsed level : K) : fill capacity rate elapsed level ≤ capacity :=
  min_le_left _ _

theorem le_fill_iff {elapsed level x : K} :
    x ≤ fill capacity rate elapsed level ↔ x ≤ capacity ∧ x ≤ level + rate * elapsed :=
  le_min_iff

@[simp] theorem fill_zero {level : K} (h : level ≤ capacity) :
    fill capacity rate 0 level = level := by
  rw [fill, mul_zero, add_zero, min_eq_right h]

variable [IsStrictOrderedRing K]

theorem fill_capacity {elapsed : K} (hrate : 0 ≤ rate) (helapsed : 0 ≤ elapsed) :
    fill capacity rate elapsed capacity = capacity :=
  min_eq_left (le_add_of_nonneg_right (mul_nonneg hrate helapsed))

theorem fill_fill {elapsed elapsed' level : K} (hrate : 0 ≤ rate) (helapsed : 0 ≤ elapsed') :
    fill capacity rate elapsed' (fill capacity rate elapsed level) =
      fill capacity rate (elapsed + elapsed') level := by
  have hflow : 0 ≤ rate * elapsed' := mul_nonneg hrate helapsed
  have hsum : level + rate * elapsed + rate * elapsed' = level + rate * (elapsed + elapsed') := by
    ring
  unfold fill
  rw [← min_add_add_right, hsum, ← min_assoc, min_eq_left (le_add_of_nonneg_right hflow)]

/-- The levels that a bucket, full at first, has at the times `time` if it loses `taken n` at the
`n`-th. -/
structure Levels (capacity rate : K) (time taken level : ℕ → K) : Prop where
  full : level 0 = capacity
  filled : ∀ n, level (n + 1) = fill capacity rate (time (n + 1) - time n) (level n - taken n)

/-- The level is the minimum over all earlier starting points of a window. -/
theorem Levels.le_iff {time taken level : ℕ → K} (h : Levels capacity rate time taken level)
    (n : ℕ) (x : K) :
    x ≤ level n ↔
      ∀ i ≤ n, x + ∑ k ∈ Finset.Ico i n, taken k ≤ capacity + rate * (time n - time i) := by
  induction n generalizing x with
  | zero => simp [h.full]
  | succ n ih =>
    rw [h.filled, le_fill_iff]
    have hlevel : x ≤ level n - taken n + rate * (time (n + 1) - time n) ↔
        x + taken n - rate * (time (n + 1) - time n) ≤ level n := by
      constructor <;> intro hx <;> linarith
    rw [hlevel, ih]
    constructor
    · rintro ⟨hcapacity, hearlier⟩ i hi
      rcases Nat.lt_or_eq_of_le hi with hlt | rfl
      · have hi' := hearlier i (Nat.le_of_lt_succ hlt)
        rw [Finset.sum_Ico_succ_top (Nat.le_of_lt_succ hlt)]
        linarith
      · simpa using hcapacity
    · intro hwindows
      constructor
      · simpa using hwindows (n + 1) le_rfl
      · intro i hi
        have hi' := hwindows i (hi.trans n.le_succ)
        rw [Finset.sum_Ico_succ_top hi] at hi'
        linarith

end TokenBuckets
