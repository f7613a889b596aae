import McpSdk.PerIpRateLimiter
import McpSdk.TokenBuckets
import Mathlib.Algebra.BigOperators.Ring.Finset
import Mathlib.Data.Int.ConditionallyCompleteOrder
import Mathlib.Data.Rat.Cast.Order
import Mathlib.Order.Monotone.Basic

/-!
# The rate limiter admits what the token bucket allows

The tokens of an IP as a function of the time at which they are asked for, what a call of
`try_acquire` does to them, and the law of the bucket over all windows of the past: a call is
admitted exactly if no window that ends with it would then have admitted more than the burst
and what flows in during the window.
-/

namespace McpSdk.RateLimiterConformance
open CppStandardLibrary PerIpRateLimiter TokenBuckets

/-- `burst_size`, as an amount of tokens. -/
def burst (cfg : RateLimitConfig) : ℚ := cfg.burstSize.toNat

def rate (cfg : RateLimitConfig) : ℚ := cfg.requestsPerSecond.toNat / 10 ^ 9

theorem rate_nonneg (cfg : RateLimitConfig) : 0 ≤ rate cfg :=
  div_nonneg (Nat.cast_nonneg _) (by positivity)

theorem newBucket_refillPerNs (cfg : RateLimitConfig) (now : Int) :
    (newBucket cfg now).refillPerNs = rate cfg := by
  unfold newBucket rate
  split
  · rfl
  · rename_i hrate
    have hzero : cfg.requestsPerSecond = 0 := by
      rw [← UInt32.toNat_inj]
      have hle := mt UInt32.lt_iff_toNat_lt.mpr hrate
      simpa using hle
    rw [hzero]
    simp

/-- A bucket that was filled for the configuration, `now` or earlier. -/
structure Kept (cfg : RateLimitConfig) (now : Int) (b : TokenBucket) : Prop where
  capacity : b.capacity = burst cfg
  refillPerNs : b.refillPerNs = rate cfg
  lastRefill : b.lastRefill ≤ now
  tokens : b.tokens ≤ burst cfg

theorem Kept.mono {cfg : RateLimitConfig} {now t : Int} {b : TokenBucket} (h : Kept cfg now b)
    (ht : now ≤ t) : Kept cfg t b :=
  ⟨h.capacity, h.refillPerNs, h.lastRefill.trans ht, h.tokens⟩

theorem kept_newBucket (cfg : RateLimitConfig) (now : Int) : Kept cfg now (newBucket cfg now) :=
  ⟨rfl, newBucket_refillPerNs cfg now, le_rfl, le_rfl⟩

theorem Kept.refill {cfg : RateLimitConfig} {now : Int} {b : TokenBucket} (h : Kept cfg now b) :
    (b.refill now).tokens =
        fill (burst cfg) (rate cfg) ((now - b.lastRefill : Int) : ℚ) b.tokens ∧
      Kept cfg now (b.refill now) ∧ (b.refill now).lastRefill = now := by
  unfold TokenBucket.refill
  split
  · have htokens : min b.capacity (b.tokens + ((now - b.lastRefill : Int) : ℚ) * b.refillPerNs) =
        fill (burst cfg) (rate cfg) ((now - b.lastRefill : Int) : ℚ) b.tokens := by
      rw [h.capacity, h.refillPerNs, mul_comm, fill]
    refine ⟨htokens, ⟨h.capacity, h.refillPerNs, le_rfl, ?_⟩, rfl⟩
    exact htokens.trans_le (fill_le_capacity _ _)
  · rename_i helapsed
    have hnow : b.lastRefill = now := le_antisymm h.lastRefill (by omega)
    refine ⟨?_, h, hnow⟩
    rw [hnow, sub_self, Int.cast_zero, fill_zero h.tokens]

def Tended (now : Int) (ip : Str) (l : PerIpRateLimiter) : Prop :=
  ∀ b, l.buckets.lookup ip = some b → Kept l.cfg now b

/-- The bucket that a call at time `t` works on. -/
def bucketAt (l : PerIpRateLimiter) (ip : Str) (t : Int) : TokenBucket :=
  (l.buckets.lookup ip).getD (newBucket l.cfg t)

/-- The tokens that a call at time `t` finds. -/
def tokensAt (l : PerIpRateLimiter) (ip : Str) (t : Int) : ℚ :=
  ((bucketAt l ip t).refill t).tokens

section Calls
variable {l : PerIpRateLimiter} {ip : Str} {now t : Int}

theorem Tended.mono (h : Tended now ip l) (ht : now ≤ t) : Tended t ip l :=
  fun b hb => (h b hb).mono ht

theorem tended_of_new (h : l.buckets.lookup ip = none) : Tended now ip l := by
  intro b hb
  cases h.symm.trans hb

theorem Tended.bucketAt (h : Tended now ip l) : Kept l.cfg now (bucketAt l ip now) := by
  unfold RateLimiterConformance.bucketAt
  cases hb : l.buckets.lookup ip with
  | none => exact kept_newBucket _ _
  | some b => exact h b hb

theorem tokensAt_of_new (h : l.buckets.lookup ip = none) : tokensAt l ip t = burst l.cfg := by
  have htokens := (kept_newBucket l.cfg t).refill.1
  rw [tokensAt, bucketAt, h]
  refine htokens.trans ?_
  have hnow : (newBucket l.cfg t).lastRefill = t := rfl
  have hfull : (newBucket l.cfg t).tokens = burst l.cfg := rfl
  rw [hnow, hfull, sub_self, Int.cast_zero, fill_zero le_rfl]

theorem tryAcquire_cfg : (l.tryAcquire now ip).2.cfg = l.cfg := by
  unfold tryAcquire
  split
  · rfl
  · dsimp only
    split <;> rfl

theorem tryAcquire_eq (he : l.cfg.enabled = true) (hip : ip ≠ []) (now : Int) :
    (l.tryAcquire now ip).1 = decide (1 ≤ tokensAt l ip now) ∧
      (l.tryAcquire now ip).2.buckets.lookup ip = some { (bucketAt l ip now).refill now with
        tokens := tokensAt l ip now - if (l.tryAcquire now ip).1 then 1 else 0 } := by
  have hactive : (!l.cfg.enabled || ip.isEmpty) = false := by simp [he, hip]
  unfold tryAcquire
  rw [hactive, if_neg Bool.false_ne_true]
  by_cases hone : 1 ≤ tokensAt l ip now
  · have hone' : (((l.buckets.lookup ip).getD (newBucket l.cfg now)).refill now).tokens ≥ 1 := hone
    simp only [hone', if_true, hone, decide_true, AList.lookup_insert, true_and]
    rfl
  · have hone' : ¬(((l.buckets.lookup ip).getD (newBucket l.cfg now)).refill now).tokens ≥ 1 := hone
    simp only [hone', if_false, hone, decide_false, AList.lookup_insert, true_and]
    rw [if_neg Bool.false_ne_true, sub_zero]
    rfl

theorem tokensAt_tryAcquire (he : l.cfg.enabled = true) (hip : ip ≠ []) (h : Tended now ip l)
    (ht : now ≤ t) : Tended now ip (l.tryAcquire now ip).2 ∧
      tokensAt (l.tryAcquire now ip).2 ip t = fill (burst l.cfg) (rate l.cfg)
        ((t - now : Int) : ℚ) (tokensAt l ip now - if (l.tryAcquire now ip).1 then 1 else 0) := by
  obtain ⟨-, hstored⟩ := tryAcquire_eq he hip now
  obtain ⟨-, hkept, hnow⟩ := h.bucketAt.refill
  have htaken : (0 : ℚ) ≤ if (l.tryAcquire now ip).1 then 1 else 0 := by
    split <;> norm_num
  have hnew : Kept l.cfg now { (bucketAt l ip now).refill now with
      tokens := tokensAt l ip now - if (l.tryAcquire now ip).1 then 1 else 0 } :=
    ⟨hkept.capacity, hkept.refillPerNs, hkept.lastRefill,
      (sub_le_self _ htaken).trans hkept.tokens⟩
  constructor
  · intro b hb
    obtain rfl := Option.some.inj (hstored.symm.trans hb)
    rw [tryAcquire_cfg]
    exact hnew
  · rw [tokensAt, bucketAt, hstored, Option.getD_some, (hnew.mono ht).refill.1]
    exact congrArg (fun s : Int => fill _ _ ((t - s : Int) : ℚ) _) hnow

end Calls

section Runs
variable (l : PerIpRateLimiter) (ip : Str) (time : ℕ → Int)

/-- The limiter after `n` calls for the IP, of which the `k`-th comes at `time k`. -/
def afterCalls : ℕ → PerIpRateLimiter
  | 0 => l
  | n + 1 => ((afterCalls n).tryAcquire (time n) ip).2

/-- The answer to the `n`-th call. -/
def admitted (n : ℕ) : Bool := ((afterCalls l ip time n).tryAcquire (time n) ip).1

/-- The number of calls admitted among the calls `i` to `n - 1`. -/
def admittedIn (i n : ℕ) : ℕ := ((Finset.Ico i n).filter (fun k => admitted l ip time k)).card

variable {l ip time}

@[simp] theorem afterCalls_cfg (n : ℕ) : (afterCalls l ip time n).cfg = l.cfg := by
  induction n with
  | zero => rfl
  | succ n ih => exact tryAcquire_cfg.trans ih

theorem admittedIn_eq_sum (i n : ℕ) : (admittedIn l ip time i n : ℚ) =
    ∑ k ∈ Finset.Ico i n, if admitted l ip time k then 1 else 0 := by
  rw [Finset.sum_boole, admittedIn]

theorem levels_of_calls (he : l.cfg.enabled = true) (hip : ip ≠ [])
    (hnew : l.buckets.lookup ip = none) (htime : Monotone time) :
    Levels (burst l.cfg) (rate l.cfg) (fun n => (time n : ℚ))
      (fun n => if admitted l ip time n then 1 else 0)
      (fun n => tokensAt (afterCalls l ip time n) ip (time n)) := by
  have hkept : ∀ n, Tended (time n) ip (afterCalls l ip time n) := by
    intro n
    induction n with
    | zero => exact tended_of_new hnew
    | succ n ih =>
      have he' : (afterCalls l ip time n).cfg.enabled = true := by rw [afterCalls_cfg, he]
      have htime' := htime n.le_succ
      exact (tokensAt_tryAcquire he' hip ih htime').1.mono htime'
  constructor
  · exact tokensAt_of_new hnew
  · intro n
    have he' : (afterCalls l ip time n).cfg.enabled = true := by rw [afterCalls_cfg, he]
    have hstep := (tokensAt_tryAcquire he' hip (hkept n) (htime n.le_succ)).2
    rw [afterCalls_cfg, Int.cast_sub] at hstep
    exact hstep

/-- A call is admitted exactly if with it every window of the past stays within the burst and what
flows in during the window. -/
theorem admitted_iff (l : PerIpRateLimiter) (ip : Str) (time : ℕ → Int)
    (he : l.cfg.enabled = true) (hip : ip ≠ []) (hnew : l.buckets.lookup ip = none)
    (htime : Monotone time) (n : ℕ) :
    admitted l ip time n = true ↔ ∀ i ≤ n, (admittedIn l ip time i n : ℚ) + 1 ≤
      l.cfg.burstSize.toNat +
        l.cfg.requestsPerSecond.toNat * ((time n - time i : Int) / 10 ^ 9 : ℚ) := by
  have he' : (afterCalls l ip time n).cfg.enabled = true := by rw [afterCalls_cfg, he]
  have hanswer : admitted l ip time n = true ↔
      1 ≤ tokensAt (afterCalls l ip time n) ip (time n) := by
    rw [admitted, (tryAcquire_eq he' hip (time n)).1, decide_eq_true_iff]
  rw [hanswer, (levels_of_calls he hip hnew htime).le_iff n 1]
  refine forall_congr' fun i => imp_congr_right fun hi => ?_
  have hflow : rate l.cfg * ((time n : ℚ) - time i) =
      l.cfg.requestsPerSecond.toNat * ((time n - time i : Int) / 10 ^ 9 : ℚ) := by
    rw [rate, Int.cast_sub]
    ring
  rw [admittedIn_eq_sum, add_comm, hflow, burst]

def oneInASecond : PerIpRateLimiter :=
  { cfg := { enabled := true, requestsPerSecond := 1, burstSize := 1 } }

def halfSeconds (n : ℕ) : Int := 500000000 * n

theorem monotone_halfSeconds : Monotone halfSeconds := by
  intro m n h
  simp only [halfSeconds]
  omega

/-- It admits the first call, refuses the second one for half a token, and admits the third one. -/
theorem admitted_iff_oneInASecond :
    admitted oneInASecond "a".toList halfSeconds 0 = true ∧
      admitted oneInASecond "a".toList halfSeconds 1 = false ∧
      admitted oneInASecond "a".toList halfSeconds 2 = true := by
  have hcalls := admitted_iff oneInASecond "a".toList halfSeconds rfl (by simp) rfl
    monotone_halfSeconds
  have hburst : oneInASecond.cfg.burstSize.toNat = 1 := rfl
  have hrate : oneInASecond.cfg.requestsPerSecond.toNat = 1 := rfl
  have hfirst : admitted oneInASecond "a".toList halfSeconds 0 = true := by
    apply (hcalls 0).mpr
    intro i hi
    obtain rfl := Nat.le_zero.mp hi
    simp [admittedIn, hburst]
  have hsecond : admitted oneInASecond "a".toList halfSeconds 1 = false := by
    refine Bool.eq_false_iff.mpr fun hyes => ?_
    have hwindow := (hcalls 1).mp hyes 0 (Nat.zero_le 1)
    have hone : admittedIn oneInASecond "a".toList halfSeconds 0 1 = 1 := by
      rw [admittedIn, Nat.Ico_succ_singleton, Finset.filter_singleton, if_pos hfirst,
        Finset.card_singleton]
    rw [hone, hburst, hrate] at hwindow
    norm_num [halfSeconds] at hwindow
  refine ⟨hfirst, hsecond, (hcalls 2).mpr fun i hi => ?_⟩
  have hone : admittedIn oneInASecond "a".toList halfSeconds 0 2 = 1 := by
    rw [admittedIn, show Finset.Ico 0 2 = {0, 1} from rfl, Finset.filter_insert, if_pos hfirst,
      Finset.filter_singleton, if_neg (Bool.eq_false_iff.mp hsecond)]
    rfl
  have hnone : admittedIn oneInASecond "a".toList halfSeconds 1 2 = 0 := by
    rw [admittedIn, Nat.Ico_succ_singleton, Finset.filter_singleton,
      if_neg (Bool.eq_false_iff.mp hsecond), Finset.card_empty]
  rw [hburst, hrate]
  obtain rfl | rfl | rfl : i = 0 ∨ i = 1 ∨ i = 2 := by omega
  · rw [hone]
    norm_num [halfSeconds]
  · rw [hnone]
    norm_num [halfSeconds]
  · rw [admittedIn, Finset.Ico_self]
    norm_num [halfSeconds]

end Runs

end McpSdk.RateLimiterConformance
