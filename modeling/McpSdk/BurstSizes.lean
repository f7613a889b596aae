import McpSdk.McpShard
import McpSdk.RateLimiterConformance

/-!
# The bursts that the builder allows

`with_rate_limit` takes twice the rate for the burst that it is not given, in 32 bits. A server so
configured admits a burst of the size asked for from a new IP, whatever the times of the calls,
exactly if the doubling does not wrap.
-/

namespace McpSdk.BurstSizes
open CppStandardLibrary PerIpRateLimiter RateLimiterConformance

/-- The burst that `with_rate_limit` is asked for, as a number. -/
def askedBurst (requestsPerSecond burstSize : UInt32) : ℕ :=
  if burstSize > 0 then burstSize.toNat else 2 * requestsPerSecond.toNat

/-- The first `n` calls for the IP are admitted, whatever their times. -/
def AdmitsFirst (l : PerIpRateLimiter) (ip : Str) (n : ℕ) : Prop :=
  ∀ time : ℕ → Int, Monotone time → ∀ k < n, admitted l ip time k = true

theorem askedBurst_le_iff (p : SecurityPolicy) (r b : UInt32) :
    askedBurst r b ≤ (p.withRateLimit r b).rateLimit.burstSize.toNat ↔
      0 < b ∨ r.toNat < 2 ^ 31 := by
  unfold SecurityPolicy.withRateLimit askedBurst
  dsimp only
  by_cases hb : b > 0
  · rw [if_pos hb, if_pos hb]
    exact iff_of_true le_rfl (.inl hb)
  · have hlt := r.toNat_lt
    have hdouble : (r * 2).toNat = 2 * r.toNat % 2 ^ 32 := by
      rw [UInt32.toNat_mul, mul_comm]
      rfl
    rw [if_neg hb, if_neg hb, hdouble, or_iff_right hb]
    omega

section Calls
variable {l : PerIpRateLimiter} {ip : Str} {time : ℕ → Int}

theorem admitsFirst_nil (n : ℕ) : AdmitsFirst l [] n := by
  intro time _ k _
  simp [admitted, tryAcquire]

theorem admittedIn_le (i n : ℕ) : admittedIn l ip time i n ≤ n - i :=
  (Finset.card_filter_le _ _).trans_eq (Nat.card_Ico i n)

theorem admittedIn_of_all {n : ℕ} (h : ∀ k < n, admitted l ip time k = true) :
    admittedIn l ip time 0 n = n := by
  have hall : ∀ k ∈ Finset.Ico 0 n, admitted l ip time k = true :=
    fun k hk => h k (Finset.mem_Ico.mp hk).2
  rw [admittedIn, Finset.filter_true_of_mem hall, Nat.card_Ico, Nat.sub_zero]

theorem admitsFirst_iff (he : l.cfg.enabled = true) (hip : ip ≠ []) (hnew : ip ∉ l.buckets)
    (n : ℕ) : AdmitsFirst l ip n ↔ n ≤ l.cfg.burstSize.toNat := by
  have hnew' := AList.lookup_eq_none.mpr hnew
  constructor
  · intro hall
    by_contra hmore
    have hfirst := hall (fun _ => 0) monotone_const
    have hlast := (admitted_iff l ip (fun _ => 0) he hip hnew' monotone_const
      l.cfg.burstSize.toNat).mp (hfirst _ (not_le.mp hmore)) 0 (Nat.zero_le _)
    rw [admittedIn_of_all (fun k hk => hfirst k (hk.trans (not_le.mp hmore)))] at hlast
    norm_num at hlast
  · intro hn time htime k hk
    apply (admitted_iff l ip time he hip hnew' htime k).mpr
    intro i hi
    have hcount : admittedIn l ip time i k + 1 ≤ l.cfg.burstSize.toNat := by
      have hwindow : admittedIn l ip time i k ≤ k - i := admittedIn_le i k
      omega
    have hflow : (0 : ℚ) ≤
        l.cfg.requestsPerSecond.toNat * ((time k - time i : Int) / 10 ^ 9 : ℚ) := by
      have htimes : (0 : ℚ) ≤ (time k - time i : Int) := by
        exact_mod_cast sub_nonneg.mpr (htime hi)
      positivity
    calc (admittedIn l ip time i k : ℚ) + 1
        ≤ l.cfg.burstSize.toNat := by exact_mod_cast hcount
      _ ≤ _ := le_add_of_nonneg_right hflow

end Calls

/-- A limiter of a server configured with `with_rate_limit` admits the burst asked for to every new
IP, unless the doubling wraps. Calls that name no IP are not limited. -/
theorem admitsFirst_askedBurst_iff (p : SecurityPolicy) (r b : UInt32) (cfg : McpServerConfig)
    (hcfg : cfg.security.rateLimit = (p.withRateLimit r b).rateLimit) (l : PerIpRateLimiter)
    (hl : l.cfg = cfg.shard.rateLimiter.cfg) (ip : Str) (hnew : ip ∉ l.buckets) :
    AdmitsFirst l ip (askedBurst r b) ↔ ip = [] ∨ 0 < b ∨ r.toNat < 2 ^ 31 := by
  have hlimit : l.cfg = (p.withRateLimit r b).rateLimit := hl.trans hcfg
  by_cases hip : ip = []
  · subst hip
    exact iff_of_true (admitsFirst_nil _) (.inl rfl)
  · rw [admitsFirst_iff (by rw [hlimit]; rfl) hip hnew, hlimit, askedBurst_le_iff,
      or_iff_right hip]

/-- A server with this rate, and the burst that the builder makes of it. -/
def serverOf (r : UInt32) : McpServerConfig :=
  { security := ({} : SecurityPolicy).withRateLimit r 0 }

theorem admitsFirst_askedBurst_iff_fifty :
    AdmitsFirst (serverOf 50).shard.rateLimiter "a".toList 100 :=
  (admitsFirst_askedBurst_iff {} 50 0 (serverOf 50) rfl _ rfl "a".toList (by decide)).mpr
    (.inr (.inr (by decide)))

/-- With a rate of `2 ^ 31` the burst is zero, and the first call is refused. -/
theorem burst_wraps :
    ¬ AdmitsFirst (serverOf 2147483648).shard.rateLimiter "a".toList (askedBurst 2147483648 0) := by
  intro h
  have hfirst := h (fun _ => 0) monotone_const 0 (by decide)
  revert hfirst
  decide +kernel

end McpSdk.BurstSizes
