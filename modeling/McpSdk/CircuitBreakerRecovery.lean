import McpSdk.PerIpCircuitBreaker
import Mathlib.Tactic.NormNum

/-!
# Recovery of the circuit breaker

A HALF_OPEN period admits at most `half_open_max_reqs` requests, never gives a slot back,
and ends in CLOSED only after `success_threshold` recorded successes. From a quiescent state,
where every admitted request has had its outcome recorded, at least as many successes as
slots have been counted, so the period can end when the slots cover the threshold. When
they do not, the period admits its last probe, counts its last success and stays.
-/

namespace McpSdk.CircuitBreakerRecovery
open CppStandardLibrary PerIpCircuitBreaker

def timeout (cfg : CircuitBreakerConfig) : Int := cfg.timeoutSeconds.toNat * 1000000000

theorem secondsOf_ge {d : Int} {n : ℕ} (h : n * 1000000000 ≤ d) : (n : Int) ≤ secondsOf d := by
  have hd : 0 ≤ d := by omega
  rw [secondsOf, Int.tdiv_eq_ediv_of_nonneg hd]
  omega

/-- Admitted requests of `ip` whose outcome is still to come, after one more call. A record
call settles one of them; it may also come without any, and then settles none. -/
def pendingAfter (b : PerIpCircuitBreaker) (t : Int) (ip : Str) (p : ℕ) : Call → ℕ
  | .allow => if (b.allow t ip).1 then p + 1 else p
  | .recordSuccess | .recordFailure => p - 1

/-- The breakers reached by calls for any IPs at non-decreasing times, with the number of
admitted requests of `ip` that no record call has settled. -/
inductive Reached (cfg : CircuitBreakerConfig) (ip : Str) :
    PerIpCircuitBreaker → Int → ℕ → Prop
  | start (t : Int) : Reached cfg ip { cfg := cfg } t 0
  | call {b now p t} (c : Call) (h : Reached cfg ip b now p) (ht : now ≤ t) :
      Reached cfg ip (b.perform t ip c) t (pendingAfter b t ip p c)
  | other {b now p t ip'} (c : Call) (h : Reached cfg ip b now p) (ht : now ≤ t)
      (hip : ip' ≠ ip) : Reached cfg ip (b.perform t ip' c) t p

/-- One request at time `t`, recorded as a success when it is admitted. -/
def probe (b : PerIpCircuitBreaker) (ip : Str) (t : Int) : PerIpCircuitBreaker :=
  if (b.allow t ip).1 then (b.allow t ip).2.recordSuccess ip else (b.allow t ip).2

/-- Requests issued one at a time: whether all were admitted, and the breaker they leave. -/
def probes (b : PerIpCircuitBreaker) (ip : Str) : List Int → Bool × PerIpCircuitBreaker
  | [] => (true, b)
  | t :: ts =>
    ((b.allow t ip).1 && (probes (probe b ip t) ip ts).1, (probes (probe b ip t) ip ts).2)

/-- Requests issued one at a time, once the timeout has passed, are all admitted, and the
first `success_threshold` of them close the breaker. -/
def Recovers (b : PerIpCircuitBreaker) (ip : Str) (now : Int) : Prop :=
  ∀ ts : List Int, ts.Pairwise (· ≤ ·) → (∀ t ∈ ts, now + timeout b.cfg ≤ t) →
    (probes b ip ts).1 = true ∧
      (b.cfg.successThreshold.toNat ≤ ts.length → (probes b ip ts).2.getState ip = .closed)

/-- Every quiescent state of every IP recovers. -/
def NeverWedges (cfg : CircuitBreakerConfig) : Prop :=
  ∀ ip b now, Reached cfg ip b now 0 → Recovers b ip now

/-- What a run maintains for one IP: OPEN was entered in the past, and in HALF_OPEN every
slot taken is a success already counted or a request still pending. -/
structure SlotInv (cfg : CircuitBreakerConfig) (s : CircuitState) (now : Int) (p : ℕ) :
    Prop where
  opened : s.state = .opened → s.openTime ≤ now
  slots : s.state = .halfOpen → s.halfOpenReqs.toNat ≤ s.successCount.toNat + p
  below : s.state = .halfOpen → s.successCount < cfg.successThreshold

variable {cfg : CircuitBreakerConfig}

theorem SlotInv.mono {s : CircuitState} {now t : Int} {p : ℕ} (h : SlotInv cfg s now p)
    (ht : now ≤ t) : SlotInv cfg s t p :=
  ⟨fun ho => (h.opened ho).trans ht, h.slots, h.below⟩

theorem slotInv_fresh (now : Int) : SlotInv cfg {} now 0 := by
  constructor <;> simp

theorem slotInv_allow (hs : 1 ≤ cfg.successThreshold) {s : CircuitState} {t : Int} {p : ℕ}
    (h : SlotInv cfg s t p) :
    SlotInv cfg (s.allow cfg t).2 t (if (s.allow cfg t).1 then p + 1 else p) := by
  cases hst : s.state with
  | closed => constructor <;> simp [CircuitState.allow, hst]
  | opened =>
    have ho := h.opened hst
    by_cases hel : secondsOf (t - s.openTime) ≥ (cfg.timeoutSeconds.toNat : Int)
    · have hpos : (0 : UInt32) < cfg.successThreshold := by
        rw [UInt32.lt_iff_toNat_lt]
        exact UInt32.le_iff_toNat_le.mp hs
      constructor <;> simp [CircuitState.allow, hst, hel, hpos]
    · constructor <;> simp [CircuitState.allow, hst, hel, ho]
  | halfOpen =>
    have hsl := h.slots hst
    have hb := h.below hst
    by_cases hr : s.halfOpenReqs < cfg.halfOpenMaxReqs
    · constructor <;> simp [CircuitState.allow, hst, hr, hb, toNat_add_one_of_lt hr]
      omega
    · constructor <;> simp [CircuitState.allow, hst, hr, hb, hsl]

theorem slotInv_recordSuccess {s : CircuitState} {t : Int} {p : ℕ}
    (h : SlotInv cfg s t p) : SlotInv cfg (s.recordSuccess cfg) t (p - 1) := by
  cases hst : s.state with
  | closed => constructor <;> simp [CircuitState.recordSuccess, hst]
  | opened =>
    have ho := h.opened hst
    constructor <;> simp [CircuitState.recordSuccess, hst, ho]
  | halfOpen =>
    have hsl := h.slots hst
    have hsucc := toNat_add_one_of_lt (h.below hst)
    by_cases hT : cfg.successThreshold ≤ s.successCount + 1
    · constructor <;> simp [CircuitState.recordSuccess, hst, hT]
    · have hlt : s.successCount + 1 < cfg.successThreshold := by
        simpa using hT
      constructor <;> simp [CircuitState.recordSuccess, hst, hT, hlt, hsucc]
      omega

theorem slotInv_recordFailure {s : CircuitState} {t : Int} {p : ℕ} :
    SlotInv cfg s t p → SlotInv cfg (s.recordFailure cfg t) t (p - 1) := by
  intro h
  cases hst : s.state with
  | closed =>
    by_cases hF : cfg.failureThreshold ≤ s.failureCount + 1 <;>
      constructor <;> simp [CircuitState.recordFailure, hst, hF]
  | opened =>
    have ho := h.opened hst
    constructor <;> simp [CircuitState.recordFailure, hst, ho]
  | halfOpen => constructor <;> simp [CircuitState.recordFailure, hst]

theorem reached_cfg {ip : Str} {b : PerIpCircuitBreaker} {now : Int} {p : ℕ}
    (h : Reached cfg ip b now p) : b.cfg = cfg := by
  induction h with
  | start => rfl
  | call c _ _ ih | other c _ _ _ ih => simpa using ih

theorem reached_slotInv (he : cfg.enabled = true) (hs : 1 ≤ cfg.successThreshold) {ip : Str}
    (hip : ip ≠ []) {b : PerIpCircuitBreaker} {now : Int} {p : ℕ}
    (h : Reached cfg ip b now p) : SlotInv cfg (b.stateOf ip) now p := by
  induction h with
  | start t => exact slotInv_fresh t
  | @call b now p t c h ht ih =>
    have hc := reached_cfg h
    have heb : b.cfg.enabled = true := by rw [hc, he]
    have ih := ih.mono ht
    cases c with
    | allow =>
      rw [perform, stateOf_allow heb hip, pendingAfter, allow_fst heb hip, hc]
      exact slotInv_allow hs ih
    | recordSuccess =>
      rw [perform, stateOf_recordSuccess heb hip, hc]
      exact slotInv_recordSuccess ih
    | recordFailure =>
      rw [perform, stateOf_recordFailure heb hip, hc]
      exact slotInv_recordFailure ih
  | @other b now p t ip' c h ht hne ih =>
    rw [stateOf_perform_ne b t c hne.symm]
    exact ih.mono ht

def remaining (cfg : CircuitBreakerConfig) (s : CircuitState) : ℕ :=
  match s.state with
  | .closed => 0
  | .opened => cfg.successThreshold.toNat
  | .halfOpen => cfg.successThreshold.toNat - s.successCount.toNat

structure Ready (cfg : CircuitBreakerConfig) (s : CircuitState) (t : Int) : Prop where
  waited : s.state = .opened → s.openTime + timeout cfg ≤ t
  slots : s.state = .halfOpen → s.halfOpenReqs ≤ s.successCount
  below : s.state = .halfOpen → s.successCount < cfg.successThreshold

theorem Ready.mono {s : CircuitState} {t t' : Int} (h : Ready cfg s t) (ht : t ≤ t') :
    Ready cfg s t' :=
  ⟨fun ho => (h.waited ho).trans ht, h.slots, h.below⟩

section Covered
variable (hcov : cfg.successThreshold ≤ cfg.halfOpenMaxReqs)
include hcov

theorem allow_of_ready {s : CircuitState} {t : Int} (h : Ready cfg s t) :
    (s.allow cfg t).1 = true := by
  cases hst : s.state with
  | closed => simp [CircuitState.allow, hst]
  | opened =>
    have hel : (cfg.timeoutSeconds.toNat : Int) ≤ secondsOf (t - s.openTime) :=
      secondsOf_ge (by have hw := h.waited hst; rw [timeout] at hw; omega)
    simp [CircuitState.allow, hst, hel]
  | halfOpen =>
    have hr : s.halfOpenReqs < cfg.halfOpenMaxReqs :=
      UInt32.lt_of_le_of_lt (h.slots hst) (UInt32.lt_of_lt_of_le (h.below hst) hcov)
    simp [CircuitState.allow, hst, hr]

theorem ready_probe {s : CircuitState} {t t' : Int} (h : Ready cfg s t) :
    Ready cfg ((s.allow cfg t).2.recordSuccess cfg) t' ∧
      remaining cfg ((s.allow cfg t).2.recordSuccess cfg) ≤ remaining cfg s - 1 := by
  have hadm := allow_of_ready hcov h
  cases hst : s.state with
  | closed =>
    refine ⟨⟨?_, ?_, ?_⟩, ?_⟩ <;>
      simp [CircuitState.allow, CircuitState.recordSuccess, remaining, hst]
  | opened =>
    have hel : (cfg.timeoutSeconds.toNat : Int) ≤ secondsOf (t - s.openTime) := by
      by_contra hel
      simp [CircuitState.allow, hst, hel] at hadm
    by_cases hT : cfg.successThreshold ≤ 1
    · refine ⟨⟨?_, ?_, ?_⟩, ?_⟩ <;>
        simp [CircuitState.allow, CircuitState.recordSuccess, remaining, hst, hel, hT]
    · have hlt : 1 < cfg.successThreshold := by simpa using hT
      refine ⟨⟨?_, ?_, ?_⟩, ?_⟩ <;>
        simp [CircuitState.allow, CircuitState.recordSuccess, remaining, hst, hel, hT, hlt]
  | halfOpen =>
    have hb := h.below hst
    have hsl := h.slots hst
    have hr : s.halfOpenReqs < cfg.halfOpenMaxReqs :=
      UInt32.lt_of_le_of_lt hsl (UInt32.lt_of_lt_of_le hb hcov)
    have hsucc := toNat_add_one_of_lt hb
    by_cases hT : cfg.successThreshold ≤ s.successCount + 1
    · refine ⟨⟨?_, ?_, ?_⟩, ?_⟩ <;>
        simp [CircuitState.allow, CircuitState.recordSuccess, remaining, hst, hr, hT]
    · have hlt : s.successCount + 1 < cfg.successThreshold := by simpa using hT
      have hle : s.halfOpenReqs + 1 ≤ s.successCount + 1 := by
        rw [UInt32.le_iff_toNat_le, hsucc, toNat_add_one_of_lt hr]
        have := UInt32.le_iff_toNat_le.mp hsl
        omega
      refine ⟨⟨?_, ?_, ?_⟩, ?_⟩ <;>
        simp [CircuitState.allow, CircuitState.recordSuccess, remaining, hst, hr, hT, hlt, hle,
          hsucc]
      omega

/-- Probes from a ready state are all admitted and bring the breaker nearer to CLOSED. -/
theorem probes_of_ready (he : cfg.enabled = true) {ip : Str} (hip : ip ≠ [])
    (ts : List Int) {b : PerIpCircuitBreaker} (hc : b.cfg = cfg)
    (h₀ : ∃ t, Ready cfg (b.stateOf ip) t) (h : ∀ t ∈ ts, Ready cfg (b.stateOf ip) t) :
    (probes b ip ts).1 = true ∧ (∃ t, Ready cfg ((probes b ip ts).2.stateOf ip) t) ∧
      remaining cfg ((probes b ip ts).2.stateOf ip) ≤
        remaining cfg (b.stateOf ip) - ts.length := by
  induction ts generalizing b with
  | nil => simpa [probes] using h₀
  | cons t ts ih =>
    have heb : b.cfg.enabled = true := by rw [hc, he]
    have ht := h t List.mem_cons_self
    have hadm : (b.allow t ip).1 = true := by
      rw [allow_fst heb hip, hc]
      exact allow_of_ready hcov ht
    have hcfg : (b.allow t ip).2.cfg = cfg := (perform_cfg b t ip .allow).trans hc
    have hst : (probe b ip t).stateOf ip =
        (((b.stateOf ip).allow cfg t).2).recordSuccess cfg := by
      rw [probe, if_pos hadm, stateOf_recordSuccess (by rw [hcfg, he]) hip,
        stateOf_allow heb hip, hc, hcfg]
    have hc' : (probe b ip t).cfg = cfg := by
      rw [probe, if_pos hadm]
      exact (perform_cfg _ t ip .recordSuccess).trans hcfg
    have hready : ∀ t', Ready cfg ((probe b ip t).stateOf ip) t' := by
      intro t'
      rw [hst]
      exact (ready_probe hcov ht).1
    obtain ⟨-, hrem⟩ : Ready cfg (((b.stateOf ip).allow cfg t).2.recordSuccess cfg) t ∧ _ :=
      ready_probe hcov ht
    obtain ⟨h₁, h₂, h₃⟩ := ih hc' ⟨t, hready t⟩ (fun t' _ => hready t')
    rw [hst] at h₃
    refine ⟨by simp [probes, hadm, h₁], h₂, ?_⟩
    simp only [probes, List.length_cons]
    omega

end Covered

theorem closed_of_remaining {s : CircuitState} {t : Int} (hs : 1 ≤ cfg.successThreshold)
    (h : Ready cfg s t) (hr : remaining cfg s = 0) : s.state = .closed := by
  have hs := UInt32.le_iff_toNat_le.mp hs
  cases hst : s.state with
  | closed => rfl
  | opened =>
    simp [remaining, hst] at hr
    simp [hr] at hs
  | halfOpen =>
    have hb := UInt32.lt_iff_toNat_lt.mp (h.below hst)
    simp [remaining, hst] at hr
    omega

theorem recovers_of_inactive {b : PerIpCircuitBreaker} {ip : Str} {now : Int}
    (h : b.cfg.enabled = false ∨ ip = []) (hcl : b.getState ip = .closed) :
    Recovers b ip now := by
  have hrun : ∀ ts, probes b ip ts = (true, b) := by
    intro ts
    induction ts with
    | nil => rfl
    | cons t ts ih =>
      have hallow : b.allow t ip = (true, b) := by rcases h with h | h <;> simp [allow, h]
      have hsucc : b.recordSuccess ip = b := perform_of_inactive h t .recordSuccess
      simp [probes, probe, hallow, hsucc, ih]
  intro ts _ _
  simp [hrun, hcl]

theorem reached_getState_nil {b : PerIpCircuitBreaker} {now : Int} {p : ℕ}
    (h : Reached cfg [] b now p) : b.getState [] = .closed := by
  induction h with
  | start t => rfl
  | call c _ _ ih =>
    rw [perform_of_inactive (Or.inr rfl)]
    exact ih
  | other c _ _ hne ih =>
    rw [getState, stateOf_perform_ne _ _ _ hne.symm]
    exact ih

theorem neverWedges_of_covered (he : cfg.enabled = true) (hs : 1 ≤ cfg.successThreshold)
    (hcov : cfg.successThreshold ≤ cfg.halfOpenMaxReqs) : NeverWedges cfg := by
  intro ip b now h
  have hc := reached_cfg h
  by_cases hip : ip = []
  · subst hip
    exact recovers_of_inactive (Or.inr rfl) (reached_getState_nil h)
  · have hinv := reached_slotInv he hs hip h
    have hready : ∀ t, now + timeout cfg ≤ t → Ready cfg (b.stateOf ip) t := by
      intro t hlate
      refine ⟨fun ho => ?_, fun hh => ?_, hinv.below⟩
      · have := hinv.opened ho
        omega
      · exact UInt32.le_iff_toNat_le.mpr (hinv.slots hh)
    intro ts _ hts
    rw [hc] at hts ⊢
    obtain ⟨hadm, ⟨t, hfinal⟩, hrem⟩ := probes_of_ready hcov he hip ts hc
      ⟨_, hready _ le_rfl⟩ (fun t ht => hready t (hts t ht))
    refine ⟨hadm, fun hlen => ?_⟩
    have hle : remaining cfg (b.stateOf ip) ≤ cfg.successThreshold.toNat := by
      rw [remaining]
      split <;> omega
    exact closed_of_remaining hs hfinal (by omega)

section Uncovered
variable {ip : Str} (he : cfg.enabled = true) (hip : ip ≠ [])
include he hip

/-- A HALF_OPEN period whose slots run out before the threshold refuses a request, after
having admitted and counted as many successes as it had slots. -/
theorem probes_refused (n : ℕ) {b : PerIpCircuitBreaker} {t : Int} (hc : b.cfg = cfg)
    (hst : (b.stateOf ip).state = .halfOpen)
    (hslots : (b.stateOf ip).halfOpenReqs.toNat + n = cfg.halfOpenMaxReqs.toNat)
    (hbelow : (b.stateOf ip).successCount.toNat + n < cfg.successThreshold.toNat) :
    (probes b ip (List.replicate (n + 1) t)).1 = false := by
  induction n generalizing b with
  | zero =>
    have hfull : ¬ (b.stateOf ip).halfOpenReqs < cfg.halfOpenMaxReqs := by
      rw [UInt32.lt_iff_toNat_lt]
      omega
    have hallow : (b.allow t ip).1 = false := by
      rw [allow_fst (by rw [hc, he]) hip, hc]
      simp [CircuitState.allow, hst, hfull]
    simp [List.replicate, probes, hallow]
  | succ n ih =>
    have heb : b.cfg.enabled = true := by rw [hc, he]
    have hroom : (b.stateOf ip).halfOpenReqs < cfg.halfOpenMaxReqs := by
      rw [UInt32.lt_iff_toNat_lt]
      omega
    have hmore : (b.stateOf ip).successCount < cfg.successThreshold := by
      rw [UInt32.lt_iff_toNat_lt]
      omega
    have hopen : ¬ cfg.successThreshold ≤ (b.stateOf ip).successCount + 1 := by
      rw [UInt32.le_iff_toNat_le, toNat_add_one_of_lt hmore]
      omega
    have hcfg : (b.allow t ip).2.cfg = cfg := (perform_cfg b t ip .allow).trans hc
    have hadm : (b.allow t ip).1 = true := by
      rw [allow_fst heb hip, hc]
      simp [CircuitState.allow, hst, hroom]
    have hnext : (probe b ip t).stateOf ip = { b.stateOf ip with
        halfOpenReqs := (b.stateOf ip).halfOpenReqs + 1
        successCount := (b.stateOf ip).successCount + 1 } := by
      rw [probe, if_pos hadm, stateOf_recordSuccess (by rw [hcfg, he]) hip,
        stateOf_allow heb hip, hc, hcfg]
      simp [CircuitState.allow, CircuitState.recordSuccess, hst, hroom, hopen]
    have hc' : (probe b ip t).cfg = cfg := by
      rw [probe, if_pos hadm]
      exact (perform_cfg _ t ip .recordSuccess).trans hcfg
    have := ih (b := probe b ip t) hc' (by rw [hnext]; exact hst)
      (by rw [hnext]; simp only [toNat_add_one_of_lt hroom]; omega)
      (by rw [hnext]; simp only [toNat_add_one_of_lt hmore]; omega)
    rw [List.replicate_succ, probes, this, Bool.and_false]

theorem reached_failure {b : PerIpCircuitBreaker} {n : UInt32} (hr : Reached cfg ip b 0 0)
    (hst : b.stateOf ip = { failureCount := n }) :
    ∃ b', Reached cfg ip b' 0 0 ∧ b'.stateOf ip =
      { failureCount := n + 1
        state := if cfg.failureThreshold ≤ n + 1 then .opened else .closed } := by
  have hc := reached_cfg hr
  have heb : b.cfg.enabled = true := by rw [hc, he]
  have hadm : (b.allow 0 ip).1 = true := by
    rw [allow_fst heb hip, hst]
    rfl
  have hcfg : (b.allow 0 ip).2.cfg = cfg := (perform_cfg b 0 ip .allow).trans hc
  have hr' := (hr.call .allow le_rfl).call .recordFailure le_rfl
  simp only [pendingAfter, hadm, if_true, Nat.add_sub_cancel] at hr'
  refine ⟨_, hr', ?_⟩
  rw [perform, perform, stateOf_recordFailure (by rw [hcfg, he]) hip, stateOf_allow heb hip, hst,
    hc, hcfg]
  simp only [CircuitState.allow, CircuitState.recordFailure, ge_iff_le]
  split_ifs <;> rfl

theorem reached_failures (k : ℕ) (hk : k < cfg.failureThreshold.toNat) :
    ∃ b, Reached cfg ip b 0 0 ∧ b.stateOf ip = { failureCount := UInt32.ofNat k } := by
  induction k with
  | zero => exact ⟨_, .start 0, rfl⟩
  | succ k ih =>
    obtain ⟨b, hr, hst⟩ := ih (by omega)
    obtain ⟨b', hr', hst'⟩ := reached_failure he hip hr hst
    have hlt := cfg.failureThreshold.toNat_lt
    have hcount : UInt32.ofNat k + 1 = UInt32.ofNat (k + 1) := by simp
    have hbelow : ¬ cfg.failureThreshold ≤ UInt32.ofNat (k + 1) := by
      rw [UInt32.le_iff_toNat_le, UInt32.toNat_ofNat_of_lt' (by simp [UInt32.size]; omega)]
      omega
    rw [hcount, if_neg hbelow] at hst'
    exact ⟨b', hr', hst'⟩

theorem reached_opened (hf : 1 ≤ cfg.failureThreshold) :
    ∃ b, Reached cfg ip b 0 0 ∧ (b.stateOf ip).state = .opened ∧ (b.stateOf ip).openTime = 0 := by
  have hf := UInt32.le_iff_toNat_le.mp hf
  simp only [UInt32.toNat_one] at hf
  obtain ⟨b, hr, hst⟩ := reached_failures he hip (cfg.failureThreshold.toNat - 1) (by omega)
  obtain ⟨b', hr', hst'⟩ := reached_failure he hip hr hst
  have hlast : cfg.failureThreshold ≤ UInt32.ofNat (cfg.failureThreshold.toNat - 1) + 1 := by
    have : UInt32.ofNat (cfg.failureThreshold.toNat - 1) + 1 = cfg.failureThreshold := by
      have hlt := cfg.failureThreshold.toNat_lt
      rw [← UInt32.toNat_inj, UInt32.toNat_add,
        UInt32.toNat_ofNat_of_lt' (by rw [UInt32.size]; omega)]
      simp only [UInt32.toNat_one]
      omega
    rw [this]
    exact UInt32.le_refl _
  rw [if_pos hlast] at hst'
  exact ⟨b', hr', by rw [hst'], by rw [hst']⟩

end Uncovered

theorem neverWedges_iff (he : cfg.enabled = true) (hf : 1 ≤ cfg.failureThreshold)
    (hs : 1 ≤ cfg.successThreshold) (hm : 1 ≤ cfg.halfOpenMaxReqs) :
    NeverWedges cfg ↔ cfg.successThreshold ≤ cfg.halfOpenMaxReqs := by
  refine ⟨fun hnw => ?_, neverWedges_of_covered he hs⟩
  by_contra hcov
  rw [UInt32.le_iff_toNat_le] at hm hcov
  simp only [UInt32.toNat_one] at hm
  let ip : Str := ['x']
  have hip : ip ≠ [] := List.cons_ne_nil _ _
  obtain ⟨b, hr, hst, hot⟩ := reached_opened he hip hf
  have hc := reached_cfg hr
  have heb : b.cfg.enabled = true := by rw [hc, he]
  let t := timeout cfg
  have hel : (cfg.timeoutSeconds.toNat : Int) ≤ secondsOf (t - (b.stateOf ip).openTime) :=
    secondsOf_ge (by simp only [hot, t, timeout]; omega)
  have hadm : (b.allow t ip).1 = true := by
    rw [allow_fst heb hip, hc]
    simp [CircuitState.allow, hst, hel]
  have hcfg : (b.allow t ip).2.cfg = cfg := (perform_cfg b t ip .allow).trans hc
  have hopen : ¬ cfg.successThreshold ≤ 0 + 1 := by
    rw [UInt32.le_iff_toNat_le]
    simp
    omega
  have hfirst : (probe b ip t).stateOf ip = { b.stateOf ip with
      state := .halfOpen, successCount := 0 + 1, halfOpenReqs := 1 } := by
    rw [probe, if_pos hadm, stateOf_recordSuccess (by rw [hcfg, he]) hip, stateOf_allow heb hip,
      hc, hcfg]
    simp only [CircuitState.allow, CircuitState.recordSuccess, hst, ge_iff_le, if_pos hel,
      if_neg hopen]
  have hc' : (probe b ip t).cfg = cfg := by
    rw [probe, if_pos hadm]
    exact (perform_cfg _ t ip .recordSuccess).trans hcfg
  -- the first request opens the period; the slots it leaves are used up by the others
  have hrefused := probes_refused he hip (cfg.halfOpenMaxReqs.toNat - 1) (t := t) hc'
    (by rw [hfirst]) (by rw [hfirst]; simp only [UInt32.toNat_one]; omega)
    (by rw [hfirst]; simp; omega)
  let ts := List.replicate (cfg.halfOpenMaxReqs.toNat - 1 + 1 + 1) t
  have hall := (hnw ip b 0 hr ts (List.pairwise_replicate.mpr (Or.inr le_rfl)) (by
    intro u hu
    rw [List.eq_of_mem_replicate hu, hc]
    simp [t])).1
  simp only [ts] at hall
  rw [List.replicate_succ, probes, hrefused, Bool.and_false] at hall
  exact Bool.false_ne_true hall

/-- The breakers `with_circuit_breaker` configures recover exactly when the success threshold
does not exceed the three probe slots that the builder leaves in place. -/
theorem withCircuitBreaker_neverWedges_iff
    (failureThreshold timeoutSeconds successThreshold : UInt32)
    (hf : 1 ≤ failureThreshold) (hs : 1 ≤ successThreshold) :
    NeverWedges (({} : SecurityPolicy).withCircuitBreaker
      failureThreshold timeoutSeconds successThreshold).circuitBreaker ↔ successThreshold ≤ 3 :=
  neverWedges_iff rfl hf hs (UInt32.le_iff_toNat_le.mpr (show 1 ≤ 3 by omega))

theorem withCircuitBreaker_neverWedges_default :
    NeverWedges (({} : SecurityPolicy).withCircuitBreaker 5 30 2).circuitBreaker :=
  (withCircuitBreaker_neverWedges_iff 5 30 2 (by decide) (by decide)).mpr (by decide)

/-- Five failures, thirty seconds and four successes, as the builder accepts them: the period
after the timeout admits three requests and no more. -/
theorem withCircuitBreaker_wedges :
    ¬ ∀ failureThreshold timeoutSeconds successThreshold : UInt32,
      1 ≤ failureThreshold → 1 ≤ successThreshold →
      NeverWedges (({} : SecurityPolicy).withCircuitBreaker
        failureThreshold timeoutSeconds successThreshold).circuitBreaker := by
  intro h
  have hw := h 5 30 4 (by decide) (by decide)
  have := (neverWedges_iff rfl (by decide) (by decide) (by decide)).mp hw
  exact absurd this (by decide)

end McpSdk.CircuitBreakerRecovery
