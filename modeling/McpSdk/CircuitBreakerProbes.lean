import McpSdk.PerIpCircuitBreaker
import McpSdk.LabelledRuns

/-!
# Outcomes and the HALF_OPEN period they belong to

A breaker is watched together with the requests of one IP that it has admitted and whose
outcome is still to come. A request is known by the period of its admission, the number of
OPEN to HALF_OPEN transitions up to then; the breaker itself keeps no such number, and takes
every outcome recorded in HALF_OPEN for the outcome of a probe of the current period.
-/

namespace McpSdk.CircuitBreakerProbes
open CppStandardLibrary PerIpCircuitBreaker LabelledRuns

structure Watched where
  breaker : PerIpCircuitBreaker
  /-- OPEN to HALF_OPEN transitions so far. -/
  period : ℕ := 0
  /-- The periods in which the requests still being handled were admitted. -/
  inFlight : List ℕ := []
  /-- Successes recorded for requests admitted in the current period. -/
  probeSuccesses : ℕ := 0

/-- What can happen next: a request of the IP arrives, a request admitted in some period has
its outcome recorded, or another IP makes a call. -/
inductive Event
  | arrive (t : Int)
  | complete (t : Int) (admitted : ℕ) (success : Bool)
  | other (t : Int) (ip : Str) (c : Call)

variable (ip : Str)

def arrive (w : Watched) (t : Int) : Watched :=
  let (admitted, breaker) := w.breaker.allow t ip
  if !admitted then { w with breaker := breaker }
  else if w.breaker.getState ip = .opened then
    { breaker := breaker, period := w.period + 1, inFlight := (w.period + 1) :: w.inFlight,
      probeSuccesses := 0 }
  else { w with breaker := breaker, inFlight := w.period :: w.inFlight }

def complete (w : Watched) (t : Int) (admitted : ℕ) (success : Bool) : Watched :=
  { breaker := if success then w.breaker.recordSuccess ip else w.breaker.recordFailure t ip
    period := w.period
    inFlight := w.inFlight.erase admitted
    probeSuccesses :=
      if success && admitted == w.period then w.probeSuccesses + 1 else w.probeSuccesses }

def step (w : Watched) : Event → Option Watched
  | .arrive t => some (arrive ip w t)
  | .complete t admitted success =>
      if admitted ∈ w.inFlight then some (complete ip w t admitted success) else none
  | .other t ip' c =>
      if ip' = ip then none else some { w with breaker := w.breaker.perform t ip' c }

/-- The breaker leaves HALF_OPEN only by the outcome of a request of the current period: for
OPEN by a failure, for CLOSED by a success that completes `success_threshold` of them. -/
def LeavesByProbe (w : Watched) (e : Event) (w' : Watched) : Prop :=
  w.breaker.getState ip = .halfOpen →
    (w'.breaker.getState ip = .closed → (∃ t, e = .complete t w.period true) ∧
      w.breaker.cfg.successThreshold.toNat ≤ w'.probeSuccesses) ∧
    (w'.breaker.getState ip = .opened → ∃ t, e = .complete t w.period false)

/-- An outcome recorded in HALF_OPEN belongs to a request admitted in the current period. -/
def OwnPeriod (w : Watched) (e : Event) (_ : Watched) : Prop :=
  w.breaker.getState ip = .halfOpen →
    ∀ t admitted success, e = .complete t admitted success → admitted = w.period

/-- The breaker's own count of successes is the number of successful probes. -/
structure CountInv (cfg : CircuitBreakerConfig) (w : Watched) : Prop where
  cfg_eq : w.breaker.cfg = cfg
  count : w.breaker.getState ip = .halfOpen →
    (w.breaker.stateOf ip).successCount.toNat = w.probeSuccesses
  below : w.breaker.getState ip = .halfOpen →
    (w.breaker.stateOf ip).successCount < cfg.successThreshold ∨
      (w.breaker.stateOf ip).successCount = 0

variable {ip} {cfg : CircuitBreakerConfig}

theorem countInv_fresh : CountInv ip cfg { breaker := { cfg := cfg } } := by
  constructor <;> simp [getState, stateOf]

section Enabled
variable (he : cfg.enabled = true) (hip : ip ≠ [])
include he hip

theorem arrive_spec {w : Watched} (h : CountInv ip cfg w) (t : Int) :
    CountInv ip cfg (arrive ip w t) ∧
      (w.breaker.getState ip = .halfOpen → (arrive ip w t).breaker.getState ip = .halfOpen) := by
  have heb : w.breaker.cfg.enabled = true := by rw [h.cfg_eq, he]
  have hcfg : (w.breaker.allow t ip).2.cfg = cfg :=
    (perform_cfg w.breaker t ip .allow).trans h.cfg_eq
  have hadm := allow_fst heb hip t
  have hst := stateOf_allow heb hip t
  rw [h.cfg_eq] at hadm hst
  have hcount := h.count
  have hbelow := h.below
  simp only [getState] at hcount hbelow
  cases hs : (w.breaker.stateOf ip).state with
  | closed =>
    refine ⟨⟨?_, ?_, ?_⟩, ?_⟩ <;>
      simp [arrive, getState, hadm, hst, CircuitState.allow, hs, hcfg]
  | opened =>
    by_cases hel :
        secondsOf (t - (w.breaker.stateOf ip).openTime) ≥ (cfg.timeoutSeconds.toNat : Int)
    · refine ⟨⟨?_, ?_, ?_⟩, ?_⟩ <;>
        simp [arrive, getState, hadm, hst, CircuitState.allow, hs, hcfg, hel]
    · refine ⟨⟨?_, ?_, ?_⟩, ?_⟩ <;>
        simp [arrive, getState, hadm, hst, CircuitState.allow, hs, hcfg, hel]
  | halfOpen =>
    by_cases hr : (w.breaker.stateOf ip).halfOpenReqs < cfg.halfOpenMaxReqs
    · refine ⟨⟨?_, ?_, ?_⟩, ?_⟩ <;>
        simp [arrive, getState, hadm, hst, CircuitState.allow, hs, hcfg, hr, hcount, hbelow]
    · refine ⟨⟨?_, ?_, ?_⟩, ?_⟩ <;>
        simp [arrive, getState, hadm, hst, CircuitState.allow, hs, hcfg, hr, hcount, hbelow]

/-- A success recorded in HALF_OPEN for a probe keeps the counts equal, and closes the breaker
only when it is the last one the threshold asks for. -/
theorem complete_success_spec {w : Watched} (h : CountInv ip cfg w) (t : Int) (admitted : ℕ)
    (hown : w.breaker.getState ip = .halfOpen → admitted = w.period) :
    CountInv ip cfg (complete ip w t admitted true) ∧
      (w.breaker.getState ip = .halfOpen →
        ((complete ip w t admitted true).breaker.getState ip = .closed →
          cfg.successThreshold.toNat ≤ (complete ip w t admitted true).probeSuccesses) ∧
        (complete ip w t admitted true).breaker.getState ip ≠ .opened) := by
  have heb : w.breaker.cfg.enabled = true := by rw [h.cfg_eq, he]
  have hcfg : (w.breaker.recordSuccess ip).cfg = cfg :=
    (perform_cfg w.breaker t ip .recordSuccess).trans h.cfg_eq
  have hst := stateOf_recordSuccess heb hip
  rw [h.cfg_eq] at hst
  cases hs : (w.breaker.stateOf ip).state with
  | closed =>
    refine ⟨⟨?_, ?_, ?_⟩, ?_⟩ <;>
      simp [complete, getState, hst, CircuitState.recordSuccess, hs, hcfg]
  | opened =>
    refine ⟨⟨?_, ?_, ?_⟩, ?_⟩ <;>
      simp [complete, getState, hst, CircuitState.recordSuccess, hs, hcfg]
  | halfOpen =>
    have hcount := h.count hs
    have hperiod := hown hs
    have hsucc : ((w.breaker.stateOf ip).successCount + 1).toNat = w.probeSuccesses + 1 := by
      rcases h.below hs with hlt | hz
      · rw [toNat_add_one_of_lt hlt, hcount]
      · rw [← hcount, hz]
        rfl
    by_cases hT : cfg.successThreshold ≤ (w.breaker.stateOf ip).successCount + 1
    · have hT' := UInt32.le_iff_toNat_le.mp hT
      rw [hsucc] at hT'
      refine ⟨⟨?_, ?_, ?_⟩, ?_⟩ <;>
        simp [complete, getState, hst, CircuitState.recordSuccess, hs, hcfg, hT, hT', hperiod]
    · have hlt : (w.breaker.stateOf ip).successCount + 1 < cfg.successThreshold := by simpa using hT
      refine ⟨⟨?_, ?_, ?_⟩, ?_⟩ <;>
        simp [complete, getState, hst, CircuitState.recordSuccess, hs, hcfg, hT, hlt, hsucc,
          hperiod]

theorem complete_failure_spec {w : Watched} (h : CountInv ip cfg w) (t : Int) (admitted : ℕ) :
    CountInv ip cfg (complete ip w t admitted false) ∧
      (w.breaker.getState ip = .halfOpen →
        (complete ip w t admitted false).breaker.getState ip ≠ .closed) := by
  have heb : w.breaker.cfg.enabled = true := by rw [h.cfg_eq, he]
  have hcfg : (w.breaker.recordFailure t ip).cfg = cfg :=
    (perform_cfg w.breaker t ip .recordFailure).trans h.cfg_eq
  have hst := stateOf_recordFailure heb hip t
  rw [h.cfg_eq] at hst
  cases hs : (w.breaker.stateOf ip).state with
  | closed =>
    by_cases hF : cfg.failureThreshold ≤ (w.breaker.stateOf ip).failureCount + 1
    · refine ⟨⟨?_, ?_, ?_⟩, ?_⟩ <;>
        simp [complete, getState, hst, CircuitState.recordFailure, hs, hcfg, hF]
    · refine ⟨⟨?_, ?_, ?_⟩, ?_⟩ <;>
        simp [complete, getState, hst, CircuitState.recordFailure, hs, hcfg, hF]
  | opened =>
    refine ⟨⟨?_, ?_, ?_⟩, ?_⟩ <;>
      simp [complete, getState, hst, CircuitState.recordFailure, hs, hcfg]
  | halfOpen =>
    refine ⟨⟨?_, ?_, ?_⟩, ?_⟩ <;>
      simp [complete, getState, hst, CircuitState.recordFailure, hs, hcfg]

theorem step_spec {w w' : Watched} {e : Event} (h : CountInv ip cfg w)
    (hstep : step ip w e = some w') (hown : OwnPeriod ip w e w') :
    CountInv ip cfg w' ∧ LeavesByProbe ip w e w' := by
  cases e with
  | arrive t =>
    obtain rfl : arrive ip w t = w' := Option.some.inj hstep
    obtain ⟨hinv, hstay⟩ := arrive_spec he hip h t
    exact ⟨hinv, fun hh => by rw [hstay hh]; simp⟩
  | complete t admitted success =>
    simp only [step] at hstep
    split at hstep
    · obtain rfl := Option.some.inj hstep
      have hperiod : w.breaker.getState ip = .halfOpen → admitted = w.period :=
        fun hh => hown hh t admitted success rfl
      cases success with
      | true =>
        obtain ⟨hinv, hleave⟩ := complete_success_spec he hip h t admitted hperiod
        refine ⟨hinv, fun hh => ⟨fun hcl => ⟨⟨t, by rw [hperiod hh]⟩, ?_⟩, fun ho => ?_⟩⟩
        · rw [h.cfg_eq]
          exact (hleave hh).1 hcl
        · exact absurd ho (hleave hh).2
      | false =>
        obtain ⟨hinv, hleave⟩ := complete_failure_spec he hip h t admitted
        exact ⟨hinv, fun hh =>
          ⟨fun hcl => absurd hcl (hleave hh), fun _ => ⟨t, by rw [hperiod hh]⟩⟩⟩
    · cases hstep
  | other t ip' c =>
    simp only [step] at hstep
    split at hstep
    · cases hstep
    · rename_i hne
      obtain rfl := Option.some.inj hstep
      have hst := stateOf_perform_ne w.breaker t c (Ne.symm hne)
      refine ⟨⟨(perform_cfg w.breaker t ip' c).trans h.cfg_eq, ?_, ?_⟩, fun hh => ?_⟩
      · simpa [getState, hst] using h.count
      · simpa [getState, hst] using h.below
      · simp only [getState] at hh
        simp [getState, hst, hh]

/-- In every run that records in HALF_OPEN only outcomes of requests of the current period,
the breaker leaves HALF_OPEN only because of its probes. -/
theorem leavesByProbe_along (es : List Event)
    (hown : Along (step ip) (OwnPeriod ip) { breaker := { cfg := cfg } } es) :
    Along (step ip) (LeavesByProbe ip) { breaker := { cfg := cfg } } es := by
  have hinit : CountInv ip cfg { breaker := { cfg := cfg } } := countInv_fresh
  refine along_of_invariant ?_ hinit hown
  intro w e w' h hs hc
  exact step_spec he hip h hs hc

end Enabled

def quickConfig : CircuitBreakerConfig :=
  { enabled := true, failureThreshold := 1, timeoutSeconds := 1, successThreshold := 1 }

theorem leavesByProbe_quick :
    Along (step ['x']) (LeavesByProbe ['x']) { breaker := { cfg := quickConfig } }
      [.arrive 0, .complete 0 0 false, .arrive 1000000000, .complete 1000000000 1 true] := by
  refine leavesByProbe_along rfl (List.cons_ne_nil _ _) _ ?_
  refine (along_cons _ rfl).mpr ⟨nofun, (along_cons _ rfl).mpr ⟨?_, ?_⟩⟩
  · intro hh
    exact absurd hh (by decide)
  refine (along_cons _ rfl).mpr ⟨nofun, (along_cons _ rfl).mpr ⟨?_, trivial⟩⟩
  rintro - t admitted success ⟨⟩
  rfl

/-- Two requests are admitted while CLOSED. The first fails and opens the breaker; after the
timeout a probe is admitted; then the second request fails, and its failure, not the
probe's, takes the breaker back to OPEN. -/
theorem leaves_by_earlier_request :
    ¬ ∀ (cfg : CircuitBreakerConfig) (ip : Str) (es : List Event), cfg.enabled = true → ip ≠ [] →
      Along (step ip) (LeavesByProbe ip) { breaker := { cfg := cfg } } es := by
  intro h
  have h₁ := h quickConfig ['x'] [.arrive 0, .arrive 0, .complete 0 0 false, .arrive 1000000000,
    .complete 1000000000 0 false] rfl (List.cons_ne_nil _ _)
  have h₂ := ((along_cons _ rfl).mp h₁).2
  have h₃ := ((along_cons _ rfl).mp h₂).2
  have h₄ := ((along_cons _ rfl).mp h₃).2
  have h₅ := ((along_cons _ rfl).mp h₄).2
  have hlast := ((along_cons _ rfl).mp h₅).1
  obtain ⟨t, ht⟩ := (hlast (by decide)).2 (by decide)
  injection ht with _ hperiod
  exact absurd hperiod (by decide)

end McpSdk.CircuitBreakerProbes
