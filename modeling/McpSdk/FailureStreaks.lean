import McpSdk.CircuitBreakerPeriods
import Mathlib.Data.List.DropRight

/-!
# What opens the circuit breaker

The streak of failures is read off the history: the failures recorded in CLOSED since the last
success or the last entry into CLOSED. A fresh breaker leaves CLOSED with the call that completes
a streak, and with no other. One counter stands for the streak while the circuit is CLOSED. It
keeps its value when the circuit opens, and the return to CLOSED clears it with all the others.
-/

namespace McpSdk.FailureStreaks
open CppStandardLibrary PerIpCircuitBreaker CircuitBreakerPeriods

section History
variable (ip : Str)

/-- The calls of a run, each with the breaker that it finds. -/
def history : PerIpCircuitBreaker → List TimedCall → List (PerIpCircuitBreaker × TimedCall)
  | _, [] => []
  | b, c :: calls => (b, c) :: history (b.perform c.now ip c.call) calls

def fails (p : PerIpCircuitBreaker × TimedCall) : Bool :=
  p.2.call == .recordFailure && p.1.getState ip == .closed

/-- The call leads to CLOSED from another state. -/
def enters (p : PerIpCircuitBreaker × TimedCall) : Bool :=
  p.1.getState ip != .closed && (p.1.perform p.2.now ip p.2.call).getState ip == .closed

/-- The call leads from CLOSED to another state. -/
def leaves (p : PerIpCircuitBreaker × TimedCall) : Bool :=
  p.1.getState ip == .closed && (p.1.perform p.2.now ip p.2.call).getState ip != .closed

/-- A streak begins anew: a success is recorded, or CLOSED is entered. -/
def restarts (p : PerIpCircuitBreaker × TimedCall) : Bool :=
  p.2.call == .recordSuccess || enters ip p

/-- The failures since the last call that restarts the streak. -/
def streak (b : PerIpCircuitBreaker) (calls : List TimedCall) : ℕ :=
  ((history ip b calls).rtakeWhile (fun p => !restarts ip p)).countP (fails ip)

variable {ip} {b : PerIpCircuitBreaker}

theorem history_append (calls : List TimedCall) (c : TimedCall) :
    history ip b (calls ++ [c]) = history ip b calls ++ [(after ip b calls, c)] := by
  induction calls generalizing b with
  | nil => rfl
  | cons d calls ih => exact congrArg (_ :: ·) ih

@[simp] theorem streak_nil : streak ip b [] = 0 := rfl

theorem streak_append (calls : List TimedCall) (c : TimedCall) :
    streak ip b (calls ++ [c]) =
      if restarts ip (after ip b calls, c) then 0
      else streak ip b calls + (fails ip (after ip b calls, c)).toNat := by
  rw [streak, history_append, List.rtakeWhile_concat]
  cases restarts ip (after ip b calls, c) with
  | true => rfl
  | false =>
    rw [Bool.not_false, if_pos rfl, List.countP_append, List.countP_singleton]
    cases fails ip (after ip b calls, c) <;> rfl

theorem not_restarts_of_fails {c : TimedCall} (h : fails ip (b, c)) :
    restarts ip (b, c) = false := by
  obtain ⟨hcall, hclosed⟩ := Bool.and_eq_true_iff.mp h
  rw [restarts, enters, beq_iff_eq.mp hcall, beq_iff_eq.mp hclosed]
  rfl

end History

/-- The length of the streak that opens the circuit. -/
def threshold (cfg : CircuitBreakerConfig) : ℕ := max 1 cfg.failureThreshold.toNat

/-- The counters that a call increments, by their values before. -/
def incremented (cfg : CircuitBreakerConfig) (s : CircuitState) : Call → List UInt32
  | .allow =>
      if s.state = .halfOpen ∧ s.halfOpenReqs < cfg.halfOpenMaxReqs then [s.halfOpenReqs] else []
  | .recordSuccess => if s.state = .halfOpen then [s.successCount] else []
  | .recordFailure => if s.state = .closed then [s.failureCount] else []

/-- What the counters of a circuit are at the end of a streak of `n` failures. -/
structure Counts (cfg : CircuitBreakerConfig) (s : CircuitState) (n : ℕ) : Prop where
  failures : s.state = .closed → s.failureCount.toNat = n ∧ n < threshold cfg
  successes : s.state = .halfOpen → s.successCount = 0 ∨ s.successCount < cfg.successThreshold

theorem toNat_add_one {a : UInt32} (h : a.toNat < 2 ^ 32 - 1) : (a + 1).toNat = a.toNat + 1 :=
  toNat_add_one_of_lt (b := 4294967295) (UInt32.lt_iff_toNat_lt.mpr h)

namespace Counts
variable {cfg : CircuitBreakerConfig} {s : CircuitState} {n : ℕ}

theorem fresh : Counts cfg {} 0 :=
  ⟨fun _ => ⟨rfl, lt_max_of_lt_left Nat.one_pos⟩, nofun⟩

theorem threshold_lt (cfg : CircuitBreakerConfig) : threshold cfg < 2 ^ 32 :=
  max_lt (by norm_num) cfg.failureThreshold.toNat_lt

theorem failureCount_add_one (h : Counts cfg s n) (hclosed : s.state = .closed) :
    (s.failureCount + 1).toNat = n + 1 := by
  obtain ⟨hcount, hlt⟩ := h.failures hclosed
  have hbound := threshold_lt cfg
  rw [toNat_add_one (by omega), hcount]

theorem successCount_add_one (h : Counts cfg s n) (hhalf : s.state = .halfOpen) :
    (s.successCount + 1).toNat = s.successCount.toNat + 1 := by
  rcases h.successes hhalf with hzero | hlt
  · rw [hzero]
    rfl
  · exact toNat_add_one_of_lt hlt

theorem no_wrap (h : Counts cfg s n) (c : Call) :
    ∀ x ∈ incremented cfg s c, (x + 1).toNat = x.toNat + 1 := by
  intro x hx
  cases c with
  | allow =>
    obtain ⟨hhalf, rfl⟩ := List.mem_ite_nil_right.mp hx |>.imp_right List.mem_singleton.mp
    exact toNat_add_one_of_lt hhalf.2
  | recordSuccess =>
    obtain ⟨hhalf, rfl⟩ := List.mem_ite_nil_right.mp hx |>.imp_right List.mem_singleton.mp
    exact h.successCount_add_one hhalf
  | recordFailure =>
    obtain ⟨hclosed, rfl⟩ := List.mem_ite_nil_right.mp hx |>.imp_right List.mem_singleton.mp
    rw [h.failureCount_add_one hclosed, (h.failures hclosed).1]

theorem recordFailure_closed (h : Counts cfg s n) (hclosed : s.state = .closed) (now : Int) :
    if n + 1 = threshold cfg then (s.recordFailure cfg now).state = .opened
    else (s.recordFailure cfg now).state = .closed ∧
      (s.recordFailure cfg now).failureCount.toNat = n + 1 := by
  have hcount := h.failureCount_add_one hclosed
  have hlt := (h.failures hclosed).2
  have hfull : s.failureCount + 1 ≥ cfg.failureThreshold ↔ n + 1 = threshold cfg := by
    rw [ge_iff_le, UInt32.le_iff_toNat_le, hcount]
    unfold threshold at hlt ⊢
    omega
  simp only [CircuitState.recordFailure, hclosed, hfull]
  split
  · rfl
  · exact ⟨rfl, hcount⟩

end Counts

/-- What a call makes of the circuit. -/
inductive Turn (cfg : CircuitBreakerConfig) (now : Int) (s : CircuitState) :
    Call → CircuitState → Prop
  | stays {s' : CircuitState} (hstate : s'.state = s.state)
      (hfailures : s'.failureCount = s.failureCount)
      (hsuccesses : s'.successCount = s.successCount) : Turn cfg now s .allow s'
  | probes (h : s.state = .opened) :
      Turn cfg now s .allow { s with state := .halfOpen, successCount := 0, halfOpenReqs := 1 }
  | ignores {c : Call} (h : s.state = .opened) : Turn cfg now s c s
  | clears (h : s.state = .closed) : Turn cfg now s .recordSuccess { s with failureCount := 0 }
  | fails (h : s.state = .closed) : Turn cfg now s .recordFailure (s.recordFailure cfg now)
  | succeeds (h : s.state = .halfOpen) (hlt : s.successCount + 1 < cfg.successThreshold) :
      Turn cfg now s .recordSuccess { s with successCount := s.successCount + 1 }
  | recovers (h : s.state = .halfOpen) : Turn cfg now s .recordSuccess {}
  | reopens (h : s.state = .halfOpen) :
      Turn cfg now s .recordFailure
        { s with state := .opened, openTime := now, successCount := 0, halfOpenReqs := 0 }

section Turns
variable (cfg : CircuitBreakerConfig) (now : Int) (s : CircuitState)

theorem turn_allow : Turn cfg now s .allow (s.allow cfg now).2 := by
  unfold CircuitState.allow
  split
  · exact .stays rfl rfl rfl
  · split
    · exact .probes ‹_›
    · exact .stays rfl rfl rfl
  · split <;> exact .stays rfl rfl rfl

theorem turn_recordSuccess : Turn cfg now s .recordSuccess (s.recordSuccess cfg) := by
  unfold CircuitState.recordSuccess
  split
  · exact .clears ‹_›
  · exact .ignores ‹_›
  · dsimp only
    split
    · exact .recovers ‹_›
    · exact .succeeds ‹_› (UInt32.not_le.mp ‹_›)

theorem turn_recordFailure : Turn cfg now s .recordFailure (s.recordFailure cfg now) := by
  cases hs : s.state with
  | closed => exact .fails hs
  | opened =>
    rw [CircuitState.recordFailure, hs]
    exact .ignores hs
  | halfOpen =>
    rw [CircuitState.recordFailure, hs]
    exact .reopens hs

end Turns

namespace Turn
variable {cfg : CircuitBreakerConfig} {now : Int} {s s' : CircuitState} {c : Call} {n : ℕ}

theorem entered (h : Turn cfg now s c s') (hbefore : s.state ≠ .closed)
    (hafter : s'.state = .closed) : s' = {} := by
  cases h with
  | stays hstate => exact absurd (hstate.symm.trans hafter) hbefore
  | ignores => exact absurd hafter hbefore
  | clears h | fails h => exact absurd h hbefore
  | succeeds h => exact absurd hafter hbefore
  | recovers => rfl
  | probes | reopens => cases hafter

theorem failed (h : Turn cfg now s c s') (hbefore : s.state = .closed)
    (hafter : s'.state ≠ .closed) : c = .recordFailure := by
  cases h with
  | fails | reopens => rfl
  | stays hstate => exact absurd (hstate.trans hbefore) hafter
  | clears => exact absurd hbefore hafter
  | probes h | ignores h | succeeds h | recovers h => cases h.symm.trans hbefore

theorem succeeded (h : Turn cfg now s c s') (hc : c = .recordSuccess)
    (hafter : s'.state = .closed) : s'.failureCount = 0 := by
  subst hc
  cases h with
  | clears | recovers => rfl
  | ignores h => cases h.symm.trans hafter
  | succeeds h => cases h.symm.trans hafter

theorem allowed (h : Turn cfg now s c s') (hc : c = .allow) :
    s'.failureCount = s.failureCount := by
  subst hc
  cases h with
  | stays _ hfailures => exact hfailures
  | ignores | probes => rfl

theorem successes (h : Turn cfg now s c s')
    (hs : s.state = .halfOpen → s.successCount = 0 ∨ s.successCount < cfg.successThreshold)
    (hafter : s'.state = .halfOpen) :
    s'.successCount = 0 ∨ s'.successCount < cfg.successThreshold := by
  cases h with
  | stays hstate _ hsuccesses =>
    rw [hsuccesses]
    exact hs (hstate.symm.trans hafter)
  | probes => exact .inl rfl
  | succeeds _ hlt => exact .inr hlt
  | ignores h => cases h.symm.trans hafter
  | clears h => cases h.symm.trans hafter
  | fails h =>
    simp only [CircuitState.recordFailure, h] at hafter
    split at hafter <;> cases hafter
  | recovers | reopens => cases hafter

end Turn

section Calls
variable {ip : Str} {b : PerIpCircuitBreaker} {n : ℕ} (he : b.cfg.enabled = true) (hip : ip ≠ [])
include he hip

theorem turn_of_perform (c : TimedCall) :
    Turn b.cfg c.now (b.stateOf ip) c.call ((b.perform c.now ip c.call).stateOf ip) := by
  rw [stateOf_perform he hip]
  cases c.call with
  | allow => exact turn_allow _ _ _
  | recordSuccess => exact turn_recordSuccess _ _ _
  | recordFailure => exact turn_recordFailure _ _ _

theorem stateOf_of_enters {c : TimedCall} (h : enters ip (b, c)) :
    (b.perform c.now ip c.call).stateOf ip = {} := by
  obtain ⟨hbefore, hafter⟩ := Bool.and_eq_true_iff.mp h
  exact (turn_of_perform he hip c).entered (bne_iff_ne.mp hbefore) (beq_iff_eq.mp hafter)

theorem perform_of_fails (h : Counts b.cfg (b.stateOf ip) n) {c : TimedCall}
    (hfails : fails ip (b, c)) :
    if n + 1 = threshold b.cfg then (b.perform c.now ip c.call).getState ip = .opened
    else (b.perform c.now ip c.call).getState ip = .closed ∧
      ((b.perform c.now ip c.call).stateOf ip).failureCount.toNat = n + 1 := by
  obtain ⟨hcall, hclosed⟩ := Bool.and_eq_true_iff.mp hfails
  have hcall : c.call = .recordFailure := beq_iff_eq.mp hcall
  have hstate := h.recordFailure_closed (beq_iff_eq.mp hclosed) c.now
  rw [← stateOf_recordFailure he hip] at hstate
  rw [hcall]
  exact hstate

theorem leaves_iff (h : Counts b.cfg (b.stateOf ip) n) (c : TimedCall) :
    leaves ip (b, c) ↔ fails ip (b, c) ∧ n + 1 = threshold b.cfg := by
  constructor
  · intro hleaves
    obtain ⟨hbefore, hafter⟩ := Bool.and_eq_true_iff.mp hleaves
    have hcall := (turn_of_perform he hip c).failed (beq_iff_eq.mp hbefore) (bne_iff_ne.mp hafter)
    have hfails : fails ip (b, c) := Bool.and_eq_true_iff.mpr ⟨beq_iff_eq.mpr hcall, hbefore⟩
    refine ⟨hfails, ?_⟩
    by_contra hmore
    have hnext := perform_of_fails he hip h hfails
    rw [if_neg hmore] at hnext
    exact bne_iff_ne.mp hafter hnext.1
  · rintro ⟨hfails, hfull⟩
    have hnext := perform_of_fails he hip h hfails
    rw [if_pos hfull] at hnext
    exact Bool.and_eq_true_iff.mpr ⟨(Bool.and_eq_true_iff.mp hfails).2, by simp [hnext]⟩

/-- What a call makes of the streak it makes of the counters. -/
theorem counts_perform (h : Counts b.cfg (b.stateOf ip) n) (c : TimedCall) :
    Counts b.cfg ((b.perform c.now ip c.call).stateOf ip)
      (if restarts ip (b, c) then 0 else n + (fails ip (b, c)).toNat) where
  successes := (turn_of_perform he hip c).successes h.successes
  failures := by
    intro hafter
    have hturn := turn_of_perform he hip c
    have hone : 0 < threshold b.cfg := lt_max_of_lt_left Nat.one_pos
    by_cases henters : enters ip (b, c)
    · rw [stateOf_of_enters he hip henters, restarts, henters, Bool.or_true, if_pos rfl]
      exact ⟨rfl, hone⟩
    · have hclosed : (b.stateOf ip).state = .closed := by
        by_contra hbefore
        exact henters (Bool.and_eq_true_iff.mpr ⟨bne_iff_ne.mpr hbefore, beq_iff_eq.mpr hafter⟩)
      cases hcall : c.call with
      | recordSuccess =>
        have hrestarts : restarts ip (b, c) := by simp [restarts, hcall]
        rw [← hcall, hturn.succeeded hcall hafter, if_pos hrestarts]
        exact ⟨rfl, hone⟩
      | allow =>
        have hrestarts : restarts ip (b, c) = false := by simp [restarts, hcall, henters]
        have hfails : fails ip (b, c) = false := by simp [fails, hcall]
        rw [← hcall, hturn.allowed hcall, hrestarts, hfails]
        exact h.failures hclosed
      | recordFailure =>
        have hrestarts : restarts ip (b, c) = false := by simp [restarts, hcall, henters]
        have hfails : fails ip (b, c) := by simp [fails, hcall, getState, hclosed]
        have hlt := (h.failures hclosed).2
        have hnext := perform_of_fails he hip h hfails
        rw [← hcall, hrestarts, hfails]
        split at hnext
        · cases hnext.symm.trans hafter
        · exact ⟨hnext.2, lt_of_le_of_ne hlt ‹_›⟩

theorem counts_after (hnew : ip ∉ b.states) (calls : List TimedCall) :
    Counts b.cfg ((after ip b calls).stateOf ip) (streak ip b calls) := by
  induction calls using List.reverseRecOn with
  | nil =>
    have hfresh : (after ip b []).stateOf ip = {} := by
      rw [after, List.foldl_nil, stateOf, AList.lookup_eq_none.mpr hnew]
      rfl
    rw [hfresh]
    exact .fresh
  | append_singleton calls c ih =>
    rw [after_append, streak_append]
    have hcfg : (after ip b calls).cfg = b.cfg := after_cfg calls
    have hnext := counts_perform (b := after ip b calls) (by rw [hcfg, he]) hip (by rwa [hcfg]) c
    rwa [hcfg] at hnext

theorem stateOf_after {b' : PerIpCircuitBreaker} (hcfg : b'.cfg = b.cfg)
    (hstate : b'.stateOf ip = b.stateOf ip) (calls : List TimedCall) :
    (after ip b' calls).stateOf ip = (after ip b calls).stateOf ip := by
  induction calls generalizing b b' with
  | nil => exact hstate
  | cons c calls ih =>
    have hfirst : (b'.perform c.now ip c.call).stateOf ip =
        (b.perform c.now ip c.call).stateOf ip := by
      rw [stateOf_perform he hip, stateOf_perform (by rw [hcfg, he]) hip, hstate, hcfg]
    exact ih (by rw [perform_cfg, he]) (by rw [perform_cfg, perform_cfg, hcfg]) hfirst

theorem after_of_enters {calls : List TimedCall} {c : TimedCall}
    (henters : enters ip (after ip b calls, c)) (later : List TimedCall) :
    (after ip b (calls ++ c :: later)).stateOf ip =
      (after ip { cfg := b.cfg } later).stateOf ip := by
  have hcfg : (after ip b calls).cfg = b.cfg := after_cfg calls
  have hfresh := stateOf_of_enters (b := after ip b calls) (by rw [hcfg, he]) hip henters
  rw [after_append]
  exact stateOf_after (b := { cfg := b.cfg }) he hip ((perform_cfg ..).trans hcfg) hfresh later

end Calls

/-- The run of calls for an IP leaves CLOSED with the failure that completes a streak, and with no
other call. What was recorded before the last entry into CLOSED does not matter. -/
theorem streaks_of_run (b : PerIpCircuitBreaker) (ip : Str) (he : b.cfg.enabled = true)
    (hip : ip ≠ []) (hnew : ip ∉ b.states) (calls : List TimedCall) (c : TimedCall) :
    (leaves ip (after ip b calls, c) ↔ fails ip (after ip b calls, c) ∧
        streak ip b (calls ++ [c]) = max 1 b.cfg.failureThreshold.toNat) ∧
      (enters ip (after ip b calls, c) → ∀ later,
        (after ip b (calls ++ c :: later)).stateOf ip =
          (after ip { cfg := b.cfg } later).stateOf ip) ∧
      ∀ n ∈ incremented b.cfg ((after ip b calls).stateOf ip) c.call,
        (n + 1).toNat = n.toNat + 1 := by
  have hcfg : (after ip b calls).cfg = b.cfg := after_cfg calls
  have he' : (after ip b calls).cfg.enabled = true := by rw [hcfg, he]
  have hcounts := counts_after he hip hnew calls
  refine ⟨?_, after_of_enters he hip, hcounts.no_wrap c.call⟩
  rw [leaves_iff he' hip (by rwa [hcfg]) c, hcfg, streak_append]
  refine and_congr_right fun hfails => ?_
  rw [not_restarts_of_fails hfails, hfails]
  rfl

def secondFailure : PerIpCircuitBreaker := { cfg := { enabled := true, failureThreshold := 2 } }

/-- A success begins the streak anew, so that the third failure opens it. -/
theorem streaks_of_run_secondFailure :
    leaves "a".toList (after "a".toList secondFailure
      [⟨0, .recordFailure⟩, ⟨1, .recordSuccess⟩, ⟨2, .recordFailure⟩], ⟨3, .recordFailure⟩) :=
  (streaks_of_run secondFailure "a".toList rfl (by simp) (by decide) _ _).1.mpr (by decide)

end McpSdk.FailureStreaks
