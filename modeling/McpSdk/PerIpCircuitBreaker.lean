import McpSdk.SecurityPolicy

/-!
# The per-IP circuit breaker

`allow`, `record_success` and `record_failure` of `circuit_breaker.hh`. Each looks up the
state of one IP, entering a fresh one when the map has none, and writes back what the
three-state machine makes of it. The machine itself is given on `CircuitState`; the maps
of two IPs never meet (`stateOf_perform_ne`).
-/

namespace McpSdk
open CppStandardLibrary

inductive CbState
  | closed | opened | halfOpen
  deriving DecidableEq, Repr

structure CircuitState where
  state : CbState := .closed
  failureCount : UInt32 := 0
  successCount : UInt32 := 0
  halfOpenReqs : UInt32 := 0
  openTime : Int := 0
  deriving DecidableEq, Repr

namespace CircuitState

/-- The body of `allow` on the state of the IP. -/
def allow (cfg : CircuitBreakerConfig) (now : Int) (s : CircuitState) :
    Bool × CircuitState :=
  match s.state with
  | .closed => (true, s)
  | .opened =>
      if secondsOf (now - s.openTime) ≥ (cfg.timeoutSeconds.toNat : Int) then
        (true, { s with state := .halfOpen, successCount := 0, halfOpenReqs := 1 })
      else (false, s)
  | .halfOpen =>
      if s.halfOpenReqs < cfg.halfOpenMaxReqs then
        (true, { s with halfOpenReqs := s.halfOpenReqs + 1 })
      else (false, s)

/-- The body of `record_success` on the state of the IP. -/
def recordSuccess (cfg : CircuitBreakerConfig) (s : CircuitState) : CircuitState :=
  match s.state with
  | .closed => { s with failureCount := 0 }
  | .opened => s
  | .halfOpen =>
      let s := { s with successCount := s.successCount + 1 }
      if s.successCount ≥ cfg.successThreshold then {} else s

/-- The body of `record_failure` on the state of the IP. -/
def recordFailure (cfg : CircuitBreakerConfig) (now : Int) (s : CircuitState) :
    CircuitState :=
  match s.state with
  | .closed =>
      let s := { s with failureCount := s.failureCount + 1 }
      if s.failureCount ≥ cfg.failureThreshold then
        { s with state := .opened, openTime := now }
      else s
  | .opened => s
  | .halfOpen =>
      { s with state := .opened, openTime := now, successCount := 0, halfOpenReqs := 0 }

end CircuitState

structure PerIpCircuitBreaker where
  cfg : CircuitBreakerConfig := {}
  states : UnorderedMap Str CircuitState := ∅

namespace PerIpCircuitBreaker

/-- `_get_or_create` without its insertion: the stored state of `ip` or a fresh one. -/
def stateOf (b : PerIpCircuitBreaker) (ip : Str) : CircuitState := (b.states.lookup ip).getD {}

/-- Write back the state of `ip`, which `_get_or_create` has entered in the map. -/
def store (b : PerIpCircuitBreaker) (ip : Str) (s : CircuitState) : PerIpCircuitBreaker :=
  { b with states := b.states.insert ip s }

def allow (b : PerIpCircuitBreaker) (now : Int) (ip : Str) : Bool × PerIpCircuitBreaker :=
  if !b.cfg.enabled || ip.isEmpty then (true, b)
  else ((b.stateOf ip).allow b.cfg now |>.1, b.store ip ((b.stateOf ip).allow b.cfg now).2)

def recordSuccess (b : PerIpCircuitBreaker) (ip : Str) : PerIpCircuitBreaker :=
  if !b.cfg.enabled || ip.isEmpty then b
  else b.store ip ((b.stateOf ip).recordSuccess b.cfg)

def recordFailure (b : PerIpCircuitBreaker) (now : Int) (ip : Str) : PerIpCircuitBreaker :=
  if !b.cfg.enabled || ip.isEmpty then b
  else b.store ip ((b.stateOf ip).recordFailure b.cfg now)

/-- The three methods the server calls on a breaker. -/
inductive Call
  | allow | recordSuccess | recordFailure
  deriving DecidableEq, Repr

/-- One call for `ip` at time `now`. -/
def perform (b : PerIpCircuitBreaker) (now : Int) (ip : Str) : Call → PerIpCircuitBreaker
  | .allow => (b.allow now ip).2
  | .recordSuccess => b.recordSuccess ip
  | .recordFailure => b.recordFailure now ip

/-- `get_state`. -/
def getState (b : PerIpCircuitBreaker) (ip : Str) : CbState := (b.stateOf ip).state

@[simp] theorem store_cfg (b : PerIpCircuitBreaker) (ip : Str) (s : CircuitState) :
    (b.store ip s).cfg = b.cfg := rfl

@[simp] theorem stateOf_store (b : PerIpCircuitBreaker) (ip : Str) (s : CircuitState) :
    (b.store ip s).stateOf ip = s := by simp [stateOf, store]

theorem stateOf_store_ne (b : PerIpCircuitBreaker) {ip ip' : Str} (s : CircuitState)
    (h : ip' ≠ ip) : (b.store ip s).stateOf ip' = b.stateOf ip' := by
  simp [stateOf, store, AList.lookup_insert_ne h]

@[simp] theorem perform_cfg (b : PerIpCircuitBreaker) (now : Int) (ip : Str) (c : Call) :
    (b.perform now ip c).cfg = b.cfg := by
  cases c <;> simp only [perform, allow, recordSuccess, recordFailure] <;> split <;> rfl

theorem stateOf_perform_ne (b : PerIpCircuitBreaker) (now : Int) {ip ip' : Str} (c : Call)
    (h : ip' ≠ ip) : (b.perform now ip c).stateOf ip' = b.stateOf ip' := by
  cases c <;> simp only [perform, allow, recordSuccess, recordFailure] <;> split <;>
    simp [stateOf_store_ne _ _ h]

section Enabled
variable {b : PerIpCircuitBreaker} {ip : Str} (he : b.cfg.enabled = true) (hip : ip ≠ [])
include he hip

theorem allow_fst (now : Int) :
    (b.allow now ip).1 = ((b.stateOf ip).allow b.cfg now).1 := by
  simp [allow, he, hip]

theorem stateOf_allow (now : Int) :
    (b.allow now ip).2.stateOf ip = ((b.stateOf ip).allow b.cfg now).2 := by
  simp [allow, he, hip]

theorem stateOf_recordSuccess :
    (b.recordSuccess ip).stateOf ip = (b.stateOf ip).recordSuccess b.cfg := by
  simp [recordSuccess, he, hip]

theorem stateOf_recordFailure (now : Int) :
    (b.recordFailure now ip).stateOf ip = (b.stateOf ip).recordFailure b.cfg now := by
  simp [recordFailure, he, hip]

end Enabled

theorem perform_of_inactive {b : PerIpCircuitBreaker} {ip : Str}
    (h : b.cfg.enabled = false ∨ ip = []) (now : Int) (c : Call) :
    b.perform now ip c = b := by
  cases c <;> rcases h with h | h <;> simp [perform, allow, recordSuccess, recordFailure, h]

end PerIpCircuitBreaker
end McpSdk
