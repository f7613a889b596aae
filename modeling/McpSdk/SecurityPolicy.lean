import McpSdk.CppStandardLibrary

/-!
# Security configuration and the builder that fills it

The configuration records of `security_policy.hh` with their defaults, and the `with_*`
methods of `McpServerBuilder` that change them.
-/

namespace McpSdk
open CppStandardLibrary

structure IpFilterConfig where
  whitelist : List Str := []
  blacklist : List Str := []
  defaultAllow : Bool := true

structure RateLimitConfig where
  enabled : Bool := false
  requestsPerSecond : UInt32 := 100
  burstSize : UInt32 := 200

structure CircuitBreakerConfig where
  enabled : Bool := false
  failureThreshold : UInt32 := 5
  successThreshold : UInt32 := 2
  timeoutSeconds : UInt32 := 30
  halfOpenMaxReqs : UInt32 := 3

structure ConnectionLimitConfig where
  enabled : Bool := false
  maxPerIp : ℕ := 10
  maxTotal : ℕ := 10000

structure SizeLimitConfig where
  maxBodyBytes : ℕ := 1 * 1024 * 1024
  maxBatchSize : UInt32 := 20

structure ApiKeyConfig where
  enabled : Bool := false
  keys : List Str := []
  header : Str := "X-API-Key".toList

/-- `SecurityCheckResult`: the answer of the check chain to one request. -/
inductive SecurityCheckResult
  | ok | forbidden | tooManyRequests | serviceUnavailable | unauthorized | connectionLimit
  | payloadTooLarge
  deriving DecidableEq, Repr

structure SecurityPolicy where
  sizeLimits : SizeLimitConfig := {}
  ipFilter : IpFilterConfig := {}
  rateLimit : RateLimitConfig := {}
  circuitBreaker : CircuitBreakerConfig := {}
  connectionLimit : ConnectionLimitConfig := {}
  apiKey : ApiKeyConfig := {}

namespace SecurityPolicy

def withIpWhitelist (p : SecurityPolicy) (cidrs : List Str) : SecurityPolicy :=
  { p with ipFilter := { p.ipFilter with whitelist := cidrs, defaultAllow := false } }

def withIpBlacklist (p : SecurityPolicy) (cidrs : List Str) : SecurityPolicy :=
  { p with ipFilter := { p.ipFilter with blacklist := cidrs } }

/-- `burst_size = 0` asks for twice the rate, computed in 32 bits. -/
def withRateLimit (p : SecurityPolicy) (requestsPerSecond burstSize : UInt32) : SecurityPolicy :=
  { p with rateLimit := {
      enabled := true
      requestsPerSecond := requestsPerSecond
      burstSize := if burstSize > 0 then burstSize else requestsPerSecond * 2 } }

/-- `half_open_max_reqs` keeps its default: the builder has no parameter for it. -/
def withCircuitBreaker (p : SecurityPolicy)
    (failureThreshold timeoutSeconds successThreshold : UInt32) : SecurityPolicy :=
  { p with circuitBreaker := { p.circuitBreaker with
      enabled := true
      failureThreshold := failureThreshold
      timeoutSeconds := timeoutSeconds
      successThreshold := successThreshold } }

def withConnectionLimit (p : SecurityPolicy) (maxPerIp maxTotal : ℕ) : SecurityPolicy :=
  { p with connectionLimit := { enabled := true, maxPerIp := maxPerIp, maxTotal := maxTotal } }

def withSizeLimits (p : SecurityPolicy) (maxBodyMb : ℕ) (maxBatch : UInt32) : SecurityPolicy :=
  { p with sizeLimits := {
      maxBodyBytes := maxBodyMb * 1024 * 1024 % 2 ^ 64
      maxBatchSize := maxBatch } }

def withApiKey (p : SecurityPolicy) (keys : List Str) (header : Str) : SecurityPolicy :=
  { p with apiKey := { enabled := true, keys := keys, header := header } }

end SecurityPolicy
end McpSdk
