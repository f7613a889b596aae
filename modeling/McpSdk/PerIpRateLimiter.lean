import McpSdk.SecurityPolicy
import Mathlib.Data.Rat.Defs
import Mathlib.Algebra.Order.Ring.Unbundled.Rat

/-!
# The per-IP rate limiter

`rate_limiter.hh`: a token bucket for each IP. Token amounts, doubles in the source, are exact
rational numbers.
-/

namespace McpSdk
open CppStandardLibrary

structure TokenBucket where
  tokens : ℚ
  capacity : ℚ
  refillPerNs : ℚ
  lastRefill : Int

/-- `_refill`. -/
def TokenBucket.refill (b : TokenBucket) (now : Int) : TokenBucket :=
  if now - b.lastRefill > 0 then
    { b with
      tokens := min b.capacity (b.tokens + (now - b.lastRefill : Int) * b.refillPerNs)
      lastRefill := now }
  else b

structure PerIpRateLimiter where
  cfg : RateLimitConfig := {}
  buckets : UnorderedMap Str TokenBucket := ∅

namespace PerIpRateLimiter

/-- The bucket `_get_or_create` makes for a new IP. -/
def newBucket (cfg : RateLimitConfig) (now : Int) : TokenBucket where
  tokens := cfg.burstSize.toNat
  capacity := cfg.burstSize.toNat
  refillPerNs := if cfg.requestsPerSecond > 0 then cfg.requestsPerSecond.toNat / 10 ^ 9 else 0
  lastRefill := now

/-- `try_acquire`. -/
def tryAcquire (l : PerIpRateLimiter) (now : Int) (ip : Str) : Bool × PerIpRateLimiter :=
  if !l.cfg.enabled || ip.isEmpty then (true, l)
  else
    let b := ((l.buckets.lookup ip).getD (newBucket l.cfg now)).refill now
    if b.tokens ≥ 1 then
      (true, { l with buckets := l.buckets.insert ip { b with tokens := b.tokens - 1 } })
    else (false, { l with buckets := l.buckets.insert ip b })

end PerIpRateLimiter
end McpSdk
