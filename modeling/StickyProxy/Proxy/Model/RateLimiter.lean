import StickyProxy.Common.Table
import StickyProxy.Model.Assignment
import Mathlib.Algebra.Order.Field.Rat
/-!
# The rate limiter

Every user has a bucket of tokens that fills at a constant rate up to the
burst; a request takes a token, or is refused. A ticker drops the buckets
that have not been touched for five minutes. Tokens and times, in seconds,
are exact rationals.
-/

namespace StickyProxy

/-- Go's `userLimiter`. -/
structure UserLimiter where
  tokens : ℚ
  lastRefill : ℚ
  deriving DecidableEq, Repr

/-- Go's `RateLimiter`. -/
structure RateLimiter where
  rate : ℚ
  burst : ℤ
  limiters : Table RoutingKey UserLimiter

namespace RateLimiter

/-- `NewRateLimiter`. -/
def new (rate : ℚ) (burst : ℤ) : RateLimiter := ⟨rate, burst, ∅⟩

/-- `staleThreshold`, in seconds. -/
def staleThreshold : ℚ := 300

/-- The tokens of a bucket after it has been refilled. -/
def refill (rl : RateLimiter) (now : ℚ) (ul : UserLimiter) : ℚ :=
  let tokens := ul.tokens + (now - ul.lastRefill) * rl.rate
  if rl.burst < tokens then rl.burst else tokens

/-- `Allow`. -/
def allow (now : ℚ) (userID : RoutingKey) (rl : RateLimiter) : Bool × RateLimiter :=
  let ul := (rl.limiters.lookup userID).getD ⟨rl.burst, now⟩
  let tokens := rl.refill now ul
  if 1 ≤ tokens then
    (true, { rl with limiters := rl.limiters.insert userID ⟨tokens - 1, now⟩ })
  else (false, { rl with limiters := rl.limiters.insert userID ⟨tokens, now⟩ })

/-- A tick of `cleanup`. -/
def cleanup (now : ℚ) (rl : RateLimiter) : RateLimiter :=
  { rl with limiters := rl.limiters.mapPartial fun ul =>
      if staleThreshold < now - ul.lastRefill then none else some ul }

/-- A call of the limiter, with the time it reads. -/
inductive Call where
  | allow (now : ℚ) (userID : RoutingKey)
  | cleanup (now : ℚ)
  deriving DecidableEq, Repr

def Call.time : Call → ℚ
  | .allow now _ | .cleanup now => now

/-- The call is a sweep. -/
def Call.isCleanup : Call → Bool
  | .allow _ _ => false
  | .cleanup _ => true

/-- A call, and what it returns. -/
def step (rl : RateLimiter) : Call → Option Bool × RateLimiter
  | .allow now userID =>
    let (ok, rl) := rl.allow now userID
    (some ok, rl)
  | .cleanup now => (none, rl.cleanup now)

end RateLimiter

end StickyProxy
