import StickyProxy.Model.Hashing
/-!
# The Redis circuit breaker

The breaker in front of the Redis store. While it is open, requests are
routed over a list of backends cached earlier, without Redis; once the
cooldown is over one look at it turns it half open, and from there a
success closes it.
-/

namespace StickyProxy

/-- Go's `cbState`. -/
inductive CbState where
  | closed
  | opened
  | halfOpen
  deriving DecidableEq, Repr

/-- The circuit breaker fields of `Redis`. -/
structure Breaker where
  cbFailures : ℤ
  cbState : CbState
  cbOpenedAt : Time
  cbThreshold : ℤ
  cbCooldown : Time
  cachedBackends : List Backend

namespace Breaker

/-- `isCBOpen`. -/
def isCBOpen (now : Time) (br : Breaker) : Bool × Breaker :=
  match br.cbState with
  | .opened =>
    if br.cbCooldown ≤ now - br.cbOpenedAt then (false, { br with cbState := .halfOpen })
    else (true, br)
  | .halfOpen => (false, br)
  | .closed => (false, br)

/-- `recordCBFailure`. -/
def recordCBFailure (now : Time) (br : Breaker) : Breaker :=
  if br.cbThreshold ≤ br.cbFailures + 1 then
    { br with cbFailures := br.cbFailures + 1, cbState := .opened, cbOpenedAt := now }
  else { br with cbFailures := br.cbFailures + 1 }

/-- `recordCBSuccess`. -/
def recordCBSuccess (br : Breaker) : Breaker := { br with cbFailures := 0, cbState := .closed }

/-- `hashFallback`: the empty string when nothing is cached. -/
def hashFallback (hash : BitVec 32) (br : Breaker) : Backend :=
  (pick (checksumIEEE (hashBytes hash)) br.cachedBackends).getD ""

end Breaker

end StickyProxy
