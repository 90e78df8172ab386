import StickyProxy.Common.Run
import StickyProxy.Proxy.Model.RateLimiter
/-!
# The rate limiter, step by step

`Allow` reads the clock first, then loads or stores the bucket of the user
and only then takes the lock of the bucket: calls may take it in another
order than they have read the clock in. The sweep looks at a bucket under its
lock, and deletes the entry of the user once it has let go of the lock.
Buckets are references, so a call may hold one that is not in the map any
more. They have addresses here. Times and tokens are exact rationals, where
the code has floats and rounds.
-/

namespace StickyProxy.Limiting

/-- What a call of `Allow` does next. -/
inductive Phase where
  /-- Read the clock. -/
  | start
  /-- `LoadOrStore`. -/
  | clocked (now : ℚ)
  /-- Lock the bucket at the address, refill it and take a token. -/
  | loaded (now : ℚ) (p : ℕ)
  | done (now : ℚ) (p : ℕ) (ok : Bool)
  deriving DecidableEq, Repr

structure Call where
  userID : RoutingKey
  phase : Phase
  deriving DecidableEq, Repr

/-- Where `cleanup` is. -/
inductive Sweep where
  | idle
  /-- It goes through the map. -/
  | ranging (now : ℚ)
  /-- It is going to delete the entry of a user, whose bucket was stale. -/
  | stale (now : ℚ) (userID : RoutingKey)
  deriving DecidableEq, Repr

/-- The map, the buckets with their users, the calls, the sweep, and the
users whose entries were deleted. -/
structure State where
  limiters : Table RoutingKey ℕ
  buckets : List (RoutingKey × UserLimiter)
  calls : List Call
  sweep : Sweep
  deleted : List RoutingKey

/-- What `Allow` does under the lock of a bucket. -/
def take (rl : RateLimiter) (now : ℚ) (ul : UserLimiter) : Bool × UserLimiter :=
  let tokens := rl.refill now ul
  if 1 ≤ tokens then (true, ⟨tokens - 1, now⟩) else (false, ⟨tokens, now⟩)

inductive Action where
  /-- A call reads the clock. -/
  | clock (i : ℕ) (now : ℚ)
  | load (i : ℕ)
  | take (i : ℕ)
  /-- The ticker fires. -/
  | tick (now : ℚ)
  /-- The sweep looks at the bucket of a user. -/
  | check (userID : RoutingKey)
  | delete
  /-- It has been through the map. -/
  | swept
  deriving DecidableEq, Repr

/-- A step, for a limiter with this rate and burst. -/
def step (rl : RateLimiter) (s : State) : Action → Option State
  | .clock i now => (s.calls[i]?).bind fun c =>
    match c.phase with
    | .start => some { s with calls := s.calls.set i { c with phase := .clocked now } }
    | _ => none
  | .load i => (s.calls[i]?).bind fun c =>
    match c.phase with
    | .clocked now =>
      match s.limiters.lookup c.userID with
      | some p => some { s with calls := s.calls.set i { c with phase := .loaded now p } }
      | none => some { s with
          limiters := s.limiters.insert c.userID s.buckets.length
          buckets := s.buckets ++ [(c.userID, ⟨rl.burst, now⟩)]
          calls := s.calls.set i { c with phase := .loaded now s.buckets.length } }
    | _ => none
  | .take i => (s.calls[i]?).bind fun c =>
    match c.phase with
    | .loaded now p => (s.buckets[p]?).map fun bucket =>
      let (ok, ul) := Limiting.take rl now bucket.2
      { s with
        buckets := s.buckets.set p (bucket.1, ul)
        calls := s.calls.set i { c with phase := .done now p ok } }
    | _ => none
  | .tick now => if s.sweep = .idle then some { s with sweep := .ranging now } else none
  | .check userID =>
    match s.sweep with
    | .ranging now =>
      ((s.limiters.lookup userID).bind (s.buckets[·]?)).map fun bucket =>
        if RateLimiter.staleThreshold < now - bucket.2.lastRefill then
          { s with sweep := .stale now userID }
        else s
    | _ => none
  | .delete =>
    match s.sweep with
    | .stale now userID => some { s with
        limiters := s.limiters.erase userID
        sweep := .ranging now
        deleted := s.deleted ++ [userID] }
    | _ => none
  | .swept =>
    match s.sweep with
    | .ranging _ => some { s with sweep := .idle }
    | _ => none

/-- No buckets yet, and calls that are going to be made. -/
def State.start (users : List RoutingKey) : State where
  limiters := ∅
  buckets := []
  calls := users.map fun u => ⟨u, .start⟩
  sweep := .idle
  deleted := []

end StickyProxy.Limiting
