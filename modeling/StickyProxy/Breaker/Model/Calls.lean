import StickyProxy.Proxy.Model.Breaker
/-!
# Calls behind the breaker

`assignViaTable` as far as the Redis breaker goes: a call asks `isCBOpen`,
is answered over the cached list if the breaker is open and the list has
an answer, and otherwise calls the store and records how that went. Each
use of the breaker is made under its mutex. Between the answer of
`isCBOpen` and the record any number of other calls may come and go, and
what a call records says nothing about when it was admitted.

The clock does not go back. Which call turned the breaker half open, and
when the breaker last came to be open, is kept beside it; no step reads
either.
-/

namespace StickyProxy

namespace Breaker

/-- `NewRedis`. -/
def new (cbThreshold : ℤ) (cbCooldown : Time) : Breaker :=
  ⟨0, .closed, 0, cbThreshold, cbCooldown, []⟩

/-- A use of the breaker. -/
inductive Op where
  | isCBOpen (now : Time)
  | recordCBFailure (now : Time)
  | recordCBSuccess
  deriving DecidableEq, Repr

/-- The breaker after it. -/
def Op.apply (br : Breaker) : Op → Breaker
  | .isCBOpen now => (br.isCBOpen now).2
  | .recordCBFailure now => br.recordCBFailure now
  | .recordCBSuccess => br.recordCBSuccess

/-- The failures recorded since the last success, `n` of them before the
first use. -/
def failuresSince (n : ℕ) : List Op → ℕ
  | [] => n
  | .isCBOpen _ :: ops => failuresSince n ops
  | .recordCBFailure _ :: ops => failuresSince (n + 1) ops
  | .recordCBSuccess :: ops => failuresSince 0 ops

/-! ## Concurrent calls -/

/-- What a call for a key does next. -/
inductive CallStep where
  /-- `isCBOpen`. -/
  | check (k : RoutingKey)
  /-- `AssignLeastLoaded`, then `recordCBSuccess` or `recordCBFailure`. -/
  | calling (k : RoutingKey)
  | returned
  deriving DecidableEq, Repr

/-- The breaker, the clock, and the calls. -/
structure Calls where
  breaker : Breaker
  now : Time
  calls : List CallStep
  /-- The call that turned the breaker half open, until its outcome is
  recorded. -/
  probe : Option ℕ
  /-- When the breaker last came to be open. -/
  openedAt : Time

inductive Action where
  /-- A call asks `isCBOpen`. -/
  | check (i : ℕ) (now : Time)
  /-- A call records whether the store has served it. -/
  | record (i : ℕ) (ok : Bool) (now : Time)
  /-- `RefreshBackendList`. -/
  | refresh (backends : List Backend)
  deriving DecidableEq, Repr

/-- What the outcome of a call is recorded as. -/
def recorded (ok : Bool) (now : Time) : Op :=
  if ok then .recordCBSuccess else .recordCBFailure now

namespace Calls

/-- Call `i` asks; the answer of `isCBOpen` is what the breaker is before
it says. -/
def check (i : ℕ) (k : RoutingKey) (now : Time) (s : Calls) : Calls :=
  let isOpen := (s.breaker.isCBOpen now).1
  let breaker := (s.breaker.isCBOpen now).2
  { s with
    breaker := breaker
    now := now
    calls := s.calls.set i
      -- With nothing cached the store is called all the same.
      (if isOpen ∧ breaker.hashFallback (hashUser k) ≠ "" then .returned else .calling k)
    probe := if s.breaker.cbState = .opened ∧ ¬ isOpen then some i else s.probe }

/-- Call `i` records its outcome. -/
def record (i : ℕ) (ok : Bool) (now : Time) (s : Calls) : Calls :=
  let breaker := (recorded ok now).apply s.breaker
  { breaker := breaker
    now := now
    calls := s.calls.set i .returned
    probe := if s.probe = some i then none else s.probe
    openedAt := if s.breaker.cbState ≠ .opened ∧ breaker.cbState = .opened then now
      else s.openedAt }

def step (s : Calls) : Action → Option Calls
  | .check i now =>
    match s.calls[i]? with
    | some (.check k) => if s.now ≤ now then some (s.check i k now) else none
    | _ => none
  | .record i ok now =>
    match s.calls[i]? with
    | some (.calling _) => if s.now ≤ now then some (s.record i ok now) else none
    | _ => none
  | .refresh backends => some { s with breaker := { s.breaker with cachedBackends := backends } }

/-- Calls about to be made, behind a new breaker. -/
def start (cbThreshold : ℤ) (cbCooldown now : Time) (keys : List RoutingKey) : Calls :=
  ⟨.new cbThreshold cbCooldown, now, keys.map .check, none, now⟩

end Calls

end Breaker

end StickyProxy
