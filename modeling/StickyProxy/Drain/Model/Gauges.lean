import StickyProxy.Common.Run
import StickyProxy.Model.Assignment
import Mathlib.Data.Finset.Insert
/-!
# The gauge of the draining backends

`StartDrain` enters the backend in its map under the lock, and counts the
drain, starts the goroutine and raises the gauge after it has let go of it.
The goroutine takes the backend out of the map once it has drained it, and
lowers the gauge after that. A drain may be over before the call that
started it has raised the gauge. Any number of calls and goroutines take
their steps in any order; what a drain does to the store is of no concern
here.
-/

namespace StickyProxy

namespace DrainGauge

/-- A call of `StartDrain`, and what it does next. -/
inductive Call where
  /-- It takes the lock. -/
  | enter (b : Backend)
  /-- `IncDrains`. -/
  | incDrains (b : Backend)
  /-- It starts the goroutine. -/
  | spawn (b : Backend)
  /-- `IncDrainingBackends`. -/
  | incDrainingBackends
  | done
  deriving DecidableEq, Repr

/-- A goroutine of `StartDrain`, and what it does next. -/
inductive Goroutine where
  /-- `d.drain` returns. -/
  | drain (b : Backend)
  /-- `delete(d.draining, backend)`. -/
  | delete (b : Backend)
  /-- `DecDrainingBackends`. -/
  | decDrainingBackends
  | done
  deriving DecidableEq, Repr

/-- The map of the manager and the metrics it moves, with the calls and
goroutines under way. -/
structure Gauges where
  draining : Finset Backend
  drainsTotal : ℕ
  drainingBackends : ℤ
  calls : List Call
  goroutines : List Goroutine
  deriving DecidableEq

inductive Action where
  /-- The call at an index takes a step. -/
  | call (i : ℕ)
  /-- The goroutine at an index takes a step. -/
  | goroutine (j : ℕ)
  deriving DecidableEq, Repr

/-- A step of `StartDrain`. -/
def startDrain (i : ℕ) (s : Gauges) : Call → Option Gauges
  | .enter b =>
    if b ∈ s.draining then some { s with calls := s.calls.set i .done }
    else some { s with draining := insert b s.draining, calls := s.calls.set i (.incDrains b) }
  | .incDrains b =>
    some { s with drainsTotal := s.drainsTotal + 1, calls := s.calls.set i (.spawn b) }
  | .spawn b =>
    some { s with
      goroutines := s.goroutines ++ [.drain b], calls := s.calls.set i .incDrainingBackends }
  | .incDrainingBackends =>
    some { s with drainingBackends := s.drainingBackends + 1, calls := s.calls.set i .done }
  | .done => none

/-- A step of the goroutine. -/
def finishDrain (j : ℕ) (s : Gauges) : Goroutine → Option Gauges
  | .drain b => some { s with goroutines := s.goroutines.set j (.delete b) }
  | .delete b =>
    some { s with
      draining := s.draining.erase b, goroutines := s.goroutines.set j .decDrainingBackends }
  | .decDrainingBackends =>
    some { s with
      drainingBackends := s.drainingBackends - 1, goroutines := s.goroutines.set j .done }
  | .done => none

def step (s : Gauges) : Action → Option Gauges
  | .call i => (s.calls[i]?).bind (startDrain i s)
  | .goroutine j => (s.goroutines[j]?).bind (finishDrain j s)

/-- No drain is under way; these calls are going to be made. -/
def Gauges.start (backends : List Backend) : Gauges := ⟨∅, 0, 0, backends.map .enter, []⟩

end DrainGauge

end StickyProxy
