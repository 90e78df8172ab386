import StickyProxy.Health.Model.Checker
import StickyProxy.Rebalance.Model.Replica
/-!
# The checker and the rebalancer

At the end of a round `checkAll` compares the healthy backends with those
of the round before, calls `Trigger` if they differ and there are any, and
records them. `Trigger` starts a rebalance in a goroutine of its own,
unless one is running: the compare-and-swap of `rebalancing` then fails,
and nothing is kept of the call. There is one replica, and nobody else
takes the transition lock.
-/

namespace StickyProxy

namespace Health

open Rebalance Traffic

/-- The checker, the rebalancer and what both write to. -/
structure Scaling where
  health : System
  frontend : Frontend
  messages : List Backend := []
  /-- The rebalance that is running: what it was triggered with, and how far
  it is. -/
  running : Option (List Backend × RebalanceStep) := none
  /-- What the last rebalance that is over was triggered with. -/
  executed : Option (List Backend) := none
  /-- `Trigger` has returned; the round is about to record the list. -/
  triggered : Bool := false
  /-- A round has recorded a list that is not empty. -/
  seen : Bool := false

inductive ScalingAction where
  /-- A step of a round, and what others do to the active set. -/
  | health (a : Action)
  /-- `Trigger`. -/
  | trigger
  /-- The rebalance takes its next step. -/
  | rebalance (now : Time)
  /-- `rebalancing.Store(false)`. -/
  | finish

variable (rb : Rebalancer) (computeMoves : ComputeMoves)

def scalingStep (s : Scaling) : ScalingAction → Option Scaling
  | .health .trigger =>
    -- A trigger that is due has been called before.
    if s.triggered ∨ s.health.triggers = none then
      (step s.health .trigger).map fun health => { s with
        health
        triggered := false
        seen := s.seen || !health.checker.previousBackends.isEmpty }
    else none
  | .health a => (step s.health a).map fun health => { s with health }
  | .trigger =>
    match s.triggered, s.health.triggers, s.running with
    | false, some currentHealthy, none => some { s with
        triggered := true
        running := some (currentHealthy, .getAllAssignments) }
    -- It is already rebalancing.
    | false, some _, some _ => some { s with triggered := true }
    | _, _, _ => none
  | .rebalance now =>
    match s.running with
    | some (activeBackends, r) =>
      (rebalanceStep rb computeMoves activeBackends now
        ⟨s.health.store, s.frontend, r, s.messages, ∅, []⟩).map fun t => { s with
          health := { s.health with store := t.store }
          frontend := t.frontend
          messages := t.messages
          running := some (activeBackends, t.rebalance) }
    | none => none
  | .finish =>
    match s.running with
    | some (activeBackends, .finished _) => some { s with
        running := none
        executed := some activeBackends }
    | _ => none

/-- Nothing has run yet. -/
structure Scaling.Fresh (s : Scaling) : Prop where
  health : s.health.Fresh
  running : s.running = none
  triggered : s.triggered = false
  seen : s.seen = false

end Health

end StickyProxy
