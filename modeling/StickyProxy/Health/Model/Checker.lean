import StickyProxy.Model.Hashing
import StickyProxy.Common.Table
import StickyProxy.Store.Model.Interface
/-!
# The health checker

`checkAll` reads the active set, merges it into a private table of states,
prunes that table, probes every backend that was in it, and hands the
backends it holds healthy to the rebalancer when they have changed. The
probes of a round run at once, and `recordResult` calls the store only
after it has let go of the lock, so a round is a sequence of steps here:
the read, the merge, each probe, each call, and the collection at the end.
Between any two of them a drain or a discovery may write to the store.
-/

namespace StickyProxy

/-- Go's `backendHealth`. -/
structure BackendHealth where
  consecutiveFails : ℤ := 0
  consecutiveSuccesses : ℤ := 0
  healthy : Bool
  deriving DecidableEq, Repr

/-- Go's `HealthChecker`, without its clock and its client. A flag stands
for itself and for its manager being there: `drainOnUnhealthy` for a drain
manager, `rebalanceOnScale` for a rebalancer. -/
structure HealthChecker where
  unhealthyThreshold : ℤ := 3
  healthyThreshold : ℤ := 1
  drainOnUnhealthy : Bool := false
  rebalanceOnScale : Bool := false
  states : Table Backend BackendHealth := ∅
  previousBackends : List Backend := []

namespace Health

/-- A call a probe makes once it has let go of the lock. -/
inductive Call where
  | addBackend (b : Backend)
  | removeBackend (b : Backend)
  | startDrain (b : Backend)
  deriving DecidableEq, Repr

end Health

namespace HealthChecker

open Health

/-- A backend the checker meets for the first time. -/
def fresh : BackendHealth := { healthy := true }

/-- The merge of `checkAll`: every active backend has a state. -/
def merge (backends : List Backend) (hc : HealthChecker) : HealthChecker :=
  { hc with
    states := backends.foldl
      (fun t b => if (t.lookup b).isSome then t else t.insert b fresh) hc.states }

/-- The prune of `checkAll`: a backend that is neither active nor healthy
is forgotten. -/
def prune (backends : List Backend) (hc : HealthChecker) : HealthChecker :=
  { hc with
    states := Table.eraseAll hc.states (((Table.pairs hc.states).filter fun p =>
      p.1 ∉ backends ∧ p.2.healthy = false).map Prod.fst) }

/-- What `recordResult` starts from: a backend without a state is taken to
be healthy. -/
def state (hc : HealthChecker) (b : Backend) : BackendHealth := (hc.states.lookup b).getD fresh

/-- `recordResult` under the lock, and the call it then makes. -/
def recordResult (b : Backend) (success : Bool) (hc : HealthChecker) :
    Option Call × HealthChecker :=
  let st := hc.state b
  let put (st : BackendHealth) : HealthChecker := { hc with states := hc.states.insert b st }
  if success then
    let successes := st.consecutiveSuccesses + 1
    if st.healthy = false ∧ hc.healthyThreshold ≤ successes then
      (some (.addBackend b), put ⟨0, successes, true⟩)
    else (none, put ⟨0, successes, st.healthy⟩)
  else
    let fails := st.consecutiveFails + 1
    if st.healthy ∧ hc.unhealthyThreshold ≤ fails then
      (some (if hc.drainOnUnhealthy then .startDrain b else .removeBackend b),
        put ⟨fails, 0, false⟩)
    else (none, put ⟨fails, 0, st.healthy⟩)

/-- `getHealthyBackends`. -/
def getHealthyBackends (hc : HealthChecker) : List Backend :=
  sortStrings (((Table.pairs hc.states).filter fun p => p.2.healthy).map Prod.fst)

end HealthChecker

namespace Health

/-- How far a round is. -/
inductive Phase where
  /-- No round is running. -/
  | idle
  /-- `ActiveBackends` has answered. -/
  | fetched (backends : List Backend)
  /-- The backends left to probe, and the calls the probes have left to
  make. -/
  | probing (todo : List Backend) (calls : List Call)
  /-- `getHealthyBackends` has answered. -/
  | collected (currentHealthy : List Backend)
  deriving DecidableEq, Repr

/-- The checker and the store. -/
structure System where
  store : Store
  checker : HealthChecker
  phase : Phase := .idle

/-- The steps of a round, and what others do to the store. A list is the
order in which the store or a map gives its keys out. -/
inductive Action where
  | activeBackends (order : List Backend)
  | merge (order : List Backend)
  /-- A probe ends in `recordResult`. -/
  | probe (b : Backend) (success : Bool)
  /-- The call at an index is made. -/
  | call (i : ℕ)
  /-- The call at an index fails. -/
  | fail (i : ℕ)
  /-- The context ends, so that no further probe is started. -/
  | cancel
  | getHealthyBackends
  /-- `Trigger`, if it is due, and the end of the round. -/
  | trigger
  /-- Discovery adds a backend. -/
  | addBackend (b : Backend)
  /-- Discovery or a drain that is over removes a backend. -/
  | removeBackend (b : Backend)
  deriving DecidableEq

/-- What a call does to the store. A drain that is started removes its
backend later, by a step of its own. -/
def Call.run (s : Store) : Call → Store
  | .addBackend b => s.addBackend b
  | .removeBackend b => s.removeBackend b
  | .startDrain _ => s

/-- One step of the checker or of its surroundings. -/
def step (s : System) : Action → Option System
  | .activeBackends order =>
    match s.phase with
    | .idle =>
      if Enumerates order s.store.active then some { s with phase := .fetched order } else none
    | _ => none
  | .merge order =>
    match s.phase with
    | .fetched backends =>
      let merged := s.checker.merge backends
      -- The backends to probe are listed before the prune.
      if Enumerates order merged.states.keys.toFinset then
        some { s with checker := merged.prune backends, phase := .probing order [] }
      else none
    | _ => none
  | .probe b success =>
    match s.phase with
    | .probing todo calls =>
      if b ∈ todo then
        let (call, checker) := s.checker.recordResult b success
        some { s with checker := checker, phase := .probing (todo.erase b) (calls ++ call.toList) }
      else none
    | _ => none
  | .call i =>
    match s.phase with
    | .probing todo calls => (calls[i]?).map fun c =>
      { s with store := c.run s.store, phase := .probing todo (calls.eraseIdx i) }
    | _ => none
  | .fail i =>
    match s.phase with
    | .probing todo calls => (calls[i]?).map fun _ =>
      { s with phase := .probing todo (calls.eraseIdx i) }
    | _ => none
  | .cancel =>
    match s.phase with
    | .probing _ calls => some { s with phase := .probing [] calls }
    | _ => none
  | .getHealthyBackends =>
    match s.phase with
    | .probing [] [] =>
      some { s with
        phase := if s.checker.rebalanceOnScale then .collected s.checker.getHealthyBackends
          else .idle }
    | _ => none
  | .trigger =>
    match s.phase with
    | .collected currentHealthy =>
      some { s with
        checker := { s.checker with previousBackends := currentHealthy }, phase := .idle }
    | _ => none
  | .addBackend b => some { s with store := s.store.addBackend b }
  | .removeBackend b => some { s with store := s.store.removeBackend b }

/-- The list `checkAll` is about to pass to `Trigger`. -/
def System.triggers (s : System) : Option (List Backend) :=
  match s.phase with
  | .collected currentHealthy =>
    if s.checker.previousBackends ≠ currentHealthy ∧ 0 < currentHealthy.length then
      some currentHealthy
    else none
  | _ => none

/-- The checker `NewHealthChecker` makes, before its first round. -/
structure System.Fresh (s : System) : Prop where
  phase : s.phase = .idle
  states : s.checker.states = ∅
  previousBackends : s.checker.previousBackends = []

end Health

end StickyProxy
