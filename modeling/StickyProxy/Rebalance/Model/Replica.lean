import StickyProxy.Rebalance.Model.Rebalancer
/-!
# A rebalance under traffic

One replica in assignment mode that rebalances while it serves requests,
over a store that other replicas use as well. Every step of the rebalance
and of a request is taken alone, in any order; so are the calls of
`AssignLeastLoaded` that requests of other replicas make, the sweeps of the
cache, and the two halves of the debounced notifier, which collects the
backends it receives and invalidates them later. No call fails and no
message is lost. The hooks and the WebSocket bridges touch nothing that is
modelled here.
-/

namespace StickyProxy

namespace Rebalance

open Traffic

/-- What the rebalance does next. It holds the transition lock. -/
inductive RebalanceStep where
  | getAllAssignments
  | markTransition (assignments : Table RoutingKey Assignment) (moves : List Move)
  | bulkDeleteAssignments (assignments : Table RoutingKey Assignment) (moves : List Move)
  | bulkAssign (assignments : Table RoutingKey Assignment) (moves : List Move)
  /-- `cache.Invalidate` of the first key left. -/
  | invalidate (moves : List Move) (todo : List RoutingKey)
  /-- `publishNotification` of the first backend left. -/
  | publish (moves : List Move) (todo : List Backend)
  | clearTransition (moves : List Move)
  | finished (moves : List Move)

/-- The replica, and the messages on their way back to it. -/
structure Replica where
  store : Store
  frontend : Frontend
  rebalance : RebalanceStep
  messages : List Backend
  pending : Finset Backend
  requests : List RequestStep

/-- The rebalance has the lock, and requests for keys are about to be
served. -/
def Replica.start (store : Store) (frontend : Frontend) (requests : List RoutingKey) : Replica :=
  ⟨store, frontend, .getAllAssignments, [], ∅, requests.map .start⟩

inductive Action where
  /-- The rebalance takes its next step. -/
  | rebalance (now : Time)
  /-- A request takes its next step. -/
  | request (i : ℕ) (c : Choice)
  /-- A request of another replica calls `AssignLeastLoaded`. -/
  | remote (c : Choice) (k : RoutingKey)
  /-- A tick of `cleanupLoop`. -/
  | cleanup (now : Time)
  /-- The notifier receives a backend and makes it pending. -/
  | receive
  /-- `InvalidateBackend` of a pending backend. -/
  | flush (b : Backend)

/-- The next step of the rebalance. -/
def rebalanceStep (rb : Rebalancer) (computeMoves : ComputeMoves) (activeBackends : List Backend)
    (now : Time) (s : Replica) : Option Replica :=
  match s.rebalance with
  | .getAllAssignments =>
    let assignments := s.store.getAllAssignments
    let moves := computeMoves assignments (sortStrings activeBackends)
    some { s with rebalance :=
      if moves = [] then .finished moves else .markTransition assignments moves }
  | .markTransition assignments moves => some { s with
      frontend := mark rb moves s.frontend
      rebalance := .bulkDeleteAssignments assignments moves }
  | .bulkDeleteAssignments assignments moves => some { s with
      store := s.store.bulkDeleteAssignments (routingKeys moves)
      rebalance := .bulkAssign assignments moves }
  | .bulkAssign assignments moves => some { s with
      store := (s.store.bulkAssign now
        (newAssignments assignments (sortStrings activeBackends) moves)).2
      rebalance := .invalidate moves (routingKeys moves) }
  | .invalidate moves [] => some { s with rebalance := .publish moves (notified rb moves) }
  | .invalidate moves (k :: todo) => some { s with
      frontend := invalidate [k] s.frontend
      rebalance := .invalidate moves todo }
  | .publish moves [] => some { s with rebalance := .clearTransition moves }
  | .publish moves (b :: todo) => some { s with
      messages := s.messages ++ [b]
      rebalance := .publish moves todo }
  | .clearTransition moves => some { s with
      frontend := clear rb moves s.frontend
      rebalance := .finished moves }
  | .finished _ => none

/-- One step of the replica. -/
def step (rb : Rebalancer) (computeMoves : ComputeMoves) (activeBackends : List Backend)
    (s : Replica) : Action → Option Replica
  | .rebalance now => rebalanceStep rb computeMoves activeBackends now s
  | .request i c =>
    (s.requests[i]?).bind fun q => (requestStep c s.store s.frontend q).map fun t =>
      { s with store := t.2.1, frontend := t.2.2, requests := s.requests.set i t.1 }
  | .remote c k =>
    if Enumerates c.order s.store.candidates then
      match s.store.assignLeastLoaded c.order c.now k with
      | (some _, store) => some { s with store := store }
      -- The call would have failed.
      | (none, _) => none
    else none
  | .cleanup now => some { s with
      frontend := { s.frontend with cache := s.frontend.cache.cleanup now } }
  | .receive =>
    match s.messages with
    | [] => none
    | b :: rest => some { s with messages := rest, pending := insert b s.pending }
  | .flush b =>
    if b ∈ s.pending then some { s with
      frontend := { s.frontend with cache := s.frontend.cache.invalidateBackend b }
      pending := s.pending.erase b }
    else none

/-- The rebalance has returned. -/
def RebalanceStep.Finished : RebalanceStep → Prop
  | .finished _ => True
  | _ => False

/-- The moves, once they are computed. -/
def RebalanceStep.moves : RebalanceStep → List Move
  | .getAllAssignments => []
  | .markTransition _ moves | .bulkDeleteAssignments _ moves | .bulkAssign _ moves
  | .invalidate moves _ | .publish moves _ | .clearTransition moves | .finished moves => moves

/-- The rebalance, the pending invalidations and the requests are over. -/
structure Replica.Finished (s : Replica) : Prop where
  rebalance : s.rebalance.Finished
  messages : s.messages = []
  pending : s.pending = ∅
  requests : ∀ q ∈ s.requests, q.Finished

end Rebalance

end StickyProxy
