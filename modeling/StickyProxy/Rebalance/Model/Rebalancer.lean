import StickyProxy.Store.Model.Interface
import StickyProxy.Proxy.Model.Traffic
import StickyProxy.Model.Hashing
import StickyProxy.Common.Group
import StickyProxy.Rebalance.Model.LeastLoaded
/-!
# The rebalancer

`Rebalancer.rebalance` run alone: the moves a strategy has computed are
grouped by the backend they come from for the unassign hooks, deleted from
the table, entered again on their new backends with the weights they had,
dropped from the cache, published, grouped by the backend they went to for
the assign hooks, and followed by their WebSocket connections. The keys
are held from the moves on to the end. Every call that may fail has its
verdict; one that fails takes no effect.
-/

namespace StickyProxy

/-- `RebalanceStrategy.ComputeMoves`. The order a strategy ranges over the
table in is its own. -/
abbrev ComputeMoves := Table RoutingKey Assignment → List Backend → List Move

/-- The parts a `Rebalancer` may be built without, and the WebSocket
option. -/
structure Rebalancer where
  hooks : Bool
  connTracker : Bool
  notifier : Bool
  holdMgr : Bool
  wsSwapOnRebalance : Bool
  deriving DecidableEq, Repr

namespace Rebalance

open Traffic

/-- A call of the connection tracker. -/
inductive ConnCall where
  | swapConns (k : RoutingKey) (b : Backend)
  | closeConns (k : RoutingKey)
  deriving DecidableEq, Repr

/-- What a rebalance reads and writes: the store, the cache and the holds
of its replica, and the calls made so far to the hooks, the notifier and
the connection tracker. -/
structure State where
  store : Store
  frontend : Frontend
  sendUnassign : List (Backend × List RoutingKey)
  sendAssign : List (Backend × List RoutingKey)
  published : List Backend
  connCalls : List ConnCall

/-- Whether each call that may fail succeeds. -/
structure Calls where
  lock : Bool
  getAllAssignments : Bool
  bulkDeleteAssignments : Bool
  bulkAssign : Bool
  deriving DecidableEq, Repr

/-- All of them do. -/
def Calls.succeed : Calls := ⟨true, true, true, true⟩

/-! ## The moves, regrouped -/

/-- The routing keys of the moves. -/
def routingKeys (moves : List Move) : List RoutingKey := moves.map (·.routingKey)

/-- Part 1: the keys by `FromBackend`. -/
def byFrom (moves : List Move) : Table Backend (List RoutingKey) :=
  Table.groupBy (moves.map fun m => (m.fromBackend, m.routingKey))

/-- The weight of an account as it was read; zero for one that is not in
the table. -/
def weightOf (assignments : Table RoutingKey Assignment) (k : RoutingKey) : ℤ :=
  ((assignments.lookup k).map (·.weight)).getD 0

/-- Part 3: the entries of the moves that name a backend. -/
def routed (assignments : Table RoutingKey Assignment) (moves : List Move) :
    List (RoutingKey × BulkAssignEntry) :=
  (moves.filter fun m => m.toBackend ≠ "").map fun m =>
    (m.routingKey, ⟨m.toBackend, weightOf assignments m.routingKey⟩)

/-- The keys of those that do not. -/
def unrouted (moves : List Move) : List RoutingKey :=
  (moves.filter fun m => m.toBackend = "").map (·.routingKey)

/-- `newAssignments`: the keys without a backend go round the active ones. -/
def newAssignments (assignments : Table RoutingKey Assignment) (activeBackends : List Backend)
    (moves : List Move) : Table RoutingKey BulkAssignEntry :=
  Table.insertAll (Table.insertAll ∅ (routed assignments moves))
    (roundRobin activeBackends ((unrouted moves).map fun k => (k, weightOf assignments k)))

/-- The backends published if there is a notifier, each once. -/
def notified (rb : Rebalancer) (moves : List Move) : List Backend :=
  if rb.notifier then moves.foldl (fun notified m =>
    if m.fromBackend ∈ notified then notified else notified ++ [m.fromBackend]) []
  else []

/-- Part 6: the keys assigned, by backend. -/
def byAssigned (assigned : Table RoutingKey Backend) : Table Backend (List RoutingKey) :=
  Table.groupBy (assigned.pairs.map fun p => (p.2, p.1))

/-- Part 7: the connections of a moved account are swapped to its new
backend or closed. -/
def connCall (rb : Rebalancer) (assigned : Table RoutingKey Backend) (m : Move) : ConnCall :=
  match assigned.lookup m.routingKey with
  | some b => if rb.wsSwapOnRebalance then .swapConns m.routingKey b else .closeConns m.routingKey
  | none => .closeConns m.routingKey

/-! ## The phases -/

/-- `MarkTransition`, if there is a `HoldManager`. -/
def mark (rb : Rebalancer) (moves : List Move) (f : Frontend) : Frontend :=
  if rb.holdMgr then { f with holds := markTransition (routingKeys moves) f.holds } else f

/-- `ClearTransition`, if there is a `HoldManager`. -/
def clear (rb : Rebalancer) (moves : List Move) (f : Frontend) : Frontend :=
  if rb.holdMgr then { f with holds := clearTransition (routingKeys moves) f.holds } else f

/-- Part 5: `cache.Invalidate` of every key moved. -/
def invalidate (keys : List RoutingKey) (f : Frontend) : Frontend :=
  { f with cache := keys.foldl (fun c k => c.invalidate k) f.cache }

/-- The hold, and part 1: the unassign hooks. -/
def State.unassign (rb : Rebalancer) (moves : List Move) (s : State) : State :=
  { s with
    frontend := mark rb moves s.frontend
    sendUnassign := s.sendUnassign ++ if rb.hooks then (byFrom moves).pairs else [] }

/-- Part 2: the old assignments are deleted. -/
def deleteMoved (calls : Calls) (moves : List Move) (store : Store) : Store :=
  if calls.bulkDeleteAssignments then store.bulkDeleteAssignments (routingKeys moves) else store

/-- Parts 2 to 4: the new ones are created, beside the keys they were
created for. -/
def reassign (calls : Calls) (now : Time) (activeBackends : List Backend)
    (assignments : Table RoutingKey Assignment) (moves : List Move) (store : Store) :
    Table RoutingKey Backend × Store :=
  if calls.bulkAssign then
    (deleteMoved calls moves store).bulkAssign now (newAssignments assignments activeBackends moves)
  else (∅, deleteMoved calls moves store)

/-- Parts 5 to 7, and the end of the hold. -/
def State.announce (rb : Rebalancer) (moves : List Move) (assigned : Table RoutingKey Backend)
    (s : State) : State :=
  { s with
    frontend := clear rb moves (invalidate (routingKeys moves) s.frontend)
    published := s.published ++ notified rb moves
    sendAssign := s.sendAssign ++
      if rb.hooks ∧ assigned.pairs ≠ [] then (byAssigned assigned).pairs else []
    connCalls := s.connCalls ++ if rb.connTracker then moves.map (connCall rb assigned) else [] }

/-- What is done about the moves. -/
def perform (rb : Rebalancer) (calls : Calls) (now : Time) (activeBackends : List Backend)
    (assignments : Table RoutingKey Assignment) (moves : List Move) (s : State) : State :=
  let s := s.unassign rb moves
  let (assigned, store) := reassign calls now activeBackends assignments moves s.store
  { s with store := store }.announce rb moves assigned

/-- `rebalance`. -/
def rebalance (rb : Rebalancer) (computeMoves : ComputeMoves) (calls : Calls) (now : Time)
    (activeBackends : List Backend) (s : State) : State :=
  if ¬ calls.lock then s
  else if ¬ calls.getAllAssignments then s
  else
    let activeBackends := sortStrings activeBackends
    let assignments := s.store.getAllAssignments
    let moves := computeMoves assignments activeBackends
    if moves = [] then s else perform rb calls now activeBackends assignments moves s

end Rebalance

end StickyProxy
