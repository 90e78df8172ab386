import StickyProxy.Store.Model.Interface
import StickyProxy.Proxy.Model.UserCache
/-!
# A drain under traffic

One replica in assignment mode that drains a backend while it serves
requests: the store, the user cache, the tracked WebSocket bridges, how
far the drain is, and how far each of the requests. Every step of the
drain and of a request is taken alone, in any order. No call of the store
fails, so the Redis breaker stays closed; how long a request is held
before it starts is open; and whether a cached backend is available, a
forced reassignment quarantines the account, or a dial succeeds is left to
the step. Between the steps entries may expire, a bridge may end, and the
invalidation the drain has published may come back to the replica.
-/

namespace StickyProxy

namespace Drain

/-- What the drain does next. -/
inductive DrainStep where
  /-- `StartDrain` has not been called. -/
  | start
  /-- The backend is marked as draining; `tLock.Lock`. -/
  | lock
  | getBackendUsers
  | sendUnassign (users : List RoutingKey)
  | bulkDeleteAssignments (users : List RoutingKey)
  /-- `cache.Invalidate` of the first user left. -/
  | invalidate (todo : List RoutingKey)
  /-- `connTracker.CloseConns` of a user, before the others. -/
  | closeConns (u : RoutingKey) (todo : List RoutingKey)
  | publish
  | removeBackend
  /-- `drain` has returned; the mark is taken off. -/
  | unmark
  | finished
  deriving DecidableEq, Repr

/-- What a request for a key does next; `ws` says it is a WebSocket
upgrade. -/
inductive RequestStep where
  /-- `cache.Get`. -/
  | start (k : RoutingKey) (ws : Bool)
  /-- `Available` and `IsDraining` of the cached backend. -/
  | check (k : RoutingKey) (ws : Bool) (c : Backend)
  /-- `RecordReassignment`, then `cache.Invalidate`. -/
  | unfit (k : RoutingKey) (ws : Bool)
  /-- `AssignLeastLoaded`. -/
  | assign (k : RoutingKey) (ws : Bool)
  /-- `cache.Set`. -/
  | set (k : RoutingKey) (ws : Bool) (c : Backend)
  /-- `ProxyRequest`, or the dial of `proxyWebSocket`. -/
  | forward (k : RoutingKey) (ws : Bool) (c : Backend)
  /-- `connTracker.Add`. -/
  | add (k : RoutingKey) (c : Backend)
  | done
  deriving DecidableEq, Repr

/-- The replica. A tracked bridge is its key and the backend it is
connected to. -/
structure Replica where
  store : Store
  cache : UserCache
  bridges : List (RoutingKey × Backend)
  drain : DrainStep
  requests : List RequestStep

/-- The backend is marked as draining. -/
def DrainStep.marks : DrainStep → Bool
  | .start | .finished => false
  | _ => true

/-- What a step of a request leaves open: the time, the order the store
lists its candidates in, and a verdict. -/
structure Choice where
  now : Time
  order : List Backend
  ok : Bool
  deriving DecidableEq

/-- The steps of the replica. -/
inductive Action where
  /-- The drain takes its next step. -/
  | drain
  /-- The drain's context ends while it waits for the lock. -/
  | abandon
  /-- A request takes its next step. -/
  | request (i : ℕ) (c : Choice)
  /-- A tick of `cleanupLoop`. -/
  | cleanup (now : Time)
  /-- The published invalidation comes back to this replica. -/
  | notify
  /-- A bridge ends. -/
  | disconnect (bridge : RoutingKey × Backend)
  deriving DecidableEq

/-- The next step of the drain of `b`. -/
def drainStep (b : Backend) (s : Replica) : Option Replica :=
  match s.drain with
  | .start => some { s with drain := .lock }
  | .lock => some { s with drain := .getBackendUsers }
  | .getBackendUsers =>
    let users := s.store.getBackendUsers b
    some { s with drain := if users.isEmpty then .publish else .sendUnassign users }
  | .sendUnassign users => some { s with drain := .bulkDeleteAssignments users }
  | .bulkDeleteAssignments users =>
    some { s with store := s.store.bulkDeleteAssignments users, drain := .invalidate users }
  | .invalidate [] => some { s with drain := .publish }
  | .invalidate (u :: todo) =>
    some { s with cache := s.cache.invalidate u, drain := .closeConns u todo }
  | .closeConns u todo =>
    some { s with bridges := s.bridges.filter fun p => p.1 ≠ u, drain := .invalidate todo }
  | .publish => some { s with drain := .removeBackend }
  | .removeBackend => some { s with store := s.store.removeBackend b, drain := .unmark }
  | .unmark => some { s with drain := .finished }
  | .finished => none

/-- The next step of a request, beside what it leaves of the replica. -/
def requestStep (b : Backend) (c : Choice) (s : Replica) :
    RequestStep → Option (RequestStep × Replica)
  | .start k ws =>
    match s.cache.get c.now k with
    | (none, cache) => some (.assign k ws, { s with cache := cache })
    | (some cached, cache) => some (.check k ws cached, { s with cache := cache })
  | .check k ws cached =>
    -- A backend is not fit while it drains, whatever else is said of it.
    if c.ok ∧ ¬ (cached = b ∧ s.drain.marks) then some (.forward k ws cached, s)
    else some (.unfit k ws, s)
  | .unfit k ws =>
    if c.ok then some (.assign k ws, { s with cache := s.cache.invalidate k })
    else some (.done, s)
  | .assign k ws =>
    if Enumerates c.order s.store.candidates then
      match s.store.assignLeastLoaded c.order c.now k with
      | (some a, store) => some (.set k ws a.backend, { s with store := store })
      -- The call would have failed.
      | (none, _) => none
    else none
  | .set k ws backend =>
    some (.forward k ws backend, { s with cache := s.cache.set c.now k backend })
  | .forward k ws backend => some (if ws ∧ c.ok then .add k backend else .done, s)
  | .add k backend => some (.done, { s with bridges := (k, backend) :: s.bridges })
  | .done => none

/-- One step of the replica. -/
def step (b : Backend) (s : Replica) : Action → Option Replica
  | .drain => drainStep b s
  | .abandon => if s.drain = .lock then some { s with drain := .unmark } else none
  | .request i c =>
    (s.requests[i]?).bind fun q => (requestStep b c s q).map fun p =>
      { p.2 with requests := s.requests.set i p.1 }
  | .cleanup now => some { s with cache := s.cache.cleanup now }
  | .notify => some { s with cache := s.cache.invalidateBackend b }
  | .disconnect bridge => some { s with bridges := s.bridges.erase bridge }

/-- The drain and the requests are over. -/
def Replica.Finished (s : Replica) : Prop :=
  s.drain = .finished ∧ ∀ q ∈ s.requests, q = .done

/-- Nothing on the replica or in the store points to the backend. -/
structure Replica.Clean (b : Backend) (s : Replica) : Prop where
  store : ∀ k a, s.store.getAssignment k = some a → a.backend ≠ b
  cache : ∀ k entry, s.cache.data.lookup k = some entry → entry.backend ≠ b
  bridges : ∀ k, (k, b) ∉ s.bridges

end Drain

end StickyProxy
