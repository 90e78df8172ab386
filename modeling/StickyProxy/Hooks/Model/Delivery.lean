import StickyProxy.Proxy.Model.Traffic
import StickyProxy.Rebalance.Model.Rebalancer
/-!
# The hooks and what the backends make of them

Replicas in assignment mode with a `HookClient`, over one store. Requests,
drains and rebalances take their steps alone, in any order. A request
sends its assign hook from a goroutine of its own, so the hook is under
way until it is delivered, at any time; a drain and a rebalance send theirs
inline and wait. No call of the store fails and every hook is delivered
once. What a backend has received is a log, and the users it takes for its
own are what the log comes to.

Whether an operation gets the transition lock is left to the step: more
than one may hold it when a key has expired, and a drain may give up
waiting. The WebSocket connections touch nothing that is modelled here, and
the notifications only drop entries from the caches.
-/

namespace StickyProxy

namespace Hooks

open Traffic

/-! ## Messages -/

/-- The body of a hook: `/hooks/assign` or `/hooks/unassign`. -/
inductive Message where
  | assign (users : List RoutingKey)
  | unassign (users : List RoutingKey)
  deriving DecidableEq, Repr

/-- The users of a backend after one message more. -/
def Message.apply (owned : Finset RoutingKey) : Message → Finset RoutingKey
  | .assign users => owned ∪ users.toFinset
  | .unassign users => owned \ users.toFinset

/-- The messages a backend has received, in their order. -/
def received (b : Backend) (log : List (Backend × Message)) : List Message :=
  (log.filter fun m => m.1 = b).map Prod.snd

/-- The users a backend takes for its own. -/
def owned (b : Backend) (log : List (Backend × Message)) : Finset RoutingKey :=
  (received b log).foldl Message.apply ∅

/-! ## Drains and rebalances -/

/-- What a rebalance has read and computed. -/
structure Plan where
  activeBackends : List Backend
  assignments : Table RoutingKey Assignment
  moves : List Move

/-- What an operation does next. -/
inductive Operation where
  /-- `drain`: `tLock.Lock`. -/
  | drain (b : Backend)
  | getBackendUsers (b : Backend)
  | drainMark (b : Backend) (users : List RoutingKey)
  | drainUnassign (b : Backend) (users : List RoutingKey)
  | drainDelete (b : Backend) (users : List RoutingKey)
  /-- `cache.Invalidate` of the first user left. -/
  | drainInvalidate (b : Backend) (users todo : List RoutingKey)
  /-- `RemoveBackend`. -/
  | drainRemove (b : Backend) (users : List RoutingKey)
  | drainClear (users : List RoutingKey)
  /-- `rebalance`: `tLock.Lock`. -/
  | rebalance (activeBackends : List Backend)
  | getAllAssignments (activeBackends : List Backend)
  | rebalanceMark (p : Plan)
  /-- `SendUnassign` of the first group left; the others have been sent. -/
  | rebalanceUnassign (p : Plan) (told todo : List (Backend × List RoutingKey))
  | rebalanceDelete (p : Plan) (told : List (Backend × List RoutingKey))
  | bulkAssign (p : Plan)
  /-- `cache.Invalidate` of the first key left. -/
  | rebalanceInvalidate (p : Plan) (assigned : Table RoutingKey Backend) (todo : List RoutingKey)
  /-- `SendAssign` of the first group left. -/
  | rebalanceAssign (p : Plan) (todo : List (Backend × List RoutingKey))
  | rebalanceClear (p : Plan)
  | finished

/-- What a step of an operation leaves open: whether it gets the lock, the
time, the strategy, and the order Go ranges over the groups in. -/
structure Turn where
  ok : Bool
  now : Time
  computeMoves : ComputeMoves
  groups : List (Backend × List RoutingKey)

/-- `MarkTransition`, if there is a `HoldManager`. -/
def mark (holdMgr : Bool) (keys : List RoutingKey) (f : Frontend) : Frontend :=
  if holdMgr then { f with holds := markTransition keys f.holds } else f

/-- `ClearTransition`, if there is a `HoldManager`. -/
def clear (holdMgr : Bool) (keys : List RoutingKey) (f : Frontend) : Frontend :=
  if holdMgr then { f with holds := clearTransition keys f.holds } else f

/-- What an operation reads and writes. -/
structure Shared where
  store : Store
  frontend : Frontend
  log : List (Backend × Message)

/-- The next step of an operation, beside what it leaves of the rest. -/
def operationStep (holdMgr : Bool) (t : Turn) (s : Shared) : Operation → Option (Operation × Shared)
  -- A drain that gives up waiting for the lock returns.
  | .drain b => some (if t.ok then .getBackendUsers b else .finished, s)
  | .getBackendUsers b =>
    let users := s.store.getBackendUsers b
    some (if users = [] then .drainRemove b [] else .drainMark b users, s)
  | .drainMark b users =>
    some (.drainUnassign b users, { s with frontend := mark holdMgr users s.frontend })
  | .drainUnassign b users =>
    some (.drainDelete b users, { s with log := s.log ++ [(b, .unassign users)] })
  | .drainDelete b users =>
    some (.drainInvalidate b users users,
      { s with store := s.store.bulkDeleteAssignments users })
  | .drainInvalidate b users [] => some (.drainRemove b users, s)
  | .drainInvalidate b users (u :: todo) =>
    some (.drainInvalidate b users todo,
      { s with frontend := Rebalance.invalidate [u] s.frontend })
  | .drainRemove b users =>
    some (.drainClear users, { s with store := s.store.removeBackend b })
  | .drainClear users => some (.finished, { s with frontend := clear holdMgr users s.frontend })
  -- A rebalance that does not get the lock at once is skipped.
  | .rebalance activeBackends =>
    some (if t.ok then .getAllAssignments (sortStrings activeBackends) else .finished, s)
  | .getAllAssignments activeBackends =>
    let assignments := s.store.getAllAssignments
    let moves := t.computeMoves assignments activeBackends
    some (if moves = [] then .finished else .rebalanceMark ⟨activeBackends, assignments, moves⟩, s)
  | .rebalanceMark p =>
    if t.groups.Perm (Rebalance.byFrom p.moves).pairs then
      some (.rebalanceUnassign p [] t.groups,
        { s with frontend := mark holdMgr (Rebalance.routingKeys p.moves) s.frontend })
    else none
  | .rebalanceUnassign p told [] => some (.rebalanceDelete p told, s)
  | .rebalanceUnassign p told (g :: todo) =>
    some (.rebalanceUnassign p (told ++ [g]) todo,
      { s with log := s.log ++ [(g.1, .unassign g.2)] })
  | .rebalanceDelete p _ =>
    some (.bulkAssign p,
      { s with store := s.store.bulkDeleteAssignments (Rebalance.routingKeys p.moves) })
  | .bulkAssign p =>
    let (assigned, store) := s.store.bulkAssign t.now
      (Rebalance.newAssignments p.assignments p.activeBackends p.moves)
    some (.rebalanceInvalidate p assigned (Rebalance.routingKeys p.moves),
      { s with store := store })
  | .rebalanceInvalidate p assigned [] =>
    if t.groups.Perm (Rebalance.byAssigned assigned).pairs then
      some (.rebalanceAssign p t.groups, s)
    else none
  | .rebalanceInvalidate p assigned (k :: todo) =>
    some (.rebalanceInvalidate p assigned todo,
      { s with frontend := Rebalance.invalidate [k] s.frontend })
  | .rebalanceAssign p [] => some (.rebalanceClear p, s)
  | .rebalanceAssign p (g :: todo) =>
    some (.rebalanceAssign p todo, { s with log := s.log ++ [(g.1, .assign g.2)] })
  | .rebalanceClear p =>
    some (.finished,
      { s with frontend := clear holdMgr (Rebalance.routingKeys p.moves) s.frontend })
  | .finished => none

/-! ## The system -/

/-- The store, what the requests of each replica share, the requests and
the operations with the replica each runs on, the assign hooks under way,
and what has been received. -/
structure System where
  store : Store
  frontends : List Frontend
  requests : List (ℕ × RequestStep)
  operations : List (ℕ × Operation)
  hooks : List (Backend × RoutingKey)
  log : List (Backend × Message)

inductive Action where
  /-- A request takes its next step. -/
  | request (i : ℕ) (c : Choice)
  /-- An operation takes its next step. -/
  | operation (i : ℕ) (t : Turn)
  /-- The assign hook of a request is delivered. -/
  | deliver (n : ℕ)
  /-- A notification reaches a replica: `InvalidateBackend`. -/
  | notify (r : ℕ) (b : Backend)
  /-- A tick of `cleanupLoop` on a replica. -/
  | cleanup (r : ℕ) (now : Time)
  /-- A discovery adds a backend. -/
  | addBackend (b : Backend)
  /-- A discovery or the health checker removes one. -/
  | removeBackend (b : Backend)

/-- The hook a request is about to send: with the cache written, the
goroutine is started. -/
def asyncHook : RequestStep → List (Backend × RoutingKey)
  | .set k b => [(b, k)]
  | _ => []

/-- One step of the system. -/
def step (holdMgr : Bool) (s : System) : Action → Option System
  | .request i c =>
    (s.requests[i]?).bind fun p => (s.frontends[p.1]?).bind fun f =>
      (requestStep c s.store f p.2).map fun t =>
        { s with
          store := t.2.1
          frontends := s.frontends.set p.1 t.2.2
          requests := s.requests.set i (p.1, t.1)
          hooks := s.hooks ++ asyncHook p.2 }
  | .operation i t =>
    (s.operations[i]?).bind fun p => (s.frontends[p.1]?).bind fun f =>
      (operationStep holdMgr t ⟨s.store, f, s.log⟩ p.2).map fun r =>
        { s with
          store := r.2.store
          frontends := s.frontends.set p.1 r.2.frontend
          operations := s.operations.set i (p.1, r.1)
          log := r.2.log }
  | .deliver n =>
    (s.hooks[n]?).map fun h =>
      { s with hooks := s.hooks.eraseIdx n, log := s.log ++ [(h.1, .assign [h.2])] }
  | .notify r b => some { s with
      frontends := s.frontends.modify r fun f => { f with cache := f.cache.invalidateBackend b } }
  | .cleanup r now => some { s with
      frontends := s.frontends.modify r fun f => { f with cache := f.cache.cleanup now } }
  | .addBackend b => some { s with store := s.store.addBackend b }
  | .removeBackend b => some { s with store := s.store.removeBackend b }

/-- The store has the account on the backend. -/
def Stored (store : Store) (b : Backend) (u : RoutingKey) : Prop :=
  ∃ a ∈ store.getAssignment u, a.backend = b

instance (store : Store) (b : Backend) (u : RoutingKey) : Decidable (Stored store b u) :=
  inferInstanceAs (Decidable (∃ a ∈ store.getAssignment u, a.backend = b))

/-- Every backend takes for its own the users the store has on it. -/
def Tracked (s : System) : Prop := ∀ b u, u ∈ owned b s.log ↔ Stored s.store b u

/-- The operation has not begun. -/
def Operation.Starts : Operation → Prop
  | .drain _ | .rebalance _ => True
  | _ => False

/-- The requests and the operations are about to begin, no hook is under
way, and the backends are in the picture. -/
structure System.Fresh (s : System) : Prop where
  requests : ∀ p ∈ s.requests, ∃ k, p.2 = .start k
  operations : ∀ p ∈ s.operations, p.2.Starts
  hooks : s.hooks = []
  tracked : Tracked s

/-- Everything has finished and every hook is delivered. -/
structure System.Finished (s : System) : Prop where
  requests : ∀ p ∈ s.requests, p.2.Finished
  operations : ∀ p ∈ s.operations, p.2 = .finished
  hooks : s.hooks = []

end Hooks

end StickyProxy
