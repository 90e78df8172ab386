import StickyProxy.Proxy.Model.Serve
/-!
# The drain manager

`StartDrain` puts an entry for the backend into the `draining` map and
starts a goroutine, unless there is an entry already. `CancelDrain` reads
the entry, lets go of the lock, and cancels the context of the goroutine
that made it. The goroutine deletes the entry when `drain` has returned,
however it has returned.

A goroutine takes its steps one by one, and a step says whether what it
does succeeds. `MemoryStore` looks at no context. A call of the others
fails when the context is done; one that was issued before may still take
effect, also after its goroutine has given up on it. What a drain does to
the cache and the bridges is not in here.
-/

namespace StickyProxy

/-- What a drain goroutine does next. -/
inductive DrainPhase where
  /-- The first `tLock.Lock`. -/
  | lock
  /-- The one of the loop. -/
  | retry
  /-- `ctx.Err()` in the loop. -/
  | checkCtx
  /-- `GetBackendUsers`, `GetUsersForBackend` or `UsersForBackend`. -/
  | getUsers
  | sendUnassign (users : List RoutingKey)
  | bulkDelete (users : List RoutingKey)
  /-- The loop over the users. -/
  | invalidate (users : List RoutingKey)
  | publish
  | removeBackend
  /-- `RemoveBackend` is issued. -/
  | removing
  /-- `drain` returns; the lock is given back. -/
  | unlock
  /-- The entry is deleted. -/
  | unmark
  | ended
  deriving DecidableEq, Repr

structure DrainGoroutine where
  backend : Backend
  phase : DrainPhase := .lock
  /-- Its context is cancelled or has expired. -/
  ctxDone : Bool := false
  deriving DecidableEq, Repr

/-- Go's `DrainManager`, with its goroutines in the order they were started
in. An entry of the map is the cancel function of one of them. -/
structure DrainManager where
  routingMode : RoutingMode
  /-- `redis` is there. -/
  redis : Bool
  store : Store
  draining : Table Backend ℕ := ∅
  goroutines : List DrainGoroutine := []
  /-- The removals a goroutine has given up on, which the store may still
  carry out. -/
  sent : List Backend := []

/-- How a step of a goroutine goes. -/
inductive Turn where
  | next
  /-- The call fails, or the lock is not obtained. -/
  | fail
  /-- The users found. -/
  | users (us : List RoutingKey)
  /-- The context ends the call, but the store was reached. -/
  | giveUp
  deriving DecidableEq, Repr

namespace DrainManager

/-- `StartDrain`. -/
def startDrain (b : Backend) (d : DrainManager) : DrainManager :=
  match d.draining.lookup b with
  | some _ => d
  | none => { d with
      draining := d.draining.insert b d.goroutines.length
      goroutines := d.goroutines ++ [{ backend := b }] }

/-- The context of a goroutine is done: `cancel()`, or the timeout. -/
def cancel (i : ℕ) (d : DrainManager) : DrainManager :=
  match d.goroutines[i]? with
  | some g => { d with goroutines := d.goroutines.set i { g with ctxDone := true } }
  | none => d

/-- A removal that was given up on is carried out. -/
def land (j : ℕ) (d : DrainManager) : Option DrainManager :=
  (d.sent[j]?).map fun b =>
    { d with store := d.store.removeBackend b, sent := d.sent.eraseIdx j }

/-- The store looks at no context. -/
def ignoresCtx (d : DrainManager) : Bool :=
  match d.store with
  | .memory _ => true
  | _ => false

/-- The goroutine may find these users: in assignment mode those of the
store, which `MemoryStore` does not have, otherwise those of the sticky
keys or of the cache. -/
def finds (d : DrainManager) (g : DrainGoroutine) (us : List RoutingKey) : Bool :=
  match d.routingMode with
  | .assignment =>
    ¬ g.ctxDone ∧ ¬ d.ignoresCtx ∧ us = d.store.getBackendUsers g.backend
  | .hash => ¬ (d.redis ∧ g.ctxDone)

/-- The next step of a goroutine: its next phase, and the store after it. -/
def phaseStep (d : DrainManager) (g : DrainGoroutine) (t : Turn) : Option (DrainPhase × Store) :=
  match g.phase, t with
  | .lock, .next => some (.getUsers, d.store)
  | .lock, .fail => some (.retry, d.store)
  | .retry, .next => some (.getUsers, d.store)
  | .retry, .fail => some (.checkCtx, d.store)
  | .checkCtx, .next => some (if g.ctxDone then .unmark else .retry, d.store)
  | .getUsers, .users us =>
    if d.finds g us then some (if us.isEmpty then .publish else .sendUnassign us, d.store)
    else none
  | .getUsers, .fail =>
    if d.routingMode = .assignment ∨ d.redis then some (.unlock, d.store) else none
  | .sendUnassign us, .next => some (.bulkDelete us, d.store)
  | .bulkDelete us, .next =>
    some (.invalidate us,
      if d.routingMode = .assignment ∧ ¬ g.ctxDone then d.store.bulkDeleteAssignments us
      else d.store)
  | .bulkDelete us, .fail => some (.invalidate us, d.store)
  | .invalidate _, .next => some (.publish, d.store)
  | .publish, .next => some (.removeBackend, d.store)
  | .removeBackend, .next =>
    if d.ignoresCtx then some (.unlock, d.store.removeBackend g.backend)
    else some (if g.ctxDone then .unlock else .removing, d.store)
  | .removing, .next => some (.unlock, d.store.removeBackend g.backend)
  | .removing, .fail => some (.unlock, d.store)
  | .removing, .giveUp => if g.ctxDone then some (.unlock, d.store) else none
  | .unlock, .next => some (.unmark, d.store)
  | .unmark, .next => some (.ended, d.store)
  | _, _ => none

/-- A goroutine takes its next step. -/
def turn (i : ℕ) (t : Turn) (d : DrainManager) : Option DrainManager :=
  (d.goroutines[i]?).bind fun g => (d.phaseStep g t).map fun p =>
    { d with
      store := p.2
      draining := if g.phase = .unmark then d.draining.erase g.backend else d.draining
      goroutines := d.goroutines.set i { g with phase := p.1 }
      sent := if t = .giveUp then d.sent ++ [g.backend] else d.sent }

end DrainManager

/-! ## Callers of the manager -/

namespace Drain

/-- A call of `CancelDrain` that has read an entry. -/
structure CancelCall where
  target : ℕ
  /-- `cancel()` was called. -/
  cancelled : Bool := false
  deriving DecidableEq, Repr

/-- The manager and the calls of `CancelDrain` that are under way. -/
structure Callers where
  manager : DrainManager
  cancels : List CancelCall := []
  /-- The goroutines that a `CancelDrain` has cancelled that has returned. -/
  returned : List ℕ := []

inductive CallerAction where
  | startDrain (b : Backend)
  /-- `CancelDrain`, up to the unlock. -/
  | cancelDrain (b : Backend)
  | cancel (j : ℕ)
  /-- `CancelDrain` returns. -/
  | returns (j : ℕ)
  | turn (i : ℕ) (t : Turn)
  | timeout (i : ℕ)
  | land (j : ℕ)
  deriving DecidableEq

def callerStep (s : Callers) : CallerAction → Option Callers
  | .startDrain b => some { s with manager := s.manager.startDrain b }
  | .cancelDrain b =>
    match s.manager.draining.lookup b with
    | some i => some { s with cancels := s.cancels ++ [{ target := i }] }
    | none => some s
  | .cancel j =>
    (s.cancels[j]?).bind fun c =>
      if c.cancelled then none
      else some { s with
        manager := s.manager.cancel c.target
        cancels := s.cancels.set j { c with cancelled := true } }
  | .returns j =>
    (s.cancels[j]?).bind fun c =>
      if c.cancelled then some { s with
        cancels := s.cancels.eraseIdx j
        returned := c.target :: s.returned }
      else none
  | .turn i t => (s.manager.turn i t).map fun d => { s with manager := d }
  | .timeout i => some { s with manager := s.manager.cancel i }
  | .land j => (s.manager.land j).map fun d => { s with manager := d }

/-- Nothing has been called yet. -/
structure Callers.Fresh (s : Callers) : Prop where
  draining : s.manager.draining = ∅
  goroutines : s.manager.goroutines = []
  cancels : s.cancels = []
  returned : s.returned = []

/-- A call of `StartDrain` made in one state takes effect by another: there
is a goroutine for the backend, running at or after the call, that no
`CancelDrain` has cancelled that returned before it. -/
def TakesEffect (b : Backend) (s s' : Callers) : Prop :=
  ∃ i g', s'.manager.goroutines[i]? = some g' ∧ g'.backend = b ∧ i ∉ s.returned ∧
    ∀ g, s.manager.goroutines[i]? = some g → g.phase ≠ .ended

end Drain

end StickyProxy
