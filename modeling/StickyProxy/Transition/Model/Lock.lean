import StickyProxy.Common.Table
/-!
# The transition lock

Drains and rebalances of all replicas, as far as their locking goes. An
operation takes the distributed lock with one `TryLock`, waits for the
mutex of its replica, works, and gives both back, the mutex first. The
distributed lock is a Redis key, or a PostgreSQL advisory lock taken on a
connection of the replica's pool, or there is none. Operations are
numbered by their place in the pool. A call made with a context that is
done does not reach the server.

What the servers do not record is kept beside what they do, to say whose
lock it is: the operation whose `SET NX` made the key, the operations an
advisory lock was taken for, and whether the key of an operation has
expired. No step reads any of it.
-/

namespace StickyProxy

namespace Transition

/-- A database session, in the connection pool of a replica. -/
structure Session where
  replica : ℕ
  number : ℕ
  deriving DecidableEq, Repr

/-- The advisory lock and the `PostgresDistributedLocker` of every
replica. -/
structure Advisory where
  /-- The session that has the lock. -/
  holder : Option Session
  /-- The operations it was taken for, one for each time it was taken: a
  session that has the lock may take it again. -/
  takenFor : List ℕ
  /-- The sessions taken out of their pools, by the operation whose
  connection it is. -/
  opened : Table ℕ Session
  /-- The field `conn` of the locker of a replica, as the operation whose
  connection it holds. -/
  conn : Table ℕ ℕ

/-- The distributed lock. -/
inductive Dist where
  /-- `dist == nil`. -/
  | single
  /-- The key `sticky-proxy:transition-lock`, as the operation that set it. -/
  | redis (key : Option ℕ)
  | postgres (lock : Advisory)

/-- A drain retries until it has the lock, a rebalance does not. -/
inductive Kind where
  | drain
  | rebalance
  deriving DecidableEq, Repr

/-- What an operation does next. -/
inductive Phase where
  /-- The first call of `Lock`: `TryLock`. -/
  | lock
  /-- A further call of a drain. -/
  | retry
  /-- `TryLock` has succeeded: `mu.Lock`. -/
  | lockMutex
  /-- `Lock` has returned true, `Unlock` has not been called. -/
  | critical
  /-- `Unlock`: `mu.Unlock`. -/
  | unlockMutex
  /-- `dist.Unlock`. -/
  | unlockDist
  /-- The end of the PostgreSQL `Unlock`: `conn.Close()`, `conn = nil`. -/
  | closeConn
  | clearConn
  | returned
  deriving DecidableEq, Repr

/-- A drain or rebalance of a replica. -/
structure Operation where
  kind : Kind
  replica : ℕ
  ctxDone : Bool
  phase : Phase
  /-- The key it had set has expired. -/
  expired : Bool
  deriving DecidableEq, Repr

/-- The distributed lock, the mutex of each replica as the operation that
has locked it, and the operations. -/
structure System where
  dist : Dist
  mutex : Table ℕ ℕ
  operations : List Operation

/-! ## PostgreSQL -/

namespace Advisory

/-- Nothing locked, nothing taken out of a pool. -/
def free : Advisory := ⟨none, [], ∅, ∅⟩

/-- The session is in its pool. -/
def Idle (l : Advisory) (σ : Session) : Prop := σ ∉ l.opened.pairs.map Prod.snd

instance (l : Advisory) (σ : Session) : Decidable (l.Idle σ) :=
  inferInstanceAs (Decidable (σ ∉ _))

/-- `pg_try_advisory_lock` on a session has been true; the locker keeps the
connection. -/
def take (i replica : ℕ) (σ : Session) (l : Advisory) : Advisory :=
  { holder := some σ
    takenFor := i :: l.takenFor
    opened := l.opened.insert i σ
    conn := l.conn.insert replica i }

/-- `pg_advisory_unlock` on a session: once less, if it has the lock. -/
def release (i : ℕ) (σ : Session) (l : Advisory) : Advisory :=
  if l.holder = some σ then
    { l with
      takenFor := l.takenFor.erase i
      holder := if l.takenFor.erase i = [] then none else some σ }
  else l

/-- The `ExecContext` of `Unlock`, on the connection of operation `q`; one
that is closed or whose context is done does nothing. -/
def exec (i q : ℕ) (ctxDone : Bool) (l : Advisory) : Advisory :=
  match l.opened.lookup q with
  | some σ => if ctxDone then l else l.release i σ
  | none => l

end Advisory

/-! ## The steps of an operation -/

/-- `TryLock` of operation `i`, and whether it succeeds. On PostgreSQL the
pool hands out one of its idle sessions. -/
def tryLock (i : ℕ) (p : Operation) (σ : Session) : Dist → Option (Bool × Dist)
  | .single => some (true, .single)
  | .redis key =>
    if p.ctxDone ∨ key.isSome then some (false, .redis key) else some (true, .redis (some i))
  | .postgres l =>
    if p.ctxDone then some (false, .postgres l)
    else if σ.replica = p.replica ∧ l.Idle σ then
      if l.holder = none ∨ l.holder = some σ then some (true, .postgres (l.take i p.replica σ))
      -- The connection is closed again.
      else some (false, .postgres l)
    else none

/-- What becomes of an operation whose `Lock` has returned false. -/
def Operation.failed (p : Operation) : Phase :=
  match p.kind, p.phase with
  | .drain, .retry => if p.ctxDone then .returned else .retry
  | .drain, _ => .retry
  | .rebalance, _ => .returned

/-- `dist.Unlock` of operation `i`, with what the operation does next. -/
def unlockDist (i : ℕ) (p : Operation) : Dist → Phase × Dist
  | .single => (.returned, .single)
  | .redis key => (.returned, .redis (if p.ctxDone then key else none))
  | .postgres l =>
    match l.conn.lookup p.replica with
    | some q => (.closeConn, .postgres (l.exec i q p.ctxDone))
    | none => (.returned, .postgres l)

/-- `l.conn.Close()`: the session goes back to its pool as it is. Of a
field that is nil it panics. -/
def closeConn (p : Operation) : Dist → Option Dist
  | .postgres l => (l.conn.lookup p.replica).map fun q =>
      .postgres { l with opened := l.opened.erase q }
  | _ => none

/-- `l.conn = nil`. -/
def clearConn (p : Operation) : Dist → Option Dist
  | .postgres l => some (.postgres { l with conn := l.conn.erase p.replica })
  | _ => none

/-- The next step of operation `i`: the phase it comes to, and what it
leaves of the locks. -/
def Operation.step (i : ℕ) (p : Operation) (σ : Session) (dist : Dist) (mutex : Table ℕ ℕ) :
    Option (Phase × Dist × Table ℕ ℕ) :=
  match p.phase with
  | .lock | .retry => (tryLock i p σ dist).map fun r =>
      (if r.1 then .lockMutex else p.failed, r.2, mutex)
  | .lockMutex =>
    if (mutex.lookup p.replica).isSome then none
    else some (.critical, dist, mutex.insert p.replica i)
  | .critical => some (.unlockMutex, dist, mutex)
  | .unlockMutex => some (.unlockDist, dist, mutex.erase p.replica)
  | .unlockDist => some ((unlockDist i p dist).1, (unlockDist i p dist).2, mutex)
  | .closeConn => (closeConn p dist).map fun d => (.clearConn, d, mutex)
  | .clearConn => (clearConn p dist).map fun d => (.returned, d, mutex)
  | .returned => none

/-! ## Runs -/

/-- The steps of the system. -/
inductive Action where
  /-- An operation takes its next step; the session is what the pool hands
  out, if it is asked for one. -/
  | operation (i : ℕ) (σ : Session)
  /-- The context of an operation is done: cancelled, or timed out. -/
  | cancel (i : ℕ)
  /-- The Redis key expires. -/
  | expire
  deriving DecidableEq

/-- The operation is marked when the key it set expires. -/
def expire (s : System) : Option System :=
  match s.dist with
  | .redis (some i) => some { s with
      dist := .redis none
      operations := s.operations.modify i fun p => { p with expired := true } }
  | _ => none

def step (s : System) : Action → Option System
  | .operation i σ =>
    (s.operations[i]?).bind fun p => (p.step i σ s.dist s.mutex).map fun r =>
      ⟨r.2.1, r.2.2, s.operations.set i { p with phase := r.1 }⟩
  | .cancel i => some { s with
      operations := s.operations.modify i fun p => { p with ctxDone := true } }
  | .expire => expire s

/-- `New` picks the locker that goes with the store. -/
inductive Locker where
  | single
  | redis
  | postgres
  deriving DecidableEq, Repr

/-- The lock before anybody has taken it. -/
def Locker.free : Locker → Dist
  | .single => .single
  | .redis => .redis none
  | .postgres => .postgres .free

/-- Operations about to start, each with its kind and replica. -/
def System.start (locker : Locker) (operations : List (Kind × ℕ)) : System :=
  ⟨locker.free, ∅, operations.map fun o => ⟨o.1, o.2, false, .lock, false⟩⟩

end Transition

end StickyProxy
