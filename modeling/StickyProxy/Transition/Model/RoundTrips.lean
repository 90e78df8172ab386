import StickyProxy.Transition.Model.Lock
/-!
# The PostgreSQL locker, one round trip at a time

`TryLock` takes a connection out of the pool, asks for the advisory lock
on it and then stores it in the field `conn`; `Unlock` asks for the lock to
be given back on whatever connection the field holds, closes what the
field holds and clears it. Operations of several replicas go through these
steps in any interleaving, no context is done and every query is answered.
-/

namespace StickyProxy

namespace Transition

namespace RoundTrips

/-- What an operation does next. -/
inductive Stage where
  /-- `l.db.Conn`. -/
  | connect
  /-- `SELECT pg_try_advisory_lock`. -/
  | query
  /-- `l.conn = conn`. -/
  | store
  | lockMutex
  | critical
  | unlockMutex
  /-- `SELECT pg_advisory_unlock` on `l.conn`. -/
  | unlock
  /-- `l.conn.Close()`. -/
  | close
  /-- `l.conn = nil`. -/
  | clear
  | returned
  deriving DecidableEq, Repr

/-- A drain or rebalance of a replica. -/
structure Caller where
  kind : Kind
  replica : ℕ
  stage : Stage
  deriving DecidableEq, Repr

/-- The advisory lock with the lockers, the mutex of each replica as the
operation that has locked it, and the operations. -/
structure System where
  lock : Advisory
  mutex : Table ℕ ℕ
  callers : List Caller

/-! ## `TryLock` -/

/-- The pool of the replica hands out an idle session. -/
def connect (i replica : ℕ) (σ : Session) (l : Advisory) : Option Advisory :=
  if σ.replica = replica ∧ l.Idle σ then some { l with opened := l.opened.insert i σ } else none

/-- `pg_try_advisory_lock`, and whether it is true. If not, the connection
is closed again. -/
def query (i : ℕ) (l : Advisory) : Option (Bool × Advisory) :=
  (l.opened.lookup i).map fun σ =>
    if l.holder = none ∨ l.holder = some σ then
      (true, { l with holder := some σ, takenFor := i :: l.takenFor })
    else (false, { l with opened := l.opened.erase i })

def store (i replica : ℕ) (l : Advisory) : Advisory := { l with conn := l.conn.insert replica i }

/-- A drain whose `Lock` has returned false tries again, a rebalance gives
up. -/
def Caller.failed (p : Caller) : Stage :=
  match p.kind with
  | .drain => .connect
  | .rebalance => .returned

/-! ## `Unlock` -/

/-- The query of `Unlock`; of a field that is nil it returns at once. -/
def unlock (i replica : ℕ) (l : Advisory) : Stage × Advisory :=
  match l.conn.lookup replica with
  | some q => (.close, l.exec i q false)
  | none => (.returned, l)

/-- The session goes back to its pool as it is. Of a field that is nil
`Close` panics. -/
def close (replica : ℕ) (l : Advisory) : Option Advisory :=
  (l.conn.lookup replica).map fun q => { l with opened := l.opened.erase q }

def clear (replica : ℕ) (l : Advisory) : Advisory := { l with conn := l.conn.erase replica }

/-! ## Runs -/

/-- The next step of operation `i`. -/
def Caller.step (i : ℕ) (p : Caller) (σ : Session) (l : Advisory) (mutex : Table ℕ ℕ) :
    Option (Stage × Advisory × Table ℕ ℕ) :=
  match p.stage with
  | .connect => (connect i p.replica σ l).map fun l => (.query, l, mutex)
  | .query => (query i l).map fun r => (if r.1 then .store else p.failed, r.2, mutex)
  | .store => some (.lockMutex, store i p.replica l, mutex)
  | .lockMutex =>
    if (mutex.lookup p.replica).isSome then none
    else some (.critical, l, mutex.insert p.replica i)
  | .critical => some (.unlockMutex, l, mutex)
  | .unlockMutex => some (.unlock, l, mutex.erase p.replica)
  | .unlock => some ((unlock i p.replica l).1, (unlock i p.replica l).2, mutex)
  | .close => (close p.replica l).map fun l => (.clear, l, mutex)
  | .clear => some (.returned, clear p.replica l, mutex)
  | .returned => none

/-- An operation, and the session its pool hands out if it is asked for
one. -/
abbrev Action := ℕ × Session

def step (s : System) (a : Action) : Option System :=
  (s.callers[a.1]?).bind fun p => (p.step a.1 a.2 s.lock s.mutex).map fun r =>
    ⟨r.2.1, r.2.2, s.callers.set a.1 { p with stage := r.1 }⟩

/-- Operations about to start, each with its kind and replica. -/
def System.start (callers : List (Kind × ℕ)) : System :=
  ⟨.free, ∅, callers.map fun c => ⟨c.1, c.2, .connect⟩⟩

end RoundTrips

end Transition

end StickyProxy
