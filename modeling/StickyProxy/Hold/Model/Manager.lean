import StickyProxy.Model.Assignment
import StickyProxy.Transition.Model.Lock
/-!
# The hold manager

Drains and rebalances of one replica hold the requests for the keys they
move: `MarkTransition` enters the keys, `ClearTransition` takes them out
again and closes the channel of each, and `Wait` blocks a request on the
channel it finds. The two calls stand between `Lock` and `Unlock` of the
transition lock, in the order the deferred calls run in. Every entry ever
made is kept in a list, with the operation that made it, which no step
reads.

What the operations are answered is left to the step: whether `TryLock`
succeeds (without a distributed lock it always does), whether the context
is done, and what keys the store and the strategy say are to move.
-/

namespace StickyProxy

namespace Hold

/-- Go's `holdEntry`: whether its `Once` has run, and how often its channel
has been closed. -/
structure Entry where
  owner : ℕ
  once : Bool
  closes : ℕ
  deriving DecidableEq, Repr

/-- `holdEntry.close`. -/
def Entry.close (e : Entry) : Entry :=
  if e.once then e else { e with once := true, closes := e.closes + 1 }

/-- Go's `HoldManager`. The map holds entries by their number. -/
structure Manager where
  holds : Table RoutingKey ℕ
  entries : List Entry

/-- One round of the loop of `MarkTransition`. -/
def Manager.mark (owner : ℕ) (h : Manager) (k : RoutingKey) : Manager :=
  match h.holds.lookup k with
  | some _ => h
  | none => ⟨h.holds.insert k h.entries.length, h.entries ++ [⟨owner, false, 0⟩]⟩

/-- `MarkTransition`. -/
def Manager.markTransition (owner : ℕ) (keys : List RoutingKey) (h : Manager) : Manager :=
  keys.foldl (Manager.mark owner) h

/-- One round of the loop of `ClearTransition`. -/
def Manager.clear (h : Manager) (k : RoutingKey) : Manager :=
  match h.holds.lookup k with
  | some n => ⟨h.holds.erase k, h.entries.modify n Entry.close⟩
  | none => h

/-- `ClearTransition`. -/
def Manager.clearTransition (keys : List RoutingKey) (h : Manager) : Manager :=
  keys.foldl Manager.clear h

/-! ## The operations -/

/-- What an operation does next. -/
inductive Phase where
  /-- The first call of `Lock`: `TryLock`. -/
  | lock
  /-- A further call of a drain. -/
  | retry
  | lockMutex
  /-- The users of the backend, or the moves, are computed. -/
  | read
  | mark (keys : List RoutingKey)
  /-- Whatever is done between `MarkTransition` and the return; nothing is
  held when there are no keys. -/
  | work (keys : List RoutingKey)
  /-- The deferred `ClearTransition`. -/
  | clear (keys : List RoutingKey)
  /-- The deferred `Unlock`: `mu.Unlock`, then `dist.Unlock`. -/
  | unlockMutex
  | unlockDist
  | returned
  deriving DecidableEq, Repr

/-- A drain or rebalance. -/
structure Operation where
  kind : Transition.Kind
  phase : Phase
  deriving DecidableEq, Repr

/-- What an operation is answered: by `TryLock`, about its context, and
when it asks for the keys to move. -/
structure Answer where
  acquired : Bool
  ctxDone : Bool
  keys : Option (List RoutingKey)
  deriving DecidableEq, Repr

/-- What becomes of an operation whose `Lock` has returned false. -/
def Operation.failed (p : Operation) (ctxDone : Bool) : Phase :=
  match p.kind, p.phase with
  | .drain, .retry => if ctxDone then .returned else .retry
  | .drain, _ => .retry
  | .rebalance, _ => .returned

/-- What an operation does with the keys. A drain of a backend without
users goes on, a rebalance without moves returns, and so does either when
the store fails. -/
def Operation.plan (p : Operation) : Option (List RoutingKey) → Phase
  | none => .unlockMutex
  | some [] =>
    match p.kind with
    | .drain => .work []
    | .rebalance => .unlockMutex
  | some keys => .mark keys

/-- The next step of operation `i`. -/
def Operation.step (i : ℕ) (p : Operation) (a : Answer) (h : Manager) (mutex : Option ℕ) :
    Option (Phase × Manager × Option ℕ) :=
  match p.phase with
  | .lock | .retry => some (if a.acquired then .lockMutex else p.failed a.ctxDone, h, mutex)
  | .lockMutex => if mutex.isSome then none else some (.read, h, some i)
  | .read => some (p.plan a.keys, h, mutex)
  | .mark keys => some (.work keys, h.markTransition i keys, mutex)
  | .work keys => some (if keys.isEmpty then .unlockMutex else .clear keys, h, mutex)
  | .clear keys => some (.unlockMutex, h.clearTransition keys, mutex)
  | .unlockMutex => some (.unlockDist, h, none)
  | .unlockDist => some (.returned, h, mutex)
  | .returned => none

/-! ## The requests -/

/-- How far a call of `Wait` is, by the number of the entry it found. -/
inductive Waiter where
  | start (k : RoutingKey)
  /-- The key was not in transition. -/
  | passed
  | waiting (n : ℕ)
  /-- The channel was closed. -/
  | released (n : ℕ)
  /-- The timer fired, or the context was done. -/
  | gaveUp (n : ℕ)
  deriving DecidableEq, Repr

/-- The entry a call has found. -/
def Waiter.found : Waiter → Option ℕ
  | .start _ | .passed => none
  | .waiting n | .released n | .gaveUp n => some n

/-- The next step of a call: the lookup, then the `select`. -/
def Waiter.step (h : Manager) (givesUp : Bool) : Waiter → Option Waiter
  | .start k =>
    match h.holds.lookup k with
    | none => some .passed
    | some n => some (.waiting n)
  | .waiting n =>
    if givesUp then some (.gaveUp n)
    else if ∃ e ∈ h.entries[n]?, 0 < e.closes then some (.released n)
    else none
  | _ => none

/-! ## Runs -/

/-- The hold manager, the mutex of the transition lock as the operation
that has locked it, the operations and the requests. -/
structure System where
  manager : Manager
  mutex : Option ℕ
  operations : List Operation
  waiters : List Waiter

inductive Action where
  | operation (i : ℕ) (a : Answer)
  | wait (w : ℕ) (givesUp : Bool)
  deriving DecidableEq

def step (s : System) : Action → Option System
  | .operation i a =>
    (s.operations[i]?).bind fun p => (p.step i a s.manager s.mutex).map fun r =>
      { s with
        manager := r.2.1
        mutex := r.2.2
        operations := s.operations.set i { p with phase := r.1 } }
  | .wait w givesUp =>
    (s.waiters[w]?).bind fun x => (x.step s.manager givesUp).map fun x' =>
      { s with waiters := s.waiters.set w x' }

/-- Operations and requests about to start. -/
def System.start (kinds : List Transition.Kind) (keys : List RoutingKey) : System :=
  ⟨⟨∅, []⟩, none, kinds.map fun kind => ⟨kind, .lock⟩, keys.map Waiter.start⟩

end Hold

end StickyProxy
