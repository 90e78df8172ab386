import StickyProxy.Common.Run
import StickyProxy.Common.Table
import StickyProxy.Model.Assignment
import Mathlib.Data.Finset.Card
/-!
# The connection tracker

`ConnTracker` is a map of maps: under each routing key the bridges of its
WebSocket connections. The inner maps are references. `CloseConns` takes one
out of the outer map under the lock, and goes through it after it has let go
of the lock; `SwapConns` copies one under the lock and goes through the copy.
`proxyWebSocket` adds its bridge before it runs it and removes it afterwards.
Inner maps therefore have addresses here, and whatever happens under the lock
is one step, each bridge closed or swapped another. A bridge is named by the
place of its connection.
-/

namespace StickyProxy

/-- Go's `ConnTracker`: the inner maps at their addresses, and the address of
the one of a routing key. -/
structure ConnTracker where
  maps : List (Finset ℕ)
  conns : Table RoutingKey ℕ

namespace ConnTracker

/-- `NewConnTracker`. -/
def new : ConnTracker := ⟨[], ∅⟩

/-- The inner map at an address. -/
def bridges (p : ℕ) (ct : ConnTracker) : Finset ℕ := ct.maps[p]?.getD ∅

/-- `Add`. -/
def add (routingKey : RoutingKey) (bridge : ℕ) (ct : ConnTracker) : ConnTracker :=
  match ct.conns.lookup routingKey with
  | none => ⟨ct.maps ++ [{bridge}], ct.conns.insert routingKey ct.maps.length⟩
  | some p => { ct with maps := ct.maps.modify p (insert bridge) }

/-- `Remove`. -/
def remove (routingKey : RoutingKey) (bridge : ℕ) (ct : ConnTracker) : ConnTracker :=
  match ct.conns.lookup routingKey with
  | none => ct
  | some p =>
    let maps := ct.maps.modify p (·.erase bridge)
    if (ct.bridges p).erase bridge = ∅ then ⟨maps, ct.conns.erase routingKey⟩
    else { ct with maps }

/-- What `CloseConns` does under the lock. -/
def detach (routingKey : RoutingKey) (ct : ConnTracker) : ConnTracker :=
  { ct with conns := ct.conns.erase routingKey }

/-- The bridges under a routing key, which `SwapConns` copies. -/
def tracked (routingKey : RoutingKey) (ct : ConnTracker) : Finset ℕ :=
  (ct.conns.lookup routingKey).elim ∅ fun p => ct.bridges p

/-- `Count`. -/
def count (routingKey : RoutingKey) (ct : ConnTracker) : ℕ := (ct.tracked routingKey).card

end ConnTracker

namespace Tracking

/-- What a call of `proxyWebSocket` does next. -/
inductive Phase where
  /-- `ct.Add`. -/
  | add
  /-- `bridge.run` returns. -/
  | run
  /-- `ct.Remove`. -/
  | remove
  | gone
  deriving DecidableEq, Repr

/-- A connection. -/
structure Session where
  key : RoutingKey
  phase : Phase
  deriving DecidableEq, Repr

/-- What a call of `CloseConns` does next. -/
inductive ClosePhase where
  | detach
  /-- It goes through the map it has taken out, if there was one. -/
  | close (p : Option ℕ) (visited : Finset ℕ)
  | done (p : Option ℕ) (visited : Finset ℕ)
  deriving DecidableEq

/-- A call of `CloseConns`. -/
structure Closer where
  key : RoutingKey
  phase : ClosePhase
  deriving DecidableEq

/-- A call of `SwapConns`, with the bridges it is yet to swap once it has
copied them. -/
structure Swapper where
  key : RoutingKey
  newBackend : Backend
  todo : Option (List ℕ)
  deriving DecidableEq, Repr

/-- The tracker, whoever uses it, and the bridges that were closed and
swapped. -/
structure State where
  tracker : ConnTracker
  sessions : List Session
  closers : List Closer
  swappers : List Swapper
  closed : List ℕ
  swapped : List (ℕ × Backend)

inductive Action where
  /-- A connection takes its next step. -/
  | session (i : ℕ)
  /-- A `CloseConns` takes the map out. -/
  | detach (j : ℕ)
  /-- It closes a bridge. -/
  | close (j i : ℕ)
  /-- It has closed them all. -/
  | closed (j : ℕ)
  /-- A `SwapConns` copies the bridges, in the order of the map. -/
  | copy (j : ℕ) (order : List ℕ)
  /-- It swaps the next one. -/
  | swap (j : ℕ)
  deriving DecidableEq, Repr

/-- A step of `proxyWebSocket`. -/
def sessionStep (i : ℕ) (s : State) (x : Session) : Option State :=
  match x.phase with
  | .add => some { s with
      tracker := s.tracker.add x.key i, sessions := s.sessions.set i { x with phase := .run } }
  | .run => some { s with sessions := s.sessions.set i { x with phase := .remove } }
  | .remove => some { s with
      tracker := s.tracker.remove x.key i, sessions := s.sessions.set i { x with phase := .gone } }
  | .gone => none

def step (s : State) : Action → Option State
  | .session i => (s.sessions[i]?).bind (sessionStep i s)
  | .detach j => (s.closers[j]?).bind fun c =>
    match c.phase with
    | .detach => some { s with
        tracker := s.tracker.detach c.key
        closers := s.closers.set j { c with phase := .close (s.tracker.conns.lookup c.key) ∅ } }
    | _ => none
  | .close j i => (s.closers[j]?).bind fun c =>
    match c.phase with
    | .close (some p) visited =>
      if i ∈ s.tracker.bridges p ∧ i ∉ visited then
        some { s with
          closers := s.closers.set j { c with phase := .close (some p) (insert i visited) }
          closed := s.closed ++ [i] }
      else none
    | _ => none
  | .closed j => (s.closers[j]?).bind fun c =>
    match c.phase with
    | .close p visited =>
      if p.elim ∅ (fun p => s.tracker.bridges p) ⊆ visited then
        some { s with closers := s.closers.set j { c with phase := .done p visited } }
      else none
    | _ => none
  | .copy j order => (s.swappers[j]?).bind fun w =>
    match w.todo with
    | none =>
      if order.Nodup ∧ order.toFinset = s.tracker.tracked w.key then
        some { s with swappers := s.swappers.set j { w with todo := some order } }
      else none
    | some _ => none
  | .swap j => (s.swappers[j]?).bind fun w =>
    match w.todo with
    | some (i :: rest) => some { s with
        swappers := s.swappers.set j { w with todo := some rest }
        swapped := s.swapped ++ [(i, w.newBackend)] }
    | _ => none

/-- An empty tracker, in front of connections that are going to be added and
calls that are going to be made. -/
def State.start (sessions closers : List RoutingKey) (swappers : List (RoutingKey × Backend)) :
    State where
  tracker := ConnTracker.new
  sessions := sessions.map fun k => ⟨k, .add⟩
  closers := closers.map fun k => ⟨k, .detach⟩
  swappers := swappers.map fun w => ⟨w.1, w.2, none⟩
  closed := []
  swapped := []

end Tracking

end StickyProxy
