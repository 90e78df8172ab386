import StickyProxy.Common.Signal
import StickyProxy.Discovery.Model.Kubernetes
/-!
# Watching EndpointSlices

`SeedBackends` lists the slices once and reconciles. `Start` then runs an
informer, which lists them again and keeps its store up to date: each change
of the store is followed, sooner or later, by a call of the handler, which
puts a signal into a channel of one place unless there is one. The loop takes
the signal, waits for 500 ms, empties the channel and reconciles with what is
in the informer's store by then. There is no resync.

A drain that a reconcile has started removes its backend when it pleases,
also when the drain was cancelled meanwhile; how often it may and when is
left open here.
-/

namespace StickyProxy.Kubernetes

/-- How far the discovery is started. -/
inductive Stage where
  | unseeded
  | seeded
  | started
  deriving DecidableEq, Repr

/-- The informer's store, by the names of the slices, the channel with the
loop behind it, and the discovery in front of the store of backends. -/
structure Watch where
  stage : Stage
  slices : Table String EndpointSlice
  signal : Signal.State
  system : System
  /-- The backends `StartDrain` was called for. -/
  drains : Finset Backend := ∅

namespace Watch

inductive Action where
  /-- `SeedBackends`, with the slices that are listed. -/
  | seed (slices : List EndpointSlice) (order gone : List Backend)
  /-- `SeedBackends`, when they cannot be listed. -/
  | seedFailed
  /-- The informer has listed the slices. -/
  | start (slices : Table String EndpointSlice)
  /-- A slice is there, or gone. -/
  | update (name : String) (slice : Option EndpointSlice)
  /-- A handler is called. -/
  | enqueue
  /-- The loop takes the signal. -/
  | wake
  /-- The timer has expired, and the channel is emptied. -/
  | expire
  /-- `reconcile`, the informer's store listed in the order of the names. -/
  | reconcile (names : List String) (order gone : List Backend)
  /-- The next call. -/
  | call (outcome : CallOutcome)
  /-- A drain removes its backend. -/
  | drained (b : Backend)
  /-- `reconcile` returns. -/
  | finish
  /-- The context is cancelled, or `Stop` called. -/
  | stop

/-- The slices of the informer's store, in the order of the names. -/
def listing (names : List String) (slices : Table String EndpointSlice) : List EndpointSlice :=
  names.filterMap slices.lookup

/-- `applyDesiredState`, up to its first call. -/
def apply (desired : Table Backend EpState) (order gone : List Backend) (s : System) :
    Option System :=
  Kubernetes.step { s with discovery := { s.discovery with desired := [desired] } }
    (.reconcile order gone)

/-- The backends `StartDrain` was called for once the next call is made. -/
def drainsAfterCall (s : Watch) : Finset Backend :=
  match s.system.discovery.calls with
  | .startDrain b :: _ => insert b s.drains
  | _ => s.drains

def step (portName : String) (s : Watch) : Action → Option Watch
  | .seed slices order gone =>
    if s.stage = .unseeded then
      (apply (buildDesiredState portName slices) order gone s.system).map fun system =>
        { s with stage := .seeded, system }
    else none
  | .seedFailed => if s.stage = .unseeded then some { s with stage := .seeded } else none
  | .start slices =>
    if s.stage = .seeded ∧ s.system.discovery.calls = [] then
      (Signal.step s.signal (.change slices.keys.length)).map fun signal =>
        { s with stage := .started, slices, signal }
    else none
  | .update name slice =>
    if s.stage = .started then
      (Signal.step s.signal (.change 1)).map fun signal =>
        { s with
          slices := slice.elim (s.slices.erase name) fun slice => s.slices.insert name slice
          signal }
    else none
  | .enqueue => (Signal.step s.signal .announce).map fun signal => { s with signal }
  | .wake => (Signal.step s.signal .wake).map fun signal => { s with signal }
  | .expire => (Signal.step s.signal .clear).map fun signal => { s with signal }
  | .reconcile names order gone =>
    if Enumerates names s.slices.keys.toFinset then
      (Signal.step s.signal .look).bind fun signal =>
        (apply (buildDesiredState portName (listing names s.slices)) order gone s.system).map
          fun system => { s with signal, system }
    else none
  | .call outcome => (Kubernetes.step s.system (.call outcome)).map fun system =>
      { s with system, drains := s.drainsAfterCall }
  | .drained b =>
    if b ∈ s.drains then
      some { s with system := { s.system with store := s.system.store.removeBackend b } }
    else none
  | .finish =>
    if s.system.discovery.calls = [] then
      (Signal.step s.signal .finish).map fun signal => { s with signal }
    else none
  | .stop => (Signal.step s.signal .stop).map fun signal => { s with signal }

/-- The discovery before `SeedBackends`, in front of a store. -/
def init (drain : Bool) (store : Store) : Watch where
  stage := .unseeded
  slices := ∅
  signal := ⟨0, false, .idle⟩
  system := { store, discovery := { drain, desired := [] } }

/-- Everything that was going to happen without another change has happened. -/
structure AtRest (s : Watch) : Prop where
  started : s.stage = .started
  signal : s.signal.AtRest
  calls : s.system.discovery.calls = []

end Watch

end StickyProxy.Kubernetes
