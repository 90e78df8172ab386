import StickyProxy.Common.Table
import StickyProxy.Discovery.Model.Backends
/-!
# Backends from Kubernetes

`reconcile` builds the desired state from the EndpointSlices, and
`applyDesiredState` compares it with the state it knows and issues calls
for what has changed. It takes the desired state to be the known one
before it issues the first of them, and goes on to the next whether a call
succeeds or not; there is no resync.

A call may fail without effect, or take effect and be reported as failed.
Beside the store it is recorded which backends are otherwise than the last
store call issued for them asks.
-/

namespace StickyProxy

namespace Kubernetes

/-! ## The desired state -/

/-- Go's `epState`. -/
inductive EpState where
  | active
  | terminating
  deriving DecidableEq, Repr

structure EndpointPort where
  name : Option String
  port : Option ℤ

/-- An endpoint with its conditions. -/
structure Endpoint where
  addresses : List String
  ready : Option Bool
  serving : Option Bool
  terminating : Option Bool

structure EndpointSlice where
  ports : List EndpointPort
  endpoints : List Endpoint

/-- `resolvePort`: zero is none. -/
def resolvePort (portName : String) : List EndpointPort → ℤ
  | [] => 0
  | p :: rest =>
    if portName = "" then p.port.getD 0
    else ((p :: rest).findSome? fun p =>
      if p.name = some portName then p.port else none).getD 0

/-- What the conditions of an endpoint make of it; neither while it is
starting, nor when it has stopped serving. -/
def Endpoint.state (ep : Endpoint) : Option EpState :=
  let ready := ep.ready.getD false
  let serving := ep.serving.getD false
  let terminating := ep.terminating.getD false
  if ready ∧ ¬ terminating then some .active
  else if terminating ∧ serving then some .terminating
  else none

/-- The endpoints of one slice. -/
def EndpointSlice.addTo (portName : String) (desired : Table Backend EpState)
    (slice : EndpointSlice) : Table Backend EpState :=
  let port := resolvePort portName slice.ports
  if port = 0 then desired
  else slice.endpoints.foldl (fun desired ep =>
    ep.addresses.foldl (fun desired addr =>
      match ep.state with
      | some st => desired.insert ("http://" ++ joinHostPort addr (toString port)) st
      | none => desired) desired) desired

/-- `buildDesiredState`. -/
def buildDesiredState (portName : String) (slices : List EndpointSlice) : Table Backend EpState :=
  slices.foldl (EndpointSlice.addTo portName) ∅

/-! ## The calls of a reconcile -/

/-- The calls for an endpoint of the desired state; `drain` says that there
is a drain manager. -/
def calls (drain : Bool) (b : Backend) (prev : Option EpState) : EpState → List DiscoveryCall
  | .active =>
    (if prev = some .terminating ∧ drain then [.cancelDrain b] else []) ++
      if prev = some .active then [] else [.addBackend b]
  | .terminating =>
    if prev = some .terminating then []
    else [if drain then .startDrain b else .removeBackend b]

/-- `applyDesiredState`, the maps gone through in the orders given: first
what is desired, then what has disappeared. -/
def applyDesiredState (drain : Bool) (prev desired : Table Backend EpState)
    (order gone : List Backend) : List DiscoveryCall :=
  (order.flatMap fun b => (desired.lookup b).elim [] (calls drain b (prev.lookup b))) ++
    (gone.filter fun b => (desired.lookup b).isNone).map .removeBackend

/-- Go's `KubernetesBackendDiscovery`, with what it is going to find. -/
structure Discovery where
  drain : Bool
  known : Table Backend EpState := ∅
  /-- The desired states of the reconciles to come. -/
  desired : List (Table Backend EpState)
  /-- What the running reconcile has left to call. -/
  calls : List DiscoveryCall := []

/-- `reconcile`, up to its first call. -/
def Discovery.reconcile (order gone : List Backend) (d : Discovery) : Option Discovery :=
  match d.desired, d.calls with
  | desired :: rest, [] =>
    if Enumerates order desired.keys.toFinset ∧ Enumerates gone d.known.keys.toFinset then
      some { d with
        known := desired
        desired := rest
        calls := applyDesiredState d.drain d.known desired order gone }
    else none
  | _, _ => none

/-- All reconciles are over. -/
structure Discovery.Finished (d : Discovery) : Prop where
  desired : d.desired = []
  calls : d.calls = []

/-! ## The only writer -/

/-- The discovery and a store nobody else writes to. -/
structure System where
  store : Store
  discovery : Discovery
  /-- The backends that are otherwise than the last store call issued for
  them asks. -/
  missed : Finset Backend := ∅

inductive Action where
  | reconcile (order gone : List Backend)
  /-- The next call. -/
  | call (outcome : CallOutcome)
  deriving DecidableEq

/-- The record of the backends that are otherwise, once a call has
returned. -/
def record (store : Store) (missed : Finset Backend) : DiscoveryCall → Finset Backend
  | .addBackend b => if b ∈ store.active then missed.erase b else insert b missed
  | .removeBackend b => if b ∈ store.active then insert b missed else missed.erase b
  | .cancelDrain _ | .startDrain _ => missed

def step (s : System) : Action → Option System
  | .reconcile order gone => (s.discovery.reconcile order gone).map fun d =>
      { s with discovery := d }
  | .call outcome =>
    match s.discovery.calls with
    | c :: rest =>
      let store := outcome.run s.store c
      some { store, discovery := { s.discovery with calls := rest },
             missed := record store s.missed c }
    | [] => none

/-- The discovery before its first reconcile, in front of any store. -/
structure System.Fresh (ds : List (Table Backend EpState)) (s : System) : Prop where
  known : s.discovery.known = ∅
  desired : s.discovery.desired = ds
  calls : s.discovery.calls = []
  missed : s.missed = ∅

/-- The active set is as the last of the desired states asks. -/
structure Converged (ds : List (Table Backend EpState)) (s : System) : Prop where
  active : ∀ last b, ds.getLast? = some last → last.lookup b = some .active → b ∈ s.store.active
  gone : ∀ last b, ds.getLast? = some last → last.lookup b = none →
    (∃ d ∈ ds, (d.lookup b).isSome) → b ∉ s.store.active

end Kubernetes

end StickyProxy
