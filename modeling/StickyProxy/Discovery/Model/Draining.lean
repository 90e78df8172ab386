import StickyProxy.Discovery.Model.Kubernetes
import StickyProxy.Drain.Model.Manager
/-!
# The Kubernetes discovery with its drain manager

The calls of the reconciles reach the drain manager and the store one after
the other, between the steps of the drain goroutines. The store calls of
the reconciles succeed here. A `CancelDrain` is two steps, the read of the
entry and the cancellation.
-/

namespace StickyProxy

namespace Kubernetes

/-- The discovery and its drain manager, in front of one store. -/
structure Operator where
  manager : DrainManager
  discovery : Discovery
  /-- The goroutine whose cancel function `CancelDrain` has read. -/
  cancelling : Option ℕ := none

namespace Operator

/-- The next call of the reconcile. -/
def call (s : Operator) : DiscoveryCall → Operator
  | .cancelDrain b => { s with cancelling := s.manager.draining.lookup b }
  | .startDrain b => { s with manager := s.manager.startDrain b }
  | .addBackend b =>
    { s with manager := { s.manager with store := s.manager.store.addBackend b } }
  | .removeBackend b =>
    { s with manager := { s.manager with store := s.manager.store.removeBackend b } }

inductive Action where
  | reconcile (order gone : List Backend)
  | call
  /-- The rest of `CancelDrain`. -/
  | cancel
  | turn (i : ℕ) (t : Turn)
  | timeout (i : ℕ)
  | land (j : ℕ)
  deriving DecidableEq

def step (s : Operator) : Action → Option Operator
  | .reconcile order gone =>
    match s.cancelling with
    | some _ => none
    | none => (s.discovery.reconcile order gone).map fun d => { s with discovery := d }
  | .call =>
    match s.cancelling, s.discovery.calls with
    | none, c :: rest => some ({ s with discovery := { s.discovery with calls := rest } }.call c)
    | _, _ => none
  | .cancel => s.cancelling.map fun i =>
      { s with manager := s.manager.cancel i, cancelling := none }
  | .turn i t => (s.manager.turn i t).map fun d => { s with manager := d }
  | .timeout i => some { s with manager := s.manager.cancel i }
  | .land j => (s.manager.land j).map fun d => { s with manager := d }

end Operator

end Kubernetes

end StickyProxy
