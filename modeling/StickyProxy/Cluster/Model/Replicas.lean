import StickyProxy.Proxy.Model.Traffic
/-!
# Replicas over one store

Any number of replicas in assignment mode, each with its own user cache,
share one store and serve requests. Nothing drains, rebalances, evicts or
deletes: the steps are those of the requests, in any order, and the sweeps
of the caches. A cached backend may be found unfit all the same.
-/

namespace StickyProxy

namespace Cluster

open Traffic

/-- The store, what the requests of each replica share, and the requests,
each with the replica that serves it. -/
structure Replicas where
  store : Store
  frontends : List Frontend
  requests : List (ℕ × RequestStep)

inductive Action where
  /-- A request takes its next step. -/
  | request (i : ℕ) (c : Choice)
  /-- A tick of `cleanupLoop` on a replica. -/
  | cleanup (r : ℕ) (now : Time)

def step (s : Replicas) : Action → Option Replicas
  | .request i c =>
    (s.requests[i]?).bind fun p => (s.frontends[p.1]?).bind fun f =>
      (requestStep c s.store f p.2).map fun t =>
        ⟨t.2.1, s.frontends.set p.1 t.2.2, s.requests.set i (p.1, t.1)⟩
  | .cleanup r now => some { s with
      frontends := s.frontends.modify r fun f => { f with cache := f.cache.cleanup now } }

/-- Requests for keys about to be served, each by a replica. -/
def Replicas.start (store : Store) (frontends : List Frontend)
    (requests : List (ℕ × RoutingKey)) : Replicas :=
  ⟨store, frontends, requests.map fun r => (r.1, .start r.2)⟩

end Cluster

end StickyProxy
