import StickyProxy.Store.Model.Interface
/-!
# Backends from DNS

`BackendDiscovery.reconcile` resolves a host name, reads the active set,
adds what was resolved and is not active, and removes what is active and
was not resolved. The calls a discovery makes are an ordinary type, since
the Kubernetes discovery makes the same ones and two more.
-/

namespace StickyProxy

/-- `net.JoinHostPort`: a host with a colon is an IPv6 address. -/
def joinHostPort (host port : String) : String :=
  if ':' ∈ host.toList then "[" ++ host ++ "]:" ++ port else host ++ ":" ++ port

/-- A call of a discovery. -/
inductive DiscoveryCall where
  | cancelDrain (b : Backend)
  | addBackend (b : Backend)
  | startDrain (b : Backend)
  | removeBackend (b : Backend)
  deriving DecidableEq, Repr

/-- What a call does to the active set. A drain that is started removes its
backend later. -/
def DiscoveryCall.run (store : Store) : DiscoveryCall → Store
  | .addBackend b => store.addBackend b
  | .removeBackend b => store.removeBackend b
  | .cancelDrain _ | .startDrain _ => store

/-- How a call of the store ends. -/
inductive CallOutcome where
  | ok
  /-- It fails. -/
  | failed
  /-- It takes effect, but an error is reported. -/
  | unheard
  deriving DecidableEq, Repr

/-- The store after a call. -/
def CallOutcome.run (o : CallOutcome) (store : Store) (c : DiscoveryCall) : Store :=
  if o = .failed then store else c.run store

namespace Dns

/-- How far a reconcile is. -/
inductive Phase where
  | idle
  /-- `LookupHost` has answered. -/
  | resolved (discovered : Finset Backend)
  /-- The calls that are left. -/
  | reconciling (calls : List DiscoveryCall)

/-- The backends at the addresses of the host. -/
def discovered (port : String) (ips : List String) : Finset Backend :=
  (ips.map fun ip => "http://" ++ joinHostPort ip port).toFinset

/-- The calls of a reconcile, the discovered backends gone through in the
order given. -/
def calls (discovered : Finset Backend) (order current : List Backend) : List DiscoveryCall :=
  (order.filter fun b => b ∉ current).map .addBackend ++
    (current.filter fun b => b ∉ discovered).map .removeBackend

end Dns

end StickyProxy
