import StickyProxy.Proxy.Model.Serve
/-!
# Public paths

`servePublic` forwards a request without a routing key to a backend chosen
by the address of the client. The backend may announce a routing key in a
header of its response; the header is taken out, and `bindStickyKey` binds
the key to the backend that answered. The hook goes out from a goroutine of
its own, so it is recorded when it is started.
-/

namespace StickyProxy

namespace PublicPath

/-- A replica: what routing reads, whether it has a `HookClient`, and the
calls of `SendAssign` it has made. -/
structure Replica where
  proxy : Proxy
  hooks : Bool
  sendAssign : List (Backend × List RoutingKey)

/-- How a call of `BulkAssign` ends. One that fails may have done anything
to the store, all of its work included. -/
inductive BulkAssign where
  | succeeds
  | fails (left : Store)

/-- A request to a public path, with what is answered to it. -/
structure Request where
  remoteAddr : String
  now : Time
  /-- The backends in the order the store lists them, if it does. -/
  activeBackends : Option (List Backend)
  /-- When the request is forwarded, and how that ends. -/
  call : BackendManager.Call
  /-- The value of the header at each `WriteHeader`, empty if there is none:
  informational responses come before the one that counts. -/
  headers : List String
  bulkAssign : BulkAssign

/-- How a request ends in `servePublic`. -/
inductive Outcome where
  | noBackend
  /-- Handed to `ProxyRequest`; the key the writer has caught, empty if none. -/
  | proxyRequest (b : Backend) (routingKey : RoutingKey)
  deriving DecidableEq, Repr

/-- `stickyResponseWriter.WriteHeader`: the last key that is not empty. -/
def writeHeader (routingKey : RoutingKey) (key : String) : RoutingKey :=
  if key ≠ "" then key else routingKey

/-- The key caught while the request is proxied. A backend that is not
available is not asked, and the error that is written has no such header. -/
def routingKey (req : Request) (b : Backend) (m : BackendManager) : RoutingKey :=
  if (m.available req.call.start b).1 then req.headers.foldl writeHeader "" else ""

/-- `ProxyRequest` on a replica. -/
def Replica.proxyRequest (b : Backend) (call : BackendManager.Call) (s : Replica) : Replica :=
  { s with proxy := { s.proxy with backends := s.proxy.backends.proxyRequest b call } }

/-- The store after `BulkAssign`. -/
def BulkAssign.left (call : BulkAssign) (now : Time) (entries : Table RoutingKey BulkAssignEntry)
    (store : Store) : Store :=
  match call with
  | .succeeds => (store.bulkAssign now entries).2
  | .fails left => left

/-- `bindStickyKey`. A failed call is logged and no more. -/
def bindStickyKey (call : BulkAssign) (now : Time) (k : RoutingKey) (b : Backend) (s : Replica) :
    Replica :=
  let cache := s.proxy.cache.set now k b
  let store := match s.proxy.routingMode with
    | .assignment => call.left now (Table.insertAll ∅ [(k, ⟨b, 1⟩)]) s.proxy.store
    | .hash => s.proxy.store
  { s with
    proxy := { s.proxy with cache := cache, store := store }
    sendAssign := if s.hooks then s.sendAssign ++ [(b, [k])] else s.sendAssign }

/-- `servePublic`. -/
def servePublic (req : Request) (s : Replica) : Outcome × Replica :=
  match req.activeBackends with
  | none => (.noBackend, s)
  | some backends =>
    match pick (hashUser req.remoteAddr) (sortStrings backends) with
    | none => (.noBackend, s)
    | some b =>
      let k := routingKey req b s.proxy.backends
      let s := s.proxyRequest b req.call
      (.proxyRequest b k, if k ≠ "" then bindStickyKey req.bulkAssign req.now k b s else s)

end PublicPath

end StickyProxy
