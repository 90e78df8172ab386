import StickyProxy.Proxy.Model.Serve
/-!
# Serving through an outage

`ServeHTTP` once more, with calls of the store that may fail. A call that
fails never reaches the store, or reaches it and its reply is lost: then
the script has run. The breaker opens, turns half open and closes with the
calls that are made, and the requests come one at a time. Between them the
health checker refreshes the cached list of backends, forwarding succeeds
or fails, and entries of the cache are swept.
-/

namespace StickyProxy

namespace Outage

/-- What becomes of a call of the store. -/
inductive Call where
  | served
  /-- It fails before it reaches the store. -/
  | unreached
  /-- It is executed, and the reply is lost. -/
  | lost
  deriving DecidableEq, Repr

/-- `AssignLeastLoaded`, as the caller sees it. -/
def Call.assignLeastLoaded (call : Call) (order : List Backend) (now : Time) (k : RoutingKey)
    (store : Store) : Option Assignment × Store :=
  match call with
  | .served => store.assignLeastLoaded order now k
  | .unreached => (none, store)
  | .lost => (none, (store.assignLeastLoaded order now k).2)

/-- The call of the store in `assignViaTable`. -/
def assignFromStore (call : Call) (req : Request) (p : Proxy) : Option Backend × Proxy :=
  let (a, store) := call.assignLeastLoaded req.order req.now req.key p.store
  match a with
  | none =>
    match p.redis with
    | none => (none, { p with store := store })
    | some br =>
      let br := br.recordCBFailure req.now
      let fb := br.hashFallback (hashUser req.key)
      (if fb ≠ "" then some fb else none, { p with store := store, redis := some br })
  | some a =>
    (some a.backend, { p with store := store, redis := p.redis.map Breaker.recordCBSuccess })

/-- `assignViaTable`. -/
def assignViaTable (call : Call) (req : Request) (p : Proxy) : Option Backend × Proxy :=
  match p.redis with
  | none => assignFromStore call req p
  | some br =>
    let (cbOpen, br) := br.isCBOpen req.now
    let fb := br.hashFallback (hashUser req.key)
    if cbOpen ∧ fb ≠ "" then (some fb, { p with redis := some br })
    else assignFromStore call req { p with redis := some br }

/-- The mode's choice of a backend. -/
def assign (call : Call) (req : Request) (p : Proxy) : Option Backend × Proxy :=
  match p.routingMode with
  | .assignment => assignViaTable call req p
  | .hash => (Proxy.assignViaHash req, p)

/-- A request without a usable cache entry: assign, remember, hand on. -/
def serveMiss (call : Call) (req : Request) (p : Proxy) : Outcome × Proxy :=
  let (backend, p) := assign call req p
  match backend with
  | none => (.noBackend, p)
  | some b => (Proxy.forward req b, { p with cache := p.cache.set req.now req.key b })

/-- A request whose cached backend is not fit any more. -/
def serveUnfit (call : Call) (req : Request) (p : Proxy) : Outcome × Proxy :=
  match p.poisonPill with
  | none => serveMiss call req { p with cache := p.cache.invalidate req.key }
  | some d =>
    let (blocked, d) := d.recordReassignment req.now req.key
    if blocked then (.quarantined, { p with poisonPill := some d })
    else serveMiss call req { p with poisonPill := some d, cache := p.cache.invalidate req.key }

/-- `ServeHTTP`. -/
def serveHTTP (call : Call) (req : Request) (p : Proxy) : Outcome × Proxy :=
  if ¬ req.allowed then (.rateLimited, p)
  else if (p.poisonPill.map (·.isQuarantined req.key)).getD false then (.quarantined, p)
  else
    let (cached, cache) := p.cache.get req.now req.key
    let p := { p with cache := cache }
    match cached with
    | none => serveMiss call req p
    | some b =>
      let (ok, backends) := p.backends.available req.now b
      let p := { p with backends := backends }
      if ¬ ok ∨ p.isDraining b then serveUnfit call req p else (Proxy.forward req b, p)

inductive Action where
  /-- A request, and what becomes of its call of the store if it makes one. -/
  | serveHTTP (req : Request) (call : Call)
  /-- `ProxyRequest` to a backend. -/
  | proxyRequest (b : Backend) (c : BackendManager.Call)
  /-- `RefreshBackendList`, with the order the store answers in. -/
  | refreshBackendList (order : List Backend)
  /-- A tick of `cleanupLoop`. -/
  | cleanup (now : Time)

def step (p : Proxy) : Action → Option Proxy
  | .serveHTTP req call =>
    if Enumerates req.order p.listed then some (serveHTTP call req p).2 else none
  | .proxyRequest b c => some { p with backends := p.backends.proxyRequest b c }
  | .refreshBackendList order =>
    if Enumerates order p.store.active then
      some { p with redis := p.redis.map fun br => { br with cachedBackends := order } }
    else none
  | .cleanup now => some { p with cache := p.cache.cleanup now }

end Outage

end StickyProxy
