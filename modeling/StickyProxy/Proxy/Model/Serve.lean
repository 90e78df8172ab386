import StickyProxy.Store.Model.Interface
import StickyProxy.Proxy.Model.Backends
import StickyProxy.Proxy.Model.UserCache
import StickyProxy.Proxy.Model.Breaker
import StickyProxy.Proxy.Model.PoisonPill
/-!
# Serving a request

`ServeHTTP` for an authenticated request, up to the backend it hands the
request to. One reading of the clock stands for all those of a request,
the verdict of the rate limiter comes with it, and so does the order the
store lists its backends in. A request held during a transition has
been let go.
-/

namespace StickyProxy

/-- `ROUTING_MODE`. -/
inductive RoutingMode where
  | assignment
  | hash
  deriving DecidableEq, Repr

/-- The fields of `Proxy` that routing reads. The breaker is there with
the Redis store, `draining` with a drain manager and the detector when
quarantine is configured. -/
structure Proxy where
  store : Store
  cache : UserCache
  backends : BackendManager
  draining : Option (Finset Backend)
  redis : Option Breaker
  poisonPill : Option PoisonPillDetector
  routingMode : RoutingMode

/-- An authenticated request. -/
structure Request where
  key : RoutingKey
  now : Time
  /-- The verdict of the rate limiter. -/
  allowed : Bool
  /-- The order the store lists its backends in. -/
  order : List Backend
  isWS : Bool

/-- How a request ends in `ServeHTTP`. -/
inductive Outcome where
  | rateLimited
  | quarantined
  | noBackend
  /-- Handed to `ProxyRequest`. -/
  | proxyRequest (b : Backend)
  /-- Handed to `proxyWebSocket`. -/
  | proxyWebSocket (b : Backend)
  deriving DecidableEq, Repr

/-- The backend a request is handed to. -/
def Outcome.selected : Outcome → Option Backend
  | .proxyRequest b => some b
  | .proxyWebSocket b => some b
  | _ => none

namespace Proxy

/-- `p.drain != nil && p.drain.IsDraining(backend)`. -/
def isDraining (b : Backend) (p : Proxy) : Bool :=
  match p.draining with
  | some draining => b ∈ draining
  | none => false

/-- The call of the store in `assignViaTable`, with what the breaker makes
of it. -/
def assignFromStore (req : Request) (p : Proxy) : Option Backend × Proxy :=
  let (a, store) := p.store.assignLeastLoaded req.order req.now req.key
  match a with
  | none =>
    match p.redis with
    | none => (none, { p with store := store })
    | some br =>
      let br := br.recordCBFailure req.now
      let fb := br.hashFallback (hashUser req.key)
      (if fb ≠ "" then some fb else none, { p with store := store, redis := some br })
  | some a =>
    (some a.backend, { p with store := store, redis := p.redis.map Breaker.recordCBSuccess })

/-- `assignViaTable`: over the cached list while the breaker is open,
otherwise from the store. -/
def assignViaTable (req : Request) (p : Proxy) : Option Backend × Proxy :=
  match p.redis with
  | none => p.assignFromStore req
  | some br =>
    let (cbOpen, br) := br.isCBOpen req.now
    let fb := br.hashFallback (hashUser req.key)
    if cbOpen ∧ fb ≠ "" then (some fb, { p with redis := some br })
    else assignFromStore req { p with redis := some br }

/-- `assignViaHash`: the hash over the active list, sorted. -/
def assignViaHash (req : Request) : Option Backend :=
  pick (hashUser req.key) (sortStrings req.order)

/-- The backends the store lists, or chooses from, in the order of the
request. -/
def listed (p : Proxy) : Finset Backend :=
  match p.routingMode with
  | .assignment => p.store.candidates
  | .hash => p.store.active

/-- The mode's choice of a backend. -/
def assign (req : Request) (p : Proxy) : Option Backend × Proxy :=
  match p.routingMode with
  | .assignment => p.assignViaTable req
  | .hash => (assignViaHash req, p)

/-- The request is handed on. -/
def forward (req : Request) (b : Backend) : Outcome :=
  if req.isWS then .proxyWebSocket b else .proxyRequest b

/-- A request without a usable cache entry: assign, remember, hand on. -/
def serveMiss (req : Request) (p : Proxy) : Outcome × Proxy :=
  let (backend, p) := p.assign req
  match backend with
  | none => (.noBackend, p)
  | some b => (forward req b, { p with cache := p.cache.set req.now req.key b })

/-- A request whose cached backend is not fit any more. -/
def serveUnfit (req : Request) (p : Proxy) : Outcome × Proxy :=
  match p.poisonPill with
  | none => serveMiss req { p with cache := p.cache.invalidate req.key }
  | some d =>
    let (blocked, d) := d.recordReassignment req.now req.key
    if blocked then (.quarantined, { p with poisonPill := some d })
    else serveMiss req { p with poisonPill := some d, cache := p.cache.invalidate req.key }

/-- `ServeHTTP`, from the rate limiter on. -/
def serveHTTP (req : Request) (p : Proxy) : Outcome × Proxy :=
  if ¬ req.allowed then (.rateLimited, p)
  else if (p.poisonPill.map (·.isQuarantined req.key)).getD false then (.quarantined, p)
  else
    let (cached, cache) := p.cache.get req.now req.key
    let p := { p with cache := cache }
    match cached with
    | none => serveMiss req p
    | some b =>
      let (ok, backends) := p.backends.available req.now b
      let p := { p with backends := backends }
      if ¬ ok ∨ p.isDraining b then serveUnfit req p else (forward req b, p)

end Proxy

end StickyProxy
