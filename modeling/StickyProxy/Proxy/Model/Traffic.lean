import StickyProxy.Store.Model.Interface
import StickyProxy.Proxy.Model.UserCache
/-!
# Requests, step by step

`ServeHTTP` in assignment mode as the steps a request takes on a replica,
each of them alone: the wait for a transition to end, the read of the
cache, the check of what was cached, the call of the store, the write of
the cache. No call of the store fails, so the Redis breaker stays closed.
What the step does not decide, the verdicts of the rate limiter and the
detectors, whether a hold has timed out, the time, and the order the store
lists its candidates in, is left to the choice that comes with it.
-/

namespace StickyProxy

/-- `MarkTransition`: the keys held, with those given. -/
def markTransition (keys : List RoutingKey) (holds : Finset RoutingKey) : Finset RoutingKey :=
  holds ∪ keys.toFinset

/-- `ClearTransition`: the keys given are let go, whoever marked them. -/
def clearTransition (keys : List RoutingKey) (holds : Finset RoutingKey) : Finset RoutingKey :=
  holds \ keys.toFinset

namespace Traffic

/-- What the requests of a replica share: the user cache, and the keys the
`HoldManager` holds (none without one). -/
structure Frontend where
  cache : UserCache
  holds : Finset RoutingKey

/-- What a request for a key does next. -/
inductive RequestStep where
  /-- The rate limiter, and the quarantine. -/
  | start (k : RoutingKey)
  /-- `holdMgr.Wait`: is the key in transition? -/
  | wait (k : RoutingKey)
  /-- It is: wait for the end of the transition, or the timeout. -/
  | held (k : RoutingKey)
  /-- `cache.Get`. -/
  | get (k : RoutingKey)
  /-- `Available` and `IsDraining` of the cached backend. -/
  | check (k : RoutingKey) (b : Backend)
  /-- `RecordReassignment`, then `cache.Invalidate`. -/
  | unfit (k : RoutingKey)
  /-- `AssignLeastLoaded`. -/
  | assign (k : RoutingKey)
  /-- `cache.Set`. -/
  | set (k : RoutingKey) (b : Backend)
  /-- Handed to the backend. -/
  | forwarded (k : RoutingKey) (b : Backend)
  /-- Answered without a backend. -/
  | refused (k : RoutingKey)
  deriving DecidableEq, Repr

/-- The request has been answered. -/
def RequestStep.Finished : RequestStep → Prop
  | .forwarded _ _ | .refused _ => True
  | _ => False

/-- What a step of a request leaves open. -/
structure Choice where
  now : Time
  order : List Backend
  ok : Bool
  deriving DecidableEq

/-- The next step of a request, beside what it leaves of the store and of
its replica. -/
def requestStep (c : Choice) (s : Store) (f : Frontend) :
    RequestStep → Option (RequestStep × Store × Frontend)
  | .start k => some (if c.ok then .wait k else .refused k, s, f)
  | .wait k => some (if k ∈ f.holds then .held k else .get k, s, f)
  | .held k => if c.ok ∨ k ∉ f.holds then some (.get k, s, f) else none
  | .get k =>
    match f.cache.get c.now k with
    | (none, cache) => some (.assign k, s, { f with cache := cache })
    | (some b, cache) => some (.check k b, s, { f with cache := cache })
  | .check k b => some (if c.ok then .forwarded k b else .unfit k, s, f)
  | .unfit k =>
    if c.ok then some (.assign k, s, { f with cache := f.cache.invalidate k })
    else some (.refused k, s, f)
  | .assign k =>
    if Enumerates c.order s.candidates then
      match s.assignLeastLoaded c.order c.now k with
      | (some a, s') => some (.set k a.backend, s', f)
      -- The call would have failed.
      | (none, _) => none
    else none
  | .set k b => some (.forwarded k b, s, { f with cache := f.cache.set c.now k b })
  | .forwarded _ _ => none
  | .refused _ => none

end Traffic

end StickyProxy
