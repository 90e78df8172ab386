import StickyProxy.Sticky.Model.Keys
import StickyProxy.Proxy.Model.Traffic
import StickyProxy.Proxy.Model.Outage
import StickyProxy.Rebalance.Model.Rebalancer
/-!
# Replicas over Redis, in either mode

Replicas that serve requests over one Redis, which holds the assignments
and the sticky keys. The steps of a request are those of the assignment
mode but for the choice of a backend: `assignViaTable` calls the store and
falls back on the hash over a cached list, `assignViaHash` lists the active
backends. A call may fail; when the breaker is open and what its cached
list comes to is left to the step. Then come the drain of a backend and
its eviction, as far as they go by the sticky keys, each run alone.
-/

namespace StickyProxy

namespace Sticky

open Traffic

/-! ## Requests -/

/-- What a step of a request leaves open. -/
structure Choice extends Traffic.Choice where
  /-- What becomes of the call of the store. -/
  call : Outage.Call
  /-- `isCBOpen`. -/
  cbOpen : Bool
  /-- The answer of `hashFallback`, empty if it has none. -/
  fallback : Backend
  deriving DecidableEq

/-- `assignViaTable`. -/
def assignViaTable (c : Choice) (k : RoutingKey) (store : Store) : Option Backend × Store :=
  if c.cbOpen ∧ c.fallback ≠ "" then (some c.fallback, store)
  else
    let (a, store) := c.call.assignLeastLoaded c.order c.now k store
    match a with
    | some a => (some a.backend, store)
    | none => (if c.fallback ≠ "" then some c.fallback else none, store)

/-- `assignViaHash`. -/
def assignViaHash (c : Choice) (k : RoutingKey) : Option Backend :=
  match c.call with
  | .served => pick (hashUser k) (sortStrings c.order)
  | .unreached | .lost => none

/-- The mode's choice of a backend. -/
def assign (mode : RoutingMode) (c : Choice) (k : RoutingKey) (store : Store) :
    Option (Option Backend × Store) :=
  match mode with
  | .assignment =>
    if Enumerates c.order store.candidates then some (assignViaTable c k store) else none
  | .hash => if Enumerates c.order store.active then some (assignViaHash c k, store) else none

/-- The next step of a request, beside what it leaves of the store and of
its replica. -/
def requestStep (mode : RoutingMode) (c : Choice) (store : Store) (f : Frontend) :
    RequestStep → Option (RequestStep × Store × Frontend)
  | .assign k =>
    (assign mode c k store).map fun t =>
      match t.1 with
      | some b => (.set k b, t.2, f)
      | none => (.refused k, t.2, f)
  | q => Traffic.requestStep c.toChoice store f q

/-! ## Replicas -/

/-- The store, the sticky keys, what the requests of each replica share,
and the requests, each with the replica that serves it. -/
structure Replicas where
  store : Store
  strings : Strings
  frontends : List Frontend
  requests : List (ℕ × RequestStep)

inductive Action where
  /-- A request takes its next step. -/
  | request (i : ℕ) (c : Choice)
  /-- A tick of `cleanupLoop` on a replica. -/
  | cleanup (r : ℕ) (now : Time)
  /-- A discovery adds a backend. -/
  | addBackend (b : Backend)
  /-- A discovery or the health checker removes one. -/
  | removeBackend (b : Backend)
  deriving DecidableEq

def step (mode : RoutingMode) (s : Replicas) : Action → Option Replicas
  | .request i c =>
    (s.requests[i]?).bind fun p => (s.frontends[p.1]?).bind fun f =>
      (requestStep mode c s.store f p.2).map fun t =>
        { s with
          store := t.2.1
          frontends := s.frontends.set p.1 t.2.2
          requests := s.requests.set i (p.1, t.1) }
  | .cleanup r now => some { s with
      frontends := s.frontends.modify r fun f => { f with cache := f.cache.cleanup now } }
  | .addBackend b => some { s with store := s.store.addBackend b }
  | .removeBackend b => some { s with store := s.store.removeBackend b }

/-- The proxies have just started: the caches are empty and the requests
about to be served. -/
structure Replicas.Fresh (s : Replicas) : Prop where
  redis : ∃ r, s.store = .redis r
  caches : ∀ f ∈ s.frontends, f.cache.data = ∅
  requests : ∀ p ∈ s.requests, ∃ k, p.2 = .start k

/-! ## Drain and eviction -/

/-- What an operation has done: the unassign hooks it has sent, the keys
whose connections it has closed, and what it leaves behind. -/
structure Effects where
  sendUnassign : List (Backend × List RoutingKey)
  closeConns : List RoutingKey
  published : List Backend
  store : Store
  strings : Strings
  frontend : Frontend

/-- The account is named in an unassign hook of the backend. -/
def Effects.Unassigned (e : Effects) (b : Backend) (u : RoutingKey) : Prop :=
  ∃ users, (b, users) ∈ e.sendUnassign ∧ u ∈ users

/-- `drain` in hash mode, with hooks and a connection tracker. -/
def drain (pages : List (List String)) (b : Backend) (store : Store) (strings : Strings)
    (f : Frontend) : Effects :=
  let users := getUsersForBackend pages b strings
  { sendUnassign := if users = [] then [] else [(b, users)]
    closeConns := users
    published := [b]
    store := store.removeBackend b
    strings := bulkDeleteSticky users strings
    frontend := { Rebalance.invalidate users f with
      holds := clearTransition users (markTransition users f.holds) } }

/-- `invalidateStickyMappings` in hash mode, with hooks and the cache; the
keys are scanned twice. It closes no connection. -/
def invalidateStickyMappings (pages pages' : List (List String)) (b : Backend) (store : Store)
    (strings : Strings) (f : Frontend) : Effects :=
  let users := getUsersForBackend pages b strings
  { sendUnassign := if users = [] then [] else [(b, users)]
    closeConns := []
    published := [b]
    store := store
    strings := invalidateBackend pages' b strings
    frontend := { f with cache := f.cache.invalidateBackend b } }

/-- **Every account cached on a backend is found.** The list a drain or an
eviction of the backend obtains has it, both name it in their hook, and
the drain closes its connections. -/
def Found (s : Replicas) : Prop :=
  ∀ f ∈ s.frontends, ∀ u entry, f.cache.data.lookup u = some entry →
    ∀ pages, Scans pages s.strings →
      u ∈ getUsersForBackend pages entry.backend s.strings ∧
      (drain pages entry.backend s.store s.strings f).Unassigned entry.backend u ∧
      u ∈ (drain pages entry.backend s.store s.strings f).closeConns ∧
      ∀ pages', (invalidateStickyMappings pages pages' entry.backend s.store s.strings
        f).Unassigned entry.backend u

end Sticky

end StickyProxy
