import StickyProxy.Sticky.Model.Replicas
/-!
# The ownership checkers

A backend runs a `Checker` over the Redis of the proxy: every now and then
it takes a pass over the users it tracks, reads their sticky keys in
batches, and gives up those whose key is missing or has another address.
Checkers and replicas run side by side. A pass may begin at any time; its
snapshot, each `MGET` and each verdict are steps of their own, and between
them the replicas serve requests and the backend tracks and untracks
users.
-/

namespace StickyProxy

namespace Ownership

open Sticky

/-- `batchSize`. -/
def batchSize : ℕ := 1000

/-- How far a pass is. -/
inductive Pass where
  | idle
  /-- `checkBatch` of the first batch left. -/
  | batches (todo : List (List RoutingKey))
  /-- What an `MGET` has returned, for the first user left, and the batches
  after it. -/
  | vals (vals : List (RoutingKey × Option String)) (todo : List (List RoutingKey))
  deriving DecidableEq, Repr

/-- Go's `Checker`, with the pass under way and the calls of `OnEvict`. -/
structure Checker where
  myAddr : Backend
  users : Finset RoutingKey
  pass : Pass
  evicted : List RoutingKey
  deriving DecidableEq

/-- The batches of a snapshot. -/
def batches (userIDs : List RoutingKey) : List (List RoutingKey) :=
  (List.range ((userIDs.length + batchSize - 1) / batchSize)).map fun i =>
    (userIDs.drop (i * batchSize)).take batchSize

/-- `val.(string)`: nothing is read as the empty string. -/
def owner (val : Option String) : Backend := val.getD ""

/-- What a step of a pass leaves open: the order the users are listed in,
and whether the `MGET` succeeds. -/
structure Turn where
  userIDs : List RoutingKey
  ok : Bool
  deriving DecidableEq, Repr

namespace Checker

/-- `Track`. -/
def track (userID : RoutingKey) (c : Checker) : Checker := { c with users := insert userID c.users }

/-- `Untrack`. -/
def untrack (userID : RoutingKey) (c : Checker) : Checker :=
  { c with users := c.users.erase userID }

/-- The next step of `check`. -/
def check (strings : Strings) (t : Turn) (c : Checker) : Option Checker :=
  match c.pass with
  | .idle =>
    if Enumerates t.userIDs c.users then
      some (if t.userIDs = [] then c else { c with pass := .batches (batches t.userIDs) })
    else none
  | .batches [] => some { c with pass := .idle }
  | .batches (userIDs :: todo) => some { c with
      pass := if t.ok then .vals (userIDs.map fun uid => (uid, strings.lookup (stickyKey uid))) todo
        else .batches todo }
  | .vals [] todo => some { c with pass := .batches todo }
  | .vals ((uid, val) :: vals) todo =>
    if owner val = c.myAddr then some { c with pass := .vals vals todo }
    else some { c with
      users := c.users.erase uid
      pass := .vals vals todo
      evicted := c.evicted ++ [uid] }

/-- The user the next step calls `OnEvict` for. -/
def evicts (c : Checker) : Option RoutingKey :=
  match c.pass with
  | .vals ((uid, val) :: _) _ => if owner val = c.myAddr then none else some uid
  | _ => none

end Checker

/-- The replicas, and the checkers of the backends. -/
structure System where
  replicas : Replicas
  checkers : List Checker

inductive Action where
  /-- The replicas take a step. -/
  | proxy (act : Sticky.Action)
  | track (i : ℕ) (userID : RoutingKey)
  | untrack (i : ℕ) (userID : RoutingKey)
  /-- A checker takes the next step of its pass, or begins one. -/
  | check (i : ℕ) (t : Turn)
  deriving DecidableEq

def step (mode : RoutingMode) (s : System) : Action → Option System
  | .proxy act => (Sticky.step mode s.replicas act).map fun replicas =>
      { s with replicas := replicas }
  | .track i userID => some { s with checkers := s.checkers.modify i fun c => c.track userID }
  | .untrack i userID => some { s with checkers := s.checkers.modify i fun c => c.untrack userID }
  | .check i t =>
    (s.checkers[i]?).bind fun c => (c.check s.replicas.strings t).map fun c' =>
      { s with checkers := s.checkers.set i c' }

/-- The proxy routes the account to the backend: a cache entry or the
stored assignment names it. -/
def Routed (s : Replicas) (u : RoutingKey) (b : Backend) : Prop :=
  (∃ f ∈ s.frontends, ∃ entry ∈ f.cache.data.lookup u, entry.backend = b) ∨
    ∃ a ∈ s.store.getAssignment u, a.backend = b

instance (s : Replicas) (u : RoutingKey) (b : Backend) : Decidable (Routed s u b) :=
  inferInstanceAs (Decidable ((∃ f ∈ s.frontends, ∃ entry ∈ f.cache.data.lookup u,
    entry.backend = b) ∨ ∃ a ∈ s.store.getAssignment u, a.backend = b))

/-- **No checker is about to evict a user it tracks and the proxy routes to
it.** -/
def System.Sound (s : System) : Prop :=
  ∀ c ∈ s.checkers, ∀ u ∈ c.evicts, u ∈ c.users → ¬ Routed s.replicas u c.myAddr

/-- The steps the replicas take in a schedule of the whole. -/
def proxyActions (acts : List Action) : List Sticky.Action :=
  acts.filterMap fun act => match act with
    | .proxy act => some act
    | _ => none

end Ownership

end StickyProxy
