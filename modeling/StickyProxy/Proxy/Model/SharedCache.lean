import StickyProxy.Common.Run
import StickyProxy.Common.Traversal
import StickyProxy.Proxy.Model.UserCache
/-!
# The user cache, step by step

The entries of `UserCache` are in a `sync.Map`, and its methods are made of
the operations of that: `Get` loads an entry, looks at the clock and deletes
an entry that has expired; `Set` looks at the clock and stores; and
`UsersForBackend`, `InvalidateBackend` and a tick of `cleanupLoop` go through
the map by `Range`, deleting or listing as they go. Calls take their steps in
any order. `Range` hands a key out once at most, with what it had at some
point during the call.
-/

namespace StickyProxy

open Traversal

namespace SharedCache

/-- What goes through the map. -/
inductive Job where
  | invalidateBackend (b : Backend)
  | usersForBackend (b : Backend)
  /-- A tick of `cleanupLoop`, with the clock as it read it. -/
  | cleanup (now : Time)
  deriving DecidableEq, Repr

/-- The function given to `Range` deletes the entry. -/
def Job.deletes (job : Job) (entry : CacheEntry) : Bool :=
  match job with
  | .invalidateBackend b => entry.backend = b
  | .usersForBackend _ => false
  | .cleanup now => entry.exp < now

/-- It lists the key. -/
def Job.lists (now : Time) (job : Job) (entry : CacheEntry) : Bool :=
  match job with
  | .usersForBackend b => entry.backend = b ∧ now ≤ entry.exp
  | .invalidateBackend _ | .cleanup _ => false

/-- What a call does next. -/
inductive Call where
  /-- `Get`: `Load`. -/
  | get (k : RoutingKey)
  /-- It looks at the clock. -/
  | loaded (k : RoutingKey) (entry : CacheEntry)
  /-- `Delete`. -/
  | expired (k : RoutingKey)
  | got (k : RoutingKey) (hit : Option CacheEntry)
  /-- `Set`: it looks at the clock. -/
  | set (k : RoutingKey) (b : Backend)
  /-- `Store`. -/
  | store (k : RoutingKey) (entry : CacheEntry)
  /-- `Invalidate`: `Delete`. -/
  | invalidate (k : RoutingKey)
  /-- A tick of `cleanupLoop`: it looks at the clock. -/
  | cleanup
  /-- `Range` begins. -/
  | range (job : Job)
  /-- `Range` hands out a key, with nothing left to delete of the last, or
  ends. -/
  | ranging (job : Job) (tr : Traversal RoutingKey) (delete : Option RoutingKey)
      (found : List RoutingKey)
  /-- It has ended, after so many writes, at a time. -/
  | ranged (job : Job) (tr : Traversal RoutingKey) (found : List RoutingKey) (stop : ℕ)
      (now : Time)
  | done
  deriving DecidableEq, Repr

end SharedCache

open SharedCache in
/-- A `UserCache`: the writes to its map, the clock and the calls. -/
structure SharedCache where
  ttl : Time
  log : List (RoutingKey × Option CacheEntry)
  clock : Time
  calls : List Call
  deriving DecidableEq, Repr

namespace SharedCache

/-- The next step of a call: what it writes, and what it does then. -/
def next (s : SharedCache) : Call → Option (List (RoutingKey × Option CacheEntry) × Call)
  | .get k => some ([], match value s.log k with
    | none => .got k none
    | some entry => .loaded k entry)
  | .loaded k entry => some ([], if entry.exp < s.clock then .expired k else .got k (some entry))
  | .expired k => some ([(k, none)], .got k none)
  | .set k b => some ([], .store k ⟨b, s.clock + s.ttl⟩)
  | .store k entry => some ([(k, some entry)], .done)
  | .invalidate k => some ([(k, none)], .done)
  | .cleanup => some ([], .range (.cleanup s.clock))
  | .range job => some ([], .ranging job (begin s.log) none [])
  | .ranging job tr (some k) found => some ([(k, none)], .ranging job tr none found)
  | .ranging job tr none found =>
    if tr.start ≤ s.log.length ∧ Complete s.log tr then
      some ([], .ranged job tr found s.log.length s.clock)
    else none
  | .got _ _ | .ranged _ _ _ _ _ | .done => none

/-- `Range` hands out a key, with what it had after so many writes. -/
def visit (s : SharedCache) (k : RoutingKey) (t : ℕ) : Call → Option Call
  | .ranging job tr none found =>
    if Covers s.log tr t ∧ k ∉ tr.keys then
      (valueAt s.log t k).map fun entry => .ranging job (tr.visit k t)
        (if job.deletes entry then some k else none)
        (if job.lists s.clock entry then found ++ [k] else found)
    else none
  | _ => none

inductive Action where
  /-- Time passes. -/
  | tick (d : ℕ)
  | next (i : ℕ)
  | visit (i : ℕ) (k : RoutingKey) (t : ℕ)
  deriving DecidableEq, Repr

def step (s : SharedCache) : Action → Option SharedCache
  | .tick d => some { s with clock := s.clock + d }
  | .next i => (s.calls[i]?).bind fun c => (s.next c).map fun r =>
      { s with log := s.log ++ r.1, calls := s.calls.set i r.2 }
  | .visit i k t => (s.calls[i]?).bind fun c => (s.visit k t c).map fun c' =>
      { s with calls := s.calls.set i c' }

/-- A call that has yet to begin. -/
def Call.isNew : Call → Bool
  | .get _ | .set _ _ | .invalidate _ | .cleanup | .range _ => true
  | _ => false

end SharedCache

end StickyProxy
