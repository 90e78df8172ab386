import StickyProxy.Redis.Model.Keyspace
/-!
# Redis — calls as the commands they send

A pipeline is not a transaction: between two of its commands any other
client may be served. A call in progress is therefore the command it
sends next, with what it has read and what it has still to write, and a
system is a keyspace with a pool of calls, of any number of replicas. A
script is one command. A step of a call with no command left to send, or
with only its own bookkeeping to do, leaves the keyspace alone.
-/

namespace StickyProxy

namespace Redis

/-- A call in progress, named after what it does next. -/
inductive Call where
  /-- `SADD`. -/
  | addBackend (b : Backend)
  /-- `SREM`. -/
  | removeBackend (b : Backend)
  /-- `EVALSHA` of `assign.lua`. -/
  | assignViaTable (members : List Backend) (now : Time) (k : RoutingKey)
  /-- `DeleteAssignment`: `HGET`. -/
  | deleteAssignment (k : RoutingKey)
  /-- `BulkAssign`, phase 1: `HSETNX` of the first entry left; `counts`
  is the weight set so far. -/
  | hsetnx (now : Time) (todo : List (RoutingKey × BulkAssignEntry)) (counts : Table Backend ℤ)
  /-- `BulkDeleteAssignments`, phase 1: `HGET` of the first key left. -/
  | hget (todo : List RoutingKey) (read : List (RoutingKey × Assignment))
  /-- `HDEL` of the keys read. -/
  | hdel (read : List (RoutingKey × Assignment))
  /-- `HINCRBY` of the first amount left. -/
  | hincrby (todo : List (Backend × ℤ))
  /-- `ReconcileAssignmentCounts`: `HGETALL`. -/
  | reconcileAssignmentCounts
  /-- `DEL` of the counts. -/
  | del (totals : Table Backend ℤ)
  /-- `HSET` of the first total left. -/
  | hset (todo : List (Backend × ℤ))
  | returned

/-- A call as it starts. -/
def Call.start : Op → Call
  | .addBackend b => .addBackend b
  | .removeBackend b => .removeBackend b
  | .assignViaTable members now k => .assignViaTable members now k
  | .deleteAssignment k => .deleteAssignment k
  | .bulkAssign now entries => .hsetnx now entries.pairs ∅
  | .bulkDeleteAssignments keys => .hget keys []
  | .reconcileAssignmentCounts => .reconcileAssignmentCounts

/-- The next step of a call: its command served, and what it does next. -/
def Call.step (r : Keyspace) : Call → Option (Call × Keyspace)
  | .addBackend b => some (.returned, Redis.addBackend b r)
  | .removeBackend b => some (.returned, Redis.removeBackend b r)
  | .assignViaTable members now k =>
    if Enumerates members r.active then some (.returned, (assignScript members now k r).2)
    else none
  | .deleteAssignment k =>
    match getAssignment k r with
    | none => some (.returned, r)
    | some a => some (.hdel [(k, a)], r)
  | .hsetnx _ [] counts => some (.hincrby counts.pairs, r)
  | .hsetnx now ((k, e) :: todo) counts =>
    if (r.assignments.lookup k).isSome then some (.hsetnx now todo counts, r)
    else some (.hsetnx now todo (counts.bump e.backend e.storedWeight),
      { r with assignments := r.assignments.insert k (bulkValue now e) })
  | .hget [] read => some (.hdel read, r)
  | .hget (k :: todo) read =>
    some (.hget todo (read ++ ((getAssignment k r).map fun a => (k, a)).toList), r)
  | .hdel read => some (.hincrby (decrements read),
      { r with assignments := r.assignments.eraseAll (read.map Prod.fst) })
  | .hincrby [] => some (.returned, r)
  | .hincrby ((b, n) :: todo) => some (.hincrby todo, { r with counts := r.counts.bump b n })
  | .reconcileAssignmentCounts => some (.del (recount r), r)
  | .del totals => some (.hset totals.pairs, { r with counts := ∅ })
  | .hset [] => some (.returned, r)
  | .hset ((b, n) :: todo) => some (.hset todo, { r with counts := r.counts.insert b n })
  | .returned => none

/-- A keyspace and the calls in progress on it. -/
structure System where
  keyspace : Keyspace
  calls : List Call

/-- One call of the pool takes its next step. -/
def System.step (s : System) (client : ℕ) : Option System :=
  (s.calls[client]?).bind fun c => (c.step s.keyspace).map fun p =>
    ⟨p.2, s.calls.set client p.1⟩

/-- Calls about to start on a keyspace. -/
def System.start (r : Keyspace) (ops : List Op) : System := ⟨r, ops.map Call.start⟩

/-- Every call has returned. -/
def System.Returned (s : System) : Prop := ∀ c ∈ s.calls, c = .returned

end Redis

end StickyProxy
