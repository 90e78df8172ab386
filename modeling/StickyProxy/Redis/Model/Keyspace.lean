import StickyProxy.Common.Table
import StickyProxy.Model.Assignment
import Mathlib.Data.Finset.Basic
/-!
# Redis — the assignment table

The three Redis keys assignment mode lives in, and the operations of the
Redis client on them, each as the state it leaves when it runs alone and
no command fails. `SMEMBERS` lists the active set in any order, so the
order it answers in is an argument. A Go map is a `Table`, its entries
in the order the loop visits them.
-/

namespace StickyProxy

namespace Redis

/-- The hash `assignments`, the hash `assignment:counts` and the set
`backends:active`. -/
structure Keyspace where
  assignments : Table RoutingKey Value
  counts : Table Backend ℤ
  active : Finset Backend

/-- No assignment, no count, no backend. -/
def Keyspace.empty : Keyspace := ⟨∅, ∅, ∅⟩

/-- The effective weight of the assignments to one backend. -/
def Keyspace.weightOn (r : Keyspace) (b : Backend) : ℤ :=
  r.assignments.total fun _ v => v.weightOn b

/-- `AddBackend`: `SADD`. -/
def addBackend (b : Backend) (r : Keyspace) : Keyspace := { r with active := insert b r.active }

/-- `RemoveBackend`: `SREM`. -/
def removeBackend (b : Backend) (r : Keyspace) : Keyspace := { r with active := r.active.erase b }

/-! ## The script `assign.lua` -/

/-- The script's loop over the members: the first of least count, an
absent count read as zero. -/
def leastLoaded (counts : Table Backend ℤ) (members : List Backend) : Option Backend :=
  counts.least members

/-- Parts 2 to 4 of the script: select a backend and assign the key to
it with weight one, or answer nil when no backend is active. -/
def assignNew (members : List Backend) (now : Time) (k : RoutingKey) (r : Keyspace) :
    Option Value × Keyspace :=
  match leastLoaded r.counts members with
  | none => (none, r)
  | some selected =>
    let value := Value.record ⟨selected, now, "assignment", some 1⟩
    (some value, { r with
      assignments := r.assignments.insert k value
      counts := r.counts.bump selected 1 })

/-- Part 1 of the script: drop the stale assignment `d` of the key. -/
def dropStale (k : RoutingKey) (d : Record) (r : Keyspace) : Keyspace :=
  { r with
    assignments := r.assignments.erase k
    counts := r.counts.bump d.backend (-d.staleWeight) }

/-- `assign.lua`. A value that does not decode stops the script before
it writes. -/
def assignScript (members : List Backend) (now : Time) (k : RoutingKey) (r : Keyspace) :
    Option Value × Keyspace :=
  match r.assignments.lookup k with
  | none => assignNew members now k r
  | some (.malformed _) => (none, r)
  | some (.record d) =>
    if d.backend ∈ r.active then (some (.record d), r)
    else assignNew members now k (dropStale k d r)

/-- `AssignViaTable`: nothing when the script fails or answers nil. -/
def assignViaTable (members : List Backend) (now : Time) (k : RoutingKey) (r : Keyspace) :
    Option Assignment × Keyspace :=
  let (value, r') := assignScript members now k r
  (value.bind unmarshalAssignment, r')

/-! ## Reading the table -/

/-- `GetAssignment`. -/
def getAssignment (k : RoutingKey) (r : Keyspace) : Option Assignment :=
  (r.assignments.lookup k).bind unmarshalAssignment

/-- `GetAllAssignments`: values that do not decode are left out. -/
def getAllAssignments (r : Keyspace) : Table RoutingKey Assignment :=
  r.assignments.mapPartial unmarshalAssignment

/-- `GetBackendUsersFromTable`, of a scan that returns every field once. -/
def getBackendUsers (b : Backend) (r : Keyspace) : List RoutingKey :=
  ((getAllAssignments r).pairs.filter fun p => p.2.backend = b).map Prod.fst

/-- `GetBackendUsersFromTable`, of the fields and values the replies of its
`HSCAN`s have in them, one after another. A field may be in more than one of
them. -/
def getBackendUsersFromTable (b : Backend) (scanned : List (RoutingKey × Value)) :
    List RoutingKey :=
  scanned.filterMap fun p => (unmarshalAssignment p.2).bind fun a =>
    if a.backend = b then some p.1 else none

/-! ## Writing it from Go -/

/-- `DeleteAssignment`, and whether it succeeds: a missing key or a value
that does not decode is an error. -/
def deleteAssignment (k : RoutingKey) (r : Keyspace) : Bool × Keyspace :=
  match getAssignment k r with
  | none => (false, r)
  | some a => (true, { r with
      assignments := r.assignments.erase k
      counts := r.counts.bump a.backend (-a.effectiveWeight) })

/-- The value `BulkAssign` sets for an entry. -/
def bulkValue (now : Time) (e : BulkAssignEntry) : Value :=
  marshalAssignment ⟨e.backend, now, "assignment", e.storedWeight⟩

/-- Phase 1 of `BulkAssign`: `HSETNX` every entry. Beside the hash, the
entries whose command reported success. -/
def hsetnxAll (now : Time) (entries : List (RoutingKey × BulkAssignEntry))
    (t : Table RoutingKey Value) : List (RoutingKey × BulkAssignEntry) × Table RoutingKey Value :=
  Table.insertNew (bulkValue now) entries t

/-- `BulkAssign`: phase 1, then one `HINCRBY` for each backend with the
weight it gained. The answer maps the keys assigned to their backends. -/
def bulkAssign (now : Time) (entries : Table RoutingKey BulkAssignEntry) (r : Keyspace) :
    Table RoutingKey Backend × Keyspace :=
  let (set, assignments) := hsetnxAll now entries.pairs r.assignments
  let counts := Table.gather (set.map fun p => (p.2.backend, p.2.storedWeight))
  (Table.insertAll ∅ (set.map fun p => (p.1, p.2.backend)), { r with
    assignments := assignments
    counts := r.counts.bumpAll counts.pairs })

/-- Phase 1 of `BulkDeleteAssignments`: the keys whose value was read,
with what was read. -/
def readAll (keys : List RoutingKey) (r : Keyspace) : List (RoutingKey × Assignment) :=
  keys.filterMap fun k => (getAssignment k r).map fun a => (k, a)

/-- The decrements of phase 2: for each backend, the weight read. -/
def decrements (read : List (RoutingKey × Assignment)) : List (Backend × ℤ) :=
  (Table.gather (read.map fun p => (p.2.backend, p.2.effectiveWeight))).pairs.map
    fun p => (p.1, -p.2)

/-- `BulkDeleteAssignments`: one `HDEL` of the keys read, then the
decrements. -/
def bulkDeleteAssignments (keys : List RoutingKey) (r : Keyspace) : Keyspace :=
  let read := readAll keys r
  { r with
    assignments := r.assignments.eraseAll (read.map Prod.fst)
    counts := r.counts.bumpAll (decrements read) }

/-- The totals `ReconcileAssignmentCounts` computes. -/
def recount (r : Keyspace) : Table Backend ℤ :=
  Table.gather ((getAllAssignments r).pairs.map fun p => (p.2.backend, p.2.effectiveWeight))

/-- `ReconcileAssignmentCounts`: `DEL`, then `HSET` every total. -/
def reconcileAssignmentCounts (r : Keyspace) : Keyspace :=
  { r with counts := Table.insertAll ∅ (recount r).pairs }

/-! ## Histories -/

/-- An operation of a history, with the time it reads and the order a
reply of `SMEMBERS` comes in. -/
inductive Op where
  | addBackend (b : Backend)
  | removeBackend (b : Backend)
  | assignViaTable (members : List Backend) (now : Time) (k : RoutingKey)
  | deleteAssignment (k : RoutingKey)
  | bulkAssign (now : Time) (entries : Table RoutingKey BulkAssignEntry)
  | bulkDeleteAssignments (keys : List RoutingKey)
  | reconcileAssignmentCounts

/-- One operation, run alone. The members listed are those of the set,
and the keys of a bulk delete are distinct. -/
def step (r : Keyspace) : Op → Option Keyspace
  | .addBackend b => some (addBackend b r)
  | .removeBackend b => some (removeBackend b r)
  | .assignViaTable members now k =>
    if Enumerates members r.active then some (assignViaTable members now k r).2 else none
  | .deleteAssignment k => some (deleteAssignment k r).2
  | .bulkAssign now entries => some (bulkAssign now entries r).2
  | .bulkDeleteAssignments keys =>
    if keys.Nodup then some (bulkDeleteAssignments keys r) else none
  | .reconcileAssignmentCounts => some (reconcileAssignmentCounts r)

end Redis

end StickyProxy
