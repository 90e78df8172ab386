import StickyProxy.Redis.Model.Keyspace
import StickyProxy.Postgres.Model.Database
/-!
# The store interface

`Store` is implemented three times, over Redis, over PostgreSQL and in
memory; the last serves hash mode only and refuses everything to do with
assignments. Where an implementation reads a set in an order of its own,
the order is an argument, and so is the time it stamps on what it writes.
-/

namespace StickyProxy

/-- The store behind the proxy. -/
inductive Store where
  | redis (r : Redis.Keyspace)
  | postgres (d : Postgres.Database)
  | memory (backends : Finset Backend)

namespace Store

/-- The backends `ActiveBackends` lists. -/
def active : Store → Finset Backend
  | .redis r => r.active
  | .postgres d => (Postgres.activeBackends d).toFinset
  | .memory backends => backends

/-- The backends `AssignLeastLoaded` chooses from. -/
def candidates : Store → Finset Backend
  | .redis r => r.active
  | .postgres d => d.joined
  | .memory _ => ∅

/-- `AddBackend`. -/
def addBackend (b : Backend) : Store → Store
  | .redis r => .redis (Redis.addBackend b r)
  | .postgres d => .postgres (Postgres.addBackend b d)
  | .memory backends => .memory (insert b backends)

/-- `RemoveBackend`. -/
def removeBackend (b : Backend) : Store → Store
  | .redis r => .redis (Redis.removeBackend b r)
  | .postgres d => .postgres (Postgres.removeBackend b d)
  | .memory backends => .memory (backends.erase b)

/-- `AssignLeastLoaded`, the candidates read in the order given; nothing
when it fails. -/
def assignLeastLoaded (order : List Backend) (now : Time) (k : RoutingKey) :
    Store → Option Assignment × Store
  | .redis r =>
    let (a, r') := Redis.assignViaTable order now k r
    (a, .redis r')
  | .postgres d =>
    let (a, d') := Postgres.assignLeastLoaded order now k d
    (a, .postgres d')
  | .memory backends => (none, .memory backends)

/-- `GetAssignment`. -/
def getAssignment (k : RoutingKey) : Store → Option Assignment
  | .redis r => Redis.getAssignment k r
  | .postgres d => Postgres.getAssignment k d
  | .memory _ => none

/-- `GetAllAssignments`. -/
def getAllAssignments : Store → Table RoutingKey Assignment
  | .redis r => Redis.getAllAssignments r
  | .postgres d => Postgres.getAllAssignments d
  | .memory _ => ∅

/-- `GetBackendUsers`. -/
def getBackendUsers (b : Backend) : Store → List RoutingKey
  | .redis r => Redis.getBackendUsers b r
  | .postgres d => Postgres.getBackendUsers b d
  | .memory _ => []

/-- `BulkAssign`, with the keys it assigned. -/
def bulkAssign (now : Time) (entries : Table RoutingKey BulkAssignEntry) :
    Store → Table RoutingKey Backend × Store
  | .redis r =>
    let (assigned, r') := Redis.bulkAssign now entries r
    (assigned, .redis r')
  | .postgres d =>
    let (assigned, d') := Postgres.bulkAssign now entries d
    (assigned, .postgres d')
  | .memory backends => (∅, .memory backends)

/-- `BulkDeleteAssignments`. -/
def bulkDeleteAssignments (keys : List RoutingKey) : Store → Store
  | .redis r => .redis (Redis.bulkDeleteAssignments keys r)
  | .postgres d => .postgres (Postgres.bulkDeleteAssignments keys d)
  | .memory backends => .memory backends

/-! ## Histories of one client -/

/-- A call, with the order and the time the store will take. -/
inductive Op where
  | addBackend (b : Backend)
  | removeBackend (b : Backend)
  | assignLeastLoaded (order : List Backend) (now : Time) (k : RoutingKey)
  | bulkAssign (now : Time) (entries : Table RoutingKey BulkAssignEntry)
  | bulkDeleteAssignments (keys : List RoutingKey)
  | getAllAssignments
  | activeBackends (order : List Backend)

/-- What the client sees of a call: its arguments and its answer. -/
inductive Event where
  | addBackend (b : Backend)
  | removeBackend (b : Backend)
  | assignLeastLoaded (k : RoutingKey) (answer : Option Assignment)
  | bulkAssign (entries : Table RoutingKey BulkAssignEntry) (answer : Table RoutingKey Backend)
  | bulkDeleteAssignments (keys : List RoutingKey)
  | getAllAssignments (answer : Table RoutingKey Assignment)
  | activeBackends (answer : List Backend)

/-- One call, run alone. -/
def step (s : Store) : Op → Option (Event × Store)
  | .addBackend b => some (.addBackend b, s.addBackend b)
  | .removeBackend b => some (.removeBackend b, s.removeBackend b)
  | .assignLeastLoaded order now k =>
    if Enumerates order s.candidates then
      some (.assignLeastLoaded k (s.assignLeastLoaded order now k).1,
        (s.assignLeastLoaded order now k).2)
    else none
  | .bulkAssign now entries =>
    some (.bulkAssign entries (s.bulkAssign now entries).1, (s.bulkAssign now entries).2)
  | .bulkDeleteAssignments keys =>
    some (.bulkDeleteAssignments keys, s.bulkDeleteAssignments keys)
  | .getAllAssignments => some (.getAllAssignments s.getAllAssignments, s)
  | .activeBackends order =>
    if Enumerates order s.active then some (.activeBackends order, s) else none

end Store

end StickyProxy
