import StickyProxy.Common.Table
import StickyProxy.Model.Assignment
import Mathlib.Data.Finset.Basic
/-!
# PostgreSQL — the assignment table

The three tables of the PostgreSQL store and its operations, each as the
database it leaves when it runs alone and no statement fails. A query
that orders by weight breaks ties as it likes, so the order the rows are
read in is an argument.
-/

namespace StickyProxy

namespace Postgres

/-- The tables `backends` (a URL and whether it is healthy),
`assignments` and `assignment_counts`. -/
structure Database where
  backends : Table Backend Bool
  assignments : Table RoutingKey Assignment
  counts : Table Backend ℤ

/-- The tables as `migrate` creates them. -/
def Database.empty : Database := ⟨∅, ∅, ∅⟩

/-- The row of the backend says it is healthy. -/
def Database.Healthy (d : Database) (b : Backend) : Prop := d.backends.lookup b = some true

instance (d : Database) (b : Backend) : Decidable (d.Healthy b) :=
  inferInstanceAs (Decidable (_ = _))

/-- What an assignment row adds to the weight of backend `b`. -/
def rowWeight (b : Backend) (a : Assignment) : ℤ := if a.backend = b then a.weight else 0

/-- The weight of the assignment rows of one backend. -/
def Database.weightOn (d : Database) (b : Backend) : ℤ :=
  d.assignments.total fun _ a => rowWeight b a

/-- The rows of `assignment_counts` joined with the healthy backends. -/
def Database.joined (d : Database) : Finset Backend :=
  (d.counts.keys.filter fun b => d.Healthy b).toFinset

theorem Database.mem_joined {d : Database} {b : Backend} :
    b ∈ d.joined ↔ (d.counts.lookup b).isSome ∧ d.Healthy b := by
  simp [joined, AList.lookup_isSome, AList.mem_keys]

/-- `ActiveBackends`. -/
def activeBackends (d : Database) : List Backend :=
  (d.backends.pairs.filter fun p => p.2).map Prod.fst

theorem mem_activeBackends {d : Database} {b : Backend} :
    b ∈ activeBackends d ↔ d.Healthy b := by
  simp [activeBackends, Database.Healthy, Table.mem_pairs]

/-- `AddBackend`: the backend is set healthy, then a count row of zero is
made unless there is one. -/
def addBackend (b : Backend) (d : Database) : Database :=
  { d with
    backends := d.backends.insert b true
    counts := if (d.counts.lookup b).isSome then d.counts else d.counts.insert b 0 }

/-- `RemoveBackend`: a row that is there is set unhealthy. -/
def removeBackend (b : Backend) (d : Database) : Database :=
  if (d.backends.lookup b).isSome then { d with backends := d.backends.insert b false } else d

/-- `ORDER BY total_weight ASC LIMIT 1` of the joined rows, read in the
order given. -/
def leastLoaded (rows : List Backend) (d : Database) : Option Backend :=
  d.counts.least rows

/-- The row `AssignLeastLoaded` inserts. -/
def freshRow (b : Backend) (now : Time) : Assignment := ⟨b, now, "assignment", 1⟩

/-- `AssignLeastLoaded`: with no row to lock it fails; a key that has an
assignment keeps it, whatever its backend. -/
def assignLeastLoaded (rows : List Backend) (now : Time) (k : RoutingKey) (d : Database) :
    Option Assignment × Database :=
  match leastLoaded rows d with
  | none => (none, d)
  | some b =>
    match d.assignments.lookup k with
    | some a => (some a, d)
    | none => (some (freshRow b now), { d with
        assignments := d.assignments.insert k (freshRow b now)
        counts := d.counts.adjust b 1 })

/-- `GetAssignment`. -/
def getAssignment (k : RoutingKey) (d : Database) : Option Assignment := d.assignments.lookup k

/-- `GetAllAssignments`. -/
def getAllAssignments (d : Database) : Table RoutingKey Assignment := d.assignments

/-- `GetBackendUsers`. -/
def getBackendUsers (b : Backend) (d : Database) : List RoutingKey :=
  (d.assignments.pairs.filter fun p => p.2.backend = b).map Prod.fst

/-- The row `BulkAssign` inserts for an entry. -/
def bulkRow (now : Time) (e : BulkAssignEntry) : Assignment :=
  ⟨e.backend, now, "assignment", e.storedWeight⟩

/-- The multi-row `INSERT ... ON CONFLICT DO NOTHING` of `BulkAssign`: the
entries inserted, which it returns, and the table. -/
def insertRows (now : Time) (entries : List (RoutingKey × BulkAssignEntry))
    (t : Table RoutingKey Assignment) :
    List (RoutingKey × BulkAssignEntry) × Table RoutingKey Assignment :=
  Table.insertNew (bulkRow now) entries t

/-- `BulkAssign`: the insert, then one `UPDATE` for each backend with the
weight it gained. -/
def bulkAssign (now : Time) (entries : Table RoutingKey BulkAssignEntry) (d : Database) :
    Table RoutingKey Backend × Database :=
  let (inserted, assignments) := insertRows now entries.pairs d.assignments
  let countDeltas := Table.gather (inserted.map fun p => (p.2.backend, p.2.storedWeight))
  (Table.insertAll ∅ (inserted.map fun p => (p.1, p.2.backend)), { d with
    assignments := assignments
    counts := d.counts.adjustAll countDeltas.pairs })

/-- The rows `DELETE ... WHERE routing_key IN (...)` returns. -/
def deletedRows (keys : List RoutingKey) (d : Database) : List (RoutingKey × Assignment) :=
  d.assignments.pairs.filter fun p => p.1 ∈ keys

/-- `BulkDeleteAssignments`: the delete, then one `UPDATE` for each
backend with the weight it lost. -/
def bulkDeleteAssignments (keys : List RoutingKey) (d : Database) : Database :=
  let countDeltas :=
    Table.gather ((deletedRows keys d).map fun p => (p.2.backend, p.2.weight))
  { d with
    assignments := d.assignments.eraseAll keys
    counts := d.counts.adjustAll (countDeltas.pairs.map fun p => (p.1, -p.2)) }

end Postgres

end StickyProxy
