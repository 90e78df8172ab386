import StickyProxy.Store.Model.Interface
import StickyProxy.Model.Hashing
/-!
# Operations that delete by snapshot

A drain, the eviction of a backend and the reconcile of the account
discovery have one thing in common: each reads the table, and later calls
`BulkDeleteAssignments` with keys it has chosen from what it read. Any
number of them run side by side with the calls of `AssignLeastLoaded` that
requests make. Modelled are their calls of the store, each taken alone, in
any order; none fails. The keys alone are passed to the delete.
-/

namespace StickyProxy

namespace Snapshot

/-! ## The reconcile of the account discovery -/

/-- Go's `DiscoveredAccount`. -/
structure DiscoveredAccount where
  id : RoutingKey
  weight : ℤ
  deriving DecidableEq, Repr

/-- The assignment read for the account is to a backend that is not
active. -/
def Stale (current : Table RoutingKey Assignment) (backends : List Backend)
    (acct : DiscoveredAccount) : Prop :=
  ∃ a ∈ current.lookup acct.id, a.backend ∉ backends

instance (current : Table RoutingKey Assignment) (backends : List Backend)
    (acct : DiscoveredAccount) : Decidable (Stale current backends acct) :=
  inferInstanceAs (Decidable (∃ a ∈ current.lookup acct.id, a.backend ∉ backends))

/-- `staleKeys`. -/
def staleKeys (current : Table RoutingKey Assignment) (backends : List Backend)
    (accounts : List DiscoveredAccount) : List RoutingKey :=
  (accounts.filter fun acct => Stale current backends acct).map (·.id)

/-- `unassigned`. -/
def unassigned (current : Table RoutingKey Assignment) (backends : List Backend)
    (accounts : List DiscoveredAccount) : List DiscoveredAccount :=
  accounts.filter fun acct => (current.lookup acct.id).isNone ∨ Stale current backends acct

/-- The entries of the bulk assign. -/
def newEntries (backends : List Backend) (accounts : List DiscoveredAccount) :
    Table RoutingKey BulkAssignEntry :=
  Table.insertAll ∅ (roundRobin backends (accounts.map fun acct => (acct.id, acct.weight)))

/-! ## Operations -/

/-- What an operation does next. -/
inductive Operation where
  /-- `drain`: `GetBackendUsers`. -/
  | drain (b : Backend)
  | drainDelete (b : Backend) (users : List RoutingKey)
  /-- `RemoveBackend`. -/
  | drainRemove (b : Backend)
  /-- `invalidateStickyMappings`: `GetBackendUsers`. -/
  | evict (b : Backend)
  | evictDelete (b : Backend) (users : List RoutingKey)
  /-- `reconcile`, with the accounts fetched: `GetAllAssignments`. -/
  | reconcile (accounts : List DiscoveredAccount)
  /-- `ActiveBackends`. -/
  | reconcileBackends (accounts : List DiscoveredAccount) (current : Table RoutingKey Assignment)
  | reconcileDelete (accounts : List DiscoveredAccount) (current : Table RoutingKey Assignment)
      (backends : List Backend)
  /-- `BulkAssign`. -/
  | reconcileAssign (entries : Table RoutingKey BulkAssignEntry)
  | finished

/-- The next step of an operation, beside what it leaves of the store. -/
def operationStep (now : Time) (order : List Backend) (store : Store) :
    Operation → Option (Operation × Store)
  | .drain b =>
    let users := store.getBackendUsers b
    some (if users = [] then .drainRemove b else .drainDelete b users, store)
  | .drainDelete b users => some (.drainRemove b, store.bulkDeleteAssignments users)
  | .drainRemove b => some (.finished, store.removeBackend b)
  | .evict b =>
    let users := store.getBackendUsers b
    some (if users = [] then .finished else .evictDelete b users, store)
  | .evictDelete _ users => some (.finished, store.bulkDeleteAssignments users)
  | .reconcile accounts => some (.reconcileBackends accounts store.getAllAssignments, store)
  | .reconcileBackends accounts current =>
    if Enumerates order store.active then
      some (if order = [] then .finished
        else .reconcileDelete accounts current (sortStrings order), store)
    else none
  | .reconcileDelete accounts current backends =>
    let stale := staleKeys current backends accounts
    let todo := unassigned current backends accounts
    some (if todo = [] then .finished else .reconcileAssign (newEntries backends todo),
      if stale = [] then store else store.bulkDeleteAssignments stale)
  | .reconcileAssign entries => some (.finished, (store.bulkAssign now entries).2)
  | .finished => none

/-- The store and the operations under way. -/
structure System where
  store : Store
  operations : List Operation

inductive Action where
  /-- An operation takes its next step. -/
  | operation (i : ℕ) (now : Time) (order : List Backend)
  /-- A request calls `AssignLeastLoaded`. -/
  | assign (order : List Backend) (now : Time) (k : RoutingKey)
  deriving DecidableEq

def step (s : System) : Action → Option System
  | .operation i now order =>
    (s.operations[i]?).bind fun op => (operationStep now order s.store op).map fun t =>
      ⟨t.2, s.operations.set i t.1⟩
  | .assign order now k =>
    if Enumerates order s.store.candidates then
      some { s with store := (s.store.assignLeastLoaded order now k).2 }
    else none

/-- The operation has not read anything yet. -/
def Operation.Starts : Operation → Prop
  | .drain _ | .evict _ | .reconcile _ => True
  | _ => False

/-- The backend the snapshot has for a key. -/
def Operation.records (k : RoutingKey) : Operation → Option Backend
  | .drainDelete b users | .evictDelete b users => if k ∈ users then some b else none
  | .reconcileBackends _ current | .reconcileDelete _ current _ =>
    (current.lookup k).map (·.backend)
  | _ => none

/-- The operation may be going to delete the key. -/
def Operation.MayDelete (k : RoutingKey) : Operation → Prop
  | .drainDelete _ users | .evictDelete _ users => k ∈ users
  | .reconcileBackends accounts _ => k ∈ accounts.map (·.id)
  | .reconcileDelete accounts current backends => k ∈ staleKeys current backends accounts
  | _ => False

instance (k : RoutingKey) : ∀ op : Operation, Decidable (op.MayDelete k)
  | .drainDelete _ users | .evictDelete _ users => inferInstanceAs (Decidable (k ∈ users))
  | .reconcileBackends accounts _ => inferInstanceAs (Decidable (k ∈ accounts.map (·.id)))
  | .reconcileDelete accounts current backends =>
    inferInstanceAs (Decidable (k ∈ staleKeys current backends accounts))
  | .drain _ | .drainRemove _ | .evict _ | .reconcile _ | .reconcileAssign _ | .finished =>
    isFalse id

end Snapshot

end StickyProxy
