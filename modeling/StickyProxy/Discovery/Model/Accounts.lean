import StickyProxy.Snapshot.Model.Operations
import StickyProxy.Rebalance.Model.Rebalancer
/-!
# The account discovery

`AccountDiscovery.reconcile` from its first call to its last, run alone:
the accounts a source has listed are compared with the table, stale
assignments are deleted, and the accounts that have none are assigned to
the active backends in turn and announced to them. Every call that may fail
has its verdict; one that fails takes no effect, and a failed delete does
not stop the assignment.
-/

namespace StickyProxy

open Snapshot

/-- The part an `AccountDiscovery` may be built without. -/
structure AccountDiscovery where
  hooks : Bool
  deriving DecidableEq, Repr

namespace AccountDiscovery

/-- What a reconcile reads and writes: the store, and the calls made so far
to the hooks. -/
structure State where
  store : Store
  sendAssign : List (Backend × List RoutingKey)

/-- Whether each call that may fail succeeds. -/
structure Calls where
  fetchAccounts : Bool
  getAllAssignments : Bool
  activeBackends : Bool
  bulkDeleteAssignments : Bool
  bulkAssign : Bool
  deriving DecidableEq, Repr

/-- All of them do. -/
def Calls.succeed : Calls := ⟨true, true, true, true, true⟩

/-- The stale assignments are deleted, if there are any. -/
def clean (calls : Calls) (stale : List RoutingKey) (store : Store) : Store :=
  if stale ≠ [] ∧ calls.bulkDeleteAssignments then store.bulkDeleteAssignments stale else store

/-- The accounts without an assignment get one, beside the keys assigned. -/
def assign (calls : Calls) (now : Time) (entries : Table RoutingKey BulkAssignEntry)
    (store : Store) : Table RoutingKey Backend × Store :=
  if calls.bulkAssign then store.bulkAssign now entries else (∅, store)

/-- The hooks to the backends that have been assigned accounts. -/
def announce (d : AccountDiscovery) (assigned : Table RoutingKey Backend) :
    List (Backend × List RoutingKey) :=
  if d.hooks ∧ assigned.pairs ≠ [] then (Rebalance.byAssigned assigned).pairs else []

/-- `reconcile`, with the accounts the source lists and the backends in the
order the store does. -/
def reconcile (d : AccountDiscovery) (calls : Calls) (now : Time) (order : List Backend)
    (accounts : List DiscoveredAccount) (s : State) : State :=
  if ¬ calls.fetchAccounts then s
  else if ¬ calls.getAllAssignments then s
  else if ¬ calls.activeBackends ∨ order = [] then s
  else
    let current := s.store.getAllAssignments
    let backends := sortStrings order
    let store := clean calls (staleKeys current backends accounts) s.store
    let todo := unassigned current backends accounts
    if todo = [] then { s with store := store }
    else
      let (assigned, store) := assign calls now (newEntries backends todo) store
      ⟨store, s.sendAssign ++ announce d assigned⟩

end AccountDiscovery

end StickyProxy
