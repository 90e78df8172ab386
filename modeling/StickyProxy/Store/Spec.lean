import StickyProxy.Store.Model.Interface
import Mathlib.Algebra.BigOperators.Finprod
import Mathlib.Algebra.Order.Group.Int
/-!
# What a store is

A ledger of who is assigned where, and a set of active backends. The
load of a backend is the effective weight of the assignments to it, no
counter beside it. A key is on its backend while that backend is active
and otherwise goes to an active backend of least load; a ledger refuses
only when no backend is active, and what becomes of a stale assignment
then is left open.
-/

namespace StickyProxy

/-- Who is assigned where, and which backends are active. -/
structure Ledger where
  assigned : RoutingKey → Option Assignment
  active : Set Backend

namespace Ledger

/-- Nobody is assigned and no backend is active. -/
def empty : Ledger := ⟨fun _ => none, ∅⟩

/-- What an assignment adds to the load of a backend. -/
def loadOn (b : Backend) (a : Assignment) : ℤ := if a.backend = b then a.effectiveWeight else 0

/-- The load of a backend. -/
noncomputable def load (L : Ledger) (b : Backend) : ℤ :=
  finsum fun k => (L.assigned k).elim 0 (loadOn b)

/-- An active backend that no active backend is lighter than. -/
def Least (L : Ledger) (b : Backend) : Prop :=
  b ∈ L.active ∧ ∀ c ∈ L.active, L.load b ≤ L.load c

/-- The entry of a bulk assignment, as an assignment made at `now`. -/
def ofEntry (now : Time) (e : BulkAssignEntry) : Assignment :=
  ⟨e.backend, now, "assignment", e.storedWeight⟩

/-- The events that may follow a ledger, and the ledger after them. -/
inductive Step : Ledger → Store.Event → Ledger → Prop
  | addBackend {L : Ledger} {b : Backend} :
      Step L (.addBackend b) { L with active := insert b L.active }
  | removeBackend {L : Ledger} {b : Backend} :
      Step L (.removeBackend b) { L with active := L.active \ {b} }
  /-- The key is on an active backend. -/
  | keep {L : Ledger} {k : RoutingKey} {a : Assignment} :
      L.assigned k = some a → a.backend ∈ L.active →
      Step L (.assignLeastLoaded k (some a)) L
  /-- It is not, and is assigned to a least loaded one. -/
  | assign {L : Ledger} {k : RoutingKey} {b : Backend} {now : Time} :
      (∀ a, L.assigned k = some a → a.backend ∉ L.active) → L.Least b →
      Step L (.assignLeastLoaded k (some ⟨b, now, "assignment", 1⟩))
        { L with assigned := Function.update L.assigned k (some ⟨b, now, "assignment", 1⟩) }
  /-- No backend is active. -/
  | refuse {L L' : Ledger} {k : RoutingKey} :
      L.active = ∅ → L'.active = ∅ → (∀ k' ≠ k, L'.assigned k' = L.assigned k') →
      (L'.assigned k = L.assigned k ∨ L'.assigned k = none) →
      Step L (.assignLeastLoaded k none) L'
  | bulkAssign {L : Ledger} {entries : Table RoutingKey BulkAssignEntry}
      {answer : Table RoutingKey Backend} (now : Time) :
      (∀ k, answer.lookup k =
        if (L.assigned k).isSome then none else (entries.lookup k).map (·.backend)) →
      Step L (.bulkAssign entries answer)
        { L with assigned := fun k => (L.assigned k).or ((entries.lookup k).map (ofEntry now)) }
  | bulkDeleteAssignments {L : Ledger} {keys : List RoutingKey} :
      Step L (.bulkDeleteAssignments keys)
        { L with assigned := fun k => if k ∈ keys then none else L.assigned k }
  | getAllAssignments {L : Ledger} {answer : Table RoutingKey Assignment} :
      (∀ k, answer.lookup k = L.assigned k) → Step L (.getAllAssignments answer) L
  | activeBackends {L : Ledger} {answer : List Backend} :
      answer.Nodup → (∀ b, b ∈ answer ↔ b ∈ L.active) → Step L (.activeBackends answer) L

variable {L L' : Ledger}

/-- **A ledger answers with active backends only.** -/
theorem backend_mem_active {k : RoutingKey} {a : Assignment}
    (h : Step L (.assignLeastLoaded k (some a)) L') : a.backend ∈ L.active := by
  cases h with
  | keep _ ha => exact ha
  | assign _ hb => exact hb.1

/-- The active set after an event: only `AddBackend` and `RemoveBackend`
change it. -/
def activeAfter (active : Set Backend) : Store.Event → Set Backend
  | .addBackend b => insert b active
  | .removeBackend b => active \ {b}
  | _ => active

theorem active_eq_activeAfter {e : Store.Event} (h : Step L e L') :
    L'.active = activeAfter L.active e := by
  cases h with
  | refuse hL hL' => exact hL'.trans hL.symm
  | addBackend | removeBackend | keep | assign | bulkAssign | bulkDeleteAssignments
  | getAllAssignments | activeBackends => rfl

end Ledger

end StickyProxy
