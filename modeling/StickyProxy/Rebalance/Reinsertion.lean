import StickyProxy.Postgres.Model.Queries
import StickyProxy.Rebalance.Correctness
import StickyProxy.Rebalance.HashRouting
/-!
# What a rebalance deletes and cannot insert again

With the PostgreSQL store a rebalance deletes the accounts it moves in one
query and enters them again in another. The first binds one parameter
for every account, the second three and the time, so it comes to the limit
of the protocol three times as early. In between the rebalance has accounts
deleted that the server refuses to take back.
-/

namespace StickyProxy

namespace Rebalance

open Postgres (deleteQuery insertQuery length_args_deleteQuery length_args_insertQuery)

variable {assignments : Table RoutingKey Assignment} {activeBackends : List Backend}
  {moves : List Move} {now : Time}

/-- The query that deletes the accounts moved. -/
def deleted (moves : List Move) : Postgres.Query := deleteQuery (routingKeys moves)

/-- The query that enters them again. -/
def reinserted (now : Time) (activeBackends : List Backend)
    (assignments : Table RoutingKey Assignment) (moves : List Move) : Postgres.Query :=
  insertQuery now (newAssignments assignments activeBackends moves).pairs

/-- Both calls of the store, with the verdict the protocol gives. -/
def queryCalls (now : Time) (activeBackends : List Backend)
    (assignments : Table RoutingKey Assignment) (moves : List Move) : Calls :=
  { Calls.succeed with
    bulkDeleteAssignments := (deleted moves).Acceptable
    bulkAssign := (reinserted now activeBackends assignments moves).Acceptable }

theorem bulkDeleteAssignments_queryCalls (h : (deleted moves).Acceptable) :
    (queryCalls now activeBackends assignments moves).bulkDeleteAssignments = true :=
  decide_eq_true h

theorem bulkAssign_queryCalls
    (h : ¬ (reinserted now activeBackends assignments moves).Acceptable) :
    (queryCalls now activeBackends assignments moves).bulkAssign = false :=
  decide_eq_false h

/-! ## How many accounts are entered -/

/-- Distinct accounts are entered each, if there is a backend for those the
moves do not name one for. -/
theorem length_newAssignments (hkeys : (routingKeys moves).Nodup) (hne : activeBackends ≠ []) :
    (newAssignments assignments activeBackends moves).pairs.length = moves.length := by
  have hmem : ∀ k, k ∈ (newAssignments assignments activeBackends moves).pairs.map Prod.fst ↔
      k ∈ routingKeys moves := by
    intro k
    rw [Table.mem_map_fst_pairs, isSome_lookup_newAssignments, mem_routingKeys]
    constructor
    · rintro ⟨m, hm, hk, -⟩
      exact ⟨m, hm, hk⟩
    · rintro ⟨m, hm, hk⟩
      exact ⟨m, hm, hk, fun _ => hne⟩
  have hperm := (List.perm_ext_iff_of_nodup (Table.nodup_fst_pairs _) hkeys).2 hmem
  have hlength := hperm.length_eq
  rwa [List.length_map, routingKeys, List.length_map] at hlength

theorem acceptable_deleted : (deleted moves).Acceptable ↔ moves.length ≤ 65535 := by
  have hlength : (deleted moves).args.length = moves.length :=
    (length_args_deleteQuery _).trans (List.length_map _)
  rw [Postgres.Query.Acceptable, hlength]
  exact Iff.rfl

theorem acceptable_reinserted : (reinserted now activeBackends assignments moves).Acceptable ↔
    (newAssignments assignments activeBackends moves).pairs.length ≤ 21844 := by
  rw [Postgres.Query.Acceptable, reinserted, length_args_insertQuery, Postgres.maxParams]
  omega

/-- **What is deleted can be entered again** exactly if there are at most
21844 accounts to enter, or too many to delete them in the first place; and
distinct accounts are all entered. -/
theorem reinsertable_iff_few (assignments : Table RoutingKey Assignment)
    (activeBackends : List Backend) (moves : List Move) (now : Time) :
    (((deleted moves).Acceptable →
        (reinserted now activeBackends assignments moves).Acceptable) ↔
      (newAssignments assignments activeBackends moves).pairs.length ≤ 21844 ∨
        65535 < moves.length) ∧
    ((routingKeys moves).Nodup → activeBackends ≠ [] →
      (newAssignments assignments activeBackends moves).pairs.length = moves.length) := by
  refine ⟨?_, length_newAssignments⟩
  rw [acceptable_deleted, acceptable_reinserted]
  omega

/-! ## A rebalance that loses its accounts -/

/-- Accounts of different lengths. -/
def account (i : ℕ) : RoutingKey := String.ofList (List.replicate i 'u')

theorem account_injective : Function.Injective account := by
  intro i j h
  have hlist := congrArg (fun s => s.toList.length) h
  simpa [account] using hlist

/-- So many accounts, all on `b1`. -/
def strandedTable (n : ℕ) : Table RoutingKey Assignment :=
  Table.insertAll ∅ ((List.range n).map fun i => (account i, ⟨"b1", 0, "assignment", 1⟩))

theorem length_pairs_strandedTable (n : ℕ) : (strandedTable n).pairs.length = n := by
  have hnodup : (((List.range n).map fun i =>
      (account i, (⟨"b1", 0, "assignment", 1⟩ : Assignment))).map Prod.fst).Nodup := by
    rw [List.map_map]
    exact List.nodup_range.map account_injective
  rw [strandedTable, (Table.perm_pairs_insertAll hnodup).length_eq, List.length_map,
    List.length_range]

theorem backend_of_mem_strandedTable {n : ℕ} {p : RoutingKey × Assignment}
    (hp : p ∈ (strandedTable n).pairs) : p.2.backend = "b1" := by
  have hlook : (strandedTable n).lookup p.1 = some p.2 := Table.mem_pairs.1 hp
  rcases Table.lookup_insertAll_cases hlook with hmem | hnone
  · obtain ⟨i, -, hp⟩ := List.mem_map.1 hmem
    rw [← (Prod.mk.inj hp).2]
  · cases hnone

/-- `b1` is gone, and the hash sends everybody to the one backend left. -/
def strandedMoves (n : ℕ) : List Move :=
  ConsistentHash.computeMoves ["b2"] (strandedTable n).pairs

theorem strandedMoves_eq_map (n : ℕ) :
    strandedMoves n = (strandedTable n).pairs.map fun p => ⟨p.1, "b1", "b2"⟩ := by
  rw [strandedMoves, ConsistentHash.computeMoves, if_neg (by simp), ← List.filterMap_eq_map]
  refine List.filterMap_congr fun p hp => ?_
  have htarget : ConsistentHash.target ["b2"] p.1 = some "b2" := by
    obtain ⟨b, hb, htarget⟩ := ConsistentHash.exists_target (List.cons_ne_nil "b2" []) p.1
    rwa [List.mem_singleton.1 hb] at htarget
  rw [ConsistentHash.move, htarget, Option.bind_some, backend_of_mem_strandedTable hp]
  rfl

theorem length_strandedMoves (n : ℕ) : (strandedMoves n).length = n := by
  rw [strandedMoves_eq_map, List.length_map, length_pairs_strandedTable]

/-- The database of those accounts. -/
def strandedDatabase (n : ℕ) : Postgres.Database := ⟨∅, strandedTable n, ∅⟩

theorem nodup_strandedMoves (n : ℕ) : (routingKeys (strandedMoves n)).Nodup :=
  ConsistentHash.nodup_computeMoves (List.Perm.refl _)

theorem length_newAssignments_stranded (n : ℕ) :
    (newAssignments (strandedTable n) ["b2"] (strandedMoves n)).pairs.length = n :=
  (length_newAssignments (nodup_strandedMoves n) (List.cons_ne_nil _ _)).trans
    (length_strandedMoves n)

/-- The most accounts that can be entered again, and one account more. -/
theorem reinsertable_iff_few_stranded :
    ((deleted (strandedMoves 21844)).Acceptable ∧
      (reinserted 0 ["b2"] (strandedTable 21844) (strandedMoves 21844)).Acceptable) ∧
    ¬ ((deleted (strandedMoves 21845)).Acceptable →
      (reinserted 0 ["b2"] (strandedTable 21845) (strandedMoves 21845)).Acceptable) := by
  have hfew := reinsertable_iff_few (strandedTable 21844) ["b2"] (strandedMoves 21844) 0
  have hmany := reinsertable_iff_few (strandedTable 21845) ["b2"] (strandedMoves 21845) 0
  have hentered := hfew.2 (nodup_strandedMoves 21844) (List.cons_ne_nil _ _)
  have hentered' := hmany.2 (nodup_strandedMoves 21845) (List.cons_ne_nil _ _)
  rw [length_strandedMoves] at hentered hentered'
  have hdeleted : (deleted (strandedMoves 21844)).Acceptable := by
    rw [acceptable_deleted, length_strandedMoves]
    omega
  refine ⟨⟨hdeleted, hfew.1.2 (Or.inl hentered.le) hdeleted⟩, fun h => ?_⟩
  have := hmany.1.1 h
  rw [hentered', length_strandedMoves] at this
  omega

theorem mem_strandedMoves {n : ℕ} {k : RoutingKey} :
    k ∈ routingKeys (strandedMoves n) ↔ ((strandedTable n).lookup k).isSome := by
  rw [strandedMoves_eq_map, routingKeys, List.map_map]
  exact Table.mem_map_fst_pairs

/-- Deleted and not entered again, the accounts have no assignment left. -/
theorem getAssignment_reassign_stranded {n : ℕ} {calls : Calls}
    (hdelete : calls.bulkDeleteAssignments = true) (hassign : calls.bulkAssign = false)
    (k : RoutingKey) :
    (reassign calls now ["b2"] (strandedTable n) (strandedMoves n)
      (.postgres (strandedDatabase n))).2.getAssignment k = none := by
  rw [reassign, if_neg (by simp [hassign])]
  dsimp only
  rw [deleteMoved, if_pos hdelete, Store.getAssignment_bulkDeleteAssignments]
  by_cases hk : k ∈ routingKeys (strandedMoves n)
  · rw [if_pos hk]
  · rw [if_neg hk]
    rw [mem_strandedMoves] at hk
    exact Option.not_isSome_iff_eq_none.1 hk

/-- A backend with 21845 accounts goes. The query that deletes them is
accepted, the one that enters them again has a parameter too many, and all
of them are left without an assignment. -/
theorem rejected_after_delete :
    let calls := queryCalls 0 ["b2"] (strandedTable 21845) (strandedMoves 21845)
    (strandedMoves 21845).length = 21845 ∧ (deleted (strandedMoves 21845)).Acceptable ∧
      ¬ (reinserted 0 ["b2"] (strandedTable 21845) (strandedMoves 21845)).Acceptable ∧
      ∀ k, (reassign calls 0 ["b2"] (strandedTable 21845) (strandedMoves 21845)
        (.postgres (strandedDatabase 21845))).2.getAssignment k = none := by
  intro calls
  have hdeleted : (deleted (strandedMoves 21845)).Acceptable := by
    rw [acceptable_deleted, length_strandedMoves]
    omega
  have hinserted :
      ¬ (reinserted 0 ["b2"] (strandedTable 21845) (strandedMoves 21845)).Acceptable := by
    rw [acceptable_reinserted, length_newAssignments_stranded]
    omega
  exact ⟨length_strandedMoves 21845, hdeleted, hinserted, getAssignment_reassign_stranded
    (bulkDeleteAssignments_queryCalls hdeleted) (bulkAssign_queryCalls hinserted)⟩

end Rebalance

end StickyProxy
