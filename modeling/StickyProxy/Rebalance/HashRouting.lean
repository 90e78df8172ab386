import StickyProxy.Proxy.Agreement
import StickyProxy.Rebalance.Evacuation
/-!
# Rebalancing towards the hash

The consistent-hash strategy moves every account whose backend is not its
target, and the target is what `assignViaHash` picks: two pieces of code,
one selection over the sorted list. Once the moves are applied every
account is on its target, so the strategy has nothing left to do, whatever
order the backends or the accounts come in the next time.
-/

namespace StickyProxy

namespace ConsistentHash

open LeastLoaded (applyMoves lookup_applyMoves lookup_applyMoves_of_mem removedTable)

variable {t : Table RoutingKey Assignment} {activeBackends order : List Backend}
  {users : List (RoutingKey × Assignment)} {a : Assignment} {b : Backend} {k : RoutingKey}
  {m : Move} {s : Finset Backend}

/-- Every account has a target, if there is a backend at all. -/
theorem exists_target (hne : activeBackends ≠ []) (k : RoutingKey) :
    ∃ b ∈ activeBackends, target activeBackends k = some b := by
  have hsorted : sortStrings activeBackends ≠ [] := fun h => hne (sortStrings_eq_nil.1 h)
  have hlt : (hashUser k).toNat % (sortStrings activeBackends).length <
      (sortStrings activeBackends).length := Nat.mod_lt _ (List.length_pos_iff.2 hsorted)
  exact ⟨_, mem_sortStrings.1 (List.getElem_mem hlt), List.getElem?_eq_getElem hlt⟩

/-- The target is a matter of the set. -/
theorem target_eq_of_enumerates (hactive : Enumerates activeBackends s)
    (horder : Enumerates order s) : target order k = target activeBackends k := by
  rw [target, target, sortStrings_eq_of_perm (horder.perm hactive)]

/-- `assignViaHash` picks the target. -/
theorem assignViaHash_eq_target {req : Request} (hactive : Enumerates activeBackends s)
    (hkey : req.key = k) (horder : Enumerates req.order s) :
    Proxy.assignViaHash req = target activeBackends k := by
  rw [← target_eq_of_enumerates hactive horder, ← hkey]
  rfl

/-- **The moves**: of the accounts that are not on their targets, to them. -/
theorem mem_computeMoves (hne : activeBackends ≠ []) :
    m ∈ computeMoves activeBackends users ↔ ∃ a, (m.routingKey, a) ∈ users ∧
      a.backend = m.fromBackend ∧ target activeBackends m.routingKey = some m.toBackend ∧
      m.toBackend ≠ a.backend := by
  rw [computeMoves, if_neg (by simpa using hne), List.mem_filterMap]
  constructor
  · rintro ⟨⟨k, a⟩, hmem, hmove⟩
    obtain ⟨b, hb, hmove⟩ := Option.bind_eq_some_iff.1 hmove
    obtain ⟨hdiff, hm⟩ := Option.ite_none_right_eq_some.1 hmove
    obtain rfl := Option.some.inj hm
    exact ⟨a, hmem, rfl, hb, hdiff⟩
  · rintro ⟨a, hmem, hfrom, htarget, hdiff⟩
    refine ⟨(m.routingKey, a), hmem, ?_⟩
    rw [move, htarget, Option.bind_some, if_pos hdiff, hfrom]

/-- The accounts moved come in the order of the accounts. -/
theorem keys_computeMoves_sublist (activeBackends : List Backend)
    (users : List (RoutingKey × Assignment)) :
    ((computeMoves activeBackends users).map fun m => m.routingKey).Sublist
      (users.map Prod.fst) := by
  unfold computeMoves
  split
  · exact List.nil_sublist _
  · induction users with
    | nil => exact List.Sublist.refl _
    | cons p users ih =>
      rcases hmove : move activeBackends p with - | m
      · rw [List.filterMap_cons_none hmove]
        exact ih.cons _
      · have hkey : m.routingKey = p.1 := by
          obtain ⟨b, -, hite⟩ := Option.bind_eq_some_iff.1 hmove
          obtain ⟨-, hm⟩ := Option.ite_none_right_eq_some.1 hite
          rw [← Option.some.inj hm]
        rw [List.filterMap_cons_some hmove, List.map_cons, List.map_cons, hkey]
        exact ih.cons_cons _

theorem nodup_computeMoves (hperm : users.Perm (Table.pairs t)) :
    ((computeMoves activeBackends users).map fun m => m.routingKey).Nodup :=
  ((hperm.map Prod.fst).nodup_iff.2 (Table.nodup_fst_pairs t)).sublist
    (keys_computeMoves_sublist activeBackends users)

/-- **After the moves every account is on its target**, and is otherwise
what it was. -/
theorem lookup_applyMoves_computeMoves (hne : activeBackends ≠ [])
    (hperm : users.Perm (Table.pairs t)) (ha : t.lookup k = some a)
    (hb : target activeBackends k = some b) :
    (applyMoves t (computeMoves activeBackends users)).lookup k =
      some { a with backend := b } := by
  by_cases hon : b = a.backend
  · -- Nobody moves an account that is where it should be.
    have hother : ∀ m ∈ computeMoves activeBackends users, m.routingKey ≠ k := by
      rintro m hm rfl
      obtain ⟨a', hmem, -, hto, hdiff⟩ := (mem_computeMoves hne).1 hm
      have hsame : a' = a := Option.some.inj
        ((Table.mem_pairs.1 (hperm.mem_iff.1 hmem)).symm.trans ha)
      have hback : m.toBackend = b := Option.some.inj (hto.symm.trans hb)
      rw [hsame, hback] at hdiff
      exact hdiff hon
    rw [lookup_applyMoves hother, ha, hon]
  · have hm : ⟨k, a.backend, b⟩ ∈ computeMoves activeBackends users :=
      (mem_computeMoves hne).2
        ⟨a, hperm.mem_iff.2 (Table.mem_pairs.2 ha), rfl, hb, hon⟩
    exact lookup_applyMoves_of_mem (nodup_computeMoves hperm) hm ha

theorem lookup_applyMoves_of_none (hne : activeBackends ≠ [])
    (hperm : users.Perm (Table.pairs t)) (hk : t.lookup k = none) :
    (applyMoves t (computeMoves activeBackends users)).lookup k = none := by
  refine (lookup_applyMoves ?_).trans hk
  rintro m hm rfl
  obtain ⟨a, hmem, -⟩ := (mem_computeMoves hne).1 hm
  exact Option.some_ne_none a ((Table.mem_pairs.1 (hperm.mem_iff.1 hmem)).symm.trans hk)

/-- **Rebalancing by hash agrees with routing by hash, and is done after
one pass.** For every table, every set of active backends and all orders:
no account is moved twice; after the moves every account is where
`assignViaHash` sends it, and nobody else has appeared; and in any other
order there is nothing left to move. -/
theorem hash_rebalanced (t : Table RoutingKey Assignment) (s : Finset Backend)
    (activeBackends : List Backend) (users : List (RoutingKey × Assignment)) (hs : s.Nonempty)
    (hactive : Enumerates activeBackends s) (hperm : users.Perm (Table.pairs t)) :
    ((computeMoves activeBackends users).map fun m => m.routingKey).Nodup ∧
    (∀ req : Request, Enumerates req.order s → ∃ b ∈ s, Proxy.assignViaHash req = some b ∧
      (applyMoves t (computeMoves activeBackends users)).lookup req.key =
        (t.lookup req.key).map fun a => { a with backend := b }) ∧
    ∀ order users', Enumerates order s →
      users'.Perm (Table.pairs (applyMoves t (computeMoves activeBackends users))) →
      computeMoves order users' = [] := by
  have hne : activeBackends ≠ [] := by
    rintro rfl
    exact hs.ne_empty hactive.2.symm
  have hlook : ∀ k b, target activeBackends k = some b →
      (applyMoves t (computeMoves activeBackends users)).lookup k =
        (t.lookup k).map fun a => { a with backend := b } := by
    intro k b hb
    rcases hk : t.lookup k with - | a
    · exact lookup_applyMoves_of_none hne hperm hk
    · exact lookup_applyMoves_computeMoves hne hperm hk hb
  refine ⟨nodup_computeMoves hperm, fun req horder => ?_, fun order users' horder hperm' => ?_⟩
  · obtain ⟨b, hb, htarget⟩ := exists_target hne req.key
    exact ⟨b, hactive.mem.1 hb, (assignViaHash_eq_target hactive rfl horder).trans htarget,
      hlook req.key b htarget⟩
  · have horderne : order ≠ [] := by
      rintro rfl
      exact hs.ne_empty horder.2.symm
    refine List.eq_nil_iff_forall_not_mem.2 fun m hm => ?_
    obtain ⟨a, hmem, -, htarget, hdiff⟩ := (mem_computeMoves horderne).1 hm
    rw [target_eq_of_enumerates hactive horder] at htarget
    -- The account is already on the backend the move names.
    have hon := Table.mem_pairs.1 (hperm'.mem_iff.1 hmem)
    rw [hlook _ _ htarget] at hon
    obtain ⟨a', -, rfl⟩ := Option.map_eq_some_iff.1 hon
    exact hdiff rfl

/-- The accounts of a backend that has been removed, rebalanced in one
order of the backends and looked at in the other. -/
theorem hash_rebalanced_removedTable :
    computeMoves ["b1", "b2"] (Table.pairs removedTable) ≠ [] ∧
      computeMoves ["b2", "b1"] (Table.pairs (applyMoves removedTable
        (computeMoves ["b1", "b2"] (Table.pairs removedTable)))) = [] :=
  ⟨by decide +kernel, (hash_rebalanced removedTable {"b1", "b2"} ["b1", "b2"]
    (Table.pairs removedTable) (by decide) (by decide) (List.Perm.refl _)).2.2 _ _ (by decide)
    (List.Perm.refl _)⟩

end ConsistentHash

end StickyProxy
