import StickyProxy.Rebalance.HashRouting
/-!
# What one backend more or less moves

The consistent-hash strategy takes the hash modulo the number of backends,
so one backend more or less changes the place nearly every account hashes
to. An account stays where it is exactly if the two places fall on one
backend. The condition is the same for the backend that comes and for the
one that goes: the two lists are one list with the backend and without it.
-/

namespace StickyProxy

namespace ConsistentHash

variable {t : Table RoutingKey Assignment} {before after : List Backend}
  {users users' : List (RoutingKey × Assignment)} {b : Backend} {k : RoutingKey}
  {s : Finset Backend}

/-! ## A list with an entry and without it -/

/-- The place an entry moves to when the one at `p` is taken out. -/
def shifted (p i : ℕ) : ℕ := if i < p then i else i - 1

/-- Two places, one in each list, hold one entry exactly if the second is
the first, shifted. -/
theorem getElem?_eq_getElem?_eraseIdx_iff {l : List Backend} (hl : l.Nodup) {p i j : ℕ}
    (hip : i ≠ p) (hj : j < (l.eraseIdx p).length) :
    l[i]? = (l.eraseIdx p)[j]? ↔ j = shifted p i := by
  have hplace : (l.eraseIdx p)[shifted p i]? = l[i]? := by
    rw [List.getElem?_eraseIdx, shifted]
    by_cases hlt : i < p
    · rw [if_pos hlt, if_pos hlt]
    · rw [if_neg hlt, if_neg (by omega)]
      congr 1
      omega
  have hnodup : (l.eraseIdx p).Nodup := hl.sublist (List.eraseIdx_sublist l p)
  rw [← hplace]
  exact eq_comm.trans (List.getElem?_inj hj hnodup)

/-! ## The accounts that stay -/

/-- An account with the hash `h` stays when `n` backends become `n + 1`, the
new one at place `p` of the sorted list, or goes to the new one. -/
def Stays (n p h : ℕ) : Prop := h % (n + 1) = p ∨ h % n = shifted p (h % (n + 1))

instance (n p h : ℕ) : Decidable (Stays n p h) := inferInstanceAs (Decidable (_ ∨ _))

/-- Every account of the table does. -/
def AllStay (t : Table RoutingKey Assignment) (b : Backend) (before after : List Backend) : Prop :=
  ∀ k a, t.lookup k = some a →
    Stays before.length ((sortStrings after).idxOf b) (hashUser k).toNat

theorem nodup_sortStrings {l : List Backend} (h : l.Nodup) : (sortStrings l).Nodup :=
  (List.perm_insertionSort (· ≤ ·) l).nodup_iff.2 h

theorem length_sortStrings (l : List Backend) : (sortStrings l).length = l.length :=
  List.length_insertionSort _ l

section OneMore

variable (hb : b ∉ s) (hbefore : Enumerates before s) (hafter : Enumerates after (insert b s))

include hb hbefore hafter

theorem perm_cons_of_enumerates : after.Perm (b :: before) := by
  refine (List.perm_ext_iff_of_nodup hafter.1 ?_).2 fun c => ?_
  · exact List.nodup_cons.2 ⟨fun hmem => hb (hbefore.mem.1 hmem), hbefore.1⟩
  · rw [hafter.mem, Finset.mem_insert, List.mem_cons, hbefore.mem]

theorem length_eq_succ : after.length = before.length + 1 :=
  (perm_cons_of_enumerates hb hbefore hafter).length_eq

/-- The sorted list without the backend is the sorted list of the others. -/
theorem eraseIdx_sortStrings :
    (sortStrings after).eraseIdx ((sortStrings after).idxOf b) = sortStrings before := by
  rw [List.eraseIdx_idxOf_eq_erase]
  have hperm : ((sortStrings after).erase b).Perm (sortStrings before) := by
    have h := ((List.perm_insertionSort (· ≤ ·) after).trans
      (perm_cons_of_enumerates hb hbefore hafter)).erase b
    rw [List.erase_cons_head] at h
    exact h.trans (List.perm_insertionSort (· ≤ ·) before).symm
  exact hperm.eq_of_pairwise' ((List.pairwise_insertionSort _ after).sublist List.erase_sublist)
    (List.pairwise_insertionSort _ before)

/-- **The two targets of an account**: the new backend, or the same one,
exactly if it stays. -/
theorem target_iff_stays (hne : before ≠ []) :
    (target after k = some b ∨ target after k = target before k) ↔
      Stays before.length ((sortStrings after).idxOf b) (hashUser k).toNat := by
  have hlength : (sortStrings after).length = before.length + 1 :=
    (length_sortStrings after).trans (length_eq_succ hb hbefore hafter)
  have hnodup := nodup_sortStrings hafter.1
  have herase := eraseIdx_sortStrings hb hbefore hafter
  have hmem : b ∈ sortStrings after := mem_sortStrings.2 (hafter.mem.2 (Finset.mem_insert_self b s))
  unfold target pick Stays
  rw [hlength, length_sortStrings]
  generalize hp : (sortStrings after).idxOf b = p at herase ⊢
  generalize hi : (hashUser k).toNat % (before.length + 1) = i
  have hilt : i < (sortStrings after).length := by
    rw [hlength, ← hi]
    exact Nat.mod_lt _ (Nat.succ_pos _)
  have hb' : (sortStrings after)[i]? = some b ↔ i = p := by
    rw [List.getElem?_eq_getElem hilt, Option.some.injEq]
    constructor
    · intro heq
      rw [← hp, ← heq, hnodup.idxOf_getElem]
    · rintro rfl
      simp only [← hp, List.getElem_idxOf]
  rw [hb']
  by_cases hip : i = p
  · simp only [hip, true_or]
  · simp only [hip, false_or]
    rw [← herase]
    refine getElem?_eq_getElem?_eraseIdx_iff hnodup hip ?_
    rw [herase, length_sortStrings]
    exact Nat.mod_lt _ (List.length_pos_iff.2 hne)

end OneMore

/-! ## The moves -/

/-- What all moves have in common, said of the accounts that are not on
their targets. -/
theorem forall_mem_computeMoves {activeBackends : List Backend} {p : Move → Prop}
    (hne : activeBackends ≠ []) (hperm : users.Perm (Table.pairs t)) :
    (∀ m ∈ computeMoves activeBackends users, p m) ↔ ∀ k a, t.lookup k = some a →
      ∀ c, target activeBackends k = some c → c ≠ a.backend → p ⟨k, a.backend, c⟩ := by
  constructor
  · intro h k a ha c hc hdiff
    have hmem : (k, a) ∈ users := hperm.mem_iff.2 (Table.mem_pairs.2 ha)
    exact h _ ((mem_computeMoves hne).2 ⟨a, hmem, rfl, hc, hdiff⟩)
  · rintro h ⟨k, b, c⟩ hm
    obtain ⟨a, hmem, rfl, hc, hdiff⟩ := (mem_computeMoves hne).1 hm
    exact h k a (Table.mem_pairs.1 (hperm.mem_iff.1 hmem)) c hc hdiff

/-- A table the strategy leaves alone has every account on its target. -/
theorem target_of_fixpoint {activeBackends : List Backend} (hne : activeBackends ≠ [])
    (hperm : users.Perm (Table.pairs t)) (hfix : computeMoves activeBackends users = [])
    {a : Assignment} (ha : t.lookup k = some a) : target activeBackends k = some a.backend := by
  obtain ⟨c, -, hc⟩ := exists_target hne k
  have hnone := (forall_mem_computeMoves (p := fun _ => False) hne hperm).1
    (fun m hm => by rw [hfix] at hm; cases hm) k a ha c hc
  rw [hc, not_not.1 hnone]

/-- The moves all go to `b`: every account is on its target or goes to
`b`. -/
theorem forall_toBackend_iff {activeBackends : List Backend} (hne : activeBackends ≠ [])
    (hperm : users.Perm (Table.pairs t)) :
    (∀ m ∈ computeMoves activeBackends users, m.toBackend = b) ↔
      ∀ k a, t.lookup k = some a →
        target activeBackends k = some b ∨ target activeBackends k = some a.backend := by
  rw [forall_mem_computeMoves hne hperm]
  refine forall₃_congr fun k a _ => ?_
  obtain ⟨c, -, hc⟩ := exists_target hne k
  simp only [hc, Option.some.injEq, forall_eq']
  tauto

/-- And they all come from `b`: every other account is on its target. -/
theorem forall_fromBackend_iff {activeBackends : List Backend} (hne : activeBackends ≠ [])
    (hperm : users.Perm (Table.pairs t)) :
    (∀ m ∈ computeMoves activeBackends users, m.fromBackend = b) ↔
      ∀ k a, t.lookup k = some a →
        a.backend = b ∨ target activeBackends k = some a.backend := by
  rw [forall_mem_computeMoves hne hperm]
  refine forall₃_congr fun k a _ => ?_
  obtain ⟨c, -, hc⟩ := exists_target hne k
  simp only [hc, Option.some.injEq, forall_eq']
  tauto

/-- The first backend takes everybody, and is nobody's neighbour. -/
theorem allStay_nil (hafter : Enumerates after {b}) : AllStay t b [] after := by
  intro k a _
  have hsingle : sortStrings after = [b] := by
    have hperm : after.Perm [b] :=
      (List.perm_ext_iff_of_nodup hafter.1 (List.nodup_singleton b)).2 fun c => by
        rw [hafter.mem, Finset.mem_singleton, List.mem_singleton]
    exact sortStrings_eq_of_perm hperm
  refine Or.inl ?_
  rw [hsingle, List.length_nil, Nat.mod_one, List.idxOf_cons_self]

section Disruption

variable (hb : b ∉ s) (hbefore : Enumerates before s) (hafter : Enumerates after (insert b s))
  (hperm : users.Perm (Table.pairs t)) (hperm' : users'.Perm (Table.pairs t))

include hb hbefore hafter hperm hperm'

theorem adding_iff_allStay (hfix : computeMoves before users = []) :
    (∀ m ∈ computeMoves after users', m.toBackend = b) ↔ AllStay t b before after := by
  have hne : after ≠ [] := List.ne_nil_of_mem (hafter.mem.2 (Finset.mem_insert_self b s))
  rw [forall_toBackend_iff hne hperm']
  by_cases hnil : before = []
  · subst hnil
    have hs : s = ∅ := hbefore.2.symm
    rw [hs] at hafter
    refine iff_of_true (fun k a _ => ?_) (allStay_nil hafter)
    obtain ⟨c, hc, htarget⟩ := exists_target hne k
    rw [Finset.mem_singleton.1 (hafter.mem.1 hc)] at htarget
    exact Or.inl htarget
  · refine forall₃_congr fun k a ha => ?_
    rw [← target_of_fixpoint hnil hperm hfix ha]
    exact target_iff_stays hb hbefore hafter hnil

theorem removing_iff_allStay (hfix : computeMoves after users = []) :
    (∀ m ∈ computeMoves before users', m.fromBackend = b) ↔ AllStay t b before after := by
  have hne : after ≠ [] := List.ne_nil_of_mem (hafter.mem.2 (Finset.mem_insert_self b s))
  by_cases hnil : before = []
  · subst hnil
    have hs : s = ∅ := hbefore.2.symm
    rw [hs] at hafter
    refine iff_of_true (fun m hm => ?_) (allStay_nil hafter)
    cases hm
  · rw [forall_fromBackend_iff hnil hperm']
    refine forall₃_congr fun k a ha => ?_
    rw [← target_iff_stays hb hbefore hafter hnil, target_of_fixpoint hne hperm hfix ha,
      Option.some.injEq, eq_comm (a := target before k)]

end Disruption

/-- **What one backend moves.** For a table the strategy leaves alone, and
all orders: a backend that is added takes accounts over and no other account
moves, and one that is removed gives its accounts up and no other account
moves, exactly if every account stays. -/
theorem minimal_iff_allStay (t : Table RoutingKey Assignment) (s : Finset Backend) (b : Backend)
    (before after : List Backend) (users users' : List (RoutingKey × Assignment)) (hb : b ∉ s)
    (hbefore : Enumerates before s) (hafter : Enumerates after (insert b s))
    (hperm : users.Perm (Table.pairs t)) (hperm' : users'.Perm (Table.pairs t)) :
    (computeMoves before users = [] →
      ((∀ m ∈ computeMoves after users', m.toBackend = b) ↔ AllStay t b before after)) ∧
    (computeMoves after users = [] →
      ((∀ m ∈ computeMoves before users', m.fromBackend = b) ↔ AllStay t b before after)) :=
  ⟨adding_iff_allStay hb hbefore hafter hperm hperm',
    removing_iff_allStay hb hbefore hafter hperm hperm'⟩

/-- One account on one backend. -/
def singleTable (k : RoutingKey) (b : Backend) : Table RoutingKey Assignment :=
  Table.insertAll ∅ [(k, ⟨b, 0, "assignment", 1⟩)]

/-- An account on `b1` that the third backend takes over. -/
theorem minimal_singleTable :
    computeMoves ["b1", "b2", "b3"] (singleTable "v" "b1").pairs = [⟨"v", "b1", "b3"⟩] ∧
      ∀ m ∈ computeMoves ["b1", "b2", "b3"] (singleTable "v" "b1").pairs, m.toBackend = "b3" := by
  refine ⟨by decide +kernel, ((minimal_iff_allStay (singleTable "v" "b1") {"b1", "b2"} "b3"
    ["b1", "b2"] ["b1", "b2", "b3"] _ _ (by decide) (by decide) (by decide) (List.Perm.refl _)
    (List.Perm.refl _)).1 (by decide +kernel)).2 ?_⟩
  intro k a hk
  by_cases hv : k = "v"
  · rw [hv]
    decide +kernel
  · have hnone : (singleTable "v" "b1").lookup k = none :=
      (Table.lookup_insert_eq _ _ _ _).trans (if_neg hv)
    rw [hnone] at hk
    cases hk

/-- The account hashes to the second of two backends and to the first of
three. It moves between `b1` and `b2` when `b3` comes, and when it goes. -/
theorem third_backend_moves_between_two :
    (computeMoves ["b1", "b2"] (singleTable "x" "b2").pairs = [] ∧
      computeMoves ["b1", "b2", "b3"] (singleTable "x" "b2").pairs = [⟨"x", "b2", "b1"⟩]) ∧
    (computeMoves ["b1", "b2", "b3"] (singleTable "x" "b1").pairs = [] ∧
      computeMoves ["b1", "b2"] (singleTable "x" "b1").pairs = [⟨"x", "b1", "b2"⟩]) := by
  decide +kernel

end ConsistentHash

end StickyProxy
