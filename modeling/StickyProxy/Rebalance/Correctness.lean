import StickyProxy.Rebalance.Model.Replica
import StickyProxy.Store.Effects
import StickyProxy.Common.Run
/-!
# A rebalance alone

What the phases of a rebalance leave behind when nobody interferes and no
call fails. The moves are regrouped five times on the way; each regrouping
has its lemma here, stated for any list of moves, and `Rebalanced` collects
what they amount to.
-/

namespace StickyProxy

namespace Rebalance

open Traffic

variable {assignments : Table RoutingKey Assignment} {activeBackends : List Backend}
  {moves : List Move} {m : Move} {k : RoutingKey} {b : Backend} {e : BulkAssignEntry}
  {rb : Rebalancer} {calls : Calls} {now : Time} {s : State} {st : Store} {a : Assignment}

/-! ## The new assignments -/

theorem mem_routingKeys : k ∈ routingKeys moves ↔ ∃ m ∈ moves, m.routingKey = k := List.mem_map

theorem mem_routed : (k, e) ∈ routed assignments moves ↔
    ∃ m ∈ moves, m.toBackend ≠ "" ∧ m.routingKey = k ∧
      e = ⟨m.toBackend, weightOf assignments k⟩ := by
  simp only [routed, List.mem_map, List.mem_filter, decide_eq_true_eq, Prod.mk.injEq]
  constructor
  · rintro ⟨m, ⟨hm, hto⟩, rfl, rfl⟩
    exact ⟨m, hm, hto, rfl, rfl⟩
  · rintro ⟨m, hm, hto, rfl, rfl⟩
    exact ⟨m, ⟨hm, hto⟩, rfl, rfl⟩

theorem mem_unrouted : k ∈ unrouted moves ↔ ∃ m ∈ moves, m.toBackend = "" ∧ m.routingKey = k := by
  simp only [unrouted, List.mem_map, List.mem_filter, decide_eq_true_eq, and_assoc]

/-- A new assignment is that of a move, to the backend it names or, when it
names none, to one of the active ones, with the weight the account had. -/
theorem exists_of_lookup_newAssignments
    (h : (newAssignments assignments activeBackends moves).lookup k = some e) :
    ∃ m ∈ moves, m.routingKey = k ∧ e.weight = weightOf assignments k ∧
      (if m.toBackend = "" then e.backend ∈ activeBackends else e.backend = m.toBackend) := by
  rcases Table.lookup_insertAll_cases h with hrobin | hrouted
  · obtain ⟨hmem, hb⟩ := of_mem_roundRobin hrobin
    obtain ⟨k', hk', heq⟩ := List.mem_map.1 hmem
    obtain ⟨rfl, hw⟩ := Prod.mk.inj heq
    obtain ⟨m, hm, hto, hmk⟩ := mem_unrouted.1 hk'
    exact ⟨m, hm, hmk, hw.symm, by rwa [if_pos hto]⟩
  · rcases Table.lookup_insertAll_cases hrouted with hmem | hnone
    · obtain ⟨m, hm, hto, hmk, rfl⟩ := mem_routed.1 hmem
      exact ⟨m, hm, hmk, rfl, by rw [if_neg hto]⟩
    · cases hnone

/-- The keys that get one. -/
theorem isSome_lookup_newAssignments :
    ((newAssignments assignments activeBackends moves).lookup k).isSome ↔
      ∃ m ∈ moves, m.routingKey = k ∧ (m.toBackend = "" → activeBackends ≠ []) := by
  have hfst : ((unrouted moves).map fun k => (k, weightOf assignments k)).map Prod.fst =
      unrouted moves := by
    rw [List.map_map]
    exact List.map_id _
  rw [newAssignments, Table.isSome_lookup_insertAll, Table.isSome_lookup_insertAll,
    mem_map_fst_roundRobin, hfst, mem_unrouted]
  have hempty : ((∅ : Table RoutingKey BulkAssignEntry).lookup k).isSome = false := rfl
  simp only [hempty, Bool.false_eq_true, or_false]
  constructor
  · rintro (⟨⟨m, hm, -, hmk⟩, hactive⟩ | hrouted)
    · exact ⟨m, hm, hmk, fun _ => hactive⟩
    · obtain ⟨⟨k', e⟩, hmem, rfl⟩ := List.mem_map.1 hrouted
      obtain ⟨m, hm, hto, hmk, -⟩ := mem_routed.1 hmem
      exact ⟨m, hm, hmk, fun h => absurd h hto⟩
  · rintro ⟨m, hm, hmk, hactive⟩
    by_cases hto : m.toBackend = ""
    · exact Or.inl ⟨⟨m, hm, hto, hmk⟩, hactive hto⟩
    · exact Or.inr (List.mem_map.2 ⟨(k, ⟨m.toBackend, weightOf assignments k⟩),
        mem_routed.2 ⟨m, hm, hto, hmk, rfl⟩, rfl⟩)

theorem lookup_newAssignments_of_notMem (hk : k ∉ routingKeys moves) :
    (newAssignments assignments activeBackends moves).lookup k = none := by
  rw [← Option.not_isSome_iff_eq_none, isSome_lookup_newAssignments]
  rintro ⟨m, hm, hmk, -⟩
  exact hk (mem_routingKeys.2 ⟨m, hm, hmk⟩)

/-- What is stored for a new assignment weighs what the old one did. -/
theorem effectiveWeight_of_lookup_newAssignments (ha : assignments.lookup k = some a)
    (he : (newAssignments assignments activeBackends moves).lookup k = some e) (now : Time) :
    Assignment.effectiveWeight ⟨e.backend, now, "assignment", e.storedWeight⟩ =
      a.effectiveWeight := by
  obtain ⟨-, -, -, hw, -⟩ := exists_of_lookup_newAssignments he
  rw [Assignment.effectiveWeight_of_pos e.one_le_storedWeight]
  simp only [BulkAssignEntry.storedWeight, hw, weightOf, ha, Option.map_some, Option.getD_some,
    Assignment.effectiveWeight]

/-- The bulk assign gives a free account back the weight it had. -/
theorem exists_getAssignment_bulkAssign (now : Time) (hfree : ¬ st.Occupied k)
    (ha : assignments.lookup k = some a)
    (htarget : ∃ m ∈ moves, m.routingKey = k ∧ (m.toBackend = "" → activeBackends ≠ [])) :
    ∃ e, (newAssignments assignments activeBackends moves).lookup k = some e ∧
      (st.bulkAssign now (newAssignments assignments activeBackends moves)).2.getAssignment k =
        some ⟨e.backend, now, "assignment", e.storedWeight⟩ ∧
      Assignment.effectiveWeight ⟨e.backend, now, "assignment", e.storedWeight⟩ =
        a.effectiveWeight := by
  have hsome : ((newAssignments assignments activeBackends moves).lookup k).isSome :=
    isSome_lookup_newAssignments.2 htarget
  obtain ⟨e, he⟩ := Option.isSome_iff_exists.1 hsome
  refine ⟨e, he, ?_, effectiveWeight_of_lookup_newAssignments ha he now⟩
  rw [Store.getAssignment_bulkAssign_of_not_occupied hfree, he]
  rfl

/-! ## What the phases leave -/

/-- Only the store calls can fail, and they touch only the store. -/
theorem perform_eq (rb : Rebalancer) (calls : Calls) (now : Time) (activeBackends : List Backend)
    (assignments : Table RoutingKey Assignment) (moves : List Move) (s : State) :
    perform rb calls now activeBackends assignments moves s =
      { s.unassign rb moves with
        store := (reassign calls now activeBackends assignments moves s.store).2 }.announce rb moves
          (reassign calls now activeBackends assignments moves s.store).1 := rfl

/-- The keys no move names are left alone, whatever fails. -/
theorem getAssignment_reassign_of_notMem (hk : k ∉ routingKeys moves) :
    (reassign calls now activeBackends assignments moves st).2.getAssignment k =
      st.getAssignment k := by
  have hdelete : (deleteMoved calls moves st).getAssignment k = st.getAssignment k := by
    unfold deleteMoved
    split
    · rw [Store.getAssignment_bulkDeleteAssignments, if_neg hk]
    · rfl
  unfold reassign
  split
  · rw [Store.getAssignment_bulkAssign_of_eq_none (lookup_newAssignments_of_notMem hk), hdelete]
  · exact hdelete

/-- If the delete fails, the accounts keep the assignments they have: the
bulk assign sets only what is absent. -/
theorem getAssignment_reassign_of_not_deleted (hcall : calls.bulkDeleteAssignments = false)
    (ha : st.getAssignment k = some a) :
    (reassign calls now activeBackends assignments moves st).2.getAssignment k = some a := by
  have hdelete : deleteMoved calls moves st = st := by
    rw [deleteMoved, hcall]
    exact if_neg Bool.false_ne_true
  rw [reassign, hdelete]
  split
  · rw [Store.getAssignment_bulkAssign_of_occupied (Store.occupied_of_getAssignment ha), ha]
  · exact ha

/-- If it succeeds, a moved account has what the bulk assign sets for it,
if that succeeds. -/
theorem getAssignment_reassign_of_deleted (hcall : calls.bulkDeleteAssignments = true)
    (hk : k ∈ routingKeys moves) (ha : st.getAssignment k = some a) :
    (reassign calls now activeBackends assignments moves st).2.getAssignment k =
      if calls.bulkAssign then
        ((newAssignments assignments activeBackends moves).lookup k).map fun e =>
          ⟨e.backend, now, "assignment", e.storedWeight⟩
      else none := by
  have hdelete : deleteMoved calls moves st = st.bulkDeleteAssignments (routingKeys moves) :=
    if_pos hcall
  have hfree := Store.not_occupied_bulkDeleteAssignments hk ha
  rw [reassign, hdelete]
  split
  · exact Store.getAssignment_bulkAssign_of_not_occupied hfree _
  · exact Store.getAssignment_of_not_occupied hfree

/-- The answer of the bulk assign has its key, when nothing fails. -/
theorem lookup_reassign_of_mem (hk : k ∈ routingKeys moves) (ha : st.getAssignment k = some a) :
    (reassign .succeed now activeBackends assignments moves st).1.lookup k =
      ((newAssignments assignments activeBackends moves).lookup k).map (·.backend) :=
  Store.lookup_bulkAssign_of_not_occupied (Store.not_occupied_bulkDeleteAssignments hk ha) _

theorem lookup_reassign_of_notMem (hk : k ∉ routingKeys moves) :
    (reassign .succeed now activeBackends assignments moves st).1.lookup k = none :=
  Store.lookup_bulkAssign_of_eq_none (lookup_newAssignments_of_notMem hk)

theorem lookup_invalidate (keys : List RoutingKey) (f : Frontend) (k : RoutingKey) :
    (invalidate keys f).cache.data.lookup k =
      if k ∈ keys then none else f.cache.data.lookup k := by
  simp only [invalidate]
  generalize f.cache = c
  induction keys generalizing c with
  | nil => simp
  | cons k' keys ih =>
    rw [List.foldl_cons, ih, UserCache.invalidate, Table.lookup_erase_eq]
    by_cases hk : k = k' <;> simp [hk]

theorem cache_mark (f : Frontend) : (mark rb moves f).cache = f.cache := by
  unfold mark
  split <;> rfl

theorem cache_clear (f : Frontend) : (clear rb moves f).cache = f.cache := by
  unfold clear
  split <;> rfl

/-- What is marked is cleared. -/
theorem holds_clear_subset (f : Frontend) :
    (clear rb moves (invalidate (routingKeys moves) (mark rb moves f))).holds ⊆ f.holds := by
  unfold clear mark
  split
  · intro k hk
    obtain ⟨hmarked, hcleared⟩ := Finset.mem_sdiff.1 hk
    exact (Finset.mem_union.1 hmarked).resolve_right hcleared
  · exact Finset.Subset.refl _

/-! ## Rebalancing -/

/-- What a strategy has to answer with: moves of distinct accounts, each
from the backend it is on, to an active backend or to none in
particular. -/
structure Proper (assignments : Table RoutingKey Assignment) (activeBackends : List Backend)
    (moves : List Move) : Prop where
  distinct : (routingKeys moves).Nodup
  current : ∀ m ∈ moves, ∃ a, assignments.lookup m.routingKey = some a ∧ a.backend = m.fromBackend
  target : ∀ m ∈ moves, m.toBackend = "" ∨ m.toBackend ∈ activeBackends

/-- The batches go to distinct backends and name every one of the keys
once, in the batch to its backend. -/
structure Batched (batches : List (Backend × List RoutingKey)) (keys : List RoutingKey)
    (backendOf : RoutingKey → Option Backend) : Prop where
  backends : (batches.map Prod.fst).Nodup
  keys : ((Table.ungroup batches).map Prod.snd).Perm keys
  named : ∀ p ∈ Table.ungroup batches, backendOf p.2 = some p.1

theorem batched_groupBy {l : List (Backend × RoutingKey)} {keys : List RoutingKey}
    {backendOf : RoutingKey → Option Backend} (hkeys : (l.map Prod.snd).Perm keys)
    (hnamed : ∀ p ∈ l, backendOf p.2 = some p.1) :
    Batched (Table.groupBy l).pairs keys backendOf where
  backends := Table.nodup_fst_pairs _
  keys := ((Table.ungroup_groupBy l).map _).trans hkeys
  named p hp := hnamed p ((Table.ungroup_groupBy l).mem_iff.1 hp)

/-- The backend an account is on. -/
def backendOf (st : Store) (k : RoutingKey) : Option Backend :=
  (st.getAssignment k).map (·.backend)

/-- What a rebalance leaves. -/
structure Rebalanced (rb : Rebalancer) (activeBackends : List Backend) (moves : List Move)
    (s s' : State) : Prop where
  accounts : ∀ k, (s'.store.getAssignment k).isSome = (s.store.getAssignment k).isSome
  unmoved : ∀ k ∉ routingKeys moves, s'.store.getAssignment k = s.store.getAssignment k
  moved : ∀ m ∈ moves, ∃ b ∈ activeBackends, backendOf s'.store m.routingKey = some b ∧
    (m.toBackend ≠ "" → b = m.toBackend)
  weights : ∀ k, (s'.store.getAssignment k).map (·.effectiveWeight) =
    (s.store.getAssignment k).map (·.effectiveWeight)
  cache : ∀ k, s'.frontend.cache.data.lookup k =
    if k ∈ routingKeys moves then none else s.frontend.cache.data.lookup k
  unassigned : rb.hooks = true → ∃ batches, s'.sendUnassign = s.sendUnassign ++ batches ∧
    Batched batches (routingKeys moves) (backendOf s.store)
  assigned : rb.hooks = true → ∃ batches, s'.sendAssign = s.sendAssign ++ batches ∧
    Batched batches (routingKeys moves) (backendOf s'.store)
  holds : s'.frontend.holds ⊆ s.frontend.holds

/-- With nothing to move, nothing happens. -/
theorem rebalanced_nil : Rebalanced rb activeBackends [] s s where
  accounts _ := rfl
  unmoved _ _ := rfl
  moved _ hm := absurd hm List.not_mem_nil
  weights _ := rfl
  cache _ := (if_neg List.not_mem_nil).symm
  unassigned _ := ⟨[], (List.append_nil _).symm, List.nodup_nil, .nil,
    fun _ hp => absurd hp List.not_mem_nil⟩
  assigned _ := ⟨[], (List.append_nil _).symm, List.nodup_nil, .nil,
    fun _ hp => absurd hp List.not_mem_nil⟩
  holds := Finset.Subset.refl _

section Perform

variable (hproper : Proper s.store.getAllAssignments activeBackends moves)
  (hactive : activeBackends ≠ [])

include hproper

/-- A moved account is the account of one move. -/
theorem Proper.eq_of_routingKey {m' : Move} (hm : m ∈ moves) (hm' : m' ∈ moves)
    (h : m.routingKey = m'.routingKey) : m = m' :=
  List.inj_on_of_nodup_map hproper.distinct hm hm' h

theorem Proper.getAssignment (hm : m ∈ moves) :
    ∃ a, s.store.getAssignment m.routingKey = some a ∧ a.backend = m.fromBackend := by
  obtain ⟨a, ha, hb⟩ := hproper.current m hm
  exact ⟨a, (Store.lookup_getAllAssignments s.store m.routingKey).symm.trans ha, hb⟩

/-- Every unassign batch is to the backend its keys are on. -/
theorem batched_byFrom : Batched (byFrom moves).pairs (routingKeys moves) (backendOf s.store) := by
  refine batched_groupBy ?_ fun p hp => ?_
  · rw [List.map_map]
    exact List.Perm.refl _
  · obtain ⟨m, hm, rfl⟩ := List.mem_map.1 hp
    obtain ⟨a, ha, hb⟩ := hproper.getAssignment hm
    rw [backendOf, ha, ← hb]
    rfl

include hactive

/-- The new assignment of a moved account. -/
theorem exists_reassigned (now : Time) (hm : m ∈ moves) : ∃ a a' : Assignment,
    s.store.getAssignment m.routingKey = some a ∧
    (reassign .succeed now activeBackends s.store.getAllAssignments moves
      s.store).2.getAssignment m.routingKey = some a' ∧
    (reassign .succeed now activeBackends s.store.getAllAssignments moves
      s.store).1.lookup m.routingKey = some a'.backend ∧
    a'.backend ∈ activeBackends ∧ (m.toBackend ≠ "" → a'.backend = m.toBackend) ∧
    a'.effectiveWeight = a.effectiveWeight := by
  obtain ⟨a, ha, -⟩ := hproper.getAssignment hm
  have hk : m.routingKey ∈ routingKeys moves := mem_routingKeys.2 ⟨m, hm, rfl⟩
  obtain ⟨e, he, hnew, hw⟩ := exists_getAssignment_bulkAssign now
    (Store.not_occupied_bulkDeleteAssignments hk ha)
    ((Store.lookup_getAllAssignments _ _).trans ha) ⟨m, hm, rfl, fun _ => hactive⟩
  refine ⟨a, ⟨e.backend, now, "assignment", e.storedWeight⟩, ha, hnew, ?_, ?_⟩
  · rw [lookup_reassign_of_mem hk ha, he]
    rfl
  · obtain ⟨m', hm', hmk, -, hb⟩ := exists_of_lookup_newAssignments he
    obtain rfl := hproper.eq_of_routingKey hm' hm hmk
    refine ⟨?_, fun hto => by rwa [if_neg hto] at hb, hw⟩
    split at hb
    · exact hb
    · rename_i hto
      rw [hb]
      exact (hproper.target m' hm).resolve_left hto

/-- Every assign batch is to the backend its keys are on now. -/
theorem batched_byAssigned (now : Time) :
    Batched (byAssigned (reassign .succeed now activeBackends s.store.getAllAssignments moves
      s.store).1).pairs (routingKeys moves)
      (backendOf (reassign .succeed now activeBackends s.store.getAllAssignments moves
        s.store).2) := by
  refine batched_groupBy ?_ fun p hp => ?_
  · rw [List.map_map]
    refine (List.perm_ext_iff_of_nodup (Table.nodup_fst_pairs _) hproper.distinct).2 fun k => ?_
    rw [Table.mem_map_fst_pairs]
    by_cases hk : k ∈ routingKeys moves
    · obtain ⟨m, hm, rfl⟩ := mem_routingKeys.1 hk
      obtain ⟨a, a', -, -, hlook, -⟩ := exists_reassigned hproper hactive now hm
      simp only [hlook, Option.isSome_some, hk]
    · simp only [lookup_reassign_of_notMem hk, Option.isSome_none, Bool.false_eq_true, hk]
  · obtain ⟨⟨k, b⟩, hpair, rfl⟩ := List.mem_map.1 hp
    have hlook := Table.mem_pairs.1 hpair
    have hk : k ∈ routingKeys moves := by
      by_contra hk
      rw [lookup_reassign_of_notMem hk] at hlook
      cases hlook
    obtain ⟨m, hm, rfl⟩ := mem_routingKeys.1 hk
    obtain ⟨a, a', -, hnew, hlook', -⟩ := exists_reassigned hproper hactive now hm
    rw [backendOf, hnew, ← hlook, hlook']
    rfl

/-- An account keeps its weight. -/
theorem effectiveWeight_reassign (now : Time) (k : RoutingKey) :
    ((reassign .succeed now activeBackends s.store.getAllAssignments moves
      s.store).2.getAssignment k).map (·.effectiveWeight) =
      (s.store.getAssignment k).map (·.effectiveWeight) := by
  by_cases hk : k ∈ routingKeys moves
  · obtain ⟨m, hm, rfl⟩ := mem_routingKeys.1 hk
    obtain ⟨a, a', ha, hnew, -, -, -, hw⟩ := exists_reassigned hproper hactive now hm
    rw [ha, hnew, Option.map_some, Option.map_some, hw]
  · rw [getAssignment_reassign_of_notMem hk]

theorem rebalanced_perform (now : Time) :
    Rebalanced rb activeBackends moves s
      (perform rb .succeed now activeBackends s.store.getAllAssignments moves s) where
  accounts k := by
    have hweight := congrArg Option.isSome (effectiveWeight_reassign hproper hactive now k)
    rwa [Option.isSome_map, Option.isSome_map] at hweight
  unmoved k hk := by
    rw [perform_eq]
    exact getAssignment_reassign_of_notMem hk
  moved m hm := by
    obtain ⟨a, a', -, hnew, -, hb, hto, -⟩ := exists_reassigned hproper hactive now hm
    refine ⟨a'.backend, hb, ?_, hto⟩
    rw [perform_eq, backendOf]
    exact congrArg (Option.map Assignment.backend) hnew
  weights := effectiveWeight_reassign hproper hactive now
  cache k := by
    simp only [perform_eq, State.announce, State.unassign, cache_clear, lookup_invalidate,
      cache_mark]
  unassigned hhooks := by
    refine ⟨(byFrom moves).pairs, ?_, batched_byFrom hproper⟩
    simp only [perform_eq, State.announce, State.unassign, hhooks, if_true]
  assigned hhooks := by
    refine ⟨_, ?_, batched_byAssigned hproper hactive now⟩
    simp only [perform_eq, State.announce, State.unassign, hhooks, true_and]
    split
    · rfl
    · -- With nothing assigned there is no batch, and none is sent.
      rename_i hnone
      rw [byAssigned, not_not.1 hnone]
      rfl
  holds := holds_clear_subset s.frontend

end Perform

/-- Sorting the active backends changes none of this. -/
theorem Proper.sort (h : Proper assignments activeBackends moves) :
    Proper assignments (sortStrings activeBackends) moves :=
  { h with target := fun m hm => (h.target m hm).imp_right mem_sortStrings.2 }

theorem Rebalanced.of_sort {s' : State}
    (h : Rebalanced rb (sortStrings activeBackends) moves s s') :
    Rebalanced rb activeBackends moves s s' where
  __ := h
  moved m hm := by
    obtain ⟨b, hb, hmoved⟩ := h.moved m hm
    exact ⟨b, mem_sortStrings.1 hb, hmoved⟩

/-- **A rebalance moves the accounts it says it moves, and keeps everything
else.** For every store, every list of active backends and every strategy
whose moves are proper: the table has the accounts it had, the unmoved
untouched and the moved on their target or on some active backend, all with
the weights they had; the cache has lost the moved accounts only; the hooks
have named each of them once to the backend it left and once to the one it
went to; and no key is held that was not held before. -/
theorem rebalance_correct (rb : Rebalancer) (computeMoves : ComputeMoves) (now : Time)
    (activeBackends : List Backend) (s : State) (hactive : activeBackends ≠ [])
    (hproper : Proper s.store.getAllAssignments activeBackends
      (computeMoves s.store.getAllAssignments (sortStrings activeBackends))) :
    Rebalanced rb activeBackends
      (computeMoves s.store.getAllAssignments (sortStrings activeBackends)) s
      (rebalance rb computeMoves .succeed now activeBackends s) := by
  unfold rebalance
  simp only [Calls.succeed, not_true_eq_false, if_false]
  split
  · rename_i hnone
    rw [hnone]
    exact rebalanced_nil
  · exact (rebalanced_perform hproper.sort (hactive ∘ sortStrings_eq_nil.1) now).of_sort

/-- Two accounts on `b1`, one of them heavy, and both cached. -/
def twoAccounts : State where
  store := .redis {
    assignments := Table.insertAll ∅ [("u", .record ⟨"b1", 5, "assignment", some 3⟩),
      ("v", .record ⟨"b1", 6, "assignment", none⟩)]
    counts := Table.insertAll ∅ [("b1", 4)]
    active := {"b1", "b2"} }
  frontend := ⟨⟨60, Table.insertAll ∅ [("u", ⟨"b1", 90⟩), ("v", ⟨"b1", 95⟩)]⟩, {"w"}⟩
  sendUnassign := []
  sendAssign := []
  published := []
  connCalls := []

/-- One move to `b2`, and one to where the round robin says. -/
def twoMoves : List Move := [⟨"u", "b1", "b2"⟩, ⟨"v", "b1", ""⟩]

theorem rebalance_correct_twoAccounts :
    Rebalanced ⟨true, true, true, true, true⟩ ["b2", "b1"] twoMoves twoAccounts
      (rebalance ⟨true, true, true, true, true⟩ (fun _ _ => twoMoves) .succeed 70 ["b2", "b1"]
        twoAccounts) := by
  refine rebalance_correct ⟨true, true, true, true, true⟩ (fun _ _ => twoMoves) 70 ["b2", "b1"]
    twoAccounts (by decide) ⟨by decide, ?_, by decide⟩
  intro m hm
  rcases List.mem_pair.1 hm with rfl | rfl
  · exact ⟨_, rfl, rfl⟩
  · exact ⟨_, rfl, rfl⟩

/-! ## When calls fail -/

/-- Nobody has lost an assignment, or weight. -/
def LosesNobody (st st' : Store) : Prop :=
  ∀ k a, st.getAssignment k = some a →
    ∃ a', st'.getAssignment k = some a' ∧ a'.effectiveWeight = a.effectiveWeight

/-- What is deleted is created again: the delete did not happen, or every
account the moves name is assigned a backend. -/
def Recreated (calls : Calls) (activeBackends : List Backend) (moves : List Move) (st : Store) :
    Prop :=
  calls.bulkDeleteAssignments = false ∨
    ∀ k ∈ routingKeys moves, (st.getAssignment k).isSome →
      calls.bulkAssign = true ∧
        ∃ m ∈ moves, m.routingKey = k ∧ (m.toBackend = "" → activeBackends ≠ [])

theorem losesNobody_reassign_iff : LosesNobody st
    (reassign calls now activeBackends st.getAllAssignments moves st).2 ↔
      Recreated calls activeBackends moves st := by
  constructor
  · intro hkept
    by_cases hcall : calls.bulkDeleteAssignments = false
    · exact Or.inl hcall
    · refine Or.inr fun k hk hsome => ?_
      obtain ⟨a, ha⟩ := Option.isSome_iff_exists.1 hsome
      obtain ⟨a', ha', -⟩ := hkept k a ha
      rw [getAssignment_reassign_of_deleted (Bool.eq_true_of_not_eq_false hcall) hk ha] at ha'
      split at ha'
      · rename_i hassign
        obtain ⟨e, he, -⟩ := Option.map_eq_some_iff.1 ha'
        exact ⟨hassign, isSome_lookup_newAssignments.1 (Option.isSome_of_eq_some he)⟩
      · cases ha'
  · intro hrecreated k a ha
    by_cases hk : k ∈ routingKeys moves
    · rcases hrecreated with hcall | hall
      · exact ⟨a, getAssignment_reassign_of_not_deleted hcall ha, rfl⟩
      · by_cases hcall : calls.bulkDeleteAssignments = false
        · exact ⟨a, getAssignment_reassign_of_not_deleted hcall ha, rfl⟩
        · obtain ⟨hassign, htarget⟩ := hall k hk (Option.isSome_of_eq_some ha)
          have hdelete := Bool.eq_true_of_not_eq_false hcall
          obtain ⟨e, -, hnew, hw⟩ := exists_getAssignment_bulkAssign now
            (Store.not_occupied_bulkDeleteAssignments hk ha)
            ((Store.lookup_getAllAssignments _ _).trans ha) htarget
          refine ⟨⟨e.backend, now, "assignment", e.storedWeight⟩, ?_, hw⟩
          rw [reassign, if_pos hassign, deleteMoved, if_pos hdelete, hnew]
    · exact ⟨a, (getAssignment_reassign_of_notMem hk).trans ha, rfl⟩

/-- **A failed rebalance loses nobody exactly when what it deletes it
creates again.** -/
theorem losesNobody_rebalance_iff (rb : Rebalancer) (computeMoves : ComputeMoves) (calls : Calls)
    (now : Time) (activeBackends : List Backend) (s : State) :
    LosesNobody s.store (rebalance rb computeMoves calls now activeBackends s).store ↔
      calls.lock = false ∨ calls.getAllAssignments = false ∨
        Recreated calls activeBackends
          (computeMoves s.store.getAllAssignments (sortStrings activeBackends)) s.store := by
  unfold rebalance
  by_cases hlock : calls.lock = false
  · simp only [hlock, Bool.false_eq_true, not_false_eq_true, if_true, true_or, iff_true]
    exact fun k a ha => ⟨a, ha, rfl⟩
  by_cases hget : calls.getAllAssignments = false
  · simp only [hlock, hget, Bool.false_eq_true, not_false_eq_true, if_true, true_or, or_true,
      iff_true, ite_self]
    exact fun k a ha => ⟨a, ha, rfl⟩
  simp only [Bool.eq_true_of_not_eq_false hlock, Bool.eq_true_of_not_eq_false hget,
    not_true_eq_false, if_false, Bool.true_eq_false, false_or]
  split
  · rename_i hnone
    rw [hnone]
    exact iff_of_true (fun k a ha => ⟨a, ha, rfl⟩) (Or.inr fun k hk => absurd hk List.not_mem_nil)
  · rw [perform_eq]
    refine losesNobody_reassign_iff.trans ?_
    simp only [Recreated, ne_eq, sortStrings_eq_nil]

/-- The bulk assign fails after the delete has succeeded: the account the
move names has no assignment left. -/
theorem failed_bulkAssign_loses_account : ¬ LosesNobody twoAccounts.store
    (rebalance ⟨true, true, true, true, true⟩ (fun _ _ => twoMoves) ⟨true, true, true, false⟩ 70
      ["b2", "b1"] twoAccounts).store := by
  intro hkept
  obtain ⟨a, ha, -⟩ := hkept "u" ⟨"b1", 5, "assignment", 3⟩ rfl
  have hlost : (rebalance ⟨true, true, true, true, true⟩ (fun _ _ => twoMoves)
      ⟨true, true, true, false⟩ 70 ["b2", "b1"] twoAccounts).store.getAssignment "u" = none := by
    decide +kernel
  rw [hlost] at ha
  cases ha

/-! ## Step by step

What one step of the replica's rebalance does. Taken without a step of
anybody else in between, the steps add up to `rebalance`. -/

section Step

variable {computeMoves : ComputeMoves} {s s' : Replica}

/-- The step the rebalance takes, phase by phase. -/
inductive Advances (rb : Rebalancer) (computeMoves : ComputeMoves) (activeBackends : List Backend)
    (now : Time) (s : Replica) : Replica → Prop
  /-- There is nothing to move. -/
  | rest : s.rebalance = .getAllAssignments →
      Advances rb computeMoves activeBackends now s { s with rebalance := .finished [] }
  | plan {assignments : Table RoutingKey Assignment} {moves : List Move} :
      s.rebalance = .getAllAssignments → assignments = s.store.getAllAssignments →
      moves = computeMoves assignments (sortStrings activeBackends) →
      Advances rb computeMoves activeBackends now s
        { s with rebalance := .markTransition assignments moves }
  | mark {assignments : Table RoutingKey Assignment} {moves : List Move} :
      s.rebalance = .markTransition assignments moves →
      Advances rb computeMoves activeBackends now s
        { s with
          frontend := mark rb moves s.frontend
          rebalance := .bulkDeleteAssignments assignments moves }
  | bulkDelete {assignments : Table RoutingKey Assignment} {moves : List Move} :
      s.rebalance = .bulkDeleteAssignments assignments moves →
      Advances rb computeMoves activeBackends now s
        { s with
          store := s.store.bulkDeleteAssignments (routingKeys moves)
          rebalance := .bulkAssign assignments moves }
  | bulkAssign {assignments : Table RoutingKey Assignment} {moves : List Move} :
      s.rebalance = .bulkAssign assignments moves →
      Advances rb computeMoves activeBackends now s
        { s with
          store := (s.store.bulkAssign now
            (newAssignments assignments (sortStrings activeBackends) moves)).2
          rebalance := .invalidate moves (routingKeys moves) }
  /-- One key is dropped from the cache. -/
  | invalidate {moves : List Move} {k : RoutingKey} {todo : List RoutingKey} :
      s.rebalance = .invalidate moves (k :: todo) →
      Advances rb computeMoves activeBackends now s
        { s with
          frontend := invalidate [k] s.frontend
          rebalance := .invalidate moves todo }
  | invalidated {moves : List Move} : s.rebalance = .invalidate moves [] →
      Advances rb computeMoves activeBackends now s
        { s with rebalance := .publish moves (notified rb moves) }
  /-- One backend is published. -/
  | publish {moves : List Move} {b : Backend} {todo : List Backend} :
      s.rebalance = .publish moves (b :: todo) →
      Advances rb computeMoves activeBackends now s
        { s with messages := s.messages ++ [b], rebalance := .publish moves todo }
  | published {moves : List Move} : s.rebalance = .publish moves [] →
      Advances rb computeMoves activeBackends now s { s with rebalance := .clearTransition moves }
  | clear {moves : List Move} : s.rebalance = .clearTransition moves →
      Advances rb computeMoves activeBackends now s
        { s with
          frontend := clear rb moves s.frontend
          rebalance := .finished moves }

theorem advances_of_rebalanceStep
    (h : rebalanceStep rb computeMoves activeBackends now s = some s') :
    Advances rb computeMoves activeBackends now s s' := by
  rcases hphase : s.rebalance with - | ⟨assignments, moves⟩ | ⟨assignments, moves⟩ |
    ⟨assignments, moves⟩ | ⟨moves, - | ⟨k, todo⟩⟩ | ⟨moves, - | ⟨b, todo⟩⟩ | ⟨moves⟩ | ⟨moves⟩
  all_goals
    simp only [rebalanceStep, hphase, Option.some.injEq, reduceCtorEq] at h
    try subst h
  · by_cases hnone : computeMoves s.store.getAllAssignments (sortStrings activeBackends) = []
    · rw [if_pos hnone, hnone]
      exact .rest hphase
    · rw [if_neg hnone]
      exact .plan hphase rfl rfl
  · exact .mark hphase
  · exact .bulkDelete hphase
  · exact .bulkAssign hphase
  · exact .invalidated hphase
  · exact .invalidate hphase
  · exact .published hphase
  · exact .publish hphase
  · exact .clear hphase

end Step

end Rebalance

end StickyProxy
