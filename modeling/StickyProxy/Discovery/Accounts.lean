import StickyProxy.Discovery.Model.Accounts
import StickyProxy.Store.Effects
import StickyProxy.Common.Run
/-!
# What a reconcile of the accounts leaves

An account is open if it has no assignment to an active backend. A
reconcile that nothing interferes with deletes what is left of the open
accounts in the table and assigns them in turn; the deleted keys are free by
then, so every entry is set. Everybody else is left alone. Afterwards no
discovered account is open, and the next reconcile finds nothing to do.
-/

namespace StickyProxy

namespace AccountDiscovery

open Snapshot

variable {st : Store} {accounts : List DiscoveredAccount} {acct : DiscoveredAccount}
  {order : List Backend} {k : RoutingKey} {now : Time} {b c : Backend} {e : BulkAssignEntry}

/-! ## Who has to be assigned -/

/-- The account has no assignment to an active backend. -/
def Open (st : Store) (acct : DiscoveredAccount) : Prop :=
  ∀ a, st.getAssignment acct.id = some a → a.backend ∉ st.active

instance (st : Store) (acct : DiscoveredAccount) : Decidable (Open st acct) :=
  inferInstanceAs (Decidable (∀ a ∈ st.getAssignment acct.id, a.backend ∉ st.active))

theorem stale_iff (horder : Enumerates order st.active) :
    Stale st.getAllAssignments (sortStrings order) acct ↔
      ∃ a, st.getAssignment acct.id = some a ∧ a.backend ∉ st.active := by
  simp only [Stale, Store.lookup_getAllAssignments, Option.mem_def, mem_sortStrings, horder.mem]

/-- The accounts `reconcile` assigns are the open ones. -/
theorem mem_unassigned (horder : Enumerates order st.active) :
    acct ∈ unassigned st.getAllAssignments (sortStrings order) accounts ↔
      acct ∈ accounts ∧ Open st acct := by
  rw [unassigned, List.mem_filter, decide_eq_true_eq, stale_iff horder,
    Store.lookup_getAllAssignments]
  refine and_congr_right fun _ => ?_
  rcases ha : st.getAssignment acct.id with - | a
  · simp [Open, ha]
  · simp [Open, ha]

/-- The keys it deletes are those of open accounts that have one. -/
theorem mem_staleKeys (horder : Enumerates order st.active) :
    k ∈ staleKeys st.getAllAssignments (sortStrings order) accounts ↔
      ∃ acct ∈ accounts, acct.id = k ∧ Open st acct ∧ (st.getAssignment k).isSome := by
  rw [staleKeys, List.mem_map]
  constructor
  · rintro ⟨acct, hmem, rfl⟩
    obtain ⟨hmem, hstale⟩ := List.mem_filter.1 hmem
    obtain ⟨a, ha, hb⟩ := (stale_iff horder).1 (of_decide_eq_true hstale)
    refine ⟨acct, hmem, rfl, fun a' ha' => ?_, Option.isSome_of_eq_some ha⟩
    rwa [← Option.some.inj (ha.symm.trans ha')]
  · rintro ⟨acct, hmem, rfl, hopen, hsome⟩
    obtain ⟨a, ha⟩ := Option.isSome_iff_exists.1 hsome
    exact ⟨acct, List.mem_filter.2 ⟨hmem, decide_eq_true ((stale_iff horder).2
      ⟨a, ha, hopen a ha⟩)⟩, rfl⟩

/-! ## The delete -/

theorem getAssignment_clean (stale : List RoutingKey) (k : RoutingKey) :
    (clean .succeed stale st).getAssignment k =
      if k ∈ stale then none else st.getAssignment k := by
  unfold clean
  split
  · exact Store.getAssignment_bulkDeleteAssignments stale k
  · rename_i hnone
    have hnil : stale = [] := by simpa [Calls.succeed] using hnone
    rw [hnil, if_neg List.not_mem_nil]

theorem active_clean (stale : List RoutingKey) : (clean .succeed stale st).active = st.active := by
  unfold clean
  split
  · exact Store.active_bulkDeleteAssignments stale
  · rfl

/-- The key of an open account is free once the stale ones are deleted. -/
theorem not_occupied_clean (htable : st.Tabled) (horder : Enumerates order st.active)
    (hmem : acct ∈ accounts) (hopen : Open st acct) :
    ¬ (clean .succeed (staleKeys st.getAllAssignments (sortStrings order) accounts)
      st).Occupied acct.id := by
  intro hocc
  unfold clean at hocc
  split at hocc
  · obtain ⟨a, ha⟩ := htable acct.id (Store.occupied_of_bulkDeleteAssignments hocc)
    exact Store.not_occupied_bulkDeleteAssignments
      ((mem_staleKeys horder).2 ⟨acct, hmem, rfl, hopen, Option.isSome_of_eq_some ha⟩) ha hocc
  · rename_i hnone
    have hnil : staleKeys st.getAllAssignments (sortStrings order) accounts = [] := by
      simpa [Calls.succeed] using hnone
    obtain ⟨a, ha⟩ := htable acct.id hocc
    have hstale := (mem_staleKeys horder).2
      ⟨acct, hmem, rfl, hopen, Option.isSome_of_eq_some ha⟩
    rw [hnil] at hstale
    exact absurd hstale List.not_mem_nil

/-! ## The assignment -/

/-- The turns the open accounts take. -/
def turns (st : Store) (order : List Backend) (accounts : List DiscoveredAccount) :
    List (RoutingKey × BulkAssignEntry) :=
  roundRobin (sortStrings order)
    ((unassigned st.getAllAssignments (sortStrings order) accounts).map fun acct =>
      (acct.id, acct.weight))

theorem map_fst_turns (hne : order ≠ []) : (turns st order accounts).map Prod.fst =
    (unassigned st.getAllAssignments (sortStrings order) accounts).map (·.id) := by
  rw [turns, map_fst_roundRobin (hne ∘ sortStrings_eq_nil.1), List.map_map]
  rfl

theorem nodup_turns (hne : order ≠ []) (hids : (accounts.map (·.id)).Nodup) :
    ((turns st order accounts).map Prod.fst).Nodup := by
  rw [map_fst_turns hne]
  exact hids.sublist (List.filter_sublist.map _)

/-- A turn is that of an open account, to an active backend, with the
weight of the account. -/
theorem of_mem_turns (horder : Enumerates order st.active) (h : (k, e) ∈ turns st order accounts) :
    (∃ acct ∈ accounts, acct.id = k ∧ acct.weight = e.weight ∧ Open st acct) ∧
      e.backend ∈ st.active := by
  obtain ⟨hacct, hb⟩ := of_mem_roundRobin h
  obtain ⟨acct, hmem, heq⟩ := List.mem_map.1 hacct
  obtain ⟨hid, hweight⟩ := Prod.mk.inj heq
  obtain ⟨hmem, hopen⟩ := (mem_unassigned horder).1 hmem
  exact ⟨⟨acct, hmem, hid, hweight, hopen⟩, horder.mem.1 (mem_sortStrings.1 hb)⟩

/-- Every open account has one. -/
theorem exists_turn_of_open (hne : order ≠ []) (horder : Enumerates order st.active)
    (hmem : acct ∈ accounts) (hopen : Open st acct) :
    ∃ e, (acct.id, e) ∈ turns st order accounts := by
  have hkey : acct.id ∈ (turns st order accounts).map Prod.fst := by
    rw [map_fst_turns hne]
    exact List.mem_map.2 ⟨acct, (mem_unassigned horder).2 ⟨hmem, hopen⟩, rfl⟩
  obtain ⟨⟨k, e⟩, hp, rfl⟩ := List.mem_map.1 hkey
  exact ⟨e, hp⟩

/-- The store after a reconcile in which no call fails. -/
theorem store_reconcile (d : AccountDiscovery) (s : State) (hne : order ≠ []) :
    (reconcile d .succeed now order accounts s).store =
      if unassigned s.store.getAllAssignments (sortStrings order) accounts = [] then
        clean .succeed (staleKeys s.store.getAllAssignments (sortStrings order) accounts) s.store
      else
        ((clean .succeed (staleKeys s.store.getAllAssignments (sortStrings order) accounts)
          s.store).bulkAssign now (Table.insertAll ∅ (turns s.store order accounts))).2 := by
  simp only [reconcile, Calls.succeed, not_true_eq_false, if_false, hne, or_self]
  split
  · rfl
  · rfl

/-- **An open account gets its turn.** -/
theorem getAssignment_reconcile_of_turn (d : AccountDiscovery) (s : State)
    (htable : s.store.Tabled) (hne : order ≠ []) (horder : Enumerates order s.store.active)
    (hids : (accounts.map (·.id)).Nodup) (h : (k, e) ∈ turns s.store order accounts) :
    (reconcile d .succeed now order accounts s).store.getAssignment k =
      some ⟨e.backend, now, "assignment", e.storedWeight⟩ := by
  obtain ⟨⟨acct, hmem, rfl, -, hopen⟩, -⟩ := of_mem_turns horder h
  have htodo : unassigned s.store.getAllAssignments (sortStrings order) accounts ≠ [] :=
    List.ne_nil_of_mem ((mem_unassigned horder).2 ⟨hmem, hopen⟩)
  rw [store_reconcile d s hne, if_neg htodo, Store.getAssignment_bulkAssign_of_not_occupied
    (not_occupied_clean htable horder hmem hopen),
    Table.lookup_insertAll_of_mem (nodup_turns hne hids) h]
  rfl

/-- **Nobody else is touched.** -/
theorem getAssignment_reconcile_of_not_open (d : AccountDiscovery) (s : State)
    (hne : order ≠ []) (horder : Enumerates order s.store.active)
    (h : ∀ acct ∈ accounts, acct.id = k → ¬ Open s.store acct) :
    (reconcile d .succeed now order accounts s).store.getAssignment k =
      s.store.getAssignment k := by
  have hstale : k ∉ staleKeys s.store.getAllAssignments (sortStrings order) accounts := by
    rintro hk
    obtain ⟨acct, hmem, hid, hopen, -⟩ := (mem_staleKeys horder).1 hk
    exact h acct hmem hid hopen
  have hclean : (clean .succeed (staleKeys s.store.getAllAssignments (sortStrings order) accounts)
      s.store).getAssignment k = s.store.getAssignment k := by
    rw [getAssignment_clean, if_neg hstale]
  rw [store_reconcile d s hne]
  split
  · exact hclean
  · have hnone : (Table.insertAll ∅ (turns s.store order accounts)).lookup k = none := by
      rw [Table.lookup_insertAll_of_notMem, AList.lookup_empty]
      rw [map_fst_turns hne]
      rintro hk
      obtain ⟨acct, hacct, hid⟩ := List.mem_map.1 hk
      obtain ⟨hmem, hopen⟩ := (mem_unassigned horder).1 hacct
      exact h acct hmem hid hopen
    rw [Store.getAssignment_bulkAssign_of_eq_none hnone, hclean]

theorem active_reconcile (d : AccountDiscovery) (s : State) (hne : order ≠ []) :
    (reconcile d .succeed now order accounts s).store.active = s.store.active := by
  rw [store_reconcile d s hne]
  split
  · exact active_clean _
  · rw [Store.active_bulkAssign, active_clean]

/-- With nobody open there is nothing to do. -/
theorem reconcile_of_none_open (d : AccountDiscovery) (s : State)
    (horder : Enumerates order s.store.active) (h : ∀ acct ∈ accounts, ¬ Open s.store acct) :
    reconcile d .succeed now order accounts s = s := by
  have htodo : unassigned s.store.getAllAssignments (sortStrings order) accounts = [] :=
    List.eq_nil_iff_forall_not_mem.2 fun acct hacct => by
      obtain ⟨hmem, hopen⟩ := (mem_unassigned horder).1 hacct
      exact h acct hmem hopen
  have hstale : staleKeys s.store.getAllAssignments (sortStrings order) accounts = [] :=
    List.eq_nil_iff_forall_not_mem.2 fun k hk => by
      obtain ⟨acct, hmem, -, hopen, -⟩ := (mem_staleKeys horder).1 hk
      exact h acct hmem hopen
  simp only [reconcile, htodo, hstale, clean, ne_eq, not_true_eq_false, false_and, if_false,
    if_true, ite_self]

/-! ## What has been given to whom -/

/-- How many accounts a reconcile has given to a backend. -/
def given (st st' : Store) (accounts : List DiscoveredAccount) (b : Backend) : ℕ :=
  accounts.countP fun acct =>
    Open st acct ∧ (st'.getAssignment acct.id).map (·.backend) = some b

theorem unassigned_eq_filter (horder : Enumerates order st.active) :
    unassigned st.getAllAssignments (sortStrings order) accounts =
      accounts.filter fun acct => Open st acct := by
  refine List.filter_congr fun acct hmem => ?_
  have hiff : acct ∈ unassigned st.getAllAssignments (sortStrings order) accounts ↔
      acct ∈ accounts ∧ Open st acct := mem_unassigned horder
  rw [unassigned, List.mem_filter] at hiff
  simp only [hmem, true_and] at hiff
  exact Bool.eq_iff_iff.2 (hiff.trans (decide_eq_true_iff).symm)

/-- Every turn counts for its backend. -/
theorem given_eq_countP_turns {st' : Store} (hne : order ≠ [])
    (horder : Enumerates order st.active)
    (h : ∀ k e, (k, e) ∈ turns st order accounts →
      (st'.getAssignment k).map (·.backend) = some e.backend) (b : Backend) :
    given st st' accounts b = (turns st order accounts).countP fun p => p.2.backend = b := by
  have hgiven : given st st' accounts b =
      ((unassigned st.getAllAssignments (sortStrings order) accounts).map (·.id)).countP
        fun k => (st'.getAssignment k).map (·.backend) = some b := by
    rw [unassigned_eq_filter horder, List.countP_map, List.countP_filter]
    refine List.countP_congr fun acct _ => ?_
    simp only [Function.comp_apply, decide_eq_true_eq, Bool.and_eq_true]
    exact and_comm
  rw [hgiven, ← map_fst_turns hne, List.countP_map]
  refine List.countP_congr fun p hp => ?_
  simp only [Function.comp_apply, decide_eq_true_eq, h p.1 p.2 hp, Option.some.injEq]

/-- What a reconcile leaves of a store. -/
structure Reconciled (accounts : List DiscoveredAccount) (st st' : Store) : Prop where
  /-- Every discovered account is on an active backend. -/
  assigned : ∀ acct ∈ accounts, ∃ a, st'.getAssignment acct.id = some a ∧ a.backend ∈ st.active
  /-- Accounts that were not discovered keep what they have, -/
  undiscovered : ∀ k, k ∉ accounts.map (·.id) → st'.getAssignment k = st.getAssignment k
  /-- and so does everybody on an active backend. -/
  kept : ∀ k a, st.getAssignment k = some a → a.backend ∈ st.active →
    st'.getAssignment k = some a
  /-- An account that has been placed has the weight discovered, or one. -/
  weights : ∀ acct ∈ accounts, Open st acct → ∃ a, st'.getAssignment acct.id = some a ∧
    a.weight = if acct.weight ≤ 0 then 1 else acct.weight
  /-- No active backend has been given two accounts more than another. -/
  spread : ∀ b ∈ st.active, ∀ c ∈ st.active,
    given st st' accounts b ≤ given st st' accounts c + 1

/-- An account with the id of another is that one. -/
theorem eq_of_id_eq {acct' : DiscoveredAccount} (hids : (accounts.map (·.id)).Nodup)
    (hmem : acct ∈ accounts) (hmem' : acct' ∈ accounts) (h : acct.id = acct'.id) : acct = acct' :=
  List.inj_on_of_nodup_map hids hmem hmem' h

theorem reconciled_reconcile (d : AccountDiscovery) (now : Time) (s : State)
    (htable : s.store.Tabled) (hne : order ≠ []) (horder : Enumerates order s.store.active)
    (hids : (accounts.map (·.id)).Nodup) :
    Reconciled accounts s.store (reconcile d .succeed now order accounts s).store where
  assigned acct hmem := by
    by_cases hopen : Open s.store acct
    · obtain ⟨e, he⟩ := exists_turn_of_open hne horder hmem hopen
      exact ⟨_, getAssignment_reconcile_of_turn d s htable hne horder hids he,
        (of_mem_turns horder he).2⟩
    · -- It had one, and keeps it.
      have hsame : (reconcile d .succeed now order accounts s).store.getAssignment acct.id =
          s.store.getAssignment acct.id :=
        getAssignment_reconcile_of_not_open d s hne horder fun acct' hmem' hid =>
          eq_of_id_eq hids hmem' hmem hid ▸ hopen
      simp only [Open, not_forall, not_not] at hopen
      obtain ⟨a, ha, hb⟩ := hopen
      exact ⟨a, hsame.trans ha, hb⟩
  undiscovered k hk := getAssignment_reconcile_of_not_open d s hne horder fun acct hmem hid =>
    absurd (List.mem_map.2 ⟨acct, hmem, hid⟩) hk
  kept k a ha hb := by
    refine (getAssignment_reconcile_of_not_open d s hne horder fun acct _ hid hopen => ?_).trans ha
    exact hopen a (hid ▸ ha) hb
  weights acct hmem hopen := by
    obtain ⟨e, he⟩ := exists_turn_of_open hne horder hmem hopen
    obtain ⟨⟨acct', hmem', hid, hweight, -⟩, -⟩ := of_mem_turns horder he
    refine ⟨_, getAssignment_reconcile_of_turn d s htable hne horder hids he, ?_⟩
    rw [← eq_of_id_eq hids hmem' hmem hid, hweight]
    rfl
  spread b hb c hc := by
    have hplaced : ∀ k e, (k, e) ∈ turns s.store order accounts →
        ((reconcile d .succeed now order accounts s).store.getAssignment k).map (·.backend) =
          some e.backend := by
      intro k e he
      rw [getAssignment_reconcile_of_turn d s htable hne horder hids he]
      rfl
    have hsorted : (sortStrings order).Nodup :=
      (List.perm_insertionSort (· ≤ ·) order).nodup_iff.2 horder.1
    rw [given_eq_countP_turns hne horder hplaced, given_eq_countP_turns hne horder hplaced]
    exact countP_roundRobin_le hsorted (mem_sortStrings.2 (horder.mem.2 hb))
      (mem_sortStrings.2 (horder.mem.2 hc)) _

/-- **The postcondition of account discovery.** For every list of accounts
with distinct ids, every table and every set of active backends that is not
empty: a reconcile run alone, with no call failing, leaves every discovered
account on an active backend, everybody else and everybody who was on one
as they were, the accounts placed with their weights and spread evenly; and
another one, at any time and with the backends in any order, changes
nothing. -/
theorem reconcile_postcondition (d : AccountDiscovery) (now : Time) (order : List Backend)
    (accounts : List DiscoveredAccount) (s : State) (htable : s.store.Tabled)
    (hactive : s.store.active.Nonempty) (horder : Enumerates order s.store.active)
    (hids : (accounts.map (·.id)).Nodup) :
    Reconciled accounts s.store (reconcile d .succeed now order accounts s).store ∧
    ∀ now' order', Enumerates order' s.store.active →
      reconcile d .succeed now' order' accounts (reconcile d .succeed now order accounts s) =
        reconcile d .succeed now order accounts s := by
  have hne : order ≠ [] := by
    rintro rfl
    exact hactive.ne_empty horder.2.symm
  have hdone : Reconciled accounts s.store (reconcile d .succeed now order accounts s).store :=
    reconciled_reconcile d now s htable hne horder hids
  refine ⟨hdone, fun now' order' horder' => ?_⟩
  have hsame : (reconcile d .succeed now order accounts s).store.active = s.store.active :=
    active_reconcile d s hne
  refine reconcile_of_none_open d _ (by rwa [hsame]) fun acct hmem hopen => ?_
  obtain ⟨a, ha, hb⟩ := hdone.assigned acct hmem
  exact hopen a ha (by rwa [hsame])

/-- One account on an active backend, one on a backend that is gone, and
one that has not been discovered. -/
def seeded : State where
  store := .redis {
    assignments := Table.insertAll ∅ [("u", .record ⟨"b1", 5, "assignment", some 3⟩),
      ("v", .record ⟨"b3", 6, "assignment", none⟩), ("w", .record ⟨"b3", 7, "assignment", none⟩)]
    counts := Table.insertAll ∅ [("b1", 3), ("b3", 2)]
    active := {"b1", "b2"} }
  sendAssign := []

theorem tabled_seeded : seeded.store.Tabled := by
  intro k hk
  have hall : ∀ p ∈ Table.pairs (Table.insertAll ∅ [("u", .record ⟨"b1", 5, "assignment", some 3⟩),
      ("v", .record ⟨"b3", 6, "assignment", none⟩), ("w", .record ⟨"b3", 7, "assignment", none⟩)] :
      Table RoutingKey Value), (unmarshalAssignment p.2).isSome := by decide
  obtain ⟨v, hv⟩ := Option.isSome_iff_exists.1 hk
  obtain ⟨a, ha⟩ := Option.isSome_iff_exists.1 (hall (k, v) (Table.mem_pairs.2 hv))
  exact ⟨a, Option.bind_eq_some_iff.2 ⟨v, hv, ha⟩⟩

theorem reconcile_postcondition_seeded :
    Reconciled [⟨"u", 1⟩, ⟨"v", 2⟩, ⟨"x", -1⟩] seeded.store
      (reconcile ⟨true⟩ .succeed 9 ["b2", "b1"] [⟨"u", 1⟩, ⟨"v", 2⟩, ⟨"x", -1⟩] seeded).store :=
  (reconcile_postcondition ⟨true⟩ 9 ["b2", "b1"] [⟨"u", 1⟩, ⟨"v", 2⟩, ⟨"x", -1⟩] seeded
    tabled_seeded (by decide) (by decide) (by decide)).1

/-! ## Beside other operations -/

/-- **Run alone, the steps of a reconcile are the reconcile.** -/
theorem exec_operation (d : AccountDiscovery) (now : Time) (order : List Backend)
    (accounts : List DiscoveredAccount) (s : State) (horder : Enumerates order s.store.active) :
    ∃ n, Run.exec step ⟨s.store, [.reconcile accounts]⟩
        (List.replicate n (.operation 0 now order)) =
      some ⟨(reconcile d .succeed now order accounts s).store, [.finished]⟩ := by
  have hread : step ⟨s.store, [.reconcile accounts]⟩ (.operation 0 now order) =
      some ⟨s.store, [.reconcileBackends accounts s.store.getAllAssignments]⟩ := rfl
  by_cases hne : order = []
  · subst hne
    refine ⟨2, Run.exec_cons_eq_some.2 ⟨_, hread, Run.exec_cons_eq_some.2 ⟨_, ?_, rfl⟩⟩⟩
    simp [step, operationStep, horder, reconcile, Calls.succeed]
  have hlist : step ⟨s.store, [.reconcileBackends accounts s.store.getAllAssignments]⟩
      (.operation 0 now order) =
      some ⟨s.store,
        [.reconcileDelete accounts s.store.getAllAssignments (sortStrings order)]⟩ := by
    simp [step, operationStep, horder, hne]
  have hdelete : step ⟨s.store, [.reconcileDelete accounts s.store.getAllAssignments
        (sortStrings order)]⟩ (.operation 0 now order) =
      some ⟨clean .succeed (staleKeys s.store.getAllAssignments (sortStrings order) accounts)
        s.store, [if unassigned s.store.getAllAssignments (sortStrings order) accounts = []
          then .finished
          else .reconcileAssign (Table.insertAll ∅ (turns s.store order accounts))]⟩ := by
    by_cases hstale : staleKeys s.store.getAllAssignments (sortStrings order) accounts = [] <;>
      simp [step, operationStep, clean, hstale, Calls.succeed, newEntries, turns]
  by_cases htodo : unassigned s.store.getAllAssignments (sortStrings order) accounts = []
  · refine ⟨3, Run.exec_cons_eq_some.2 ⟨_, hread, Run.exec_cons_eq_some.2 ⟨_, hlist,
      Run.exec_cons_eq_some.2 ⟨_, hdelete, ?_⟩⟩⟩⟩
    rw [store_reconcile d s hne, if_pos htodo, if_pos htodo]
    rfl
  · refine ⟨4, Run.exec_cons_eq_some.2 ⟨_, hread, Run.exec_cons_eq_some.2 ⟨_, hlist,
      Run.exec_cons_eq_some.2 ⟨_, hdelete, ?_⟩⟩⟩⟩
    rw [store_reconcile d s hne, if_neg htodo, if_neg htodo]
    rfl

end AccountDiscovery

end StickyProxy
