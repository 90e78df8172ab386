import StickyProxy.Snapshot.Model.Operations
import StickyProxy.Store.Effects
import StickyProxy.Common.Run
import StickyProxy.Common.Pool
/-!
# What a delete by snapshot takes away

The delete is told keys, not what was read for them: an account that has
got a new assignment since is deleted all the same. Nothing else goes
wrong. As long as no key an operation is about to delete is placed
anywhere but where its snapshot has it, the operation takes away what it
read and nothing that is live elsewhere.
-/

namespace StickyProxy

namespace Snapshot

variable {s s' : System} {act : Action} {k : RoutingKey} {a : Assignment} {b : Backend}
  {now : Time} {order : List Backend} {st st' : Store} {op op' : Operation}

/-! ## What an operation can do -/

/-- Every step an operation can take. -/
inductive Acts (now : Time) (st : Store) (op : Operation) : Operation → Store → Prop
  /-- It reads. What it may delete then is recorded as it is, or was
  recorded before. -/
  | read {op' : Operation} :
      (∀ k, op'.MayDelete k → ∀ b ∈ op'.records k,
        (∃ a ∈ st.getAssignment k, a.backend = b) ∨ op.MayDelete k ∧ b ∈ op.records k) →
      Acts now st op op' st
  /-- It deletes, and is not going to delete anything more. -/
  | delete {op' : Operation} {keys : List RoutingKey} : (∀ k ∈ keys, op.MayDelete k) →
      (∀ k, ¬ op'.MayDelete k) → Acts now st op op' (st.bulkDeleteAssignments keys)
  /-- It removes a backend. -/
  | remove {b : Backend} : Acts now st op .finished (st.removeBackend b)
  /-- It assigns. -/
  | assign {entries : Table RoutingKey BulkAssignEntry} : op = .reconcileAssign entries →
      Acts now st op .finished (st.bulkAssign now entries).2

/-- The users of a backend are recorded where they are. -/
theorem exists_of_recorded {c : Backend} (hk : k ∈ st.getBackendUsers b)
    (hc : c ∈ if k ∈ st.getBackendUsers b then some b else none) :
    ∃ a ∈ st.getAssignment k, a.backend = c := by
  rw [if_pos hk] at hc
  obtain rfl := Option.some.inj hc
  exact Store.mem_getBackendUsers.1 hk

theorem acts_of_operationStep (h : operationStep now order st op = some (op', st')) :
    Acts now st op op' st' := by
  cases op with
  | drain b | evict b =>
    simp only [operationStep, Option.some.injEq, Prod.mk.injEq] at h
    obtain ⟨rfl, rfl⟩ := h
    refine .read fun k hk c hc => Or.inl ?_
    split at hk
    · exact hk.elim
    · rename_i hne
      rw [if_neg hne] at hc
      exact exists_of_recorded hk hc
  | drainDelete b users | evictDelete b users =>
    simp only [operationStep, Option.some.injEq, Prod.mk.injEq] at h
    obtain ⟨rfl, rfl⟩ := h
    exact .delete (fun _ hk => hk) fun _ hk => hk
  | drainRemove b =>
    simp only [operationStep, Option.some.injEq, Prod.mk.injEq] at h
    obtain ⟨rfl, rfl⟩ := h
    exact .remove
  | reconcile accounts =>
    simp only [operationStep, Option.some.injEq, Prod.mk.injEq] at h
    obtain ⟨rfl, rfl⟩ := h
    refine .read fun k _ c hc => Or.inl ?_
    obtain ⟨a, ha, rfl⟩ := Option.map_eq_some_iff.1 hc
    exact ⟨a, (Store.lookup_getAllAssignments st k).symm.trans ha, rfl⟩
  | reconcileBackends accounts current =>
    simp only [operationStep] at h
    split at h
    · simp only [Option.some.injEq, Prod.mk.injEq] at h
      obtain ⟨rfl, rfl⟩ := h
      refine .read fun k hk c hc => Or.inr ?_
      split at hk
      · exact hk.elim
      · rename_i hne
        rw [if_neg hne] at hc
        obtain ⟨acct, hacct, rfl⟩ := List.mem_map.1 hk
        exact ⟨List.mem_map.2 ⟨acct, (List.mem_filter.1 hacct).1, rfl⟩, hc⟩
    · cases h
  | reconcileDelete accounts current backends =>
    simp only [operationStep, Option.some.injEq, Prod.mk.injEq] at h
    obtain ⟨rfl, rfl⟩ := h
    have hafter : ∀ k, ¬ Operation.MayDelete k (if unassigned current backends accounts = []
        then .finished
        else .reconcileAssign (newEntries backends (unassigned current backends accounts))) := by
      intro k
      split <;> exact id
    by_cases hstale : staleKeys current backends accounts = []
    · rw [if_pos hstale]
      exact .read fun k hk => absurd hk (hafter k)
    · rw [if_neg hstale]
      exact .delete (fun _ hk => hk) hafter
  | reconcileAssign entries =>
    simp only [operationStep, Option.some.injEq, Prod.mk.injEq] at h
    obtain ⟨rfl, rfl⟩ := h
    exact .assign rfl
  | finished => cases h

/-- Backends are only removed. -/
theorem Acts.mem_active (h : Acts now st op op' st') (hb : b ∈ st'.active) : b ∈ st.active := by
  cases h with
  | read _ => exact hb
  | delete _ _ => rwa [Store.active_bulkDeleteAssignments] at hb
  | remove => exact (Store.mem_active_removeBackend.1 hb).1
  | assign _ => rwa [Store.active_bulkAssign] at hb

/-! ## What a step places -/

/-- The keys a step gives a backend. -/
def placed (s : System) : Action → List (RoutingKey × Backend)
  | .operation i now _ =>
    match s.operations[i]? with
    | some (.reconcileAssign entries) => (s.store.bulkAssign now entries).1.pairs
    | _ => []
  | .assign order now k =>
    match (s.store.assignLeastLoaded order now k).1 with
    | some a => [(k, a.backend)]
    | none => []

/-- What a step of an operation leaves was there, or is placed by it. -/
theorem Acts.stored_or_placed {i : ℕ} (h : Acts now s.store op op' st)
    (hop : s.operations[i]? = some op) (ha : st.getAssignment k = some a) :
    s.store.getAssignment k = some a ∨ (k, a.backend) ∈ placed s (.operation i now order) := by
  cases h with
  | read _ => exact Or.inl ha
  | delete _ _ => exact Or.inl (Store.getAssignment_of_bulkDeleteAssignments ha)
  | remove =>
    rw [Store.getAssignment_removeBackend] at ha
    exact Or.inl ha
  | assign hassign =>
    refine (Store.stored_or_assigned ha).imp_right fun hans => ?_
    rw [placed, hop, hassign]
    exact Table.mem_pairs.2 hans

/-- A call of `AssignLeastLoaded` likewise. -/
theorem stored_or_placed_of_assign {k' : RoutingKey} (horder : Enumerates order s.store.candidates)
    (ha : (s.store.assignLeastLoaded order now k).2.getAssignment k' = some a) :
    s.store.getAssignment k' = some a ∨ (k', a.backend) ∈ placed s (.assign order now k) := by
  refine (Store.stored_or_answer horder ha).imp_right ?_
  rintro ⟨rfl, hans⟩
  rw [placed, hans]
  exact List.mem_cons_self

/-! ## Runs -/

/-- The step places no key an operation may be going to delete on an active
backend other than the one recorded. -/
def Steady (s : System) (act : Action) : Prop :=
  ∀ p ∈ placed s act, p.2 ∈ s.store.active →
    ∀ op ∈ s.operations, op.MayDelete p.1 → ∀ b ∈ op.records p.1, p.2 = b

instance (s : System) (act : Action) : Decidable (Steady s act) :=
  inferInstanceAs (Decidable (∀ p ∈ placed s act, p.2 ∈ s.store.active →
    ∀ op ∈ s.operations, op.MayDelete p.1 → ∀ b ∈ op.records p.1, p.2 = b))

/-- What an operation may be going to delete is nowhere else than
recorded. -/
def Recorded (s : System) : Prop :=
  ∀ op ∈ s.operations, ∀ k, op.MayDelete k → ∀ b ∈ op.records k,
    ∀ a, s.store.getAssignment k = some a → a.backend ∈ s.store.active → a.backend = b

/-- Any step: what is in the store was there or is placed. -/
theorem Recorded.of_stored_or_placed (h : Recorded s) (hok : Steady s act)
    (hplaced : ∀ k a, st.getAssignment k = some a →
      s.store.getAssignment k = some a ∨ (k, a.backend) ∈ placed s act)
    (hactive : ∀ b ∈ st.active, b ∈ s.store.active) : Recorded { s with store := st } := by
  intro op hop k hk b hb a ha hlive
  rcases hplaced k a ha with hold | hnew
  · exact h op hop k hk b hb a hold (hactive _ hlive)
  · exact hok _ hnew (hactive _ hlive) op hop hk b hb

/-- **One step.** -/
theorem Recorded.step (h : Recorded s) (hok : Steady s act) (hst : step s act = some s') :
    Recorded s' := by
  cases act with
  | operation i now order =>
    obtain ⟨op, hop, hst⟩ := Option.bind_eq_some_iff.1 hst
    obtain ⟨⟨op', st⟩, hopst, rfl⟩ := Option.map_eq_some_iff.1 hst
    have hacts := acts_of_operationStep hopst
    have hothers := h.of_stored_or_placed hok (fun k a ha => hacts.stored_or_placed hop ha)
      fun b hb => hacts.mem_active hb
    intro q hq k hk b hb a ha hlive
    rcases Pool.mem_or_eq_of_mem_set hq with hq | rfl
    · exact hothers q hq k hk b hb a ha hlive
    · -- The operation that moved has something to delete only if it has just read.
      cases hacts with
      | read hread =>
        rcases hread k hk b hb with ⟨x, hx, rfl⟩ | ⟨hk, hb⟩
        · rw [Option.some.inj (ha.symm.trans hx)]
        · exact h op (List.mem_of_getElem? hop) k hk b hb a ha hlive
      | delete _ hafter => exact absurd hk (hafter k)
      | remove => exact hk.elim
      | assign _ => exact hk.elim
  | assign order now k =>
    simp only [Snapshot.step] at hst
    split at hst
    · rename_i horder
      obtain rfl := Option.some.inj hst
      refine h.of_stored_or_placed hok (fun k' a ha => stored_or_placed_of_assign horder ha)
        fun b hb => ?_
      rwa [(Store.placed_assignLeastLoaded k now horder).active] at hb
    · cases hst

theorem recorded_start {store : Store} {operations : List Operation}
    (hstarts : ∀ op ∈ operations, op.Starts) : Recorded ⟨store, operations⟩ := by
  intro op hop k hk
  have hstart := hstarts op hop
  cases op with
  | drain b | evict b | reconcile accounts => exact hk.elim
  | _ => exact hstart.elim

/-- **A delete by snapshot spares what is live elsewhere**, in every run
that places no key on an active backend other than the one recorded while
an operation may be going to delete it. -/
theorem live_assignment_survives {store : Store} {operations : List Operation}
    {schedule : List Action} {i : ℕ} (hstarts : ∀ op ∈ operations, op.Starts)
    (hrun : Run.exec step ⟨store, operations⟩ schedule = some s)
    (hok : Run.Meets step Steady ⟨store, operations⟩ schedule)
    (hop : s.operations[i]? = some op) (hst : step s (.operation i now order) = some s')
    (ha : s.store.getAssignment k = some a) (hlive : a.backend ∈ s.store.active)
    (hrecorded : op.records k = some b) (hne : a.backend ≠ b) :
    s'.store.getAssignment k = some a := by
  have hinv : Recorded s :=
    Run.exec_invariant (fun _ _ _ h hok hst => Recorded.step h hok hst) (recorded_start hstarts)
      hok hrun
  obtain ⟨op₁, hop₁, hst⟩ := Option.bind_eq_some_iff.1 hst
  obtain rfl := Option.some.inj (hop.symm.trans hop₁)
  obtain ⟨⟨op', st⟩, hopst, rfl⟩ := Option.map_eq_some_iff.1 hst
  cases acts_of_operationStep hopst with
  | read _ => exact ha
  | @delete _ keys hkeys _ =>
    have hk : k ∉ keys := fun hk =>
      hne (hinv op (List.mem_of_getElem? hop) k (hkeys k hk) b hrecorded a ha hlive)
    rw [Store.getAssignment_bulkDeleteAssignments, if_neg hk]
    exact ha
  | remove =>
    rw [Store.getAssignment_removeBackend]
    exact ha
  | assign _ =>
    rw [Store.getAssignment_bulkAssign_of_occupied (Store.occupied_of_getAssignment ha)]
    exact ha

/-- Two accounts on a backend that is no longer active, and a reconcile
for one of them. -/
def staleAccounts : System where
  store := .redis {
    assignments := Table.insertAll ∅ [("u", .record ⟨"b1", 5, "assignment", some 1⟩),
      ("v", .record ⟨"b1", 6, "assignment", some 1⟩)]
    counts := Table.insertAll ∅ [("b1", 2)]
    active := {"b2"} }
  operations := [.reconcile [⟨"u", 1⟩]]

theorem starts_staleAccounts (op : Operation) (h : op ∈ staleAccounts.operations) : op.Starts := by
  obtain rfl := List.mem_singleton.1 h
  trivial

/-- The reconcile has its keys when a request reassigns the other
account. -/
def otherReassigned : List Action :=
  [.operation 0 7 [], .operation 0 8 ["b2"], .assign ["b2"] 9 "v"]

theorem live_assignment_survives_otherReassigned :
    ∃ s s', Run.exec step staleAccounts otherReassigned = some s ∧
      step s (.operation 0 10 []) = some s' ∧
      s'.store.getAssignment "v" = some ⟨"b2", 9, "assignment", 1⟩ ∧
      s'.store.getAssignment "u" = none := by
  obtain ⟨s, op, s', hrun, hop, hst, ha, hlive, hrecorded, hu⟩ : ∃ s op s',
      Run.exec step staleAccounts otherReassigned = some s ∧ s.operations[0]? = some op ∧
      step s (.operation 0 10 []) = some s' ∧
      s.store.getAssignment "v" = some ⟨"b2", 9, "assignment", 1⟩ ∧ "b2" ∈ s.store.active ∧
      op.records "v" = some "b1" ∧ s'.store.getAssignment "u" = none :=
    ⟨_, _, _, rfl, rfl, rfl, rfl, Finset.mem_singleton_self _, rfl, rfl⟩
  exact ⟨s, s', hrun, hst, live_assignment_survives starts_staleAccounts hrun (by decide +kernel)
    hop hst ha hlive hrecorded (by decide), hu⟩

/-- The request is for the account the reconcile is about to delete. -/
def staleReassigned : List Action :=
  [.operation 0 7 [], .operation 0 8 ["b2"], .assign ["b2"] 9 "u"]

/-- Its new assignment, to an active backend, is deleted. -/
theorem staleReassigned_is_deleted :
    ∃ s op s', Run.exec step staleAccounts staleReassigned = some s ∧
      s.operations[0]? = some op ∧ op.records "u" = some "b1" ∧
      s.store.getAssignment "u" = some ⟨"b2", 9, "assignment", 1⟩ ∧ "b2" ∈ s.store.active ∧
      step s (.operation 0 10 []) = some s' ∧ s'.store.getAssignment "u" = none :=
  ⟨_, _, _, rfl, rfl, rfl, rfl, Finset.mem_singleton_self _, rfl, rfl⟩

end Snapshot

end StickyProxy
