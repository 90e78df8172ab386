import StickyProxy.Rebalance.Model.Replica
import StickyProxy.Rebalance.Correctness
import StickyProxy.Proxy.Traffic
import StickyProxy.Common.Run
/-!
# Weights under traffic

Between the delete and the bulk assign of a rebalance its accounts are not
in the table. A call of `AssignLeastLoaded` that finds none creates one of
weight one, and the bulk assign leaves what it finds: the weight the
account had is gone for good. No other step can do harm, so a run keeps
every weight exactly when it has no such call for a heavier account.
-/

namespace StickyProxy

namespace Rebalance

open Traffic

variable {rb : Rebalancer} {computeMoves : ComputeMoves} {activeBackends : List Backend}
  {s s' : Replica} {act : Action} {st₀ st st' : Store} {k k' : RoutingKey} {a x : Assignment}
  {order : List Backend} {now : Time}

/-! ## What a step does to the store -/

/-- The key the step calls `AssignLeastLoaded` for. -/
def asked (s : Replica) : Action → Option RoutingKey
  | .request i _ =>
    match s.requests[i]? with
    | some (.assign k) => some k
    | _ => none
  | .remote _ k => some k
  | _ => none

/-- The store and the rebalance after a step. -/
inductive Touches (rb : Rebalancer) (computeMoves : ComputeMoves) (activeBackends : List Backend)
    (s : Replica) (act : Action) : Store → RebalanceStep → Prop
  /-- A request calls `AssignLeastLoaded`, on this replica or another. -/
  | call {k : RoutingKey} {order : List Backend} {now : Time} {a : Assignment} {st : Store} :
      asked s act = some k → Enumerates order s.store.candidates →
      s.store.assignLeastLoaded order now k = (some a, st) →
      Touches rb computeMoves activeBackends s act st s.rebalance
  /-- The rebalance takes a step. -/
  | rebalance {now : Time} {s' : Replica} : asked s act = none →
      rebalanceStep rb computeMoves activeBackends now s = some s' →
      Touches rb computeMoves activeBackends s act s'.store s'.rebalance
  /-- Neither is touched. -/
  | still : asked s act = none →
      Touches rb computeMoves activeBackends s act s.store s.rebalance

theorem asked_request {i : ℕ} {c : Choice} {q : RequestStep} (hq : s.requests[i]? = some q)
    (h : ∀ k, q ≠ .assign k) : asked s (.request i c) = none := by
  rw [asked, hq]
  cases q with
  | assign k => exact absurd rfl (h k)
  | _ => rfl

theorem touches_of_step (h : step rb computeMoves activeBackends s act = some s') :
    Touches rb computeMoves activeBackends s act s'.store s'.rebalance := by
  cases act with
  | rebalance now => exact .rebalance rfl h
  | request i c =>
    obtain ⟨q, hq, h⟩ := Option.bind_eq_some_iff.1 h
    obtain ⟨⟨q', st, f⟩, hstep, rfl⟩ := Option.map_eq_some_iff.1 h
    cases takes_of_requestStep hstep with
    | pass hassign _ _ _ => exact .still (asked_request hq hassign)
    | @assign k a _ hk horder hans =>
      refine .call ?_ horder hans
      rw [asked, hq, hk]
    | set hk => exact .still (asked_request hq fun _ h => by rw [hk] at h; cases h)
  | remote c k =>
    simp only [step] at h
    split at h
    · rename_i horder
      rcases hans : s.store.assignLeastLoaded c.order c.now k with ⟨- | a, st⟩
      · simp only [hans] at h
        cases h
      · simp only [hans, Option.some.injEq] at h
        obtain rfl := h
        exact .call rfl horder hans
    · cases h
  | cleanup now =>
    obtain rfl := Option.some.inj h
    exact .still rfl
  | receive =>
    simp only [step] at h
    split at h
    · cases h
    · obtain rfl := Option.some.inj h
      exact .still rfl
  | flush b =>
    simp only [step] at h
    split at h
    · obtain rfl := Option.some.inj h
      exact .still rfl
    · cases h

/-! ## What becomes of an account -/

/-- The account has an assignment of the same weight. -/
def Weighs (st : Store) (k : RoutingKey) (a : Assignment) : Prop :=
  ∃ x, st.getAssignment k = some x ∧ x.effectiveWeight = a.effectiveWeight

/-- A call for an account of weight one leaves it so. -/
theorem weighs_of_call (horder : Enumerates order st.candidates)
    (hans : st.assignLeastLoaded order now k = (some x, st'))
    (hweight : ∀ y, st.getAssignment k = some y → y.effectiveWeight = a.effectiveWeight)
    (hlight : a.effectiveWeight = 1) : Weighs st' k a := by
  have hanswer : (st.assignLeastLoaded order now k).1 = some x := by rw [hans]
  refine ⟨x, (Store.stays_of_answer horder hans).1, ?_⟩
  rcases Store.stored_or_fresh_of_answer horder hanswer with hold | hfresh
  · exact hweight x hold
  · rw [hfresh, hlight]

/-- A step asks for no account heavier than one that the store would
assign anew. -/
def Undisturbed (st₀ : Store) (s : Replica) (act : Action) : Prop :=
  ∀ k ∈ asked s act, ∀ a ∈ st₀.getAssignment k, a.effectiveWeight ≠ 1 →
    ∃ x ∈ s.store.getAssignment k, s.store.Keeps x

instance (st₀ : Store) (s : Replica) (act : Action) : Decidable (Undisturbed st₀ s act) :=
  inferInstanceAs (Decidable (∀ k ∈ asked s act, ∀ a ∈ st₀.getAssignment k,
    a.effectiveWeight ≠ 1 → ∃ x ∈ s.store.getAssignment k, s.store.Keeps x))

/-- How far an account is: where it was up to the delete, and with its
weight again after the bulk assign. In between it may be missing, and is
then free to be assigned. -/
def Follows (computeMoves : ComputeMoves) (activeBackends : List Backend) (st : Store)
    (k : RoutingKey) (a : Assignment) : RebalanceStep → Prop
  | .getAllAssignments => st.Stays k a
  | .markTransition assignments moves | .bulkDeleteAssignments assignments moves =>
    assignments.lookup k = some a ∧
      moves = computeMoves assignments (sortStrings activeBackends) ∧ st.Stays k a
  | .bulkAssign assignments moves =>
    assignments.lookup k = some a ∧
      moves = computeMoves assignments (sortStrings activeBackends) ∧
      (k ∈ routingKeys moves ∧ ¬ st.Occupied k ∨ Weighs st k a)
  | _ => Weighs st k a

/-- A call that does not disturb leaves an account with its weight, or
free. -/
theorem Weighs.call (h : Weighs st k a) (horder : Enumerates order st.candidates)
    (hans : st.assignLeastLoaded order now k' = (some x, st'))
    (hkept : k' = k → a.effectiveWeight ≠ 1 → ∃ y ∈ st.getAssignment k, st.Keeps y) :
    Weighs st' k a := by
  obtain ⟨y, hy, hw⟩ := h
  by_cases hk : k' = k
  · subst hk
    by_cases hlight : a.effectiveWeight = 1
    · refine weighs_of_call horder hans (fun z hz => ?_) hlight
      rw [← Option.some.inj (hy.symm.trans hz), hw]
    · obtain ⟨z, hz, hkeeps⟩ := hkept rfl hlight
      obtain rfl := Option.some.inj (hy.symm.trans hz)
      have hstays : st.Stays k' y := ⟨hy, hkeeps⟩
      exact ⟨y, (hstays.call horder hans).1, hw⟩
  · refine ⟨y, ?_, hw⟩
    have hothers := (Store.placed_assignLeastLoaded k' now horder).others k (Ne.symm hk)
    rw [hans] at hothers
    exact hothers.trans hy

theorem free_or_weighs_of_call (hfree : ¬ st.Occupied k) (horder : Enumerates order st.candidates)
    (hans : st.assignLeastLoaded order now k' = (some x, st'))
    (hkept : k' = k → a.effectiveWeight ≠ 1 → ∃ y ∈ st.getAssignment k, st.Keeps y) :
    ¬ st'.Occupied k ∨ Weighs st' k a := by
  have hnone := Store.getAssignment_of_not_occupied hfree
  by_cases hk : k' = k
  · subst hk
    by_cases hlight : a.effectiveWeight = 1
    · refine Or.inr (weighs_of_call horder hans (fun z hz => ?_) hlight)
      rw [hnone] at hz
      cases hz
    · obtain ⟨z, hz, -⟩ := hkept rfl hlight
      rw [hnone] at hz
      cases hz
  · have hframe : st'.Occupied k ↔ st.Occupied k := by
      have hcall := Store.occupied_assignLeastLoaded_of_ne now horder (Ne.symm hk)
      rwa [hans] at hcall
    exact Or.inl (hframe.not.2 hfree)

/-- **A call that does not disturb** leaves every account where it was on
its way. -/
theorem Follows.call {q : RebalanceStep} (h : Follows computeMoves activeBackends st k a q)
    (horder : Enumerates order st.candidates)
    (hans : st.assignLeastLoaded order now k' = (some x, st'))
    (hkept : k' = k → a.effectiveWeight ≠ 1 → ∃ y ∈ st.getAssignment k, st.Keeps y) :
    Follows computeMoves activeBackends st' k a q := by
  cases q with
  | getAllAssignments => exact Store.Stays.call h horder hans
  | markTransition assignments moves | bulkDeleteAssignments assignments moves =>
    exact ⟨h.1, h.2.1, h.2.2.call horder hans⟩
  | bulkAssign assignments moves =>
    obtain ⟨hlook, hmoves, ⟨hmem, hfree⟩ | hweighs⟩ := h
    · exact ⟨hlook, hmoves,
        (free_or_weighs_of_call hfree horder hans hkept).imp_left fun hfree => ⟨hmem, hfree⟩⟩
    · exact ⟨hlook, hmoves, Or.inr (hweighs.call horder hans hkept)⟩
  | invalidate moves todo | publish moves todo | clearTransition moves | finished moves =>
    exact Weighs.call h horder hans hkept

/-- The delete takes the moved accounts out of the table. -/
theorem free_or_weighs_bulkDelete (h : st.Stays k a) (moves : List Move) :
    k ∈ routingKeys moves ∧ ¬ (st.bulkDeleteAssignments (routingKeys moves)).Occupied k ∨
      Weighs (st.bulkDeleteAssignments (routingKeys moves)) k a := by
  by_cases hk : k ∈ routingKeys moves
  · exact Or.inl ⟨hk, Store.not_occupied_bulkDeleteAssignments hk h.1⟩
  · refine Or.inr ⟨a, ?_, rfl⟩
    rw [Store.getAssignment_bulkDeleteAssignments, if_neg hk]
    exact h.1

/-- The bulk assign brings back those that nobody has assigned, with the
weights they had. -/
theorem weighs_bulkAssign {assignments : Table RoutingKey Assignment} {moves : List Move}
    (hlook : assignments.lookup k = some a)
    (htarget : ∀ m ∈ moves, m.toBackend = "" → activeBackends ≠ [])
    (h : k ∈ routingKeys moves ∧ ¬ st.Occupied k ∨ Weighs st k a) :
    Weighs (st.bulkAssign now (newAssignments assignments activeBackends moves)).2 k a := by
  rcases h with ⟨hk, hfree⟩ | ⟨x, hx, hw⟩
  · obtain ⟨m, hm, hmk⟩ := mem_routingKeys.1 hk
    obtain ⟨e, -, hnew, hw⟩ :=
      exists_getAssignment_bulkAssign now hfree hlook ⟨m, hm, hmk, htarget m hm⟩
    exact ⟨_, hnew, hw⟩
  · refine ⟨x, ?_, hw⟩
    rw [Store.getAssignment_bulkAssign_of_occupied (Store.occupied_of_getAssignment hx), hx]

/-- The strategy names a backend whenever there is none to go round: both
strategies do, they have no moves without an active backend. -/
def Targets (computeMoves : ComputeMoves) (activeBackends : List Backend) : Prop :=
  ∀ t, ∀ m ∈ computeMoves t (sortStrings activeBackends), m.toBackend = "" → activeBackends ≠ []

/-- **A step of the rebalance** takes every account on along its way. -/
theorem Follows.rebalance (htarget : Targets computeMoves activeBackends)
    (h : Follows computeMoves activeBackends s.store k a s.rebalance)
    (hst : rebalanceStep rb computeMoves activeBackends now s = some s') :
    Follows computeMoves activeBackends s'.store k a s'.rebalance := by
  cases advances_of_rebalanceStep hst with
  | rest hphase =>
    rw [hphase] at h
    exact ⟨a, h.1, rfl⟩
  | plan hphase hread hmoves =>
    rw [hphase] at h
    refine ⟨?_, hmoves, h⟩
    rw [hread, Store.lookup_getAllAssignments]
    exact h.1
  | mark hphase =>
    rw [hphase] at h
    exact h
  | @bulkDelete _ moves hphase =>
    rw [hphase] at h
    exact ⟨h.1, h.2.1, free_or_weighs_bulkDelete h.2.2 moves⟩
  | bulkAssign hphase =>
    rw [hphase] at h
    obtain ⟨hlook, hmoves, h⟩ := h
    refine weighs_bulkAssign hlook (fun m hm hto => ?_) h
    rw [hmoves] at hm
    exact sortStrings_eq_nil.not.2 (htarget _ m hm hto)
  | invalidate hphase | invalidated hphase | publish hphase | published hphase | clear hphase =>
    -- The store is no longer touched.
    rw [hphase] at h
    exact h

/-! ## Runs -/

/-- Every account is on its way. -/
def Tracked (computeMoves : ComputeMoves) (activeBackends : List Backend) (st₀ : Store)
    (s : Replica) : Prop :=
  ∀ k a, st₀.getAssignment k = some a → Follows computeMoves activeBackends s.store k a s.rebalance

theorem Tracked.step (htarget : Targets computeMoves activeBackends)
    (h : Tracked computeMoves activeBackends st₀ s) (hok : Undisturbed st₀ s act)
    (hst : step rb computeMoves activeBackends s act = some s') :
    Tracked computeMoves activeBackends st₀ s' := by
  have ht := touches_of_step hst
  unfold Tracked
  generalize s'.store = st, s'.rebalance = q at ht ⊢
  intro k a ha
  cases ht with
  | @call k' _ _ x _ hasked horder hans =>
    refine (h k a ha).call horder hans ?_
    rintro rfl hheavy
    exact hok k' hasked a ha hheavy
  | rebalance _ hreb => exact (h k a ha).rebalance htarget hreb
  | still _ => exact h k a ha

/-- The delete has been made. -/
def RebalanceStep.Deleted : RebalanceStep → Prop
  | .getAllAssignments | .markTransition _ _ | .bulkDeleteAssignments _ _ => False
  | _ => True

/-- An account heavier than one has been assigned anew. -/
def Lightened (st₀ : Store) (s : Replica) : Prop :=
  s.rebalance.Deleted ∧ ∃ k a x, st₀.getAssignment k = some a ∧ a.effectiveWeight ≠ 1 ∧
    s.store.Stays k x ∧ x.effectiveWeight = 1

/-- That is what a disturbing step does. -/
theorem lightened_of_disturbed (h : Tracked computeMoves activeBackends st₀ s)
    (hok : ¬ Undisturbed st₀ s act)
    (hst : step rb computeMoves activeBackends s act = some s') : Lightened st₀ s' := by
  simp only [Undisturbed, Option.mem_def, not_forall, not_exists, not_and] at hok
  obtain ⟨k, hasked, a, ha, hheavy, hnone⟩ := hok
  have ht := touches_of_step hst
  unfold Lightened
  generalize s'.store = st, s'.rebalance = q at ht ⊢
  cases ht with
  | @call k' order now x _ hasked' horder hans =>
    obtain rfl := Option.some.inj (hasked.symm.trans hasked')
    -- Up to the delete the account is where it was, and would be kept.
    have hdeleted : s.rebalance.Deleted := by
      have hfollows := h k a ha
      generalize s.rebalance = q at hfollows ⊢
      cases q with
      | getAllAssignments => exact absurd hfollows.2 (hnone a hfollows.1)
      | markTransition _ _ | bulkDeleteAssignments _ _ =>
        exact absurd hfollows.2.2.2 (hnone a hfollows.2.2.1)
      | _ => trivial
    have hanswer : (s.store.assignLeastLoaded order now k).1 = some x := by rw [hans]
    refine ⟨hdeleted, k, a, x, ha, hheavy, Store.stays_of_answer horder hans, ?_⟩
    refine (Store.stored_or_fresh_of_answer horder hanswer).resolve_left fun hold => ?_
    exact hnone x hold (Store.keeps_of_answer horder hanswer)
  | rebalance hasked' _ =>
    rw [hasked] at hasked'
    cases hasked'
  | still hasked' =>
    rw [hasked] at hasked'
    cases hasked'

/-- And no later step makes up for it. -/
theorem Lightened.step (h : Lightened st₀ s)
    (hst : step rb computeMoves activeBackends s act = some s') : Lightened st₀ s' := by
  obtain ⟨hdeleted, k, a, x, ha, hheavy, hstays, hlight⟩ := h
  have ht := touches_of_step hst
  unfold Lightened
  generalize s'.store = st, s'.rebalance = q at ht ⊢
  suffices q.Deleted ∧ st.Stays k x from ⟨this.1, k, a, x, ha, hheavy, this.2, hlight⟩
  cases ht with
  | call _ horder hans => exact ⟨hdeleted, hstays.call horder hans⟩
  | @rebalance now s'' _ hreb =>
    cases advances_of_rebalanceStep hreb with
    | rest hphase | plan hphase _ _ | mark hphase | bulkDelete hphase =>
      rw [hphase] at hdeleted
      exact hdeleted.elim
    | bulkAssign _ =>
      refine ⟨trivial, ?_, (Store.keeps_bulkAssign _ x).2 hstays.2⟩
      rw [Store.getAssignment_bulkAssign_of_occupied (Store.occupied_of_getAssignment hstays.1)]
      exact hstays.1
    | _ => exact ⟨trivial, hstays⟩
  | still _ => exact ⟨hdeleted, hstays⟩

theorem tracked_start {f : Frontend} {requests : List RoutingKey}
    (hactive : ∀ k a, st₀.getAssignment k = some a → a.backend ∈ st₀.active) :
    Tracked computeMoves activeBackends st₀ (.start st₀ f requests) :=
  fun k a ha => ⟨ha, Store.keeps_of_mem_active ha (hactive k a ha)⟩

/-- **A rebalance under traffic keeps every weight exactly when no call
disturbs it.** For every table of accounts on active backends and every
run: once the rebalance has returned, every account has an assignment of
the weight it had, if and only if `AssignLeastLoaded` was at no time called
for an account heavier than one that had no assignment to be kept. -/
theorem losesNobody_iff_undisturbed {f : Frontend} {requests : List RoutingKey}
    {schedule : List Action} (htarget : Targets computeMoves activeBackends)
    (hactive : ∀ k a, st₀.getAssignment k = some a → a.backend ∈ st₀.active)
    (hrun : Run.exec (step rb computeMoves activeBackends) (.start st₀ f requests) schedule =
      some s)
    (hfinished : s.rebalance.Finished) :
    LosesNobody st₀ s.store ↔
      Run.Meets (step rb computeMoves activeBackends) (Undisturbed st₀) (.start st₀ f requests)
        schedule := by
  have hstart : Tracked computeMoves activeBackends st₀ (.start st₀ f requests) :=
    tracked_start hactive
  constructor
  · intro hkept
    by_contra hok
    obtain ⟨-, k, a, x, ha, hheavy, hstays, hlight⟩ := Run.exec_of_not_meets (J := Lightened st₀)
      (fun _ _ _ h hok hst => h.step htarget hok hst)
      (fun _ _ _ h hok hst => lightened_of_disturbed h hok hst) (fun _ _ _ h hst => h.step hst)
      hstart hok hrun
    obtain ⟨y, hy, hw⟩ := hkept k a ha
    obtain rfl := Option.some.inj (hstays.1.symm.trans hy)
    exact hheavy (hw.symm.trans hlight)
  · intro hok k a ha
    have htracked := Run.exec_invariant (fun _ _ _ h hok hst => Tracked.step htarget h hok hst)
      hstart hok hrun
    have hfollows := htracked k a ha
    generalize s.rebalance = q at hfollows hfinished
    cases q with
    | finished moves => exact hfollows
    | _ => exact hfinished.elim

theorem active_twoAccounts (k : RoutingKey) (a : Assignment)
    (h : twoAccounts.store.getAssignment k = some a) :
    a.backend ∈ twoAccounts.store.active := by
  obtain ⟨v, hv, ha⟩ := Option.bind_eq_some_iff.1 h
  rcases Table.lookup_insertAll_cases hv with hmem | hnone
  · rcases List.mem_pair.1 hmem with heq | heq
    all_goals
      obtain ⟨-, rfl⟩ := Prod.mk.inj heq
      obtain rfl := Option.some.inj ha
      exact Finset.mem_insert_self _ _
  · cases hnone

/-- A replica that is about to make the two moves, and serves a request for
each of the accounts. -/
def twoRequests : Replica := .start twoAccounts.store ⟨⟨60, ∅⟩, ∅⟩ ["u", "v"]

/-- The request for the light account asks the store in the middle of the
rebalance; the one for the heavy account is held to its end. -/
def heldRequest : List Action :=
  [.request 1 ⟨60, [], true⟩, .request 1 ⟨60, [], true⟩, .request 1 ⟨60, [], true⟩,
    .rebalance 61, .rebalance 61, .request 0 ⟨61, [], true⟩, .request 0 ⟨61, [], true⟩,
    .rebalance 62, .request 1 ⟨62, ["b1", "b2"], true⟩, .rebalance 62, .rebalance 63,
    .rebalance 63, .rebalance 63, .rebalance 63, .rebalance 63, .rebalance 63,
    .request 0 ⟨64, [], true⟩, .request 0 ⟨64, [], true⟩, .request 0 ⟨64, ["b1", "b2"], true⟩]

theorem losesNobody_heldRequest :
    ∃ s, Run.exec (step ⟨true, true, true, true, true⟩ (fun _ _ => twoMoves) ["b2", "b1"])
        twoRequests heldRequest = some s ∧ s.rebalance.Finished ∧
      LosesNobody twoAccounts.store s.store := by
  obtain ⟨s, hrun, hfinished⟩ : ∃ s, Run.exec (step ⟨true, true, true, true, true⟩
      (fun _ _ => twoMoves) ["b2", "b1"]) twoRequests heldRequest = some s ∧
      s.rebalance.Finished := ⟨_, rfl, trivial⟩
  refine ⟨s, hrun, hfinished, (losesNobody_iff_undisturbed ?_ active_twoAccounts hrun
    hfinished).2 (by decide +kernel)⟩
  exact fun _ _ _ _ => List.cons_ne_nil _ _

/-- The request for the heavy account has missed the cache before the mark,
and asks the store between the delete and the bulk assign. -/
def lateRequest : List Action :=
  [.request 0 ⟨60, [], true⟩, .request 0 ⟨60, [], true⟩, .request 0 ⟨60, [], true⟩,
    .rebalance 61, .rebalance 61, .rebalance 61, .request 0 ⟨62, ["b1", "b2"], true⟩,
    .rebalance 62, .rebalance 63, .rebalance 63, .rebalance 63, .rebalance 63, .rebalance 63,
    .rebalance 63]

/-- The account of weight three is left with weight one. -/
theorem lateRequest_lightens :
    ∃ s, Run.exec (step ⟨true, true, true, true, true⟩ (fun _ _ => twoMoves) ["b2", "b1"])
        twoRequests lateRequest = some s ∧ s.rebalance.Finished ∧
      twoAccounts.store.getAssignment "u" = some ⟨"b1", 5, "assignment", 3⟩ ∧
      s.store.getAssignment "u" = some ⟨"b1", 62, "assignment", 1⟩ ∧
      ¬ LosesNobody twoAccounts.store s.store := by
  obtain ⟨s, hrun, hfinished, hu⟩ : ∃ s, Run.exec (step ⟨true, true, true, true, true⟩
      (fun _ _ => twoMoves) ["b2", "b1"]) twoRequests lateRequest = some s ∧
      s.rebalance.Finished ∧ s.store.getAssignment "u" = some ⟨"b1", 62, "assignment", 1⟩ :=
    ⟨_, rfl, trivial, rfl⟩
  refine ⟨s, hrun, hfinished, rfl, hu, fun hkept => ?_⟩
  obtain ⟨x, hx, hw⟩ := hkept "u" ⟨"b1", 5, "assignment", 3⟩ rfl
  obtain rfl := Option.some.inj (hu.symm.trans hx)
  exact absurd hw (by decide)

end Rebalance

end StickyProxy
