import StickyProxy.Rebalance.Model.Replica
import StickyProxy.Rebalance.Correctness
import StickyProxy.Proxy.Traffic
import StickyProxy.Common.Run
import StickyProxy.Common.Pool
/-!
# The cache after a rebalance

A request asks the store and writes the cache in two steps, and nothing
ties the second to the invalidation in between: what it was told before
the delete it may write after the key was invalidated, and after the
published invalidation of the old backend has come back. Up to then an
entry that is out of date is still going to be dropped, and what is
answered after the delete stays. So the cache agrees with the store at the
end unless a write is late in that sense.
-/

namespace StickyProxy

namespace Rebalance

open Traffic

variable {rb : Rebalancer} {computeMoves : ComputeMoves} {activeBackends : List Backend}
  {s s' : Replica} {act : Action} {k : RoutingKey} {b : Backend} {now : Time}

/-! ## What is still to come -/

/-- The rebalance has dropped the key from the cache. -/
def RebalanceStep.Invalidated (k : RoutingKey) : RebalanceStep → Prop
  | .invalidate moves todo => k ∈ routingKeys moves ∧ k ∉ todo
  | .publish moves _ | .clearTransition moves | .finished moves => k ∈ routingKeys moves
  | _ => False

instance (k : RoutingKey) : ∀ q : RebalanceStep, Decidable (q.Invalidated k)
  | .invalidate moves todo => inferInstanceAs (Decidable (k ∈ routingKeys moves ∧ k ∉ todo))
  | .publish moves _ | .clearTransition moves | .finished moves =>
    inferInstanceAs (Decidable (k ∈ routingKeys moves))
  | .getAllAssignments | .markTransition _ _ | .bulkDeleteAssignments _ _ | .bulkAssign _ _ =>
    isFalse id

/-- The rebalance is going to publish the backend. -/
def RebalanceStep.Publishes (rb : Rebalancer) (b : Backend) : RebalanceStep → Prop
  | .invalidate moves _ => b ∈ notified rb moves
  | .publish _ todo => b ∈ todo
  | _ => False

instance (rb : Rebalancer) (b : Backend) : ∀ q : RebalanceStep, Decidable (q.Publishes rb b)
  | .invalidate moves _ => inferInstanceAs (Decidable (b ∈ notified rb moves))
  | .publish _ todo => inferInstanceAs (Decidable (b ∈ todo))
  | .clearTransition _ | .finished _ | .getAllAssignments | .markTransition _ _
  | .bulkDeleteAssignments _ _ | .bulkAssign _ _ => isFalse id

/-- An `InvalidateBackend` of the backend is still to come. -/
def Coming (rb : Rebalancer) (s : Replica) (b : Backend) : Prop :=
  s.rebalance.Publishes rb b ∨ b ∈ s.messages ∨ b ∈ s.pending

instance (rb : Rebalancer) (s : Replica) (b : Backend) : Decidable (Coming rb s b) :=
  inferInstanceAs (Decidable (_ ∨ _ ∨ _))

/-- What the step writes to the cache. -/
def written (s : Replica) : Action → Option (RoutingKey × Backend)
  | .request i _ =>
    match s.requests[i]? with
    | some (.set k b) => some (k, b)
    | _ => none
  | _ => none

/-- The step does not write late: up to the invalidation of the key it may
write anything, and afterwards what the store has or what is going to be
dropped. -/
def Timely (rb : Rebalancer) (s : Replica) (act : Action) : Prop :=
  ∀ p ∈ written s act, s.rebalance.Invalidated p.1 →
    (∃ a ∈ s.store.getAssignment p.1, a.backend = p.2) ∨ Coming rb s p.2

instance (rb : Rebalancer) (s : Replica) (act : Action) : Decidable (Timely rb s act) :=
  inferInstanceAs (Decidable (∀ p ∈ written s act, s.rebalance.Invalidated p.1 →
    (∃ a ∈ s.store.getAssignment p.1, a.backend = p.2) ∨ Coming rb s p.2))

/-- What the cache and the requests have of a moved key. -/
structure Accounted (rb : Rebalancer) (s : Replica) : Prop where
  /-- An entry written since the invalidation is right or going to be
  dropped. -/
  cache : ∀ k e, s.frontend.cache.data.lookup k = some e → s.rebalance.Invalidated k →
    s.store.Settled k e.backend ∨ Coming rb s e.backend
  /-- An answer names a backend that is kept. -/
  answers : ∀ k b, .set k b ∈ s.requests → ∀ a : Assignment, a.backend = b → s.store.Keeps a

/-! ## One step -/

/-- A step of the rebalance. -/
theorem Accounted.rebalance (h : Accounted rb s)
    (hst : rebalanceStep rb computeMoves activeBackends now s = some s') : Accounted rb s' := by
  obtain ⟨hcache, hanswers⟩ := h
  unfold Coming at hcache
  cases advances_of_rebalanceStep hst with
  | rest _ => exact ⟨fun k e _ hk => absurd hk List.not_mem_nil, hanswers⟩
  | plan _ _ _ | mark _ => exact ⟨fun k e _ hk => hk.elim, hanswers⟩
  | bulkDelete _ =>
    exact ⟨fun k e _ hk => hk.elim,
      fun k b hb a ha => (Store.keeps_bulkDeleteAssignments _ a).2 (hanswers k b hb a ha)⟩
  | bulkAssign _ =>
    -- All keys are still to be invalidated.
    exact ⟨fun k e _ hk => absurd hk.1 hk.2,
      fun k b hb a ha => (Store.keeps_bulkAssign _ a).2 (hanswers k b hb a ha)⟩
  | invalidate hphase =>
    rw [hphase] at hcache
    refine ⟨fun k e he hk => ?_, hanswers⟩
    rw [lookup_invalidate] at he
    split at he
    · cases he
    · rename_i hne
      refine hcache k e he ⟨hk.1, ?_⟩
      rw [List.mem_cons, not_or]
      exact ⟨fun heq => hne (List.mem_singleton.2 heq), hk.2⟩
  | invalidated hphase =>
    rw [hphase] at hcache
    exact ⟨fun k e he hk => hcache k e he ⟨hk, List.not_mem_nil⟩, hanswers⟩
  | publish hphase =>
    rw [hphase] at hcache
    refine ⟨fun k e he hk => (hcache k e he hk).imp_right fun hcoming => ?_, hanswers⟩
    rcases hcoming with hpublish | hmessage | hpending
    · rcases List.mem_cons.1 hpublish with rfl | hpublish
      · exact Or.inr (Or.inl (List.mem_append_right _ List.mem_cons_self))
      · exact Or.inl hpublish
    · exact Or.inr (Or.inl (List.mem_append_left _ hmessage))
    · exact Or.inr (Or.inr hpending)
  | published hphase =>
    rw [hphase] at hcache
    refine ⟨fun k e he hk => ?_, hanswers⟩
    exact (hcache k e he hk).imp_right fun hcoming =>
      Or.inr (hcoming.resolve_left List.not_mem_nil)
  | clear hphase =>
    rw [hphase] at hcache
    refine ⟨fun k e he hk => ?_, hanswers⟩
    rw [cache_clear] at he
    exact hcache k e he hk

/-- A call of `AssignLeastLoaded`, by whichever request. -/
theorem Accounted.call {k : RoutingKey} {a : Assignment} {st : Store} {order : List Backend}
    (h : Accounted rb s) (horder : Enumerates order s.store.candidates)
    (hans : s.store.assignLeastLoaded order now k = (some a, st)) :
    Accounted rb { s with store := st } := by
  refine ⟨fun k' e he hk' => ?_, fun k' b hb a' ha' => ?_⟩
  · exact (h.cache k' e he hk').imp_left fun hsettled => hsettled.call horder hans
  · have hkeeps := (Store.keeps_assignLeastLoaded horder k now a').2 (h.answers k' b hb a' ha')
    rwa [hans] at hkeeps

/-- Entries that are dropped need no account. -/
theorem Accounted.shrink {cache : UserCache} (h : Accounted rb s)
    (hshrink : ∀ k e, cache.data.lookup k = some e →
      s.frontend.cache.data.lookup k = some e) :
    Accounted rb { s with frontend := { s.frontend with cache := cache } } :=
  ⟨fun k e he hk => h.cache k e (hshrink k e he) hk, h.answers⟩

/-- A request that moves on with nothing to write, or with an answer that
is kept. -/
theorem Accounted.setRequest {i : ℕ} {q : RequestStep} (h : Accounted rb s)
    (hq : ∀ k b, q = .set k b → ∀ a : Assignment, a.backend = b → s.store.Keeps a) :
    Accounted rb { s with requests := s.requests.set i q } := by
  refine ⟨h.cache, fun k b hb => ?_⟩
  rcases Pool.mem_or_eq_of_mem_set hb with hb | heq
  · exact h.answers k b hb
  · exact hq k b heq.symm

/-- An answer that is not written late is right, or going to be dropped. -/
theorem Accounted.write (h : Accounted rb s)
    (hkept : ∀ a : Assignment, a.backend = b → s.store.Keeps a)
    (hok : s.rebalance.Invalidated k →
      (∃ a ∈ s.store.getAssignment k, a.backend = b) ∨ Coming rb s b) :
    Accounted rb { s with
      frontend := { s.frontend with cache := s.frontend.cache.set now k b } } := by
  refine ⟨fun k' e he hk' => ?_, h.answers⟩
  rcases UserCache.lookup_of_set he with ⟨rfl, rfl⟩ | ⟨-, he⟩
  · refine (hok hk').imp_left ?_
    rintro ⟨a, ha, hb⟩
    exact ⟨a, ⟨ha, hkept a hb⟩, hb⟩
  · exact h.cache k' e he hk'

/-- A step of a request. -/
theorem Accounted.request {i : ℕ} {c : Choice} {q q' : RequestStep} {st : Store} {f : Frontend}
    (h : Accounted rb s) (hok : Timely rb s (.request i c)) (hq : s.requests[i]? = some q)
    (ht : Takes c s.store s.frontend q q' st f) :
    Accounted rb { s with store := st, frontend := f, requests := s.requests.set i q' } := by
  cases ht with
  | pass _ hshrink _ hset =>
    exact (h.shrink hshrink).setRequest fun k b heq => absurd heq (hset k b)
  | @assign k a _ _ horder hans =>
    refine (h.call horder hans).setRequest fun k' b heq a' ha' => ?_
    obtain ⟨rfl, rfl⟩ := RequestStep.set.inj heq
    exact (Store.keeps_congr ha').2 (Store.stays_of_answer horder hans).2
  | @set k b hset =>
    subst hset
    have hwritten : written s (.request i c) = some (k, b) := by rw [written, hq]
    exact (h.write (h.answers k b (List.mem_of_getElem? hq)) (hok _ hwritten)).setRequest
      fun _ _ heq => nomatch heq

/-- **One step** that is not late keeps the account. -/
theorem Accounted.step (h : Accounted rb s) (hok : Timely rb s act)
    (hst : step rb computeMoves activeBackends s act = some s') : Accounted rb s' := by
  cases act with
  | rebalance now => exact h.rebalance hst
  | request i c =>
    obtain ⟨q, hq, hst⟩ := Option.bind_eq_some_iff.1 hst
    obtain ⟨⟨q', st, f⟩, hstep, rfl⟩ := Option.map_eq_some_iff.1 hst
    exact h.request hok hq (takes_of_requestStep hstep)
  | remote c k =>
    simp only [Rebalance.step] at hst
    split at hst
    · rename_i horder
      rcases hans : s.store.assignLeastLoaded c.order c.now k with ⟨- | a, st⟩
      · simp only [hans] at hst
        cases hst
      · simp only [hans, Option.some.injEq] at hst
        subst hst
        exact h.call horder hans
    · cases hst
  | cleanup now =>
    obtain rfl := Option.some.inj hst
    exact h.shrink fun k e he => UserCache.lookup_of_cleanup he
  | receive =>
    simp only [Rebalance.step] at hst
    split at hst
    · cases hst
    · rename_i b rest hmessages
      obtain rfl := Option.some.inj hst
      refine ⟨fun k e he hk => (h.cache k e he hk).imp_right ?_, h.answers⟩
      rintro (hpublish | hmessage | hpending)
      · exact Or.inl hpublish
      · rw [hmessages] at hmessage
        rcases List.mem_cons.1 hmessage with heq | hmessage
        · exact Or.inr (Or.inr (heq ▸ Finset.mem_insert_self _ _))
        · exact Or.inr (Or.inl hmessage)
      · exact Or.inr (Or.inr (Finset.mem_insert_of_mem hpending))
  | flush b =>
    simp only [Rebalance.step] at hst
    split at hst
    · obtain rfl := Option.some.inj hst
      refine ⟨fun k e he hk => ?_, h.answers⟩
      -- The entries left do not name the backend flushed.
      have hne := UserCache.ne_of_invalidateBackend he
      refine (h.cache k e (UserCache.lookup_of_invalidateBackend he) hk).imp_right ?_
      rintro (hpublish | hmessage | hpending)
      · exact Or.inl hpublish
      · exact Or.inr (Or.inl hmessage)
      · exact Or.inr (Or.inr (Finset.mem_erase.2 ⟨hne, hpending⟩))
    · cases hst

/-! ## Runs -/

theorem accounted_start {st : Store} {f : Frontend} {requests : List RoutingKey} :
    Accounted rb (.start st f requests) := by
  refine ⟨fun k e _ hk => hk.elim, fun k b hb => ?_⟩
  obtain ⟨k', -, heq⟩ := List.mem_map.1 hb
  cases heq

/-- When all is over, nothing is to come. -/
theorem Replica.Finished.not_coming (h : s.Finished) (b : Backend) : ¬ Coming rb s b := by
  rintro (hpublish | hmessage | hpending)
  · have hfinished := h.rebalance
    generalize s.rebalance = q at hpublish hfinished
    cases q with
    | finished moves => exact hpublish
    | _ => exact hfinished
  · rw [h.messages] at hmessage
    exact List.not_mem_nil hmessage
  · rw [h.pending] at hpending
    exact Finset.notMem_empty b hpending

theorem Replica.Finished.invalidated (h : s.Finished)
    (hk : k ∈ routingKeys s.rebalance.moves) : s.rebalance.Invalidated k := by
  have hfinished := h.rebalance
  generalize s.rebalance = q at hk hfinished ⊢
  cases q with
  | finished moves => exact hk
  | _ => exact hfinished.elim

/-- **No stale cache after a rebalance without a late write.** Once the
rebalance, the invalidations it published and the requests are over, every
cache entry for a moved key names the backend stored for the key. -/
theorem cached_agrees_of_timely {st : Store} {f : Frontend} {requests : List RoutingKey}
    {schedule : List Action}
    (hrun : Run.exec (step rb computeMoves activeBackends) (.start st f requests) schedule = some s)
    (hok : Run.Meets (step rb computeMoves activeBackends) (Timely rb) (.start st f requests)
      schedule)
    (hfinished : s.Finished) {e : CacheEntry} (hk : k ∈ routingKeys s.rebalance.moves)
    (he : s.frontend.cache.data.lookup k = some e) :
    ∃ a, s.store.getAssignment k = some a ∧ a.backend = e.backend := by
  have haccounted : Accounted rb s :=
    Run.exec_invariant (fun _ _ _ h hok hst => Accounted.step h hok hst) accounted_start hok hrun
  obtain ⟨a, hstays, hb⟩ := (haccounted.cache k e he (hfinished.invalidated hk)).resolve_right
    (hfinished.not_coming e.backend)
  exact ⟨a, hstays.1, hb⟩

/-- A replica that is about to make the two moves, and serves two requests
for one of the accounts. -/
def sameAccount : Replica := .start twoAccounts.store ⟨⟨60, ∅⟩, ∅⟩ ["u", "u"]

/-- Up to its answer, which is the old backend, the first request is ahead
of the rebalance. -/
def answeredFirst : List Action :=
  [.request 0 ⟨60, [], true⟩, .request 0 ⟨60, [], true⟩, .request 0 ⟨60, [], true⟩,
    .request 0 ⟨60, ["b1", "b2"], true⟩, .rebalance 61, .rebalance 61, .rebalance 61, .rebalance 62,
    .rebalance 63, .rebalance 63, .rebalance 63, .rebalance 63, .rebalance 63, .rebalance 63]

/-- The second one is served when the rebalance is over. -/
def servedLast : List Action :=
  [.request 1 ⟨70, [], true⟩, .request 1 ⟨70, [], true⟩, .request 1 ⟨70, [], true⟩,
    .request 1 ⟨70, ["b1", "b2"], true⟩, .request 1 ⟨70, [], true⟩]

/-- The first request writes its answer before the published invalidation
has come back. -/
def writtenInTime : List Action :=
  answeredFirst ++ [.receive, .request 0 ⟨64, [], true⟩, .flush "b1"] ++ servedLast

theorem cached_agrees_writtenInTime :
    ∃ s, Run.exec (step ⟨true, true, true, true, true⟩ (fun _ _ => twoMoves) ["b2", "b1"])
        sameAccount writtenInTime = some s ∧ s.Finished ∧
      ∃ e, s.frontend.cache.data.lookup "u" = some e ∧
        ∃ a, s.store.getAssignment "u" = some a ∧ a.backend = e.backend := by
  obtain ⟨s, hrun, hmoves, hfinished, he⟩ : ∃ s, Run.exec (step ⟨true, true, true, true, true⟩
      (fun _ _ => twoMoves) ["b2", "b1"]) sameAccount writtenInTime = some s ∧
      s.rebalance.moves = twoMoves ∧ s.Finished ∧
      s.frontend.cache.data.lookup "u" = some ⟨"b2", 130⟩ :=
    ⟨_, rfl, rfl, ⟨trivial, rfl, rfl, by
      intro q hq
      rcases List.mem_pair.1 hq with rfl | rfl <;> trivial⟩, rfl⟩
  refine ⟨s, hrun, hfinished, _, he, ?_⟩
  have hk : "u" ∈ routingKeys s.rebalance.moves := by
    rw [hmoves]
    exact List.mem_cons_self
  exact cached_agrees_of_timely hrun (by decide +kernel) hfinished hk he

/-- The first request writes its answer when all else is over. -/
def writtenLate : List Action :=
  answeredFirst ++ [.receive, .flush "b1"] ++ servedLast ++ [.request 0 ⟨71, [], true⟩]

/-- The cache then has the account on the backend it was moved from. -/
theorem writtenLate_is_stale :
    ∃ s, Run.exec (step ⟨true, true, true, true, true⟩ (fun _ _ => twoMoves) ["b2", "b1"])
        sameAccount writtenLate = some s ∧ s.Finished ∧
      "u" ∈ routingKeys s.rebalance.moves ∧
      s.frontend.cache.data.lookup "u" = some ⟨"b1", 131⟩ ∧
      s.store.getAssignment "u" = some ⟨"b2", 62, "assignment", 3⟩ :=
  ⟨_, rfl, ⟨trivial, rfl, rfl, by
    intro q hq
    rcases List.mem_pair.1 hq with rfl | rfl <;> trivial⟩, List.mem_cons_self, rfl, rfl⟩

end Rebalance

end StickyProxy
