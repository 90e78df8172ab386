import StickyProxy.Health.Effects
import StickyProxy.Store.Effects
import StickyProxy.Common.Run
import StickyProxy.Common.Pool
/-!
# The backends a rebalance is given

The list for `Trigger` comes from the checker's own table, while the
active set is also written by drains and by discovery. The two agree as
long as a healthy state stands for an active backend. Two steps break
that: a probe that makes up a state for a backend the prune has just
forgotten, and a removal of a backend the checker still holds healthy, or
has in a list it has yet to use. `Agreed` is the condition that neither
happens.
-/

namespace StickyProxy

namespace HealthChecker

variable {hc : HealthChecker} {b c : Backend} {backends : List Backend}

theorem mem_getHealthyBackends_insert (st : BackendHealth) :
    c ∈ ({ hc with states := hc.states.insert b st } : HealthChecker).getHealthyBackends ↔
      if c = b then st.healthy = true else c ∈ hc.getHealthyBackends := by
  simp only [mem_getHealthyBackends, Table.lookup_insert_eq]
  by_cases hcb : c = b <;> simp [hcb]

/-- After the merge and the prune a healthy backend was healthy before, or
is one of those merged. -/
theorem mem_of_mem_getHealthyBackends_prune
    (h : b ∈ ((hc.merge backends).prune backends).getHealthyBackends) :
    b ∈ hc.getHealthyBackends ∨ b ∈ backends := by
  obtain ⟨st, hst, hup⟩ := mem_getHealthyBackends.1 h
  rw [lookup_prune, Option.filter_eq_some_iff, lookup_merge, Option.or_eq_some_iff] at hst
  rcases hst.1 with hold | ⟨-, hnew⟩
  · exact Or.inl (mem_getHealthyBackends.2 ⟨st, hold, hup⟩)
  · exact Or.inr (Option.ite_none_right_eq_some.1 hnew).1

/-- A backend that counts as healthy is listed, if it has a state. -/
theorem mem_getHealthyBackends_or (h : (hc.state b).healthy = true) :
    b ∈ hc.getHealthyBackends ∨ hc.states.lookup b = none := by
  rcases hlook : hc.states.lookup b with - | st
  · exact Or.inr rfl
  · exact Or.inl (mem_getHealthyBackends.2 ⟨st, hlook, by simpa [state, hlook] using h⟩)

end HealthChecker

namespace Health

variable {s s' : System} {a : Action} {b : Backend} {store : Store} {hc hc' : HealthChecker}
  {todo : List Backend} {calls : List Call}

/-- No call fails; a probe finds a state, or the backend active, or drops
the backend at once; and others remove only a backend that the checker
does not hold healthy and is not in a list it has read and not used. -/
def Agreed (s : System) : Action → Prop
  | .fail _ => False
  | .probe b success =>
    (s.checker.states.lookup b).isSome ∨ b ∈ s.store.active ∨
      success = false ∧ s.checker.unhealthyThreshold ≤ 1
  | .removeBackend b => b ∉ s.checker.getHealthyBackends ∧ b ∉ s.phase.held
  | _ => True

instance (s : System) : DecidablePred (Agreed s)
  | .fail _ => inferInstanceAs (Decidable False)
  | .probe _ _ => inferInstanceAs (Decidable (_ ∨ _ ∨ _))
  | .removeBackend _ => inferInstanceAs (Decidable (_ ∧ _))
  | .activeBackends _ | .merge _ | .call _ | .cancel | .getHealthyBackends | .trigger
  | .addBackend _ => inferInstanceAs (Decidable True)

/-- A healthy state stands for a backend that is active or is about to be
added. -/
structure Covered (s : System) : Prop where
  healthy : ∀ b ∈ s.checker.getHealthyBackends,
    b ∈ s.store.active ∨ .addBackend b ∈ s.phase.calls
  held : ∀ b ∈ s.phase.held, b ∈ s.store.active
  removing : ∀ b, .removeBackend b ∈ s.phase.calls →
    b ∉ s.checker.getHealthyBackends ∧ b ∉ s.phase.todo
  nodup : s.phase.todo.Nodup

theorem Covered.of_fresh (h : s.Fresh) : Covered s where
  healthy b hb := by
    obtain ⟨st, hst, -⟩ := HealthChecker.mem_getHealthyBackends.1 hb
    simp [h.states] at hst
  held b hb := by simp [h.phase, Phase.held] at hb
  removing b hb := by simp [h.phase, Phase.calls] at hb
  nodup := by simp [h.phase, Phase.todo]

/-! ## One step -/

/-- What a probe has to leave for a backend it has probed. -/
theorem Covered.insert {st : BackendHealth} {new : List Call}
    (h : Covered ⟨store, hc, .probing todo calls⟩) (hb : b ∈ todo)
    (hup : st.healthy = true → b ∈ store.active ∨ .addBackend b ∈ calls ++ new)
    (hdown : ∀ c, .removeBackend c ∈ new → c = b ∧ st.healthy = false) :
    Covered ⟨store, { hc with states := hc.states.insert b st },
      .probing (todo.erase b) (calls ++ new)⟩ := by
  refine ⟨fun c hc => ?_, List.forall_mem_nil _, fun c hc => ?_, h.nodup.erase b⟩
  · rw [HealthChecker.mem_getHealthyBackends_insert] at hc
    split at hc
    · rename_i hcb
      exact hcb ▸ hup hc
    · exact (h.healthy c hc).imp_right (List.mem_append_left new)
  · rw [HealthChecker.mem_getHealthyBackends_insert]
    rcases List.mem_append.1 hc with hold | hnew
    · -- A backend about to be removed is not probed again in this round.
      obtain ⟨hlisted, htodo⟩ := h.removing c hold
      have hcb : c ≠ b := fun heq => htodo (heq ▸ hb)
      rw [if_neg hcb]
      exact ⟨hlisted, fun hmem => htodo (List.mem_of_mem_erase hmem)⟩
    · obtain ⟨rfl, hst⟩ := hdown c hnew
      rw [if_pos rfl, hst]
      exact ⟨Bool.false_ne_true, fun hmem => ((h.nodup.mem_erase_iff).1 hmem).1 rfl⟩

theorem Covered.probe {success : Bool} {call : Option Call}
    (h : Covered ⟨store, hc, .probing todo calls⟩) (hb : b ∈ todo)
    (hok : Agreed ⟨store, hc, .probing todo calls⟩ (.probe b success))
    (hrec : hc.Records b success call hc') :
    Covered ⟨store, hc', .probing (todo.erase b) (calls ++ call.toList)⟩ := by
  cases hrec with
  | keep hst hfew _ =>
    refine h.insert hb (fun hup => ?_) (fun c hc => absurd hc List.not_mem_nil)
    rw [hst] at hup
    rcases HealthChecker.mem_getHealthyBackends_or hup with hlisted | hnone
    · simpa [Phase.calls] using h.healthy b hlisted
    · rcases hok with hsome | hactive | ⟨hfail, hone⟩
      · simp [hnone] at hsome
      · exact Or.inl hactive
      · -- The first failure would have dropped the backend.
        have hlt := hfew hfail hup
        simp only [HealthChecker.state, hnone, Option.getD_none, HealthChecker.fresh] at hlt
        dsimp only at hone
        omega
  | up hdown hst =>
    exact h.insert hb (fun _ => Or.inr (by simp)) (fun c hc => by simp at hc)
  | down hup hst _ _ _ =>
    refine h.insert hb (fun htrue => absurd (hst.symm.trans htrue) Bool.false_ne_true)
      (fun c hmem => ?_)
    rw [Option.toList_some, List.mem_singleton] at hmem
    split at hmem
    · cases hmem
    · exact ⟨Call.removeBackend.inj hmem, hst⟩

theorem Covered.call {i : ℕ} {c : Call} (h : Covered ⟨store, hc, .probing todo calls⟩)
    (hi : calls[i]? = some c) :
    Covered ⟨c.run store, hc, .probing todo (calls.eraseIdx i)⟩ := by
  have hmem : c ∈ calls := List.mem_of_getElem? hi
  refine ⟨fun b hb => ?_, List.forall_mem_nil _,
    fun b hb => h.removing b (List.mem_of_mem_eraseIdx hb), h.nodup⟩
  -- What is active stays so, for a backend held healthy is not removed.
  have hkeep : b ∈ store.active → b ∈ (c.run store).active := fun hactive => by
    cases c with
    | addBackend d => exact Store.mem_active_addBackend.2 (Or.inr hactive)
    | removeBackend d =>
      have hne : b ≠ d := fun heq => (h.removing d hmem).1 (heq ▸ hb)
      exact Store.mem_active_removeBackend.2 ⟨hactive, hne⟩
    | startDrain d => exact hactive
  rcases h.healthy b hb with hactive | hcall
  · exact Or.inl (hkeep hactive)
  · rcases Pool.eq_or_mem_eraseIdx_of_mem hcall hi with rfl | hleft
    · exact Or.inl (Store.mem_active_addBackend.2 (Or.inl rfl))
    · exact Or.inr hleft

/-- A change of the store that keeps what the checker relies on. -/
theorem Covered.store_mono {store' : Store} (h : Covered s)
    (hhealthy : ∀ b ∈ s.checker.getHealthyBackends, b ∈ s.store.active → b ∈ store'.active)
    (hheld : ∀ b ∈ s.phase.held, b ∈ s.store.active → b ∈ store'.active) :
    Covered { s with store := store' } where
  healthy b hb := (h.healthy b hb).imp_left (hhealthy b hb)
  held b hb := hheld b hb (h.held b hb)
  removing := h.removing
  nodup := h.nodup

theorem Covered.step (h : Covered s) (hok : Agreed s a) (hst : Health.step s a = some s') :
    Covered s' := by
  cases steps_of_step hst with
  | activeBackends horder => exact ⟨h.healthy, fun b hb => horder.mem.1 hb, h.removing, h.nodup⟩
  | merge horder =>
    refine ⟨fun b hb => Or.inl ?_, List.forall_mem_nil _,
      fun b hb => absurd hb List.not_mem_nil, horder.1⟩
    -- The backends merged are active still, for nobody removes one that is held.
    rcases HealthChecker.mem_of_mem_getHealthyBackends_prune hb with hold | hmerged
    · exact (h.healthy b hold).resolve_right List.not_mem_nil
    · exact h.held b hmerged
  | probe hb hrec => exact h.probe hb hok hrec
  | call hi => exact h.call hi
  | fail => exact hok.elim
  | cancel =>
    exact ⟨h.healthy, h.held, fun b hb => ⟨(h.removing b hb).1, List.not_mem_nil⟩, List.nodup_nil⟩
  | getHealthyBackends =>
    exact ⟨h.healthy, fun b hb => (h.healthy b hb).resolve_right List.not_mem_nil, h.removing,
      h.nodup⟩
  | skip => exact ⟨h.healthy, h.held, h.removing, h.nodup⟩
  | trigger => exact ⟨h.healthy, List.forall_mem_nil _, h.removing, h.nodup⟩
  | addBackend =>
    exact h.store_mono (fun b _ hb => Store.mem_active_addBackend.2 (Or.inr hb))
      (fun b _ hb => Store.mem_active_addBackend.2 (Or.inr hb))
  | removeBackend =>
    refine h.store_mono (fun b hmem hb => ?_) (fun b hmem hb => ?_)
    · exact Store.mem_active_removeBackend.2 ⟨hb, fun heq => hok.1 (heq ▸ hmem)⟩
    · exact Store.mem_active_removeBackend.2 ⟨hb, fun heq => hok.2 (heq ▸ hmem)⟩

/-! ## Whole runs -/

/-- **A rebalance is given active backends only**, after every run in which
the checker's table and the active set are not torn apart. -/
theorem mem_active_of_triggers (s s' : System) (as : List Action) (backends : List Backend)
    (hfresh : s.Fresh) (hok : Run.Meets Health.step Agreed s as)
    (hrun : Run.exec Health.step s as = some s') (ht : s'.triggers = some backends) :
    ∀ b ∈ backends, b ∈ s'.store.active := by
  have hcovered : Covered s' := Run.exec_invariant (fun _ _ _ hI hok hst => hI.step hok hst)
    (Covered.of_fresh hfresh) hok hrun
  intro b hb
  refine hcovered.held b ?_
  obtain ⟨store, hc, phase⟩ := s'
  cases phase with
  | collected currentHealthy =>
    obtain ⟨-, heq⟩ := Option.ite_none_right_eq_some.1 ht
    exact Option.some.inj heq ▸ hb
  | _ => cases ht

/-- Two backends, and a checker that drains and rebalances. -/
def drainingPair : System :=
  ⟨.redis ⟨∅, ∅, {"b1", "b2"}⟩, { drainOnUnhealthy := true, rebalanceOnScale := true }, .idle⟩

/-- A round of the two backends up to the list for `Trigger`, with the
calls its probes make. -/
def pairRound (active : List Backend) (second : Bool) (calls : List Action) : List Action :=
  [.activeBackends active, .merge ["b1", "b2"], .probe "b1" true, .probe "b2" second] ++ calls ++
    [.getHealthyBackends]

/-- The second backend fails three times in a row. -/
def pairFails : List Action :=
  pairRound ["b1", "b2"] false [] ++ [.trigger] ++ pairRound ["b1", "b2"] false [] ++ [.trigger] ++
    pairRound ["b1", "b2"] false [.call 0] ++ [.trigger]

/-- The second backend fails, its drain removes it, discovery adds it
again, and it answers. -/
def drainedAndFound : List Action :=
  pairFails ++ [.removeBackend "b2", .addBackend "b2"] ++ pairRound ["b1", "b2"] true [.call 0]

theorem mem_active_of_triggers_drainedAndFound :
    ∃ s, Run.exec Health.step drainingPair drainedAndFound = some s ∧
      s.triggers = some ["b1", "b2"] ∧ ∀ b ∈ ["b1", "b2"], b ∈ s.store.active := by
  obtain ⟨s, hrun, ht⟩ : ∃ s, Run.exec Health.step drainingPair drainedAndFound = some s ∧
      s.triggers = some ["b1", "b2"] := ⟨_, rfl, rfl⟩
  have hok : Run.Meets Health.step Agreed drainingPair drainedAndFound := by decide +kernel
  exact ⟨s, hrun, ht, mem_active_of_triggers _ _ _ _ ⟨rfl, rfl, rfl⟩ hok hrun ht⟩

/-- Two backends, and a checker that rebalances. -/
def rebalancingPair : System :=
  ⟨.redis ⟨∅, ∅, {"b1", "b2"}⟩, { rebalanceOnScale := true }, .idle⟩

/-- The second backend is removed, probed once more, and answers. -/
def removedAndProbed : List Action := pairFails ++ pairRound ["b1"] true []

theorem exec_removedAndProbed :
    ∃ s, Run.exec Health.step rebalancingPair removedAndProbed = some s ∧
      s.triggers = some ["b1", "b2"] ∧ s.store.active = {"b1"} := ⟨_, rfl, rfl, rfl⟩

/-- **A rebalance is given a backend that has been removed**, once a round
has forgotten that it was unhealthy and a probe has made up a state for
it. -/
theorem removed_backend_triggered :
    ¬ ∀ (s s' : System) (as : List Action) (backends : List Backend), s.Fresh →
      (∀ i, .fail i ∉ as) → Run.exec Health.step s as = some s' → s'.triggers = some backends →
        ∀ b ∈ backends, b ∈ s'.store.active := by
  intro h
  obtain ⟨s, hrun, ht, hactive⟩ := exec_removedAndProbed
  have hfail : ∀ i, .fail i ∉ removedAndProbed := by simp [removedAndProbed, pairFails, pairRound]
  have hmem := h rebalancingPair s _ _ ⟨rfl, rfl, rfl⟩ hfail hrun ht "b2" (by decide)
  rw [hactive] at hmem
  exact absurd hmem (by decide)

end Health

end StickyProxy
