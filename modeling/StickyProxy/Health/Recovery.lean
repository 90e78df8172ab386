import StickyProxy.Health.Effects
import StickyProxy.Store.Effects
import StickyProxy.Common.Run
import StickyProxy.Common.Pool
/-!
# A removed backend does not come back

A backend is removed when the checker drops its verdict on it. The next
round no longer finds it in the active set, so the prune forgets the
verdict just before the backend is probed, and the probe starts from a
state that says healthy: however many probes succeed, there is nothing to
lift and `AddBackend` is not called. The checker alone therefore only ever
shrinks the active set.
-/

namespace StickyProxy

namespace Health

variable {s s' : System} {a : Action} {b : Backend}

/-- A step of the checker whose calls get through. -/
def Action.Own : Action → Prop
  | .fail _ | .addBackend _ | .removeBackend _ => False
  | _ => True

instance : DecidablePred Action.Own
  | .fail _ | .addBackend _ | .removeBackend _ => inferInstanceAs (Decidable False)
  | .activeBackends _ | .merge _ | .probe _ _ | .call _ | .cancel | .getHealthyBackends
  | .trigger => inferInstanceAs (Decidable True)

/-- A backend held unhealthy has been removed or is about to be, and the
round has nothing more to do with it. -/
structure Dropped (s : System) : Prop where
  off : s.checker.drainOnUnhealthy = false
  removed : ∀ b, (s.checker.state b).healthy = false →
    b ∉ s.store.active ∨ .removeBackend b ∈ s.phase.calls
  held : ∀ b ∈ s.phase.held, (s.checker.state b).healthy = true
  todo : ∀ b ∈ s.phase.todo, (s.checker.state b).healthy = true
  nodup : s.phase.todo.Nodup
  calls : ∀ b, .addBackend b ∉ s.phase.calls

theorem Dropped.of_fresh (h : s.Fresh) (hoff : s.checker.drainOnUnhealthy = false) :
    Dropped s where
  off := hoff
  removed b hb := by simp [HealthChecker.state, h.states, HealthChecker.fresh] at hb
  held b hb := by simp [h.phase, Phase.held] at hb
  todo b hb := by simp [h.phase, Phase.todo] at hb
  nodup := by simp [h.phase, Phase.todo]
  calls b hb := by simp [h.phase, Phase.calls] at hb

/-! ## One step -/

/-- The merge and the prune leave no verdict that could be lifted. -/
theorem state_prune_merge_healthy {hc : HealthChecker} {backends : List Backend}
    (h : ∀ b ∈ backends, (hc.state b).healthy = true) (b : Backend) :
    (((hc.merge backends).prune backends).state b).healthy = true := by
  rw [HealthChecker.state_prune, HealthChecker.state_merge]
  split
  · rfl
  · rename_i hb
    by_cases hmem : b ∈ backends
    · exact h b hmem
    · simpa [hmem] using hb

/-- A probe drops the verdict of the backend it probes, or no verdict. -/
theorem Dropped.probe {store : Store} {hc hc' : HealthChecker} {todo : List Backend}
    {calls : List Call} {success : Bool} {call : Option Call}
    (h : Dropped ⟨store, hc, .probing todo calls⟩) (hb : b ∈ todo)
    (hrec : hc.Records b success call hc') :
    Dropped ⟨store, hc', .probing (todo.erase b) (calls ++ call.toList)⟩ := by
  have htodo : ∀ c ∈ todo.erase b, c ≠ b ∧ c ∈ todo := fun c hc => (h.nodup.mem_erase_iff).1 hc
  have hup : (hc.state b).healthy = true := h.todo b hb
  cases hrec with
  | keep hst hfew _ =>
    have hsame : ∀ c, (({ hc with states := hc.states.insert b _ } : HealthChecker).state c).healthy
        = (hc.state c).healthy := fun c => by
      rw [HealthChecker.state_insert]
      split
      · rename_i hcb
        rw [hst, hcb]
      · rfl
    refine ⟨h.off, fun c hc => ?_, List.forall_mem_nil _, fun c hc => ?_, h.nodup.erase b, ?_⟩
    · simpa [Phase.calls] using h.removed c (hsame c ▸ hc)
    · exact (hsame c).trans (h.todo c (htodo c hc).2)
    · simpa [Phase.calls] using h.calls
  | up hdown hst =>
    -- The one case that calls `AddBackend` needs a verdict the prune has left.
    cases hdown.symm.trans hup
  | down _ hst _ _ _ =>
    have hoff : hc.drainOnUnhealthy = false := h.off
    refine ⟨h.off, fun c hc => ?_, List.forall_mem_nil _, fun c hc => ?_, h.nodup.erase b,
      fun c hc => ?_⟩
    · rw [HealthChecker.state_insert] at hc
      simp only [hoff, Phase.calls]
      split at hc
      · rename_i hcb
        exact Or.inr (by simp [hcb])
      · exact (h.removed c hc).imp_right (List.mem_append_left _)
    · rw [HealthChecker.state_insert, if_neg (htodo c hc).1]
      exact h.todo c (htodo c hc).2
    · simp only [hoff, Phase.calls, List.mem_append] at hc
      exact hc.elim (h.calls c) (by simp)

/-- A call that is made removes its backend from the active set. -/
theorem Dropped.call {store : Store} {hc : HealthChecker} {todo : List Backend}
    {calls : List Call} {i : ℕ} {c : Call} (h : Dropped ⟨store, hc, .probing todo calls⟩)
    (hi : calls[i]? = some c) :
    Dropped ⟨c.run store, hc, .probing todo (calls.eraseIdx i)⟩ ∧
      (c.run store).active ⊆ store.active := by
  have hmem : c ∈ calls := List.mem_of_getElem? hi
  have hsub : (c.run store).active ⊆ store.active := by
    cases c with
    | addBackend b => exact absurd hmem (h.calls b)
    | removeBackend b => exact fun d hd => (Store.mem_active_removeBackend.1 hd).1
    | startDrain b => exact subset_rfl
  refine ⟨⟨h.off, fun d hd => ?_, List.forall_mem_nil _, h.todo, h.nodup,
    fun d hd => h.calls d (List.mem_of_mem_eraseIdx hd)⟩, hsub⟩
  rcases h.removed d hd with hout | hcall
  · exact Or.inl fun hin => hout (hsub hin)
  · rcases Pool.eq_or_mem_eraseIdx_of_mem hcall hi with rfl | hleft
    · exact Or.inl fun hin => (Store.mem_active_removeBackend.1 hin).2 rfl
    · exact Or.inr hleft

/-- **A step of the checker alone adds no backend**, and leaves every
dropped backend removed. -/
theorem Dropped.step (h : Dropped s) (hown : a.Own) (hst : Health.step s a = some s') :
    Dropped s' ∧ s'.store.active ⊆ s.store.active := by
  cases steps_of_step hst with
  | activeBackends horder =>
    refine ⟨⟨h.off, h.removed, fun b hb => ?_, h.todo, h.nodup, h.calls⟩, subset_rfl⟩
    -- No call is left from the last round, so what it dropped is not active.
    by_contra hdown
    rcases h.removed b (by simpa using hdown) with hout | hcall
    · exact hout (horder.mem.1 hb)
    · cases hcall
  | merge horder =>
    -- From here on every backend to probe counts as healthy, the removed ones too.
    have hup := state_prune_merge_healthy h.held
    exact ⟨⟨h.off, fun b hb => absurd (hb.symm.trans (hup b)) Bool.false_ne_true,
      List.forall_mem_nil _, fun b _ => hup b, horder.1, fun _ => List.not_mem_nil⟩, subset_rfl⟩
  | probe hb hrec => exact ⟨h.probe hb hrec, subset_rfl⟩
  | call hi => exact h.call hi
  | cancel =>
    exact ⟨⟨h.off, h.removed, h.held, List.forall_mem_nil _, List.nodup_nil, h.calls⟩,
      subset_rfl⟩
  | getHealthyBackends =>
    refine ⟨⟨h.off, h.removed, fun b hb => ?_, h.todo, h.nodup, h.calls⟩, subset_rfl⟩
    obtain ⟨st, hst, hup⟩ := HealthChecker.mem_getHealthyBackends.1 hb
    simpa [HealthChecker.state, hst] using hup
  | skip => exact ⟨⟨h.off, h.removed, h.held, h.todo, h.nodup, h.calls⟩, subset_rfl⟩
  | trigger =>
    exact ⟨⟨h.off, h.removed, List.forall_mem_nil _, h.todo, h.nodup, h.calls⟩, subset_rfl⟩
  | fail => exact hown.elim
  | addBackend => exact hown.elim
  | removeBackend => exact hown.elim

/-! ## Whole runs -/

/-- **The checker alone only shrinks the active set.** -/
theorem Dropped.exec {as : List Action} (h : Dropped s)
    (hown : Run.Meets Health.step (fun _ a => a.Own) s as)
    (hrun : Run.exec Health.step s as = some s') :
    Dropped s' ∧ s'.store.active ⊆ s.store.active := by
  refine Run.exec_invariant (I := fun t => Dropped t ∧ t.store.active ⊆ s.store.active)
    (fun t a t' hI ha hst => ?_) ⟨h, subset_rfl⟩ hown hrun
  obtain ⟨hnext, hsub⟩ := hI.1.step ha hst
  exact ⟨hnext, hsub.trans hI.2⟩

/-- A new checker, alone with the store, removes a backend, and in a later
round a probe of that backend succeeds. -/
structure RecoveryRun (b : Backend) (s s₁ s₂ : System) (down up : List Action) : Prop where
  fresh : s.Fresh
  off : s.checker.drainOnUnhealthy = false
  one : s.checker.healthyThreshold = 1
  active : b ∈ s.store.active
  ownDown : Run.Meets step (fun _ a => a.Own) s down
  runDown : Run.exec step s down = some s₁
  removed : b ∉ s₁.store.active
  ownUp : Run.Meets step (fun _ a => a.Own) s₁ up
  runUp : Run.exec step s₁ up = some s₂
  probed : .probe b true ∈ up
  ended : s₂.phase = .idle

/-- **A removed backend is never added back** by the checker, however its
probes turn out: not in the round of a probe that succeeds, nor in any
round after it. -/
theorem notMem_active_of_recoveryRun (b : Backend) (s s₁ s₂ : System) (down up : List Action)
    (h : RecoveryRun b s s₁ s₂ down up) : b ∉ s₂.store.active := by
  have hdropped : Dropped s₁ :=
    ((Dropped.of_fresh h.fresh h.off).exec h.ownDown h.runDown).1
  have hsub : s₂.store.active ⊆ s₁.store.active := (hdropped.exec h.ownUp h.runUp).2
  exact fun hb => h.removed (hsub hb)

/-- Two backends and a new checker. -/
def twoBackends : System := ⟨.redis ⟨∅, ∅, {"b1", "b2"}⟩, {}, .idle⟩

/-- A round in which the first backend answers and the second one does
not. -/
def failingRound (calls : List Action) : List Action :=
  [.activeBackends ["b1", "b2"], .merge ["b1", "b2"], .probe "b1" true, .probe "b2" false] ++
    calls ++ [.getHealthyBackends]

/-- The third failure in a row removes the second backend. -/
def threeFailingRounds : List Action := failingRound [] ++ failingRound [] ++ failingRound [.call 0]

/-- The second backend is probed once more, and answers. -/
def recoveringRound : List Action :=
  [.activeBackends ["b1"], .merge ["b1", "b2"], .probe "b1" true, .probe "b2" true,
    .getHealthyBackends]

theorem exists_recoveryRun :
    ∃ s₁ s₂, RecoveryRun "b2" twoBackends s₁ s₂ threeFailingRounds recoveringRound ∧
      s₂.store.active = {"b1"} :=
  ⟨_, _, ⟨⟨rfl, rfl, rfl⟩, rfl, rfl, by decide, by decide, rfl, by decide, by decide, rfl,
    by decide, rfl⟩, rfl⟩

theorem notMem_active_of_recoveryRun_twoBackends :
    ∃ s₁ s₂, RecoveryRun "b2" twoBackends s₁ s₂ threeFailingRounds recoveringRound ∧
      "b2" ∉ s₂.store.active := by
  obtain ⟨s₁, s₂, h, -⟩ := exists_recoveryRun
  exact ⟨s₁, s₂, h, notMem_active_of_recoveryRun _ _ _ _ _ _ h⟩

/-- **A backend that answers again stays out of the active set**: it was
forgotten as unhealthy just before it was probed. -/
theorem answering_backend_not_added :
    ¬ ∀ (b : Backend) (s s₁ s₂ : System) (down up : List Action),
      RecoveryRun b s s₁ s₂ down up → b ∈ s₂.store.active := by
  intro h
  obtain ⟨s₁, s₂, hrun, hactive⟩ := exists_recoveryRun
  have hmem := h "b2" _ s₁ s₂ _ _ hrun
  rw [hactive] at hmem
  exact absurd hmem (by decide)

end Health

end StickyProxy
