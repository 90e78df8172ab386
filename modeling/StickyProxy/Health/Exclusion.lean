import StickyProxy.Health.Model.Controllers
import StickyProxy.Health.Effects
import StickyProxy.Store.Effects
import StickyProxy.Common.Run
import StickyProxy.Common.Pool
/-!
# Keeping a failing backend out

The checker removes a backend when its verdict changes, and only then. A
backend that is down and active is probed on and never removed again, so
it matters that there is none: as long as no `RemoveBackend` of the checker
fails and no discovery adds a backend that is failing, every backend that
is down is inactive, or about to be removed. It is then forgotten in the
next round and counts as healthy, with its failures counted anew; by then
it is out, and has more failures behind it than the checker knows of.
-/

namespace StickyProxy

namespace Health

variable {σ σ' : Backend → ℕ} {s s' : System} {b c : Backend}

/-! ## The checker -/

/-- What the checker knows of the failures: `σ` counts them for each
backend. -/
structure Watched (σ : Backend → ℕ) (s : System) : Prop where
  threshold : 0 < s.checker.unhealthyThreshold
  drainOnUnhealthy : s.checker.drainOnUnhealthy = false
  /-- It has counted them all, or the backend is out. -/
  counts : ∀ b, (σ b : ℤ) = (s.checker.state b).consecutiveFails ∨
    s.checker.unhealthyThreshold ≤ σ b ∧ b ∉ s.store.active
  few : ∀ b, (s.checker.state b).healthy →
    (s.checker.state b).consecutiveFails < s.checker.unhealthyThreshold
  /-- A backend that is down is out, or on its way. -/
  down : ∀ b, (s.checker.state b).healthy = false →
    s.checker.unhealthyThreshold ≤ σ b ∧ b ∉ s.phase.todo ∧
      (b ∉ s.store.active ∨ .removeBackend b ∈ s.phase.calls)
  fetched : ∀ backends, s.phase = .fetched backends → ∀ b ∈ backends, (s.checker.state b).healthy
  nodup : s.phase.todo.Nodup
  noAdd : ∀ b, .addBackend b ∉ s.phase.calls

/-- Between two rounds a failing backend is out. -/
theorem Watched.out (h : Watched σ s) (hcalls : s.phase.calls = [])
    (hb : s.checker.unhealthyThreshold ≤ σ b) : b ∉ s.store.active := by
  rcases h.counts b with hcount | ⟨-, hout⟩
  · have hdown : (s.checker.state b).healthy = false := by
      by_contra hup
      have hfew := h.few b (by simpa using hup)
      omega
    rcases (h.down b hdown).2.2 with hout | hcall
    · exact hout
    · rw [hcalls] at hcall
      cases hcall
  · exact hout

/-- The store may be written to as long as no failing backend comes in. -/
theorem Watched.setStore {store : Store} (h : Watched σ s)
    (hstore : ∀ b ∈ store.active, b ∈ s.store.active ∨ (σ b : ℤ) < s.checker.unhealthyThreshold) :
    Watched σ { s with store } := by
  have hout : ∀ b, s.checker.unhealthyThreshold ≤ σ b → b ∉ s.store.active →
      b ∉ store.active := by
    intro b hb hnot hmem
    rcases hstore b hmem with hmem | hlt
    · exact hnot hmem
    · omega
  refine ⟨h.threshold, h.drainOnUnhealthy, fun b => ?_, h.few, fun b hb => ?_, h.fetched, h.nodup,
    h.noAdd⟩
  · exact (h.counts b).imp_right fun hb => ⟨hb.1, hout b hb.1 hb.2⟩
  · obtain ⟨hmany, htodo, hremoved⟩ := h.down b hb
    exact ⟨hmany, htodo, hremoved.imp_left (hout b hmany)⟩

section Merge

variable {store : Store} {hc : HealthChecker} {backends order : List Backend}

/-- Whatever was down is out when the round begins, and so forgotten. -/
theorem Watched.state_merge (h : Watched σ ⟨store, hc, .fetched backends⟩) (b : Backend) :
    ((hc.merge backends).prune backends).state b =
      if (hc.state b).healthy = false then HealthChecker.fresh else hc.state b := by
  rw [HealthChecker.state_prune, HealthChecker.state_merge]
  by_cases hdown : (hc.state b).healthy = false
  · have hb : b ∉ backends := fun hb => by
      have hup : (hc.state b).healthy = true := h.fetched backends rfl b hb
      rw [hup] at hdown
      cases hdown
    rw [if_pos ⟨hb, hdown⟩, if_pos hdown]
  · rw [if_neg fun hb => hdown hb.2, if_neg hdown]

/-- A round begins: every backend counts as healthy. -/
theorem Watched.merge (h : Watched σ ⟨store, hc, .fetched backends⟩) (hnodup : order.Nodup) :
    Watched σ ⟨store, (hc.merge backends).prune backends, .probing order []⟩ := by
  have hup : ∀ b, (((hc.merge backends).prune backends).state b).healthy = true := by
    intro b
    rw [h.state_merge]
    split
    · rfl
    · simpa using ‹¬ (hc.state b).healthy = false›
  refine ⟨h.threshold, h.drainOnUnhealthy, fun b => ?_, fun b _ => ?_, fun b hdown => ?_,
    fun _ hphase => (by cases hphase), hnodup, by simp [Phase.calls]⟩
  · simp only [h.state_merge]
    split
    · rename_i hdown
      obtain ⟨hmany, -, hout⟩ := h.down b hdown
      exact Or.inr ⟨hmany, hout.resolve_right (by simp [Phase.calls])⟩
    · exact h.counts b
  · simp only [h.state_merge]
    split
    · exact h.threshold
    · exact h.few b (by simpa using ‹¬ (hc.state b).healthy = false›)
  · rw [show _ = true from hup b] at hdown
    cases hdown

end Merge

section Probe

variable {store : Store} {hc hc' : HealthChecker} {todo : List Backend} {calls calls' : List Call}

/-- A new state for a backend that was to be probed. -/
theorem Watched.insert {st : BackendHealth} (h : Watched σ ⟨store, hc, .probing todo calls⟩)
    (hother : ∀ c ≠ b, σ' c = σ c)
    (hcount : (σ' b : ℤ) = st.consecutiveFails ∨
      hc.unhealthyThreshold ≤ σ' b ∧ b ∉ store.active)
    (hfew : st.healthy → st.consecutiveFails < hc.unhealthyThreshold)
    (hdown : st.healthy = false → hc.unhealthyThreshold ≤ σ' b ∧ .removeBackend b ∈ calls')
    (hcalls : ∀ x ∈ calls, x ∈ calls') (hnoAdd : ∀ c, .addBackend c ∉ calls') :
    Watched σ' ⟨store, { hc with states := hc.states.insert b st },
      .probing (todo.erase b) calls'⟩ := by
  refine ⟨h.threshold, h.drainOnUnhealthy, fun c => ?_, fun c => ?_, fun c => ?_,
    fun _ hphase => (by cases hphase), h.nodup.erase b, hnoAdd⟩ <;>
    simp only [HealthChecker.state_insert] <;> by_cases hcb : c = b
  · rw [if_pos hcb, hcb]
    exact hcount
  · rw [if_neg hcb, hother c hcb]
    exact h.counts c
  · rw [if_pos hcb]
    exact hfew
  · rw [if_neg hcb]
    exact h.few c
  · rw [if_pos hcb, hcb]
    intro hst
    obtain ⟨hmany, hcall⟩ := hdown hst
    exact ⟨hmany, h.nodup.not_mem_erase, Or.inr hcall⟩
  · rw [if_neg hcb, hother c hcb]
    intro hst
    obtain ⟨hmany, htodo, hout⟩ := h.down c hst
    exact ⟨hmany, fun hmem => htodo (List.mem_of_mem_erase hmem), hout.imp_right (hcalls _)⟩

/-- A probe. The backend counts as healthy then, since one that is down is
not probed. -/
theorem Watched.probe {success : Bool} {call : Option Call}
    (h : Watched σ ⟨store, hc, .probing todo calls⟩) (hb : b ∈ todo)
    (hrec : hc.Records b success call hc') (hσ : σ' b = if success then 0 else σ b + 1)
    (hother : ∀ c ≠ b, σ' c = σ c) :
    Watched σ' ⟨store, hc', .probing (todo.erase b) (calls ++ call.toList)⟩ := by
  have hup : (hc.state b).healthy = true := by
    by_contra hdown
    exact (h.down b (by simpa using hdown)).2.1 hb
  have hthreshold : 0 < hc.unhealthyThreshold := h.threshold
  have hcount : (σ b : ℤ) = (hc.state b).consecutiveFails ∨
    hc.unhealthyThreshold ≤ σ b ∧ b ∉ store.active := h.counts b
  cases hrec with
  | keep hst hfew hfails =>
    rw [Option.toList_none, List.append_nil]
    refine h.insert hother ?_ ?_ (fun hdown => ?_) (fun _ hx => hx) h.noAdd
    · cases success with
      | true => exact Or.inl (by rw [hσ, hfails]; rfl)
      | false =>
        rw [hσ, hfails, if_neg Bool.false_ne_true, if_neg Bool.false_ne_true]
        exact hcount.imp (fun h => by omega) (And.imp_left fun h => by omega)
    · intro _
      rw [hfails]
      cases success with
      | true => exact hthreshold
      | false => exact hfew rfl hup
    · rw [hst, hup] at hdown
      cases hdown
  | up hdown hst => rw [hup] at hdown; cases hdown
  | down _ hst hfailed hmany hfails =>
    have hdrain : hc.drainOnUnhealthy = false := h.drainOnUnhealthy
    rw [hfailed, if_neg Bool.false_ne_true] at hσ
    refine h.insert hother ?_ (fun hup => ?_) (fun _ => ⟨?_, ?_⟩)
      (fun _ hx => List.mem_append_left _ hx) (fun c hc => ?_)
    · rw [hσ, hfails]
      exact hcount.imp (fun h => by omega) (And.imp_left fun h => by omega)
    · rw [hst] at hup
      cases hup
    · rw [hσ]
      rcases hcount with hcount | ⟨hcount, -⟩ <;> omega
    · simp [hdrain]
    · rcases List.mem_append.1 hc with hc | hc
      · exact h.noAdd c hc
      · simp [hdrain] at hc

/-- A call has returned, and has removed its backend unless that was out. -/
theorem Watched.drop {store' : Store} {i : ℕ} {x : Call}
    (h : Watched σ ⟨store, hc, .probing todo calls⟩) (hi : calls[i]? = some x)
    (hstore : ∀ b ∈ store'.active, b ∈ store.active)
    (hx : ∀ b, x = .removeBackend b → b ∉ store'.active) :
    Watched σ ⟨store', hc, .probing todo (calls.eraseIdx i)⟩ := by
  refine ⟨h.threshold, h.drainOnUnhealthy, fun b => ?_, h.few, fun b hb => ?_,
    fun _ hphase => (by cases hphase), h.nodup,
    fun b hb => h.noAdd b (List.mem_of_mem_eraseIdx hb)⟩
  · exact (h.counts b).imp_right fun hb => ⟨hb.1, fun hmem => hb.2 (hstore b hmem)⟩
  · obtain ⟨hmany, htodo, hout⟩ := h.down b hb
    refine ⟨hmany, htodo, ?_⟩
    by_cases hxb : x = .removeBackend b
    · exact Or.inl (hx b hxb)
    · refine hout.imp (fun hout hmem => hout (hstore b hmem)) fun hcall => ?_
      obtain ⟨j, hj⟩ := List.mem_iff_getElem?.1 hcall
      refine Pool.mem_eraseIdx.2 ⟨j, fun hji => hxb ?_, hj⟩
      subst hji
      exact Option.some.inj (hi.symm.trans hj)

end Probe

/-- The failures after a step of the checker. -/
def Action.counts (σ σ' : Backend → ℕ) : Action → Prop
  | .probe b success =>
    σ' b = (if success then 0 else σ b + 1) ∧ ∀ c ≠ b, σ' c = σ c
  | _ => σ' = σ

/-- A call that fails is none that an active backend should have been removed
by. -/
def Phase.failsSafely (phase : Phase) (store : Store) (i : ℕ) : Bool :=
  (phase.calls[i]?).all fun
    | .removeBackend b => b ∉ store.active
    | _ => true

/-- **A step of the checker.** -/
theorem Watched.step {a : Action} (h : Watched σ s) (hst : Steps s a s')
    (hσ : a.counts σ σ') (hown : ∀ b, a ≠ .addBackend b ∧ a ≠ .removeBackend b)
    (hfail : ∀ i, a = .fail i → s.phase.failsSafely s.store i) : Watched σ' s' := by
  cases hst with
  | activeBackends horder =>
    obtain rfl : σ' = σ := hσ
    refine ⟨h.threshold, h.drainOnUnhealthy, h.counts, h.few, h.down, ?_, List.nodup_nil, h.noAdd⟩
    rintro backends hphase b hb
    obtain rfl := Phase.fetched.inj hphase
    by_contra hdown
    rcases (h.down b (by simpa using hdown)).2.2 with hout | hcall
    · exact hout (horder.mem.1 hb)
    · cases hcall
  | merge horder =>
    obtain rfl : σ' = σ := hσ
    exact h.merge horder.1
  | probe hb hrec => exact h.probe hb hrec hσ.1 hσ.2
  | call hi =>
    obtain rfl : σ' = σ := hσ
    rename_i store hc todo calls i x
    cases x with
    | addBackend b => exact absurd (List.mem_of_getElem? hi) (h.noAdd b)
    | removeBackend b =>
      refine h.drop hi (fun c hc => (Store.mem_active_removeBackend.1 hc).1) ?_
      rintro c ⟨⟩ hmem
      exact (Store.mem_active_removeBackend.1 hmem).2 rfl
    | startDrain b =>
      refine h.drop hi (fun c hc => hc) ?_
      rintro c ⟨⟩
  | fail hi =>
    obtain rfl : σ' = σ := hσ
    refine h.drop hi (fun c hc => hc) ?_
    rintro c rfl
    simpa [Phase.failsSafely, Phase.calls, hi] using hfail _ rfl
  | cancel =>
    obtain rfl : σ' = σ := hσ
    refine ⟨h.threshold, h.drainOnUnhealthy, h.counts, h.few, fun b hb => ?_,
      fun _ hphase => (by cases hphase), List.nodup_nil, h.noAdd⟩
    obtain ⟨hmany, -, hout⟩ := h.down b hb
    exact ⟨hmany, List.not_mem_nil, hout⟩
  | getHealthyBackends | skip | trigger =>
    obtain rfl : σ' = σ := hσ
    exact ⟨h.threshold, h.drainOnUnhealthy, h.counts, h.few, h.down,
      fun _ hphase => (by cases hphase), List.nodup_nil, h.noAdd⟩
  | addBackend => exact absurd rfl (hown _).1
  | removeBackend => exact absurd rfl (hown _).2

namespace Controllers

variable {s s' : Controllers} {a : ControllerAction}

/-! ## The checker and the discoveries -/

/-- The calls a DNS reconcile has left. -/
def dnsCalls (s : Controllers) : List DiscoveryCall :=
  match s.dns with
  | .reconciling calls => calls
  | _ => []

/-- A call of a discovery does not bring a failing backend in. -/
def admits (s : Controllers) : DiscoveryCall → Bool
  | .addBackend b => (s.streak b : ℤ) < s.health.checker.unhealthyThreshold ∨
      b ∈ s.health.store.active
  | _ => true

/-- No removal of the checker fails that is needed, and no discovery adds a
backend that is failing. -/
def steady (s : Controllers) : ControllerAction → Bool
  | .health (.fail i) => s.health.phase.failsSafely s.health.store i
  | .dnsCall outcome => outcome = .failed ∨ s.dnsCalls.head?.all s.admits
  | .kubernetesCall outcome => outcome = .failed ∨ s.kubernetes.calls.head?.all s.admits
  | _ => true

/-- A failed probe makes the streak longer, and a success ends it. -/
theorem counts_record {b : Action} (h : s'.probes = record s.probes b) :
    b.counts s.streak s'.streak := by
  cases b with
  | probe b success =>
    refine ⟨?_, fun c hc => ?_⟩
    · cases success <;> simp [streak, h, record]
    · simp [streak, h, record, hc.symm]
  | _ => exact funext fun c => by rw [streak, h]; rfl

theorem checkerStep_cases {b : Action} (hst : s.checkerStep b = some s') :
    (∀ c, b ≠ .addBackend c ∧ b ≠ .removeBackend c) ∧ Health.step s.health b = some s'.health ∧
      s'.probes = record s.probes b := by
  cases b with
  | addBackend c | removeBackend c => cases hst
  | _ =>
    obtain ⟨health, hhealth, rfl⟩ := Option.map_eq_some_iff.1 hst
    exact ⟨fun c => ⟨by simp, by simp⟩, hhealth, rfl⟩

/-- A call that is admitted, or fails. -/
theorem watched_call {x : DiscoveryCall} {outcome : CallOutcome}
    (h : Watched s.streak s.health) (hx : outcome = .failed ∨ s.admits x) :
    Watched s.streak { s.health with store := outcome.run s.health.store x } := by
  refine h.setStore fun b hb => ?_
  by_cases hfailed : outcome = .failed
  · rw [CallOutcome.run, if_pos hfailed] at hb
    exact Or.inl hb
  · rw [CallOutcome.run, if_neg hfailed] at hb
    have hx := hx.resolve_left hfailed
    cases x with
    | addBackend c =>
      rcases Store.mem_active_addBackend.1 hb with rfl | hb
      · rw [admits, decide_eq_true_eq] at hx
        exact hx.symm
      · exact Or.inl hb
    | removeBackend c => exact Or.inl (Store.mem_active_removeBackend.1 hb).1
    | cancelDrain c | startDrain c => exact Or.inl hb

theorem watched_step (h : Watched s.streak s.health) (ha : s.steady a)
    (hst : step s a = some s') : Watched s'.streak s'.health := by
  cases a with
  | health b =>
    obtain ⟨hown, hhealth, hprobes⟩ := checkerStep_cases hst
    refine h.step (steps_of_step hhealth) (counts_record hprobes) hown ?_
    rintro i rfl
    exact ha
  | lookupHost ips =>
    rcases hdns : s.dns with - | discovered | calls <;>
      simp only [step, hdns, reduceCtorEq, Option.some.injEq] at hst
    subst hst
    exact h
  | activeBackends reply =>
    rcases hdns : s.dns with - | discovered | calls <;> rcases reply with - | ⟨current, order⟩ <;>
      simp only [step, hdns, reduceCtorEq, Option.some.injEq, Option.ite_none_right_eq_some] at hst
    · subst hst
      exact h
    · obtain ⟨-, rfl⟩ := hst
      exact h
  | dnsCall outcome =>
    rcases hdns : s.dns with - | discovered | ⟨- | ⟨x, rest⟩⟩ <;>
      simp only [step, hdns, reduceCtorEq, Option.some.injEq] at hst
    subst hst
    exact watched_call h (by simpa [steady, dnsCalls, hdns] using ha)
  | dnsEnd =>
    rcases hdns : s.dns with - | discovered | ⟨- | ⟨x, rest⟩⟩ <;>
      simp only [step, hdns, reduceCtorEq, Option.some.injEq] at hst
    subst hst
    exact h
  | reconcile order gone =>
    obtain ⟨d, -, rfl⟩ := Option.map_eq_some_iff.1 hst
    exact h
  | kubernetesCall outcome =>
    rcases hcalls : s.kubernetes.calls with - | ⟨x, rest⟩ <;>
      simp only [step, hcalls, reduceCtorEq, Option.some.injEq] at hst
    subst hst
    exact watched_call h (by simpa [steady, hcalls] using ha)
  | drained b =>
    obtain rfl := Option.some.inj hst
    exact h.setStore fun c hc => Or.inl (Store.mem_active_removeBackend.1 hc).1

/-- A checker that has yet to make its first round has seen no failure. -/
theorem watched_fresh (hfresh : s.health.Fresh) (hprobes : s.probes = [])
    (hthreshold : 0 < s.health.checker.unhealthyThreshold)
    (hdrain : s.health.checker.drainOnUnhealthy = false) : Watched s.streak s.health := by
  have hstate : ∀ b, s.health.checker.state b = HealthChecker.fresh := by
    intro b
    rw [HealthChecker.state, hfresh.states]
    rfl
  have hphase := hfresh.phase
  refine ⟨hthreshold, hdrain, fun b => Or.inl ?_, fun b _ => ?_, fun b hb => ?_, ?_, ?_, ?_⟩
  · rw [hstate, streak, hprobes]
    rfl
  · rw [hstate]
    exact hthreshold
  · rw [hstate] at hb
    cases hb
  · rw [hphase]
    rintro backends ⟨⟩
  · rw [hphase]
    exact List.nodup_nil
  · rw [hphase]
    simp [Phase.calls]

/-- **A failing backend is kept out**, as long as the other controller lets
it stay out. For any interleaving of the checker's rounds with reconciles
of the discoveries and the ends of drains, in which no removal of the
checker fails that is needed and no discovery adds a backend whose last
`unhealthyThreshold` probes have failed: whenever no round is under way, no
such backend is active. -/
theorem failing_not_active {s₀ : Controllers} {schedule : List ControllerAction} {b : Backend}
    (hfresh : s₀.health.Fresh) (hprobes : s₀.probes = [])
    (hthreshold : 0 < s₀.health.checker.unhealthyThreshold)
    (hdrain : s₀.health.checker.drainOnUnhealthy = false)
    (hsteady : Run.Meets step (fun s a => s.steady a) s₀ schedule)
    (hrun : Run.exec step s₀ schedule = some s) (hidle : s.health.phase = .idle)
    (hb : s.health.checker.unhealthyThreshold ≤ s.streak b) : b ∉ s.health.store.active := by
  have h : Watched s.streak s.health :=
    Run.exec_invariant (I := fun s => Watched s.streak s.health)
      (fun _ _ _ h ha hst => watched_step h ha hst)
      (watched_fresh hfresh hprobes hthreshold hdrain) hsteady hrun
  exact h.out (by rw [hidle]; rfl) hb

/-! ## One backend that fails -/

/-- The address the host has. -/
def failingURL : Backend := "http://10.0.0.1:8080"

/-- A checker and a DNS discovery that have found one backend. -/
def oneBackend : Controllers :=
  { health := { store := .memory {failingURL}, checker := {} }
    port := "8080"
    kubernetes := { drain := false, desired := [] } }

/-- A round in which the probe fails; `active` is what it reads, and `calls`
is what becomes of its call. -/
def failingRound (active : List Backend) (calls : List Action) : List ControllerAction :=
  [.health (.activeBackends active), .health (.merge [failingURL]),
    .health (.probe failingURL false)] ++ calls.map .health ++ [.health .getHealthyBackends]

/-- Three of them, the last of which makes a call. -/
def threeRounds (last : Action) : List ControllerAction :=
  failingRound [failingURL] [] ++ failingRound [failingURL] [] ++ failingRound [failingURL] [last]

/-- A reconcile of the DNS discovery, which still finds the address. -/
def stillInDns : List ControllerAction :=
  [.lookupHost (some ["10.0.0.1"]), .activeBackends (some ([], [failingURL])), .dnsCall .ok,
    .dnsEnd]

theorem fresh_oneBackend : oneBackend.health.Fresh := ⟨rfl, rfl, rfl⟩

/-- A second address. -/
def otherURL : Backend := "http://10.0.0.2:8080"

/-- A round in which the probe of the first address fails and that of the
second succeeds. -/
def mixedRound (active : List Backend) (calls : List Action) : List ControllerAction :=
  [.health (.activeBackends active), .health (.merge [failingURL, otherURL]),
    .health (.probe failingURL false), .health (.probe otherURL true)] ++ calls.map .health ++
    [.health .getHealthyBackends]

/-- The first address fails twice, goes, and comes back in time to fail for
the third time. It is still in DNS after that, but the call that would add
it fails. -/
def comesAndGoes : List ControllerAction :=
  failingRound [failingURL] [] ++ failingRound [failingURL] [] ++
    [.lookupHost (some ["10.0.0.2"]), .activeBackends (some ([failingURL], [otherURL])),
      .dnsCall .ok, .dnsCall .ok, .dnsEnd] ++
    [.lookupHost (some ["10.0.0.1", "10.0.0.2"]),
      .activeBackends (some ([otherURL], [failingURL, otherURL])), .dnsCall .ok, .dnsEnd] ++
    mixedRound [failingURL, otherURL] [.call 0] ++
    [.lookupHost (some ["10.0.0.1", "10.0.0.2"]),
      .activeBackends (some ([otherURL], [failingURL, otherURL])), .dnsCall .failed, .dnsEnd] ++
    mixedRound [otherURL] []

/-- At the end the first address is out and the second in, although the
checker has forgotten all but the last failure. -/
theorem failing_not_active_comesAndGoes :
    ∃ s, Run.exec step oneBackend comesAndGoes = some s ∧ s.streak failingURL = 4 ∧
      (s.health.checker.state failingURL).consecutiveFails = 1 ∧
      otherURL ∈ s.health.store.active ∧ failingURL ∉ s.health.store.active := by
  have hend : (Run.exec step oneBackend comesAndGoes).map (fun s =>
      (s.health.phase, s.health.checker.unhealthyThreshold, s.streak failingURL,
        (s.health.checker.state failingURL).consecutiveFails,
        decide (otherURL ∈ s.health.store.active))) = some (.idle, 3, 4, 1, true) := by
    decide +kernel
  obtain ⟨s, hrun, hend⟩ := Option.map_eq_some_iff.1 hend
  simp only [Prod.mk.injEq, decide_eq_true_eq] at hend
  obtain ⟨hidle, hthreshold, hstreak, hfails, hother⟩ := hend
  exact ⟨s, hrun, hstreak, hfails, hother, failing_not_active fresh_oneBackend rfl (by decide) rfl
    (by decide +kernel) hrun hidle (by rw [hthreshold, hstreak]; decide)⟩

/-- The phase of the checker, its threshold, the failing backend's streak,
and whether it is active. -/
def ending (s : Controllers) : Phase × ℤ × ℕ × Bool :=
  (s.health.phase, s.health.checker.unhealthyThreshold, s.streak failingURL,
    decide (failingURL ∈ s.health.store.active))

/-- **A failing backend comes back, and stays.** The DNS discovery adds what
the checker has removed, or the removal has failed; the fourth round makes
no call, and ends with a backend active that has failed four probes in a
row. -/
theorem failing_is_active :
    (Run.exec step oneBackend (threeRounds (.call 0) ++ stillInDns ++
        failingRound [failingURL] [])).map ending = some (.idle, 3, 4, true) ∧
      (Run.exec step oneBackend (threeRounds (.fail 0) ++ failingRound [failingURL] [])).map
        ending = some (.idle, 3, 4, true) := by
  constructor <;> decide +kernel

end Controllers

end Health

end StickyProxy
