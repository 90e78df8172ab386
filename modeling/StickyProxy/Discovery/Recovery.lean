import StickyProxy.Discovery.Model.Draining
import StickyProxy.Discovery.Convergence
import StickyProxy.Drain.Stopping
/-!
# A drain that is cancelled

A pod that was terminating is active again: the reconcile cancels the drain
and adds the backend. Cancelling stops nothing that is under way. The
goroutine may be past its last look at the context, which with
`MemoryStore` it never takes, or it may have issued its `RemoveBackend`
already. What comes of it is settled when `CancelDrain` is over: if no
goroutine may yet remove the backend then, it is active once it was added,
whatever happens after; otherwise there is a way on at whose end the drain
is over and the backend is gone.
-/

namespace StickyProxy

/-- The backend a call is about. -/
def DiscoveryCall.backend : DiscoveryCall → Backend
  | .cancelDrain b | .addBackend b | .startDrain b | .removeBackend b => b

namespace Kubernetes

/-! ## The calls for a backend that is back -/

theorem backend_of_mem_calls {drain : Bool} {c : Backend} {prev : Option EpState} {st : EpState}
    {x : DiscoveryCall} (h : x ∈ calls drain c prev st) : x.backend = c := by
  unfold calls at h
  cases st <;> dsimp only at h <;> repeat' split at h
  all_goals simp_all [DiscoveryCall.backend]
  all_goals grind [DiscoveryCall.backend]

/-- The drain is cancelled right before the backend is added, and no other
call of the reconcile is about it. -/
theorem applyDesiredState_recovered {prev desired : Table Backend EpState}
    {order : List Backend} {b : Backend} (horder : Enumerates order desired.keys.toFinset)
    (hprev : prev.lookup b = some .terminating) (hdesired : desired.lookup b = some .active)
    (gone : List Backend) :
    ∃ pre post, applyDesiredState true prev desired order gone =
        pre ++ .cancelDrain b :: .addBackend b :: post ∧
      (∀ x ∈ pre, x.backend ≠ b) ∧ ∀ x ∈ post, x.backend ≠ b := by
  have hmem : b ∈ order := by rw [mem_order horder, hdesired]; rfl
  obtain ⟨o₁, o₂, rfl⟩ := List.append_of_mem hmem
  obtain ⟨hb₁, hb₂⟩ : b ∉ o₁ ∧ b ∉ o₂ := by
    have hnodup := horder.1
    grind
  let own : Backend → List DiscoveryCall := fun c =>
    (desired.lookup c).elim [] (calls true c (prev.lookup c))
  have hother : ∀ o : List Backend, b ∉ o → ∀ x ∈ o.flatMap own, x.backend ≠ b := by
    intro o hbo x hx hxb
    obtain ⟨c, hc, hx⟩ := List.mem_flatMap.1 hx
    rcases hst : desired.lookup c with - | st <;> simp only [own, hst, Option.elim] at hx
    · cases hx
    · exact hbo (hxb ▸ backend_of_mem_calls hx ▸ hc)
  have hown : own b = [.cancelDrain b, .addBackend b] := by
    simp only [own, hdesired, hprev]
    rfl
  refine ⟨o₁.flatMap own, o₂.flatMap own ++
    (gone.filter fun c => (desired.lookup c).isNone).map .removeBackend, ?_, hother o₁ hb₁, ?_⟩
  · change (o₁ ++ b :: o₂).flatMap own ++ _ = _
    rw [List.flatMap_append, List.flatMap_cons, hown, List.append_assoc, List.append_assoc]
    rfl
  · intro x hx
    rcases List.mem_append.1 hx with hx | hx
    · exact hother o₂ hb₂ x hx
    · obtain ⟨c, hc, rfl⟩ := List.mem_map.1 hx
      intro hcb
      rw [List.mem_filter, show c = b from hcb, hdesired] at hc
      exact Bool.false_ne_true hc.2

theorem drain_reconcile {d d' : Discovery} {order gone : List Backend}
    (h : d.reconcile order gone = some d') : d'.drain = d.drain := by
  unfold Discovery.reconcile at h
  repeat' split at h
  all_goals first
    | cases h; rfl
    | cases h

/-- Nothing is left to reconcile. -/
theorem reconcile_ne_some {d d' : Discovery} {order gone : List Backend} (h : d.desired = []) :
    d.reconcile order gone ≠ some d' := by
  intro hd
  obtain ⟨desired, hdes, -⟩ := reconcile_cases hd
  rw [h] at hdes
  cases hdes

namespace Operator

variable {s s' : Operator} {b : Backend} {a : Action} {d₁ d₂ d₃ : Table Backend EpState}

/-! ## Steps -/

/-- What each step needs and what it leaves. -/
inductive Steps (s : Operator) : Action → Operator → Prop
  | reconcile {order gone : List Backend} {d : Discovery} (hcancelling : s.cancelling = none)
      (hd : s.discovery.reconcile order gone = some d) :
      Steps s (.reconcile order gone) { s with discovery := d }
  | call {x : DiscoveryCall} {rest : List DiscoveryCall} (hcancelling : s.cancelling = none)
      (hcalls : s.discovery.calls = x :: rest) :
      Steps s .call ({ s with discovery := { s.discovery with calls := rest } }.call x)
  | cancel {i : ℕ} (hcancelling : s.cancelling = some i) :
      Steps s .cancel { s with manager := s.manager.cancel i, cancelling := none }
  | turn {i : ℕ} {t : Turn} {d : DrainManager} (hd : s.manager.turn i t = some d) :
      Steps s (.turn i t) { s with manager := d }
  | timeout {i : ℕ} : Steps s (.timeout i) { s with manager := s.manager.cancel i }
  | land {j : ℕ} {d : DrainManager} (hd : s.manager.land j = some d) :
      Steps s (.land j) { s with manager := d }

theorem steps_step (hst : step s a = some s') : Steps s a s' := by
  cases a with
  | reconcile order gone =>
    rcases hc : s.cancelling with - | i <;> simp only [step, hc, reduceCtorEq] at hst
    obtain ⟨d, hd, rfl⟩ := Option.map_eq_some_iff.1 hst
    rw [← hc]
    exact .reconcile hc hd
  | call =>
    rcases hc : s.cancelling with - | i <;> rcases hcalls : s.discovery.calls with - | ⟨x, rest⟩ <;>
      simp only [step, hc, hcalls, reduceCtorEq, Option.some.injEq] at hst
    obtain rfl := hst
    rw [← hc]
    exact .call hc hcalls
  | cancel =>
    obtain ⟨i, hi, rfl⟩ := Option.map_eq_some_iff.1 hst
    exact .cancel hi
  | turn i t =>
    obtain ⟨d, hd, rfl⟩ := Option.map_eq_some_iff.1 hst
    exact .turn hd
  | timeout i =>
    obtain rfl := Option.some.inj hst
    exact .timeout
  | land j =>
    obtain ⟨d, hd, rfl⟩ := Option.map_eq_some_iff.1 hst
    exact .land hd

theorem discovery_call (s : Operator) (x : DiscoveryCall) : (s.call x).discovery = s.discovery := by
  cases x <;> rfl

theorem mem_active_call (s : Operator) (x : DiscoveryCall) :
    b ∈ (s.call x).manager.store.active ↔
      x = .addBackend b ∨ b ∈ s.manager.store.active ∧ x ≠ .removeBackend b := by
  cases x with
  | cancelDrain c => simp [call]
  | startDrain c => simp [call, DrainManager.store_startDrain]
  | addBackend c => simp [call, Store.mem_active_addBackend, eq_comm]
  | removeBackend c => simp [call, Store.mem_active_removeBackend, eq_comm]

/-! ## How far the reconciles are -/

/-- The last reconcile has yet to be through with the `CancelDrain` for the
backend. -/
inductive Ahead (b : Backend) (d₂ d₃ : Table Backend EpState) (s : Operator) : Prop
  /-- It is to come. -/
  | reconciles (hdrain : s.discovery.drain = true)
      (hdesired : (∃ d₁, s.discovery.desired = [d₁, d₂, d₃]) ∨ s.discovery.desired = [d₂, d₃] ∨
        s.discovery.desired = [d₃] ∧ s.discovery.known = d₂)
  /-- It makes its calls. -/
  | calls {pre post : List DiscoveryCall} (hdesired : s.discovery.desired = [])
      (hcalls : s.discovery.calls = pre ++ .cancelDrain b :: .addBackend b :: post)
      (hpre : ∀ x ∈ pre, x.backend ≠ b) (hpost : ∀ x ∈ post, x.backend ≠ b)
  /-- It has read the entry of the backend. -/
  | cancels {i : ℕ} {post : List DiscoveryCall} (hdesired : s.discovery.desired = [])
      (hcancelling : s.cancelling = some i) (hcalls : s.discovery.calls = .addBackend b :: post)
      (hpost : ∀ x ∈ post, x.backend ≠ b)

/-- It is through with it, and adds the backend next. -/
structure Adding (b : Backend) (s : Operator) : Prop where
  desired : s.discovery.desired = []
  cancelling : s.cancelling = none
  calls : ∃ post, s.discovery.calls = .addBackend b :: post ∧ ∀ x ∈ post, x.backend ≠ b

/-- It has added the backend. -/
structure Added (b : Backend) (s : Operator) : Prop where
  desired : s.discovery.desired = []
  calls : ∀ x ∈ s.discovery.calls, x.backend ≠ b

/-- With this step the last reconcile is through with the `CancelDrain` for
the backend: the cancel function is called, or there was no entry. -/
def Cancels (b : Backend) (s : Operator) (a : Action) : Prop :=
  s.discovery.desired = [] ∧
    (a = .cancel ∧ s.discovery.calls.head? = some (.addBackend b) ∧ s.cancelling.isSome ∨
      a = .call ∧ s.discovery.calls.head? = some (.cancelDrain b) ∧
        s.manager.draining.lookup b = none)

theorem Ahead.congr (h : Ahead b d₂ d₃ s) (hd : s'.discovery = s.discovery)
    (hc : s'.cancelling = s.cancelling) : Ahead b d₂ d₃ s' := by
  cases h with
  | reconciles hdrain hdesired => exact .reconciles (hd ▸ hdrain) (hd ▸ hdesired)
  | calls hdesired hcalls hpre hpost => exact .calls (hd ▸ hdesired) (hd ▸ hcalls) hpre hpost
  | cancels hdesired hcancelling hcalls hpost =>
    exact .cancels (hd ▸ hdesired) (hc ▸ hcancelling) (hd ▸ hcalls) hpost

theorem Ahead.not_finished (h : Ahead b d₂ d₃ s) : ¬ s.discovery.Finished := by
  intro hfinished
  have hdes := hfinished.desired
  have hnone := hfinished.calls
  cases h with
  | reconciles _ hdesired => grind
  | calls _ hcalls _ _ => simp [hcalls] at hnone
  | cancels _ _ hcalls _ => simp [hcalls] at hnone

theorem Ahead.reconcile {order gone : List Backend} (h₂ : d₂.lookup b = some .terminating)
    (h₃ : d₃.lookup b = some .active) (h : Ahead b d₂ d₃ s)
    (hd : s.discovery.reconcile order gone = some s'.discovery) : Ahead b d₂ d₃ s' := by
  obtain ⟨desired, hdes, hnone, horder, -, hknown, hcalls⟩ := reconcile_cases hd
  have hdrain' : s'.discovery.drain = s.discovery.drain := drain_reconcile hd
  cases h with
  | reconciles hdrain hdesired =>
    rcases hdesired with ⟨d₁, hs⟩ | hs | ⟨hs, hks⟩ <;> rw [hs] at hdes
    · obtain ⟨-, hrest⟩ := List.cons_eq_cons.1 hdes
      exact .reconciles (hdrain'.trans hdrain) (Or.inr (Or.inl hrest.symm))
    · obtain ⟨rfl, hrest⟩ := List.cons_eq_cons.1 hdes
      exact .reconciles (hdrain'.trans hdrain) (Or.inr (Or.inr ⟨hrest.symm, hknown⟩))
    · obtain ⟨rfl, hrest⟩ := List.cons_eq_cons.1 hdes
      obtain ⟨pre, post, heq, hpre, hpost⟩ :=
        applyDesiredState_recovered horder (hks ▸ h₂) h₃ gone
      rw [hdrain, heq] at hcalls
      exact .calls hrest.symm hcalls hpre hpost
  | calls hdesired _ _ _ | cancels hdesired _ _ _ => exact absurd hd (reconcile_ne_some hdesired)

/-- The calls go on until `CancelDrain` is over. -/
theorem Ahead.step (h₂ : d₂.lookup b = some .terminating) (h₃ : d₃.lookup b = some .active)
    (h : Ahead b d₂ d₃ s) (hst : step s a = some s') :
    Ahead b d₂ d₃ s' ∨ Cancels b s a ∧ Adding b s' := by
  cases steps_step hst with
  | reconcile hcancelling hd => exact Or.inl (h.reconcile h₂ h₃ hd)
  | call hcancelling hnext =>
    rename_i x rest
    cases h with
    | reconciles hdrain hdesired =>
      exact Or.inl (.reconciles ((discovery_call _ x).symm ▸ hdrain)
        ((discovery_call _ x).symm ▸ hdesired))
    | calls hdesired hcalls hpre hpost =>
      rename_i pre post
      rw [hnext] at hcalls
      cases pre with
      | nil =>
        obtain ⟨rfl, rfl⟩ := List.cons_eq_cons.1 hcalls
        rcases hentry : s.manager.draining.lookup b with - | i
        · exact Or.inr ⟨⟨hdesired, Or.inr ⟨rfl, by rw [hnext]; rfl, hentry⟩⟩,
            hdesired, hentry, post, rfl, hpost⟩
        · exact Or.inl (.cancels hdesired hentry rfl hpost)
      | cons y pre =>
        obtain ⟨rfl, rfl⟩ := List.cons_eq_cons.1 hcalls
        have hd := discovery_call { s with discovery := { s.discovery with
          calls := pre ++ .cancelDrain b :: .addBackend b :: post } } x
        refine Or.inl (.calls (hd ▸ hdesired) (congrArg (·.calls) hd) (fun y hy => ?_) hpost)
        exact hpre y (List.mem_cons_of_mem _ hy)
    | cancels _ hsome _ _ =>
      rw [hcancelling] at hsome
      cases hsome
  | cancel hcancelling =>
    cases h with
    | reconciles hdrain hdesired => exact Or.inl (.reconciles hdrain hdesired)
    | calls hdesired hcalls hpre hpost => exact Or.inl (.calls hdesired hcalls hpre hpost)
    | cancels hdesired _ hcalls hpost =>
      exact Or.inr ⟨⟨hdesired, Or.inl ⟨rfl, by rw [hcalls]; rfl, by rw [hcancelling]; rfl⟩⟩,
        hdesired, rfl, _, hcalls, hpost⟩
  | turn _ | timeout | land _ => exact Or.inl (h.congr rfl rfl)

theorem Adding.step (h : Adding b s) (hst : step s a = some s') : Adding b s' ∨ Added b s' := by
  cases steps_step hst with
  | reconcile _ hd => exact absurd hd (reconcile_ne_some h.desired)
  | call hcancelling hcalls =>
    obtain ⟨post, hpost, hothers⟩ := h.calls
    rw [hcalls] at hpost
    obtain ⟨rfl, rfl⟩ := List.cons_eq_cons.1 hpost
    exact Or.inr ⟨h.desired, hothers⟩
  | cancel hcancelling => exact Or.inl ⟨h.desired, rfl, h.calls⟩
  | turn _ | timeout | land _ => exact Or.inl ⟨h.desired, h.cancelling, h.calls⟩

theorem Added.step (h : Added b s) (hst : step s a = some s') : Added b s' := by
  cases steps_step hst with
  | reconcile _ hd => exact absurd hd (reconcile_ne_some h.desired)
  | call hcancelling hcalls =>
    rename_i x rest
    have hothers := h.calls
    rw [hcalls] at hothers
    have hd := discovery_call { s with discovery := { s.discovery with calls := rest } } x
    refine ⟨hd ▸ h.desired, fun y hy => hothers y (List.mem_cons_of_mem _ ?_)⟩
    rwa [hd] at hy
  | cancel _ | turn _ | timeout | land _ => exact ⟨h.desired, h.calls⟩

/-- Calls about other backends leave this one in the active set, and start
no drain of it. -/
theorem call_of_ne {x : DiscoveryCall} (h : s.manager.Harmless b) (hx : x.backend ≠ b) :
    (s.call x).manager.Harmless b ∧
      (b ∈ (s.call x).manager.store.active ↔ b ∈ s.manager.store.active) := by
  have hadd : x ≠ .addBackend b := by rintro rfl; exact hx rfl
  have hremove : x ≠ .removeBackend b := by rintro rfl; exact hx rfl
  refine ⟨?_, (mem_active_call s x).trans (by simp [hadd, hremove])⟩
  cases x with
  | cancelDrain c => exact h
  | startDrain c => exact h.startDrain hx
  | addBackend c => exact h.of_goroutines DrainManager.kind_addBackend rfl rfl
  | removeBackend c => exact h.of_goroutines DrainManager.kind_removeBackend rfl rfl

/-- No drain can take the backend out, and it is about to be added or is
active. -/
structure Safe (b : Backend) (s : Operator) : Prop where
  harmless : s.manager.Harmless b
  active : Adding b s ∨ Added b s ∧ b ∈ s.manager.store.active

theorem Safe.of_manager {d : DrainManager} (h : Safe b s) (hd : d.Harmless b)
    (hactive : b ∈ d.store.active ↔ b ∈ s.manager.store.active) :
    Safe b { s with manager := d } := by
  refine ⟨hd, h.active.imp ?_ ?_⟩
  · exact fun h => ⟨h.desired, h.cancelling, h.calls⟩
  · exact fun ⟨h, hb⟩ => ⟨⟨h.desired, h.calls⟩, hactive.2 hb⟩

theorem Safe.step (h : Safe b s) (hst : step s a = some s') : Safe b s' := by
  have hdesired : s.discovery.desired = [] := h.active.elim (·.desired) (·.1.desired)
  cases steps_step hst with
  | reconcile _ hd => exact absurd hd (reconcile_ne_some hdesired)
  | call hcancelling hcalls =>
    rename_i x rest
    rcases h.active with hadding | ⟨hadded, hb⟩
    · -- It is added.
      obtain ⟨post, hpost, hothers⟩ := hadding.calls
      rw [hcalls] at hpost
      obtain ⟨rfl, rfl⟩ := List.cons_eq_cons.1 hpost
      refine ⟨h.harmless.of_goroutines DrainManager.kind_addBackend rfl rfl,
        Or.inr ⟨⟨hdesired, hothers⟩, (mem_active_call _ _).2 (Or.inl rfl)⟩⟩
    · have hothers := hadded.calls
      rw [hcalls] at hothers
      obtain ⟨hharmless, hactive⟩ := call_of_ne (x := x)
        (s := { s with discovery := { s.discovery with calls := rest } }) h.harmless
        (hothers x List.mem_cons_self)
      exact ⟨hharmless, Or.inr ⟨hadded.step hst, hactive.2 hb⟩⟩
  | cancel hcancelling =>
    refine ⟨h.harmless.cancel _, h.active.imp ?_ ?_⟩
    · exact fun h => ⟨h.desired, rfl, h.calls⟩
    · exact fun ⟨h, hb⟩ => ⟨⟨h.desired, h.calls⟩, DrainManager.store_cancel.symm ▸ hb⟩
  | turn hd => exact h.of_manager (h.harmless.turn hd).1 (h.harmless.turn hd).2
  | timeout => exact h.of_manager (h.harmless.cancel _) (by rw [DrainManager.store_cancel])
  | land hd => exact h.of_manager (h.harmless.land hd).1 (h.harmless.land hd).2

/-! ## What is settled with the cancellation -/

/-- When the cancel function is called no drain can take the backend out any
more: no removal that a goroutine has given up on is under way, and with
its context done, if it was not before, none of its goroutines may yet
remove it. -/
structure Disarms (b : Backend) (s : Operator) : Prop where
  sent : b ∉ s.manager.sent
  goroutines : ∀ (i : ℕ) (g : DrainGoroutine), s.manager.goroutines[i]? = some g → g.backend = b →
    s.manager.mayRemove { g with ctxDone := g.ctxDone || decide (s.cancelling = some i) } = false

/-- The condition is what the cancellation leaves the drains with. -/
theorem harmless_iff_disarms (h : Cancels b s a) (hst : step s a = some s') :
    s'.manager.Harmless b ↔ Disarms b s := by
  obtain ⟨-, ⟨rfl, -, -⟩ | ⟨rfl, hhead, hentry⟩⟩ := h
  · cases steps_step hst with
    | cancel hcancelling =>
      rename_i k
      have hcancelled : ∀ i, decide (s.cancelling = some i) = decide (k = i) := by
        intro i
        simp only [hcancelling, Option.some.injEq]
      constructor
      · intro h
        refine ⟨DrainManager.sent_cancel ▸ h.sent, fun i g hg hgb => ?_⟩
        rw [hcancelled, ← DrainManager.mayRemove_of_kind (DrainManager.kind_cancel (i := k))]
        refine h.goroutines i _ ?_ hgb
        rw [DrainManager.getElem?_cancel, hg]
        rfl
      · intro h
        refine ⟨DrainManager.sent_cancel.symm ▸ h.sent, fun i g hg hgb => ?_⟩
        rw [DrainManager.getElem?_cancel] at hg
        obtain ⟨x, hx, rfl⟩ := Option.map_eq_some_iff.1 hg
        rw [DrainManager.mayRemove_of_kind DrainManager.kind_cancel, ← hcancelled]
        exact h.goroutines i x hx hgb
  · cases steps_step hst with
    | call hcancelling hcalls =>
      rw [hcalls, List.head?_cons, Option.some.injEq] at hhead
      subst hhead
      -- There was no entry, so nothing is cancelled.
      have hkept : ∀ (i : ℕ) (g : DrainGoroutine),
          { g with ctxDone := g.ctxDone || decide (s.cancelling = some i) } = g := by
        intro i g
        simp [hcancelling]
      constructor
      · intro h
        exact ⟨h.sent, fun i g hg hgb => (hkept i g).symm ▸ h.goroutines i g hg hgb⟩
      · intro h
        exact ⟨h.sent, fun i g hg hgb => (hkept i g) ▸ h.goroutines i g hg hgb⟩

/-! ## A way to the removal -/

theorem step_turn {i : ℕ} {t : Turn} {g : DrainGoroutine} {p : DrainPhase × Store}
    (hg : s.manager.goroutines[i]? = some g) (hp : s.manager.phaseStep g t = some p) :
    ∃ d, s.manager.turn i t = some d ∧ step s (.turn i t) = some { s with manager := d } ∧
      d.goroutines = s.manager.goroutines.set i { g with phase := p.1 } := by
  have hturn : (s.manager.turn i t).isSome := by rw [DrainManager.turn, hg]; simp [hp]
  obtain ⟨d, hd⟩ := Option.isSome_iff_exists.1 hturn
  refine ⟨d, hd, by rw [step, hd]; rfl, ?_⟩
  rw [DrainManager.turn, hg, Option.bind_some, hp, Option.map_some, Option.some.injEq] at hd
  rw [← hd]

/-- A goroutine that may remove its backend gets to where it does so next,
if it alone takes steps. -/
theorem exists_removes {i : ℕ} {g : DrainGoroutine} (hg : s.manager.goroutines[i]? = some g)
    (h : s.manager.mayRemove g = true) :
    ∃ as s' g', Run.exec step s as = some s' ∧ s'.discovery = s.discovery ∧
      s'.manager.goroutines[i]? = some g' ∧ g'.backend = g.backend ∧
      s'.manager.removes g' .next = true := by
  let I : Operator → Prop := fun t => t.discovery = s.discovery ∧
    ∃ x, t.manager.goroutines[i]? = some x ∧ x.backend = g.backend ∧ t.manager.mayRemove x = true
  let G : Operator → Prop := fun t =>
    ∃ x, t.manager.goroutines[i]? = some x ∧ t.manager.removes x .next = true
  let μ : Operator → ℕ := fun t =>
    (t.manager.goroutines[i]?).elim 0 fun x => DrainManager.left x.phase
  have hstep : ∀ t, I t → ¬ G t → ∃ a t', step t a = some t' ∧ I t' ∧ μ t' < μ t := by
    rintro t ⟨hd, x, hx, hxb, hmay⟩ hnot
    have hnext : t.manager.removes x .next = false :=
      Bool.not_eq_true _ ▸ fun hnext => hnot ⟨x, hx, hnext⟩
    obtain ⟨turn, p, hp, hlt, hmay'⟩ := DrainManager.exists_phaseStep_mayRemove hmay hnext
    obtain ⟨d, hturn, hst, hgoroutines⟩ := step_turn hx hp
    have hx' : d.goroutines[i]? = some { x with phase := p.1 } := by
      rw [hgoroutines, Pool.getElem?_set_self hx]
    refine ⟨.turn i turn, _, hst, ⟨hd, _, hx', hxb, ?_⟩, ?_⟩
    · rw [DrainManager.mayRemove_of_kind (DrainManager.kind_turn hturn)]
      exact hmay'
    · simp only [μ, hx, hx', Option.elim]
      exact hlt
  obtain ⟨as, s', hrun, ⟨hd, x, hx, hxb, -⟩, y, hy, hnext⟩ :=
    Run.exists_exec_of_descent μ hstep (s := s) ⟨rfl, g, hg, rfl, h⟩
  obtain rfl := Option.some.inj (hx.symm.trans hy)
  exact ⟨as, s', x, hrun, hd, hx, hxb, hnext⟩

theorem keeps_call (s : Operator) (x : DiscoveryCall) :
    DrainManager.Keeps s.manager (s.call x).manager := by
  cases x with
  | cancelDrain c => exact .of_goroutines rfl rfl rfl
  | startDrain c => exact DrainManager.keeps_startDrain c
  | addBackend c => exact .of_goroutines DrainManager.kind_addBackend rfl rfl
  | removeBackend c => exact .of_goroutines DrainManager.kind_removeBackend rfl rfl

/-- The calls that are left are made, with the drains where they are. -/
theorem exists_finished (hdesired : s.discovery.desired = []) :
    ∃ as s', Run.exec step s as = some s' ∧ s'.discovery.Finished ∧
      DrainManager.Keeps s.manager s'.manager := by
  let I : Operator → Prop := fun t =>
    t.discovery.desired = [] ∧ DrainManager.Keeps s.manager t.manager
  -- A call that was made may leave a cancel function to be called.
  let μ : Operator → ℕ := fun t => 2 * t.discovery.calls.length + t.cancelling.elim 0 fun _ => 1
  have hstep : ∀ t, I t → ¬ t.discovery.calls = [] →
      ∃ a t', step t a = some t' ∧ I t' ∧ μ t' < μ t := by
    rintro t ⟨hdes, hkeeps⟩ hcalls
    rcases hc : t.cancelling with - | k
    · obtain ⟨x, rest, hx⟩ := List.exists_cons_of_ne_nil hcalls
      let t' : Operator := { t with discovery := { t.discovery with calls := rest } }
      have hst : step t .call = some (t'.call x) := by
        simp only [step, hc, hx, t']
      refine ⟨.call, t'.call x, hst, ⟨?_, hkeeps.trans (keeps_call t' x)⟩, ?_⟩
      · rw [discovery_call]
        exact hdes
      · have hlength : (t'.call x).discovery.calls.length + 1 = t.discovery.calls.length := by
          rw [discovery_call, hx]
          rfl
        have hone : ((t'.call x).cancelling.elim 0 fun _ => 1) ≤ 1 := by
          cases (t'.call x).cancelling <;> simp
        simp only [μ]
        omega
    · let t' : Operator := { t with manager := t.manager.cancel k, cancelling := none }
      have hst : step t .cancel = some t' := by rw [step, hc]; rfl
      refine ⟨.cancel, t', hst, ⟨hdes, hkeeps.trans (DrainManager.keeps_cancel k)⟩, ?_⟩
      simp only [μ, hc, Option.elim]
      exact Nat.lt_succ_self _
  obtain ⟨as, s', hrun, ⟨hdes, hkeeps⟩, hnone⟩ :=
    Run.exists_exec_of_descent μ hstep (s := s) ⟨hdesired, .of_goroutines rfl rfl rfl⟩
  exact ⟨as, s', hrun, ⟨hdes, hnone⟩, hkeeps⟩

/-- The goroutines get to their ends, which brings no backend back. -/
theorem exists_ended (hb : b ∉ s.manager.store.active) :
    ∃ as s', Run.exec step s as = some s' ∧ s'.discovery = s.discovery ∧
      b ∉ s'.manager.store.active ∧ ∀ g ∈ s'.manager.goroutines, g.phase = .ended := by
  let I : Operator → Prop := fun t =>
    t.discovery = s.discovery ∧ b ∉ t.manager.store.active
  let μ : Operator → ℕ := fun t =>
    (t.manager.goroutines.map fun g => DrainManager.left g.phase).sum
  have hstep : ∀ t, I t → ¬ (∀ g ∈ t.manager.goroutines, g.phase = .ended) →
      ∃ a t', step t a = some t' ∧ I t' ∧ μ t' < μ t := by
    rintro t ⟨hd, hbt⟩ hnot
    obtain ⟨x, hmem, hphase⟩ : ∃ x ∈ t.manager.goroutines, x.phase ≠ .ended := by
      simpa using hnot
    obtain ⟨i, hx⟩ := List.mem_iff_getElem?.1 hmem
    obtain ⟨turn, p, hp, hlt⟩ := DrainManager.exists_phaseStep (d := t.manager) hphase
    obtain ⟨d, hturn, hst, hgoroutines⟩ := step_turn hx hp
    refine ⟨.turn i turn, _, hst, ⟨hd, fun hbd => ?_⟩, ?_⟩
    · exact hbt ((DrainManager.mem_active_turn hturn).1 hbd).1
    · have hsum := Pool.sum_map_set_add (fun g : DrainGoroutine => DrainManager.left g.phase)
        { x with phase := p.1 } hx
      dsimp only at hsum
      simp only [μ, hgoroutines]
      omega
  obtain ⟨as, s', hrun, ⟨hd, hbs⟩, hended⟩ :=
    Run.exists_exec_of_descent μ hstep (s := s) ⟨rfl, hb⟩
  exact ⟨as, s', hrun, hd, hbs, hended⟩

/-- All drains of the backend are over. -/
def DrainsOver (b : Backend) (s : Operator) : Prop :=
  ∀ g ∈ s.manager.goroutines, g.backend = b → g.phase = .ended

/-- What may remove the backend can do so after all calls were made. -/
theorem exists_removed (hdesired : s.discovery.desired = []) (h : ¬ s.manager.Harmless b) :
    ∃ as s', Run.exec step s as = some s' ∧ s'.discovery.Finished ∧
      b ∉ s'.manager.store.active := by
  by_cases hsent : b ∈ s.manager.sent
  · obtain ⟨as, s', hrun, hfinished, hkeeps⟩ := exists_finished hdesired
    obtain ⟨j, hj⟩ := List.mem_iff_getElem?.1 (hkeeps.sent.symm ▸ hsent)
    obtain ⟨d, hd⟩ : ∃ d, s'.manager.land j = some d := ⟨_, by rw [DrainManager.land, hj]; rfl⟩
    refine ⟨as ++ [.land j], { s' with manager := d }, ?_, hfinished, fun hb => ?_⟩
    · exact Run.exec_append_eq_some.2 ⟨s', hrun, by simp [Run.exec, step, hd]⟩
    · exact ((DrainManager.mem_active_land hd).1 hb).2 hj
  · obtain ⟨i, g, hg, hgb, hmay⟩ : ∃ i g, s.manager.goroutines[i]? = some g ∧ g.backend = b ∧
        s.manager.mayRemove g = true := by
      by_contra hnone
      refine h ⟨hsent, fun i g hg hgb => ?_⟩
      exact Bool.not_eq_true _ ▸ fun hmay => hnone ⟨i, g, hg, hgb, hmay⟩
    obtain ⟨as, s₁, g₁, hrun, hd₁, hg₁, hgb₁, hnext⟩ := exists_removes hg hmay
    obtain ⟨bs, s₂, hrun', hfinished, hkeeps⟩ := exists_finished (hd₁ ▸ hdesired)
    obtain ⟨g₂, hg₂, hgb₂, hphase⟩ := hkeeps.goroutines i g₁ hg₁
    have hnext₂ : s₂.manager.removes g₂ .next = true := by
      rw [DrainManager.removes_of_kind hkeeps.kind, DrainManager.removes, hphase]
      exact hnext
    obtain ⟨p, hp⟩ := DrainManager.exists_phaseStep_removes hnext₂
    obtain ⟨d, hd, hst, -⟩ := step_turn hg₂ hp
    refine ⟨as ++ bs ++ [.turn i .next], { s₂ with manager := d }, ?_, hfinished, fun hb => ?_⟩
    · refine Run.exec_append_eq_some.2 ⟨s₂, Run.exec_append_eq_some.2 ⟨s₁, hrun, hrun'⟩, ?_⟩
      exact Run.exec_cons_eq_some.2 ⟨_, hst, rfl⟩
    · have hnot := ((DrainManager.mem_active_turn hd).1 hb).2
      simp [hg₂, hgb₂, hgb₁, hgb, hnext₂] at hnot

/-! ## Runs -/

/-- How far a run that begins with the three reconciles ahead has come. -/
theorem ahead_or_past {s₀ : Operator} {as : List Action}
    (hdesired : s₀.discovery.desired = [d₁, d₂, d₃]) (hdrain : s₀.discovery.drain = true)
    (h₂ : d₂.lookup b = some .terminating) (h₃ : d₃.lookup b = some .active)
    (hrun : Run.exec step s₀ as = some s) : Ahead b d₂ d₃ s ∨ Adding b s ∨ Added b s := by
  have hstart : Ahead b d₂ d₃ s₀ := .reconciles hdrain (Or.inl ⟨d₁, hdesired⟩)
  refine Run.exec_invariant_of_forall (I := fun t => Ahead b d₂ d₃ t ∨ Adding b t ∨ Added b t)
    ?_ (Or.inl hstart) hrun
  rintro t a t' (h | h | h) hst
  · exact (h.step h₂ h₃ hst).imp_right fun h => Or.inl h.2
  · exact Or.inr (h.step hst)
  · exact Or.inr (Or.inr (h.step hst))

/-- The `CancelDrain` is over only once, and the backend is added next. -/
theorem Cancels.adding (h : Cancels b s a) (hst : step s a = some s')
    (hpast : Ahead b d₂ d₃ s ∨ Adding b s ∨ Added b s) : Adding b s' := by
  obtain ⟨hdesired, h⟩ := h
  rcases hpast with (⟨-, hdes⟩ | ⟨-, hcalls, hpre, hpost⟩ | ⟨-, -, hcalls, hpost⟩) |
    hadding | hadded
  · -- Another reconcile is to come.
    rw [hdesired] at hdes
    simp at hdes
  · -- The call is to be made: it is the next, and finds no entry.
    rename_i pre post
    obtain rfl : pre = [] := by
      rcases pre with - | ⟨y, pre⟩
      · rfl
      · have hy : y.backend = b := by
          rw [hcalls, List.cons_append, List.head?_cons, Option.some.injEq,
            Option.some.injEq] at h
          rcases h with ⟨-, rfl, -⟩ | ⟨-, rfl, -⟩ <;> rfl
        exact absurd hy (hpre y List.mem_cons_self)
    rw [List.nil_append] at hcalls
    rcases h with ⟨-, hhead, -⟩ | ⟨rfl, -, hentry⟩
    · simp [hcalls] at hhead
    · cases steps_step hst with
      | call hcancelling hnext =>
        rw [hcalls] at hnext
        obtain ⟨rfl, rfl⟩ := List.cons_eq_cons.1 hnext
        exact ⟨hdesired, hentry, post, rfl, hpost⟩
  · -- It was made, and the cancel function is called.
    rename_i i post
    rcases h with ⟨rfl, -, -⟩ | ⟨-, hhead, -⟩
    · cases steps_step hst with
      | cancel hcancelling => exact ⟨hdesired, rfl, post, hcalls, hpost⟩
    · simp [hcalls] at hhead
  · -- It is over already.
    obtain ⟨post, hpost, -⟩ := hadding.calls
    rcases h with ⟨-, -, hsome⟩ | ⟨-, hhead, -⟩
    · simp [hadding.cancelling] at hsome
    · simp [hpost] at hhead
  · rcases h with ⟨-, hhead, -⟩ | ⟨-, hhead, -⟩
    · exact absurd rfl (hadded.calls _ (List.mem_of_mem_head? hhead))
    · exact absurd rfl (hadded.calls _ (List.mem_of_mem_head? hhead))

/-- In whatever way it goes on, the backend is active once the reconciles
and the drains of it are over. -/
def Recovers (b : Backend) (s : Operator) : Prop :=
  ∀ as s', Run.exec step s as = some s' → s'.discovery.Finished → DrainsOver b s' →
    b ∈ s'.manager.store.active

theorem recovers_of_harmless (h : s.manager.Harmless b) (hadding : Adding b s) : Recovers b s := by
  intro as s' hrun hfinished _
  have hsafe : Safe b s' :=
    Run.exec_invariant_of_forall (fun _ _ _ h hst => Safe.step h hst) ⟨h, Or.inl hadding⟩ hrun
  rcases hsafe.active with hadding | ⟨-, hb⟩
  · obtain ⟨post, hpost, -⟩ := hadding.calls
    rw [hfinished.calls] at hpost
    cases hpost
  · exact hb

theorem harmless_of_recovers (h : Recovers b s) (hadding : Adding b s) : s.manager.Harmless b := by
  by_contra hharm
  obtain ⟨as, s₁, hrun, hfinished, hb⟩ := exists_removed hadding.desired hharm
  obtain ⟨bs, s₂, hrun', hd, hb, hended⟩ := exists_ended hb
  exact hb (h (as ++ bs) s₂ (Run.exec_append_eq_some.2 ⟨s₁, hrun, hrun'⟩) (hd ▸ hfinished)
    fun g hg _ => hended g hg)

/-- **What a cancelled drain can undo.** A pod is desired to be active, then
terminating, then active again, in three reconciles, with any steps of any
drains in between and after, over any store. Every run that gets through
the reconciles gets through the last `CancelDrain` of the pod's backend,
and it is settled there what can come of it: the backend is sure to be
active once its drains are over exactly if none of its removals is under
way and none of its goroutines, with the context done, may yet make one. -/
theorem recovers_iff_disarms {s₀ : Operator} (hdesired : s₀.discovery.desired = [d₁, d₂, d₃])
    (hdrain : s₀.discovery.drain = true) (h₂ : d₂.lookup b = some .terminating)
    (h₃ : d₃.lookup b = some .active) :
    (∀ schedule s, Run.exec step s₀ schedule = some s → s.discovery.Finished →
      ∃ before a after s₁, schedule = before ++ a :: after ∧
        Run.exec step s₀ before = some s₁ ∧ Cancels b s₁ a) ∧
    ∀ before a s₁ s₂, Run.exec step s₀ before = some s₁ → Cancels b s₁ a →
      step s₁ a = some s₂ → (Recovers b s₂ ↔ Disarms b s₁) := by
  constructor
  · intro schedule s hrun hfinished
    have hstart : Ahead b d₂ d₃ s₀ := .reconciles hdrain (Or.inl ⟨d₁, hdesired⟩)
    obtain ⟨before, a, after, s₁, s₂, rfl, hbefore, hahead, hst, hnot, -⟩ :=
      Run.exists_leaving_step hstart (fun h => h.not_finished hfinished) hrun
    have hcancels : Cancels b s₁ a := ((hahead.step h₂ h₃ hst).resolve_left hnot).1
    exact ⟨before, a, after, s₁, rfl, hbefore, hcancels⟩
  · intro before a s₁ s₂ hbefore hcancels hst
    have hadding : Adding b s₂ :=
      hcancels.adding hst (ahead_or_past hdesired hdrain h₂ h₃ hbefore)
    rw [← harmless_iff_disarms hcancels hst]
    exact ⟨fun h => harmless_of_recovers h hadding, fun h => recovers_of_harmless h hadding⟩

/-! ## One pod -/

/-- The discovery in hash mode, over Redis or in memory, before the pod
comes, terminates and comes back. -/
def beforePod (redis : Bool) : Operator :=
  { manager := { routingMode := .hash, redis, store := if redis then .redis .empty else .memory ∅ }
    discovery := { drain := true, desired := [onePod false, onePod true, onePod false] } }

/-- The pod comes, and terminates: its drain is started. -/
def podTerminates : List Action :=
  [.reconcile [podURL] [], .call, .reconcile [podURL] [podURL], .call]

/-- The pod is back, and the entry of its drain is read. -/
def podIsBack : List Action :=
  [.reconcile [podURL] [podURL], .call]

/-- The drain finds no users and comes to its last call. -/
def drainsUsers : List Action :=
  [.turn 0 .next, .turn 0 (.users []), .turn 0 .next]

/-- The pod is back before the drain has issued its last call, and the drain
about to be cancelled. That keeps it from the call with Redis, but not with
`MemoryStore`. -/
theorem exists_beforeLastCall (redis : Bool) :
    ∃ s₁ s₂, Run.exec step (beforePod redis) (podTerminates ++ drainsUsers ++ podIsBack) =
        some s₁ ∧ Cancels podURL s₁ .cancel ∧ step s₁ .cancel = some s₂ ∧
      (Disarms podURL s₁ ↔ redis = true) := by
  obtain ⟨s₁, s₂, hbefore, hcancels, hst, hsent, hctx, hcancelling, hgoroutines⟩ :
      ∃ s₁ s₂, Run.exec step (beforePod redis) (podTerminates ++ drainsUsers ++ podIsBack) =
          some s₁ ∧ Cancels podURL s₁ .cancel ∧ step s₁ .cancel = some s₂ ∧
        s₁.manager.sent = [] ∧ s₁.manager.ignoresCtx = !redis ∧ s₁.cancelling = some 0 ∧
        s₁.manager.goroutines = [{ backend := podURL, phase := .removeBackend }] := by
    cases redis <;> exact ⟨_, _, rfl, ⟨rfl, Or.inl ⟨rfl, rfl, rfl⟩⟩, rfl, rfl, rfl, rfl, rfl⟩
  refine ⟨s₁, s₂, hbefore, hcancels, hst, ?_, ?_⟩
  · intro h
    have hnot := h.goroutines 0 _ (by rw [hgoroutines]; rfl) rfl
    simpa [DrainManager.mayRemove, hctx, hcancelling] using hnot
  · rintro rfl
    refine ⟨by simp [hsent], fun i g hg hgb => ?_⟩
    rw [hgoroutines, List.getElem?_singleton, Option.ite_none_right_eq_some] at hg
    obtain ⟨rfl, hg⟩ := hg
    obtain rfl := Option.some.inj hg
    simp [DrainManager.mayRemove, hctx, hcancelling]

/-- With Redis the backend recovers then, with `MemoryStore` it may not. -/
theorem recovers_beforeLastCall :
    (∃ s₁ s₂, Run.exec step (beforePod true) (podTerminates ++ drainsUsers ++ podIsBack) =
        some s₁ ∧ step s₁ .cancel = some s₂ ∧ Recovers podURL s₂) ∧
      ∃ s₁ s₂, Run.exec step (beforePod false) (podTerminates ++ drainsUsers ++ podIsBack) =
        some s₁ ∧ step s₁ .cancel = some s₂ ∧ ¬ Recovers podURL s₂ := by
  have hterminating : (onePod true).lookup podURL = some .terminating := by decide +kernel
  have hactive : (onePod false).lookup podURL = some .active := by decide +kernel
  constructor
  · obtain ⟨s₁, s₂, hbefore, hcancels, hst, hdisarms⟩ := exists_beforeLastCall true
    have hiff := (recovers_iff_disarms rfl rfl hterminating hactive).2 _ _ s₁ s₂ hbefore hcancels
      hst
    exact ⟨s₁, s₂, hbefore, hst, hiff.2 (hdisarms.2 rfl)⟩
  · obtain ⟨s₁, s₂, hbefore, hcancels, hst, hdisarms⟩ := exists_beforeLastCall false
    have hiff := (recovers_iff_disarms rfl rfl hterminating hactive).2 _ _ s₁ s₂ hbefore hcancels
      hst
    exact ⟨s₁, s₂, hbefore, hst, fun h => Bool.false_ne_true (hdisarms.1 (hiff.1 h))⟩

/-- The drain comes to its last call, which it may have issued by the time
the pod is back, and ends after that. -/
def drainEndsLate (issued : List Action) : List Action :=
  podTerminates ++ drainsUsers ++ issued ++ podIsBack ++
    [.cancel, .call, .turn 0 .next, .turn 0 .next, .turn 0 .next]

/-- The reconciles and calls left, how far the drains are, and whether the
pod's backend is active. -/
def ending (s : Operator) : ℕ × List DiscoveryCall × List DrainPhase × Bool :=
  (s.discovery.desired.length, s.discovery.calls, s.manager.goroutines.map (·.phase),
    decide (podURL ∈ s.manager.store.active))

/-- **The cancelled drain removes the backend that is back.** With
`MemoryStore` it has yet to call `RemoveBackend`, with Redis it has issued
the call before it was cancelled. In the end the drain and the reconciles
are over. -/
theorem cancelledDrain_undoes :
    (Run.exec step (beforePod false) (drainEndsLate [])).map ending =
        some (0, [], [.ended], false) ∧
      (Run.exec step (beforePod true) (drainEndsLate [.turn 0 .next])).map ending =
        some (0, [], [.ended], false) := by
  constructor <;> decide +kernel

end Operator

end Kubernetes

end StickyProxy
