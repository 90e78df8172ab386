import StickyProxy.Discovery.Model.Kubernetes
import StickyProxy.Store.Effects
import StickyProxy.Common.Run
/-!
# Convergence of the Kubernetes discovery

A backend that has no store call left to be issued for it is as the last
one left it, since nobody else writes: it is as the known state asks if it
was not missed, and otherwise than it asks if it was. A reconcile issues a
store call for every backend whose state it changes, except for one that
begins to drain, and for no other, so a call that fails is not issued again
until the state of its backend changes. The active set has converged
exactly if nothing but draining backends was missed.
-/

namespace StickyProxy

namespace DiscoveryCall

/-! ## The effect of a call -/

/-- The backend a store call is about. -/
def writes : DiscoveryCall → Option Backend
  | .addBackend b | .removeBackend b => some b
  | .cancelDrain _ | .startDrain _ => none

theorem writes_eq_some {x : DiscoveryCall} {b : Backend} :
    x.writes = some b ↔ x = .addBackend b ∨ x = .removeBackend b := by
  cases x <;> simp [writes]

/-- A call leaves every other backend as it is. -/
theorem mem_active_run_of_ne {x : DiscoveryCall} {b : Backend} {store : Store} (o : CallOutcome)
    (h : x.writes ≠ some b) : b ∈ (o.run store x).active ↔ b ∈ store.active := by
  unfold CallOutcome.run
  split
  · exact Iff.rfl
  · cases x with
    | addBackend c =>
      have hbc : b ≠ c := fun hbc => h (by rw [hbc]; rfl)
      simp [run, Store.mem_active_addBackend, hbc]
    | removeBackend c =>
      have hbc : b ≠ c := fun hbc => h (by rw [hbc]; rfl)
      simp [run, Store.mem_active_removeBackend, hbc]
    | cancelDrain c | startDrain c => exact Iff.rfl

end DiscoveryCall

namespace Kubernetes

variable {s s' : System} {b c : Backend} {drain : Bool} {prev desired : Table Backend EpState}
  {order gone : List Backend} {ds : List (Table Backend EpState)}

/-! ## The calls of a reconcile -/

theorem mem_order (h : Enumerates order desired.keys.toFinset) :
    b ∈ order ↔ (desired.lookup b).isSome := by
  rw [h.mem, List.mem_toFinset, ← AList.mem_keys, AList.lookup_isSome]

theorem addBackend_mem_calls {p : Option EpState} {st : EpState} :
    .addBackend b ∈ calls drain c p st ↔ c = b ∧ st = .active ∧ p ≠ some .active := by
  rcases p with - | - | - <;> cases drain <;> cases st <;> simp [calls, eq_comm]

theorem removeBackend_mem_calls {p : Option EpState} {st : EpState} :
    .removeBackend b ∈ calls drain c p st ↔
      c = b ∧ st = .terminating ∧ p ≠ some .terminating ∧ drain = false := by
  rcases p with - | - | - <;> cases drain <;> cases st <;> simp [calls, eq_comm]

/-- A call of a reconcile is one for an endpoint it desires, or the removal
of one that has disappeared. -/
theorem mem_applyDesiredState {x : DiscoveryCall} (h : Enumerates order desired.keys.toFinset)
    (hgone : Enumerates gone prev.keys.toFinset) :
    x ∈ applyDesiredState drain prev desired order gone ↔
      (∃ b st, desired.lookup b = some st ∧ x ∈ calls drain b (prev.lookup b) st) ∨
        ∃ b, x = .removeBackend b ∧ desired.lookup b = none ∧ (prev.lookup b).isSome := by
  rw [applyDesiredState, List.mem_append, List.mem_flatMap, List.mem_map]
  refine or_congr (exists_congr fun b => ?_) (exists_congr fun b => ?_)
  · rw [mem_order h]
    cases desired.lookup b <;> simp
  · rw [List.mem_filter, mem_order hgone, Option.isNone_iff_eq_none, eq_comm]
    tauto

/-- A backend is added when it becomes active. -/
theorem addBackend_mem_apply (h : Enumerates order desired.keys.toFinset)
    (hgone : Enumerates gone prev.keys.toFinset) :
    .addBackend b ∈ applyDesiredState drain prev desired order gone ↔
      desired.lookup b = some .active ∧ prev.lookup b ≠ some .active := by
  simp only [mem_applyDesiredState h hgone, addBackend_mem_calls, reduceCtorEq, false_and,
    exists_false, or_false]
  constructor
  · rintro ⟨c, st, hst, rfl, rfl, hprev⟩
    exact ⟨hst, hprev⟩
  · rintro ⟨hst, hprev⟩
    exact ⟨b, .active, hst, rfl, rfl, hprev⟩

/-- A backend is removed when it disappears, and without a drain manager
when it terminates. -/
theorem removeBackend_mem_apply (h : Enumerates order desired.keys.toFinset)
    (hgone : Enumerates gone prev.keys.toFinset) :
    .removeBackend b ∈ applyDesiredState drain prev desired order gone ↔
      (desired.lookup b = some .terminating ∧ prev.lookup b ≠ some .terminating ∧
        drain = false) ∨ desired.lookup b = none ∧ (prev.lookup b).isSome := by
  simp only [mem_applyDesiredState h hgone, removeBackend_mem_calls,
    DiscoveryCall.removeBackend.injEq]
  refine or_congr ⟨?_, ?_⟩ ⟨?_, ?_⟩
  · rintro ⟨c, st, hst, rfl, rfl, hprev⟩
    exact ⟨hst, hprev⟩
  · rintro ⟨hst, hprev⟩
    exact ⟨b, .terminating, hst, rfl, rfl, hprev⟩
  · rintro ⟨c, rfl, hc⟩
    exact hc
  · intro hb
    exact ⟨b, rfl, hb⟩

/-- A reconcile, with what it needs. -/
theorem reconcile_cases {d d' : Discovery} (h : d.reconcile order gone = some d') :
    ∃ desired, d.desired = desired :: d'.desired ∧ d.calls = [] ∧
      Enumerates order desired.keys.toFinset ∧ Enumerates gone d.known.keys.toFinset ∧
      d'.known = desired ∧ d'.calls = applyDesiredState d.drain d.known desired order gone := by
  rcases hdes : d.desired with - | ⟨desired, rest⟩ <;>
    rcases hcalls : d.calls with - | ⟨x, xs⟩ <;>
    simp only [Discovery.reconcile, hdes, hcalls, reduceCtorEq, Option.ite_none_right_eq_some,
      Option.some.injEq] at h
  obtain ⟨⟨horder, hgone⟩, rfl⟩ := h
  exact ⟨desired, rfl, rfl, horder, hgone, rfl, rfl⟩

/-! ## The record -/

theorem mem_record_of_ne {x : DiscoveryCall} {store : Store} {missed : Finset Backend}
    (h : x.writes ≠ some b) : b ∈ record store missed x ↔ b ∈ missed := by
  cases x with
  | addBackend c | removeBackend c =>
    have hbc : b ≠ c := fun hbc => h (by rw [hbc]; rfl)
    simp only [record]
    split <;> simp [hbc]
  | cancelDrain c | startDrain c => exact Iff.rfl

theorem mem_record_addBackend {store : Store} {missed : Finset Backend} :
    b ∈ record store missed (.addBackend b) ↔ b ∉ store.active := by
  simp only [record]
  split <;> simp_all

theorem mem_record_removeBackend {store : Store} {missed : Finset Backend} :
    b ∈ record store missed (.removeBackend b) ↔ b ∈ store.active := by
  simp only [record]
  split <;> simp_all

/-! ## Runs -/

/-- The backend was in one of the desired states so far. -/
def Seen (done : List (Table Backend EpState)) (b : Backend) : Prop :=
  ∃ d ∈ done, (d.lookup b).isSome

/-- Where the reconciles are: `done` are the desired states they have gone
through. -/
structure Tracks (done : List (Table Backend EpState)) (s : System) : Prop where
  known : s.discovery.known = done.getLast?.getD ∅
  /-- A call that is left asks for what is known. -/
  add : ∀ b, .addBackend b ∈ s.discovery.calls → s.discovery.known.lookup b = some .active
  remove : ∀ b, .removeBackend b ∈ s.discovery.calls →
    s.discovery.known.lookup b ≠ some .active ∧ Seen done b
  /-- Without one the backend is as it was left. -/
  active : ∀ b, (∀ x ∈ s.discovery.calls, x.writes ≠ some b) →
    s.discovery.known.lookup b = some .active → (b ∈ s.missed ↔ b ∉ s.store.active)
  gone : ∀ b, (∀ x ∈ s.discovery.calls, x.writes ≠ some b) →
    s.discovery.known.lookup b = none → Seen done b → (b ∈ s.missed ↔ b ∈ s.store.active)
  missed : ∀ b ∈ s.missed, Seen done b

/-- What is known was seen. -/
theorem Tracks.seen {done : List (Table Backend EpState)} (h : Tracks done s)
    (hb : (s.discovery.known.lookup b).isSome) : Seen done b := by
  rw [h.known] at hb
  rcases hlast : done.getLast? with - | d
  · rw [hlast] at hb
    cases hb
  · rw [hlast] at hb
    exact ⟨d, List.mem_of_getLast? hlast, hb⟩

theorem tracks_fresh (h : s.Fresh ds) : Tracks [] s where
  known := h.known
  add b hb := by rw [h.calls] at hb; cases hb
  remove b hb := by rw [h.calls] at hb; cases hb
  active b _ hb := by rw [h.known] at hb; cases hb
  gone b _ _ hb := by obtain ⟨d, hd, -⟩ := hb; cases hd
  missed b hb := by rw [h.missed] at hb; cases hb

theorem seen_append {done : List (Table Backend EpState)} :
    Seen (done ++ [desired]) b ↔ Seen done b ∨ (desired.lookup b).isSome := by
  simp [Seen, or_and_right, exists_or]

/-- The next reconcile: a backend it issues no store call for is asked to be
as it was asked before. -/
theorem Tracks.reconcile {done : List (Table Backend EpState)} {d : Discovery} (h : Tracks done s)
    (hst : s.discovery.reconcile order gone = some d) :
    ∃ desired, s.discovery.desired = desired :: d.desired ∧
      Tracks (done ++ [desired]) { s with discovery := d } := by
  obtain ⟨desired, hdes, hcalls, horder, hgone, hknown, hnew⟩ := reconcile_cases hst
  have hquiet : ∀ b, ∀ x ∈ s.discovery.calls, x.writes ≠ some b := by simp [hcalls]
  refine ⟨desired, hdes, ?_, ?_, ?_, ?_, ?_, ?_⟩ <;> simp only [hknown, hnew]
  · rw [List.getLast?_concat]
    rfl
  · intro b hb
    exact ((addBackend_mem_apply horder hgone).1 hb).1
  · intro b hb
    rcases (removeBackend_mem_apply horder hgone).1 hb with ⟨hterm, -⟩ | ⟨hnone, hprev⟩
    · exact ⟨by rw [hterm]; simp, seen_append.2 (Or.inr (by rw [hterm]; rfl))⟩
    · exact ⟨by rw [hnone]; simp, seen_append.2 (Or.inl (h.seen hprev))⟩
  · intro b hb hact
    have hprev : s.discovery.known.lookup b = some .active := by
      by_contra hprev
      exact hb _ ((addBackend_mem_apply horder hgone).2 ⟨hact, hprev⟩) rfl
    exact h.active b (hquiet b) hprev
  · intro b hb hnone hseen
    have hprev : s.discovery.known.lookup b = none := by
      by_contra hprev
      exact hb _ ((removeBackend_mem_apply horder hgone).2
        (Or.inr ⟨hnone, Option.isSome_iff_ne_none.2 hprev⟩)) rfl
    have hseen : Seen done b := (seen_append.1 hseen).resolve_right (by simp [hnone])
    exact h.gone b (hquiet b) hprev hseen
  · intro b hb
    exact seen_append.2 (Or.inl (h.missed b hb))

/-- The next call: its backend is as it asks, or missed. -/
theorem Tracks.call {done : List (Table Backend EpState)} {x : DiscoveryCall}
    {rest : List DiscoveryCall} (h : Tracks done s) (hcalls : s.discovery.calls = x :: rest)
    {store : Store}
    (hstore : ∀ b, x.writes ≠ some b → (b ∈ store.active ↔ b ∈ s.store.active)) :
    Tracks done { store, discovery := { s.discovery with calls := rest },
                  missed := record store s.missed x } where
  known := h.known
  add b hb := h.add b (hcalls ▸ List.mem_cons_of_mem _ hb)
  remove b hb := h.remove b (hcalls ▸ List.mem_cons_of_mem _ hb)
  active b hb hact := by
    by_cases hx : x.writes = some b
    · rcases DiscoveryCall.writes_eq_some.1 hx with rfl | rfl
      · exact mem_record_addBackend
      · exact absurd hact (h.remove b (hcalls ▸ List.mem_cons_self)).1
    · rw [hstore b hx, mem_record_of_ne hx]
      exact h.active b (hcalls ▸ List.forall_mem_cons.2 ⟨hx, hb⟩) hact
  gone b hb hnone hseen := by
    by_cases hx : x.writes = some b
    · rcases DiscoveryCall.writes_eq_some.1 hx with rfl | rfl
      · have hact := h.add b (hcalls ▸ List.mem_cons_self)
        exact absurd (hact.symm.trans hnone) (by simp)
      · exact mem_record_removeBackend
    · rw [hstore b hx, mem_record_of_ne hx]
      exact h.gone b (hcalls ▸ List.forall_mem_cons.2 ⟨hx, hb⟩) hnone hseen
  missed b hb := by
    by_cases hx : x.writes = some b
    · rcases DiscoveryCall.writes_eq_some.1 hx with rfl | rfl
      · exact h.seen (by rw [h.add b (hcalls ▸ List.mem_cons_self)]; rfl)
      · exact (h.remove b (hcalls ▸ List.mem_cons_self)).2
    · exact h.missed b ((mem_record_of_ne hx).1 hb)

/-- The reconciles have gone through the first of the desired states. -/
def Reaches (ds : List (Table Backend EpState)) (s : System) : Prop :=
  ∃ done, ds = done ++ s.discovery.desired ∧ Tracks done s

theorem Reaches.step {a : Action} (h : Reaches ds s) (hst : step s a = some s') :
    Reaches ds s' := by
  obtain ⟨done, hds, h⟩ := h
  cases a with
  | reconcile order gone =>
    obtain ⟨d, hd, rfl⟩ := Option.map_eq_some_iff.1 hst
    obtain ⟨desired, hdes, h⟩ := h.reconcile hd
    exact ⟨done ++ [desired], by rw [hds, hdes, List.append_assoc]; rfl, h⟩
  | call outcome =>
    rcases hcalls : s.discovery.calls with - | ⟨x, rest⟩ <;>
      simp only [Kubernetes.step, hcalls, reduceCtorEq, Option.some.injEq] at hst
    subst hst
    exact ⟨done, hds, h.call hcalls fun b hb => DiscoveryCall.mem_active_run_of_ne outcome hb⟩

/-- **When the discovery converges.** After any sequence of reconciles,
whichever of their calls fail, the active set has every backend that is
active in the last desired state, and none that was desired before and is
not any more, exactly if the backends that are otherwise than the last
store call issued for them asks are all terminating in it. -/
theorem converged_iff_missed_terminating {schedule : List Action} {last : Table Backend EpState}
    {s₀ : System} (hfresh : s₀.Fresh ds) (hlast : ds.getLast? = some last)
    (hrun : Run.exec step s₀ schedule = some s) (hfinished : s.discovery.Finished) :
    Converged ds s ↔ ∀ b ∈ s.missed, last.lookup b = some .terminating := by
  obtain ⟨done, hds, h⟩ : Reaches ds s :=
    Run.exec_invariant_of_forall (fun _ _ _ h hst => Reaches.step h hst)
      ⟨[], hfresh.desired.symm, tracks_fresh hfresh⟩ hrun
  rw [hfinished.desired, List.append_nil] at hds
  subst hds
  have hknown : s.discovery.known = last := by rw [h.known, hlast]; rfl
  have hquiet : ∀ b, ∀ x ∈ s.discovery.calls, x.writes ≠ some b := by simp [hfinished.calls]
  constructor
  · intro hconv b hb
    rcases hst : last.lookup b with - | - | -
    · have hactive : b ∈ s.store.active := (h.gone b (hquiet b) (hknown ▸ hst) (h.missed b hb)).1 hb
      exact absurd hactive (hconv.gone last b hlast hst (h.missed b hb))
    · exact absurd (hconv.active last b hlast hst) ((h.active b (hquiet b) (hknown ▸ hst)).1 hb)
    · rfl
  · intro hmissed
    have hnot : ∀ b, last.lookup b ≠ some .terminating → b ∉ s.missed :=
      fun b hb hmem => hb (hmissed b hmem)
    constructor
    · intro last' b hlast' hst
      obtain rfl := Option.some.inj (hlast.symm.trans hlast')
      by_contra hb
      exact hnot b (by simp [hst]) ((h.active b (hquiet b) (hknown ▸ hst)).2 hb)
    · intro last' b hlast' hst hseen hb
      obtain rfl := Option.some.inj (hlast.symm.trans hlast')
      exact hnot b (by simp [hst]) ((h.gone b (hquiet b) (hknown ▸ hst) hseen).2 hb)

/-! ## One endpoint -/

/-- A pod behind a service, and what is desired of it. -/
def onePod (terminating : Bool) : Table Backend EpState :=
  buildDesiredState "http"
    [⟨[⟨some "metrics", some 9090⟩, ⟨some "http", some 8080⟩],
      [⟨["10.0.0.1"], some (!terminating), some true, some terminating⟩]⟩]

/-- The discovery, without a drain manager, before these reconciles. -/
def beforeReconciles (ds : List (Table Backend EpState)) : System :=
  { store := .memory ∅, discovery := { drain := false, desired := ds } }

theorem fresh_beforeReconciles (ds : List (Table Backend EpState)) :
    (beforeReconciles ds).Fresh ds := ⟨rfl, rfl, rfl, rfl⟩

/-- The pod's address as a backend. -/
def podURL : Backend := "http://10.0.0.1:8080"

/-- `AddBackend` fails, but then the pod terminates for a while. -/
def addedAtLast : List Action :=
  [.reconcile [podURL] [], .call .failed, .reconcile [podURL] [podURL], .call .ok,
    .reconcile [podURL] [podURL], .call .ok]

theorem converged_addedAtLast :
    ∃ s, Run.exec step (beforeReconciles [onePod false, onePod true, onePod false]) addedAtLast =
      some s ∧ Converged [onePod false, onePod true, onePod false] s := by
  obtain ⟨s, hrun, hdesired, hcalls, hmissed⟩ : ∃ s,
      Run.exec step (beforeReconciles [onePod false, onePod true, onePod false]) addedAtLast =
        some s ∧ s.discovery.desired = [] ∧ s.discovery.calls = [] ∧ s.missed = ∅ :=
    ⟨_, rfl, rfl, rfl, rfl⟩
  refine ⟨s, hrun, (converged_iff_missed_terminating (fresh_beforeReconciles _) rfl hrun
    ⟨hdesired, hcalls⟩).2 fun b hb => ?_⟩
  rw [hmissed] at hb
  cases hb

/-- **A failed `AddBackend` is not repeated.** The pod stays active, so the
second reconcile issues no call at all, and its backend stays out of the
active set. -/
theorem failedAdd_is_not_repeated :
    (Run.exec step (beforeReconciles [onePod false, onePod false])
      [.reconcile [podURL] [], .call .failed, .reconcile [podURL] [podURL]]).map
        (fun s => (s.discovery.desired.length, s.discovery.calls,
          s.discovery.known.lookup podURL, decide (podURL ∈ s.store.active))) =
      some (0, [], some .active, false) := by
  decide +kernel

end Kubernetes

end StickyProxy
