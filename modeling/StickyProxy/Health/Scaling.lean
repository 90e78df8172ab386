import StickyProxy.Health.Model.Scaling
import StickyProxy.Health.Effects
import StickyProxy.Common.Run
/-!
# Scale events that are lost

Between two rounds the rebalancer is at work for the list that was recorded
last, or has been. This is what a round relies on when it does not trigger:
it compares with the list it has recorded, not with the one the rebalancer
was last started for. A trigger that finds a rebalance running is lost, and
so is a change to no healthy backend at all, for which there is no trigger;
the list is recorded all the same.
-/

namespace StickyProxy

namespace Health

open Rebalance

variable {rb : Rebalancer} {computeMoves : ComputeMoves} {s s' : Scaling} {a : ScalingAction}

/-- A step of a round before the last one leaves the record and the trigger
that is due as they are. -/
theorem previousBackends_of_steps {t t' : System} {b : Action} (h : Steps t b t')
    (hb : b ≠ .trigger) :
    t'.checker.previousBackends = t.checker.previousBackends ∧
      ∀ l, t.triggers = some l → t'.triggers = some l := by
  cases h with
  | trigger => exact absurd rfl hb
  | addBackend | removeBackend => exact ⟨rfl, fun l hl => hl⟩
  | probe hmem hrec => exact ⟨by cases hrec <;> rfl, fun l hl => by cases hl⟩
  | _ => exact ⟨rfl, fun l hl => by cases hl⟩

/-- The rebalancer is at work for what was recorded, or for what is about to
be recorded, or has been. -/
structure InStep (s : Scaling) : Prop where
  seen : s.seen = (!s.health.checker.previousBackends.isEmpty)
  settled : s.triggered = false →
    s.running.map Prod.fst = some s.health.checker.previousBackends ∨
      s.running = none ∧ (s.seen → s.executed = some s.health.checker.previousBackends)
  triggered : s.triggered → ∃ l, s.health.triggers = some l ∧ s.running.map Prod.fst = some l

/-- A trigger finds no rebalance running, no round records an empty list
after one that was not, and no rebalance ends between its trigger and the
record. -/
def Scaling.timely (s : Scaling) : ScalingAction → Bool
  | .trigger => s.running.isNone
  | .health .trigger => s.health.phase = .collected [] → s.health.checker.previousBackends = []
  | .finish => !s.triggered
  | _ => true

theorem scalingStep_health {b : Action} (hb : b ≠ .trigger) :
    scalingStep rb computeMoves s (.health b) =
      (step s.health b).map fun health => { s with health } := by
  cases b <;> first | rfl | exact absurd rfl hb

/-- A step of a round before the last one. -/
theorem InStep.health {b : Action} {t : System} (h : InStep s) (hb : b ≠ .trigger)
    (hst : Health.step s.health b = some t) : InStep { s with health := t } := by
  obtain ⟨hprev, htrig⟩ := previousBackends_of_steps (steps_of_step hst) hb
  refine ⟨?_, fun htriggered => ?_, fun htriggered => ?_⟩
  · simp only [hprev]
    exact h.seen
  · simp only [hprev]
    exact h.settled htriggered
  · obtain ⟨l, hl, hrunning⟩ := h.triggered htriggered
    exact ⟨l, htrig l hl, hrunning⟩

/-- The end of a round: the list is recorded. -/
theorem InStep.record {currentHealthy : List Backend} {hc : HealthChecker} {store : Store}
    (h : InStep s) (hs : s.health = ⟨store, hc, .collected currentHealthy⟩)
    (hcalled : s.triggered ∨ s.health.triggers = none)
    (hempty : currentHealthy = [] → hc.previousBackends = []) :
    InStep { s with
      health := ⟨store, { hc with previousBackends := currentHealthy }, .idle⟩
      triggered := false
      seen := s.seen || !currentHealthy.isEmpty } := by
  have hseen := h.seen
  have hsettled := h.settled
  simp only [hs] at hseen hsettled
  by_cases hdue : s.triggered = true
  · -- The rebalance was started for this list.
    obtain ⟨l, hl, hrunning⟩ := h.triggered hdue
    simp only [hs, System.triggers, Option.ite_none_right_eq_some, Option.some.injEq] at hl
    obtain ⟨⟨-, hpos⟩, rfl⟩ := hl
    refine ⟨?_, fun _ => Or.inl hrunning, fun h => by cases h⟩
    have hne : currentHealthy.isEmpty = false := by
      rw [List.isEmpty_eq_false_iff]
      exact List.ne_nil_of_length_pos hpos
    simp [hne]
  · -- The list is the one recorded before.
    have hsame : hc.previousBackends = currentHealthy := by
      have hnone := hcalled.resolve_left hdue
      simp only [hs, System.triggers, ite_eq_right_iff, reduceCtorEq, imp_false, not_and] at hnone
      by_contra hne
      have hnil : currentHealthy = [] := List.eq_nil_of_length_eq_zero (by
        have := hnone hne
        omega)
      exact hne ((hempty hnil).trans hnil.symm)
    rw [hsame] at hseen hsettled
    refine ⟨by simp [hseen], fun _ => ?_, fun h => by cases h⟩
    rw [hseen, Bool.or_self, ← hseen]
    exact hsettled (by simpa using hdue)

theorem InStep.step (h : InStep s) (ha : s.timely a)
    (hst : scalingStep rb computeMoves s a = some s') : InStep s' := by
  cases a with
  | health b =>
    by_cases hb : b = .trigger
    · subst hb
      simp only [scalingStep, Option.ite_none_right_eq_some, Option.map_eq_some_iff] at hst
      obtain ⟨hcalled, t, ht, rfl⟩ := hst
      rcases hs : s.health with ⟨store, hc, _ | backends | ⟨todo, calls⟩ | currentHealthy⟩ <;>
        simp only [hs, Health.step, reduceCtorEq, Option.some.injEq] at ht
      subst ht
      refine h.record hs hcalled fun hnil => ?_
      simpa [Scaling.timely, hs, hnil] using ha
    · rw [scalingStep_health hb, Option.map_eq_some_iff] at hst
      obtain ⟨t, ht, rfl⟩ := hst
      exact h.health hb ht
  | trigger =>
    have hnone : s.running = none := by simpa [Scaling.timely] using ha
    rcases htrig : s.triggered <;> rcases hdue : s.health.triggers with - | l <;>
      simp only [scalingStep, htrig, hdue, hnone, reduceCtorEq, Option.some.injEq] at hst
    subst hst
    exact ⟨h.seen, fun h => (by cases h), fun _ => ⟨l, hdue, rfl⟩⟩
  | rebalance now =>
    rcases hrun : s.running with - | ⟨activeBackends, r⟩ <;>
      simp only [scalingStep, hrun, reduceCtorEq, Option.map_eq_some_iff] at hst
    obtain ⟨t, -, rfl⟩ := hst
    refine ⟨h.seen, fun htriggered => ?_, fun htriggered => ?_⟩
    · rcases h.settled htriggered with hsame | ⟨hnone, -⟩
      · exact Or.inl (by rw [hrun] at hsame; exact hsame)
      · rw [hrun] at hnone
        cases hnone
    · obtain ⟨l, hl, hsame⟩ := h.triggered htriggered
      exact ⟨l, hl, by rw [hrun] at hsame; exact hsame⟩
  | finish =>
    have htriggered : s.triggered = false := by simpa [Scaling.timely] using ha
    rcases hrun : s.running with - | ⟨activeBackends, r⟩
    · simp [scalingStep, hrun] at hst
    · cases r <;> simp only [scalingStep, hrun, reduceCtorEq, Option.some.injEq] at hst
      subst hst
      refine ⟨h.seen, fun _ => Or.inr ⟨rfl, fun _ => ?_⟩, fun h => by rw [htriggered] at h; cases h⟩
      rcases h.settled htriggered with hsame | ⟨hnone, -⟩
      · rw [hrun] at hsame
        exact hsame
      · rw [hrun] at hnone
        cases hnone

theorem inStep_fresh (h : s.Fresh) : InStep s where
  seen := by rw [h.seen, h.health.previousBackends]; rfl
  settled _ := Or.inr ⟨h.running, fun hseen => by rw [h.seen] at hseen; cases hseen⟩
  triggered htriggered := by rw [h.triggered] at htriggered; cases htriggered

/-- **No scale event is lost that finds the rebalancer free.** For any rounds
and any overlap of them with rebalances in which every trigger finds no
rebalance running, the healthy backends do not all go, and no rebalance is
over before the list it was started for is recorded: whenever no rebalance
is running and some round has seen a healthy backend, the last rebalance
was for the list recorded last. -/
theorem executed_eq_previousBackends {s₀ : Scaling} {schedule : List ScalingAction}
    (hfresh : s₀.Fresh)
    (htimely : Run.Meets (scalingStep rb computeMoves) (fun s a => s.timely a) s₀ schedule)
    (hrun : Run.exec (scalingStep rb computeMoves) s₀ schedule = some s)
    (hidle : s.running = none) (hseen : s.seen) :
    s.executed = some s.health.checker.previousBackends := by
  have h : InStep s := Run.exec_invariant (fun _ _ _ h ha hst => InStep.step h ha hst)
    (inStep_fresh hfresh) htimely hrun
  by_cases htriggered : s.triggered = true
  · obtain ⟨l, -, hsome⟩ := h.triggered htriggered
    rw [hidle] at hsome
    cases hsome
  · rcases h.settled (by simpa using htriggered) with hsome | ⟨-, hexecuted⟩
    · rw [hidle] at hsome
      cases hsome
    · exact hexecuted hseen

/-! ## A second backend -/

/-- One backend, nobody assigned, and a checker that has yet to begin. -/
def beforeScaling : Scaling :=
  { health := { store := .redis ⟨∅, ∅, {"b1"}⟩, checker := { rebalanceOnScale := true } }
    frontend := ⟨⟨60, ∅⟩, ∅⟩ }

theorem fresh_beforeScaling : beforeScaling.Fresh := ⟨⟨rfl, rfl, rfl⟩, rfl, rfl, rfl⟩

/-- A round that finds these backends healthy, up to the collection. -/
def healthyRound (backends : List Backend) : List ScalingAction :=
  [.health (.activeBackends backends), .health (.merge backends)] ++
    (backends.map fun b => .health (.probe b true)) ++ [.health .getHealthyBackends]

/-- Its end: `Trigger`, and the record. -/
def triggersAndRecords : List ScalingAction := [.trigger, .health .trigger]

/-- The first round, and the rebalance it starts. -/
def firstRound : List ScalingAction := healthyRound ["b1"] ++ triggersAndRecords

/-- A second backend comes, and the next round finds it. -/
def secondRound : List ScalingAction :=
  .health (.addBackend "b2") :: healthyRound ["b2", "b1"] ++ triggersAndRecords

/-- The rebalance has nobody to move. -/
def rebalanceEnds : List ScalingAction := [.rebalance 10, .finish]

theorem executed_eq_previousBackends_inTurn :
    ∃ s, Run.exec (scalingStep ⟨false, false, false, false, false⟩ fun _ _ => []) beforeScaling
        (firstRound ++ rebalanceEnds ++ secondRound ++ rebalanceEnds) = some s ∧
      s.executed = some s.health.checker.previousBackends := by
  have hend : (Run.exec (scalingStep ⟨false, false, false, false, false⟩ fun _ _ => [])
      beforeScaling (firstRound ++ rebalanceEnds ++ secondRound ++ rebalanceEnds)).map
        (fun s => (s.running.isNone, s.seen)) = some (true, true) := by decide +kernel
  obtain ⟨s, hrun, hend⟩ := Option.map_eq_some_iff.1 hend
  simp only [Prod.mk.injEq, Option.isNone_iff_eq_none] at hend
  exact ⟨s, hrun, executed_eq_previousBackends fresh_beforeScaling (by decide +kernel) hrun
    hend.1 hend.2⟩

/-- **A scale event is lost.** The round that finds the second backend
triggers while the first rebalance is running, and records the list. When
that rebalance is over, the list it was for is not the one recorded, and a
further round sees no change. -/
theorem secondBackend_is_lost :
    (Run.exec (scalingStep ⟨false, false, false, false, false⟩ fun _ _ => []) beforeScaling
      (firstRound ++ secondRound ++ rebalanceEnds ++ healthyRound ["b2", "b1"] ++
        [.health .trigger])).map
        (fun s => (s.running.isNone, s.seen, s.executed, s.health.checker.previousBackends)) =
      some (true, true, some ["b1"], ["b1", "b2"]) := by
  decide +kernel

end Health

end StickyProxy
