import StickyProxy.Drain.Model.Gauges
import StickyProxy.Common.Pool
import Mathlib.Data.Finset.Card
/-!
# What the drain metrics say

A backend is in the map for as long as there is one drain of it: the call
that has entered it, until that has started the goroutine, and then the
goroutine, until that has taken it out. So no two drains of one backend run
at once. The gauge is behind the map by the calls that are yet to raise it
and ahead of it by the goroutines that are yet to lower it.
-/

namespace StickyProxy

namespace DrainGauge

open Run

variable {s s' : Gauges} {a : Action} {b b' : Backend} {i j : ℕ}

/-- The call has entered the backend and started no goroutine for it yet. -/
def Call.owns (b : Backend) : Call → Bool
  | .incDrains b' | .spawn b' => b' = b
  | .enter _ | .incDrainingBackends | .done => false

/-- The call is yet to raise the gauge. -/
def Call.owes : Call → Bool
  | .incDrains _ | .spawn _ | .incDrainingBackends => true
  | .enter _ | .done => false

/-- The call is yet to start the goroutine of a drain it has counted. -/
def Call.spawns : Call → Bool
  | .spawn _ => true
  | _ => false

/-- The goroutine drains the backend. -/
def Goroutine.owns (b : Backend) : Goroutine → Bool
  | .drain b' | .delete b' => b' = b
  | .decDrainingBackends | .done => false

/-- The goroutine is yet to lower the gauge. -/
def Goroutine.owes : Goroutine → Bool
  | .decDrainingBackends => true
  | .drain _ | .delete _ | .done => false

/-- The drains of a backend. -/
def Gauges.owners (s : Gauges) (b : Backend) : ℕ :=
  s.calls.countP (·.owns b) + s.goroutines.countP (·.owns b)

/-- The map, the gauge and the counter agree with the calls and goroutines. -/
structure Balanced (s : Gauges) : Prop where
  owners : ∀ b, s.owners b = if b ∈ s.draining then 1 else 0
  gauge : s.drainingBackends + s.calls.countP (·.owes) =
    s.draining.card + s.goroutines.countP (·.owes)
  drains : s.drainsTotal = s.goroutines.length + s.calls.countP (·.spawns)

theorem balanced_start (backends : List Backend) : Balanced (Gauges.start backends) := by
  have hnone : ∀ (c : Call → Bool), (∀ b, c (.enter b) = false) →
      (backends.map Call.enter).countP c = 0 := by
    intro c hc
    rw [List.countP_map]
    exact List.countP_eq_zero.2 fun b _ => by simp [hc b]
  refine ⟨fun b => ?_, ?_, ?_⟩
  · simp [Gauges.owners, Gauges.start, hnone (Call.owns b) fun _ => rfl]
  · simp [Gauges.start, hnone Call.owes fun _ => rfl]
  · simp [Gauges.start, hnone Call.spawns fun _ => rfl]

/-- A call moves: the books stay balanced when the map, the gauge and the
counter move with what the call stands for. -/
theorem Balanced.call {c c' : Call} {draining : Finset Backend} {drainsTotal : ℕ}
    {drainingBackends : ℤ} (hs : Balanced s) (hc : s.calls[i]? = some c)
    (howns : ∀ b, (if b ∈ draining then 1 else 0) + (if c.owns b then 1 else 0) =
      (if b ∈ s.draining then 1 else 0) + if c'.owns b then 1 else 0)
    (howes : drainingBackends + s.draining.card + (if c'.owes then 1 else 0 : ℕ) =
      s.drainingBackends + draining.card + (if c.owes then 1 else 0 : ℕ))
    (hspawns : drainsTotal + (if c.spawns then 1 else 0) =
      s.drainsTotal + if c'.spawns then 1 else 0) :
    Balanced ⟨draining, drainsTotal, drainingBackends, s.calls.set i c', s.goroutines⟩ := by
  refine ⟨fun b => ?_, ?_, ?_⟩
  · have hold := hs.owners b
    have hset := Pool.countP_set (fun x : Call => x.owns b) c' hc
    have hnew := howns b
    simp only [Gauges.owners] at hold ⊢
    omega
  · have hold := hs.gauge
    have hset := Pool.countP_set (fun x : Call => x.owes) c' hc
    simp only at hset ⊢
    omega
  · have hold := hs.drains
    have hset := Pool.countP_set (fun x : Call => x.spawns) c' hc
    simp only at hset ⊢
    omega

/-- A goroutine moves. -/
theorem Balanced.goroutine {g g' : Goroutine} {draining : Finset Backend} {drainingBackends : ℤ}
    (hs : Balanced s) (hg : s.goroutines[j]? = some g)
    (howns : ∀ b, (if b ∈ draining then 1 else 0) + (if g.owns b then 1 else 0) =
      (if b ∈ s.draining then 1 else 0) + if g'.owns b then 1 else 0)
    (howes : drainingBackends + s.draining.card + (if g.owes then 1 else 0 : ℕ) =
      s.drainingBackends + draining.card + (if g'.owes then 1 else 0 : ℕ)) :
    Balanced ⟨draining, s.drainsTotal, drainingBackends, s.calls, s.goroutines.set j g'⟩ := by
  refine ⟨fun b => ?_, ?_, ?_⟩
  · have hold := hs.owners b
    have hset := Pool.countP_set (fun x : Goroutine => x.owns b) g' hg
    have hnew := howns b
    simp only [Gauges.owners] at hold ⊢
    omega
  · have hold := hs.gauge
    have hset := Pool.countP_set (fun x : Goroutine => x.owes) g' hg
    simp only at hset ⊢
    omega
  · rw [List.length_set]
    exact hs.drains

/-- The goroutine takes over the backend from the call that starts it. -/
theorem Balanced.spawn (hs : Balanced s) (hc : s.calls[i]? = some (.spawn b)) :
    Balanced { s with
      goroutines := s.goroutines ++ [.drain b], calls := s.calls.set i .incDrainingBackends } := by
  refine ⟨fun b' => ?_, ?_, ?_⟩
  · have hold := hs.owners b'
    have hset := Pool.countP_set (fun x : Call => x.owns b') .incDrainingBackends hc
    change _ + (if decide (b = b') = true then 1 else 0) = _ + 0 at hset
    have hnew : [Goroutine.drain b].countP (·.owns b') = if decide (b = b') then 1 else 0 :=
      List.countP_singleton
    unfold Gauges.owners at hold ⊢
    dsimp only
    rw [List.countP_append, hnew]
    omega
  · have hold := hs.gauge
    have hset := Pool.countP_set (fun x : Call => x.owes) .incDrainingBackends hc
    change _ + 1 = _ + 1 at hset
    have hnew : [Goroutine.drain b].countP (·.owes) = 0 := rfl
    dsimp only
    rw [List.countP_append, hnew]
    omega
  · have hold := hs.drains
    have hset := Pool.countP_set (fun x : Call => x.spawns) .incDrainingBackends hc
    change _ + 1 = _ + 0 at hset
    dsimp only
    rw [List.length_append, List.length_singleton]
    omega

/-- **A step of `StartDrain`** keeps the books balanced. -/
theorem Balanced.startDrain {c : Call} (hs : Balanced s) (hc : s.calls[i]? = some c)
    (hst : startDrain i s c = some s') : Balanced s' := by
  cases c with
  | enter b =>
    simp only [DrainGauge.startDrain] at hst
    split at hst
    · obtain rfl := Option.some.inj hst
      exact hs.call hc (fun b' => rfl) rfl rfl
    · rename_i hnew
      obtain rfl := Option.some.inj hst
      refine hs.call hc (fun b' => ?_) ?_ rfl
      · change _ + 0 = _ + if decide (b = b') = true then 1 else 0
        by_cases hb : b = b'
        · subst hb
          simp [hnew]
        · have hb' : b' ≠ b := fun heq => hb heq.symm
          simp [Finset.mem_insert, hb, hb']
      · rw [Finset.card_insert_of_notMem hnew]
        simp only [Call.owes, Bool.false_eq_true, if_false, if_true]
        omega
  | incDrains b =>
    obtain rfl := Option.some.inj hst
    exact hs.call hc (fun b' => rfl) rfl rfl
  | spawn b =>
    obtain rfl := Option.some.inj hst
    exact hs.spawn hc
  | incDrainingBackends =>
    obtain rfl := Option.some.inj hst
    refine hs.call hc (fun b' => rfl) ?_ rfl
    simp only [Call.owes, Bool.false_eq_true, if_false, if_true]
    omega
  | done => cases hst

/-- A goroutine that is to take its backend out of the map finds it there. -/
theorem Balanced.mem_of_owns {g : Goroutine} (hs : Balanced s) (hg : s.goroutines[j]? = some g)
    (hb : g.owns b) : b ∈ s.draining := by
  have hpos : 0 < s.goroutines.countP (·.owns b) :=
    List.countP_pos_iff.2 ⟨g, List.mem_of_getElem? hg, hb⟩
  have howners := hs.owners b
  by_contra hnot
  rw [if_neg hnot, Gauges.owners] at howners
  omega

/-- **A step of a goroutine** keeps the books balanced. -/
theorem Balanced.finishDrain {g : Goroutine} (hs : Balanced s) (hg : s.goroutines[j]? = some g)
    (hst : finishDrain j s g = some s') : Balanced s' := by
  cases g with
  | drain b =>
    obtain rfl := Option.some.inj hst
    exact hs.goroutine hg (fun b' => rfl) rfl
  | delete b =>
    obtain rfl := Option.some.inj hst
    have hmem : b ∈ s.draining := hs.mem_of_owns hg (decide_eq_true rfl)
    refine hs.goroutine hg (fun b' => ?_) ?_
    · change _ + (if decide (b = b') = true then 1 else 0) = _ + 0
      by_cases hb : b = b'
      · subst hb
        simp [hmem]
      · have hb' : b' ≠ b := fun heq => hb heq.symm
        simp [Finset.mem_erase, hb, hb']
    · have hcard := Finset.card_erase_add_one hmem
      simp only [Goroutine.owes, Bool.false_eq_true, if_false, if_true]
      omega
  | decDrainingBackends =>
    obtain rfl := Option.some.inj hst
    refine hs.goroutine hg (fun b' => rfl) ?_
    simp only [Goroutine.owes, Bool.false_eq_true, if_false, if_true]
    omega
  | done => cases hst

theorem Balanced.step (hs : Balanced s) (hst : step s a = some s') : Balanced s' := by
  cases a with
  | call i =>
    obtain ⟨c, hc, hst⟩ := Option.bind_eq_some_iff.1 hst
    exact hs.startDrain hc hst
  | goroutine j =>
    obtain ⟨g, hg, hst⟩ := Option.bind_eq_some_iff.1 hst
    exact hs.finishDrain hg hst

/-- **The drain metrics.** For any calls of `StartDrain` and any interleaving
of their steps with those of the goroutines they start: no two drains of one
backend run at once, and one that runs has its backend in the map; the gauge
and the calls that are yet to raise it come to the backends in the map and
the goroutines that are yet to lower it; and every goroutine was counted. -/
theorem gauge_add_owed (backends : List Backend) (as : List Action) (s : Gauges)
    (hrun : exec step (Gauges.start backends) as = some s) :
    (∀ b, s.goroutines.countP (·.owns b) ≤ if b ∈ s.draining then 1 else 0) ∧
      s.drainingBackends + s.calls.countP (·.owes) =
        s.draining.card + s.goroutines.countP (·.owes) ∧
      s.goroutines.length ≤ s.drainsTotal := by
  have hs : Balanced s :=
    exec_invariant_of_forall (fun _ _ _ hs hst => hs.step hst) (balanced_start backends) hrun
  refine ⟨fun b => ?_, hs.gauge, ?_⟩
  · have howners := hs.owners b
    unfold Gauges.owners at howners
    omega
  · have hdrains := hs.drains
    omega

/-- A drain that is over before its call has raised the gauge: for a moment
the gauge is below zero. -/
theorem gauge_add_owed_overtaken :
    exec step (Gauges.start ["b"])
        [.call 0, .call 0, .call 0, .goroutine 0, .goroutine 0, .goroutine 0] =
      some ⟨∅, 1, -1, [.incDrainingBackends], [.done]⟩ ∧
    (-1 : ℤ) + [Call.incDrainingBackends].countP (·.owes) =
      (∅ : Finset Backend).card + [Goroutine.done].countP (·.owes) :=
  ⟨by decide, (gauge_add_owed ["b"]
    [.call 0, .call 0, .call 0, .goroutine 0, .goroutine 0, .goroutine 0]
    ⟨∅, 1, -1, [.incDrainingBackends], [.done]⟩ (by decide)).2.1⟩

end DrainGauge

end StickyProxy
