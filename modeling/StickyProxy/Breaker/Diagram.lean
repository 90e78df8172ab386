import StickyProxy.Breaker.Counting
import StickyProxy.Common.Run
/-!
# The states of the breaker

On its diagram the breaker goes from open to half open when the cooldown
is over, and admits one probe there, whose outcome decides. The code
keeps to that while it is used by one call at a time. But a half open
breaker answers everybody alike, so every call that asks before the probe
is back is admitted too; and an outcome is recorded in whatever state it
arrives in, so a call admitted before the breaker opened, or made while it
is open because nothing is cached, closes it without a probe.
-/

namespace StickyProxy

namespace Breaker

namespace Calls

variable {s s' : Calls} {a : Action} {i : ℕ} {k : RoutingKey} {now : Time} {ok : Bool}

/-- **The diagram**, for one step. An open breaker becomes half open and
nothing else, when the cooldown since it opened is over and by a call that
it admits; and while that call is out, everybody else who asks is told
that the breaker is open. -/
structure Follows (s : Calls) (a : Action) (s' : Calls) : Prop where
  leaves : s.breaker.cbState = .opened → s'.breaker.cbState ≠ .opened →
    s'.breaker.cbState = .halfOpen ∧ s.breaker.cbCooldown ≤ s'.now - s.openedAt
  admits : s.breaker.cbState = .opened → s'.breaker.cbState = .halfOpen →
    ∃ i now, a = .check i now ∧ (s.breaker.isCBOpen now).1 = false ∧ s'.probe = some i
  single : s.probe.isSome → ∀ i now, a = .check i now → (s.breaker.isCBOpen now).1 = true

/-- Nobody asks a half open breaker, only the probe records an outcome in
it, and no success is recorded while the breaker is open. -/
def Alone (s : Calls) : Action → Prop
  | .check _ _ => s.breaker.cbState ≠ .halfOpen
  | .record i ok _ => (s.breaker.cbState = .opened → ok = false) ∧
      (s.breaker.cbState = .halfOpen → s.probe = some i)
  | .refresh _ => True

instance (s : Calls) : ∀ a, Decidable (Alone s a)
  | .check _ _ => inferInstanceAs (Decidable (_ ≠ _))
  | .record _ _ _ => inferInstanceAs (Decidable (_ ∧ _))
  | .refresh _ => isTrue trivial

/-! ## What a step does -/

/-- Every step of the calls. -/
inductive Steps (s : Calls) : Action → Calls → Prop
  | check {i : ℕ} {k : RoutingKey} {now : Time} : s.calls[i]? = some (.check k) → s.now ≤ now →
      Steps s (.check i now) (s.check i k now)
  | record {i : ℕ} {k : RoutingKey} {ok : Bool} {now : Time} :
      s.calls[i]? = some (.calling k) → s.now ≤ now →
      Steps s (.record i ok now) (s.record i ok now)
  | refresh (backends : List Backend) : Steps s (.refresh backends)
      { s with breaker := { s.breaker with cachedBackends := backends } }

theorem steps_of_step (h : step s a = some s') : Steps s a s' := by
  revert h
  fun_cases step s a <;> rintro ⟨⟩
  case case1 hcall hnow => exact .check hcall hnow
  case case4 hcall hnow => exact .record hcall hnow
  case case7 => exact .refresh _

/-- What is known of the breaker between steps: what it has counted, that
it counts the cooldown from when it opened or later, and that it is half
open exactly while a probe is out. -/
structure Guarded (s : Calls) : Prop where
  counted : ∃ n, Counted s.breaker n
  clock : s.openedAt ≤ s.now
  opened : s.breaker.cbState = .opened → s.openedAt ≤ s.breaker.cbOpenedAt
  probe : s.probe.isSome ↔ s.breaker.cbState = .halfOpen

theorem guarded_start {cbThreshold : ℤ} (h : 1 ≤ cbThreshold) (cbCooldown now : Time)
    (keys : List RoutingKey) : Guarded (start cbThreshold cbCooldown now keys) where
  counted := ⟨0, counted_new h cbCooldown⟩
  clock := le_rfl
  opened hopen := nomatch hopen
  probe := by simp [start, new]

theorem Guarded.probe_eq_none (h : Guarded s) (hne : s.breaker.cbState ≠ .halfOpen) :
    s.probe = none := by
  rw [← Option.not_isSome_iff_eq_none, h.probe]
  exact hne

/-- A look turns an open breaker half open when the cooldown is over, with
the call that looked as the probe, and otherwise leaves everything as it
was. -/
theorem check_cases (s : Calls) (i : ℕ) (k : RoutingKey) (now : Time) :
    (s.breaker.cbState = .opened ∧ s.breaker.cbCooldown ≤ now - s.breaker.cbOpenedAt ∧
      (s.breaker.isCBOpen now).1 = false ∧
      (s.check i k now).breaker.cbState = .halfOpen ∧ (s.check i k now).probe = some i) ∨
    ((s.check i k now).breaker = s.breaker ∧ (s.check i k now).probe = s.probe) := by
  rcases isCBOpen_cases now s.breaker with ⟨hopen, hover, heq⟩ | ⟨-, -, heq⟩ | ⟨hne, heq⟩
  · exact Or.inl ⟨hopen, hover, by rw [heq], by simp [Calls.check, heq],
      by simp [Calls.check, heq, hopen]⟩
  · exact Or.inr ⟨by simp [Calls.check, heq], by simp [Calls.check, heq]⟩
  · exact Or.inr ⟨by simp [Calls.check, heq], by simp [Calls.check, hne]⟩

theorem Guarded.check (h : Guarded s) (hnow : s.now ≤ now) : Guarded (s.check i k now) := by
  obtain ⟨n, hn⟩ := h.counted
  have hcounted : Counted (s.check i k now).breaker n := hn.isCBOpen now
  have hclock : (s.check i k now).openedAt ≤ (s.check i k now).now := h.clock.trans hnow
  rcases check_cases s i k now with ⟨-, -, -, hhalf, hprobe⟩ | ⟨hbreaker, hprobe⟩
  · refine ⟨⟨n, hcounted⟩, hclock, fun hopen => ?_, ?_⟩
    · rw [hhalf] at hopen
      cases hopen
    · rw [hhalf, hprobe]
      simp
  · refine ⟨⟨n, hcounted⟩, hclock, ?_, ?_⟩
    · rw [hbreaker]
      exact h.opened
    · rw [hbreaker, hprobe]
      exact h.probe

theorem Guarded.follows_check (h : Guarded s) (halone : s.breaker.cbState ≠ .halfOpen) :
    Follows s (.check i now) (s.check i k now) := by
  have hnone : s.probe = none := h.probe_eq_none halone
  have hsingle : s.probe.isSome → ∀ j t, Action.check i now = .check j t →
      (s.breaker.isCBOpen t).1 = true := by
    intro hsome
    rw [hnone] at hsome
    cases hsome
  rcases check_cases s i k now with ⟨hopen, hover, hfalse, hhalf, hprobe⟩ | ⟨hbreaker, -⟩
  · refine ⟨fun _ _ => ⟨hhalf, ?_⟩, fun _ _ => ⟨i, now, rfl, hfalse, hprobe⟩, hsingle⟩
    exact hover.trans (sub_le_sub_left (h.opened hopen) now)
  · refine ⟨fun hopen hne => ?_, fun _ hhalf => ?_, hsingle⟩
    · rw [hbreaker] at hne
      exact absurd hopen hne
    · rw [hbreaker] at hhalf
      exact absurd hhalf halone

/-- An outcome closes the breaker or leaves it closed, or opens it anew;
a breaker that was not closed is opened by a failure. -/
theorem Guarded.record_cases (h : Guarded s) (i : ℕ) (ok : Bool) (now : Time) :
    (∃ n, Counted (s.record i ok now).breaker n) ∧
      ((s.record i ok now).breaker.cbState = .closed ∧
          (ok = false → s.breaker.cbState = .closed) ∨
        (s.record i ok now).breaker.cbState = .opened ∧
          (s.record i ok now).breaker.cbOpenedAt = now) := by
  obtain ⟨n, hn⟩ := h.counted
  cases ok with
  | true => exact ⟨⟨0, hn.recordCBSuccess⟩, Or.inl ⟨rfl, fun h => nomatch h⟩⟩
  | false =>
    have hbreaker : (s.record i false now).breaker = s.breaker.recordCBFailure now := rfl
    rw [hbreaker]
    refine ⟨⟨n + 1, hn.recordCBFailure now⟩, ?_⟩
    unfold recordCBFailure
    split
    · exact Or.inr ⟨rfl, rfl⟩
    · rename_i hlt
      have hclosed : s.breaker.cbState = .closed := hn.closed.2 (by omega)
      exact Or.inl ⟨hclosed, fun _ => hclosed⟩

/-- The probe's is the only outcome recorded while the breaker is half
open, so no probe is out after it. -/
theorem Guarded.record (h : Guarded s) (hnow : s.now ≤ now)
    (hhalf : s.breaker.cbState = .halfOpen → s.probe = some i) :
    Guarded (s.record i ok now) := by
  obtain ⟨hcounted, hcases⟩ := h.record_cases i ok now
  have hprobe : (s.record i ok now).probe = none := by
    by_cases hs : s.breaker.cbState = .halfOpen
    · simp [Calls.record, hhalf hs]
    · simp [Calls.record, h.probe_eq_none hs]
  have hopenedAt : (s.record i ok now).openedAt ≤ now := by
    simp only [Calls.record]
    split
    · exact le_rfl
    · exact h.clock.trans hnow
  refine ⟨hcounted, hopenedAt, fun hopen => ?_, ?_⟩
  · rcases hcases with ⟨hclosed, -⟩ | ⟨-, hat⟩
    · rw [hclosed] at hopen
      cases hopen
    · rw [hat]
      exact hopenedAt
  · rw [hprobe]
    rcases hcases with ⟨hstate, -⟩ | ⟨hstate, -⟩ <;> simp [hstate]

theorem Guarded.follows_record (h : Guarded s)
    (hopen : s.breaker.cbState = .opened → ok = false) :
    Follows s (.record i ok now) (s.record i ok now) := by
  -- In the open state it is a failure, and the breaker stays open.
  have hstays : s.breaker.cbState = .opened → (s.record i ok now).breaker.cbState = .opened := by
    intro hs
    rcases (h.record_cases i ok now).2 with ⟨-, hclosed⟩ | ⟨hstate, -⟩
    · rw [hclosed (hopen hs)] at hs
      cases hs
    · exact hstate
  refine ⟨fun hs hne => absurd (hstays hs) hne, fun hs hhalf => ?_, fun _ _ _ heq => nomatch heq⟩
  rw [hstays hs] at hhalf
  cases hhalf

/-- The cached list plays no part in either. -/
theorem Guarded.refresh (h : Guarded s) (backends : List Backend) :
    Guarded { s with breaker := { s.breaker with cachedBackends := backends } } where
  counted :=
    let ⟨n, hn⟩ := h.counted
    ⟨n, hn.threshold, hn.failures, hn.closed⟩
  clock := h.clock
  opened := h.opened
  probe := h.probe

theorem follows_refresh (s : Calls) (backends : List Backend) :
    Follows s (.refresh backends)
      { s with breaker := { s.breaker with cachedBackends := backends } } where
  leaves hopen hne := absurd hopen hne
  admits hopen hhalf := by
    rw [show s.breaker.cbState = .halfOpen from hhalf] at hopen
    cases hopen
  single _ _ _ heq := nomatch heq

/-! ## Runs -/

theorem Guarded.step (h : Guarded s) (halone : Alone s a) (hst : step s a = some s') :
    Guarded s' ∧ Follows s a s' := by
  cases steps_of_step hst with
  | check _ hnow => exact ⟨h.check hnow, h.follows_check halone⟩
  | record _ hnow => exact ⟨h.record hnow halone.2, h.follows_record halone.1⟩
  | refresh backends => exact ⟨h.refresh backends, follows_refresh s backends⟩

/-- **The breaker follows its diagram when the probe is alone.** For every
threshold and cooldown, and any number of calls at any times: if nobody
asks a half open breaker and nobody but the probe records an outcome in
it, and no success is recorded in the open state, then an open breaker
becomes nothing but half open, not before the cooldown since it opened is
over, and until the probe's outcome is recorded no other call is
admitted. -/
theorem follows_of_alone (cbThreshold : ℤ) (cbCooldown now : Time) (keys : List RoutingKey)
    (schedule : List Action) (h : 1 ≤ cbThreshold)
    (halone : Run.Meets step Alone (start cbThreshold cbCooldown now keys) schedule) :
    Run.Meets step (fun s a => ∀ s', step s a = some s' → Follows s a s')
      (start cbThreshold cbCooldown now keys) schedule :=
  Run.Meets.of_invariant (fun _ _ _ hs ha hst => (hs.step ha hst).1)
    (fun _ _ hs ha _ hst => (hs.step ha hst).2) (guarded_start h cbCooldown now keys) halone

/-- A failure opens the breaker at a threshold of one, and after the
cooldown a call is admitted and closes it. -/
def oneProbe : List Action :=
  [.check 0 0, .record 0 false 0, .check 1 30, .record 1 true 31]

theorem follows_of_alone_oneProbe :
    (Run.exec step (start 1 30 0 ["u", "v"]) oneProbe).map (·.breaker.cbState) = some .closed ∧
      Run.Meets step (fun s a => ∀ s', step s a = some s' → Follows s a s')
        (start 1 30 0 ["u", "v"]) oneProbe :=
  ⟨rfl, follows_of_alone 1 30 0 ["u", "v"] oneProbe (by decide) (by decide)⟩

/-- **Everybody is a probe.** The second call to ask after the cooldown is
admitted while the first is out; and a call that was admitted before the
breaker opened closes it at once, with no probe and no cooldown. -/
theorem halfOpen_admits_two :
    (∃ s s', Run.exec step (start 1 30 0 ["u", "v", "w"])
          [.check 0 0, .record 0 false 0, .check 1 30] = some s ∧
        s.probe = some 1 ∧ (s.breaker.isCBOpen 30).1 = false ∧
        step s (.check 2 30) = some s' ∧ s'.calls[2]? = some (.calling "w") ∧
        ¬ Follows s (.check 2 30) s') ∧
      ∃ s s', Run.exec step (start 1 30 0 ["u", "v"])
          [.check 0 0, .check 1 0, .record 0 false 0] = some s ∧
        s.breaker.cbState = .opened ∧ step s (.record 1 true 1) = some s' ∧
        s'.breaker.cbState = .closed ∧ ¬ Follows s (.record 1 true 1) s' := by
  refine ⟨⟨_, _, rfl, rfl, rfl, rfl, rfl, fun h => ?_⟩, ⟨_, _, rfl, rfl, rfl, rfl, fun h => ?_⟩⟩
  · exact Bool.noConfusion (h.single rfl 2 30 rfl)
  · exact nomatch (h.leaves rfl (by decide)).1

end Calls

end Breaker

end StickyProxy
