import StickyProxy.Breaker.Model.Calls
/-!
# What the breaker counts

The breaker has no transition from half open back to open of its own:
`recordCBFailure` opens it because the count is at the threshold, and it
still is there because nothing but a success resets the count. So the
state and the count say the same: the breaker is closed exactly below the
threshold.
-/

namespace StickyProxy

namespace Breaker

variable {br : Breaker} {n : ℕ} {now : Time}

/-- The breaker has counted `n` failures, and is closed exactly if they are
fewer than the threshold. -/
structure Counted (br : Breaker) (n : ℕ) : Prop where
  threshold : 1 ≤ br.cbThreshold
  failures : br.cbFailures = n
  closed : br.cbState = .closed ↔ br.cbFailures < br.cbThreshold

theorem counted_new {cbThreshold : ℤ} (h : 1 ≤ cbThreshold) (cbCooldown : Time) :
    Counted (.new cbThreshold cbCooldown) 0 := by
  have hlt : (0 : ℤ) < cbThreshold := by omega
  exact ⟨h, rfl, iff_of_true rfl hlt⟩

/-! ## The uses of the breaker -/

theorem isCBOpen_cases (now : Time) (br : Breaker) :
    (br.cbState = .opened ∧ br.cbCooldown ≤ now - br.cbOpenedAt ∧
      br.isCBOpen now = (false, { br with cbState := .halfOpen })) ∨
    (br.cbState = .opened ∧ now - br.cbOpenedAt < br.cbCooldown ∧ br.isCBOpen now = (true, br)) ∨
    (br.cbState ≠ .opened ∧ br.isCBOpen now = (false, br)) := by
  fun_cases isCBOpen now br
  case case1 hopen hover => exact Or.inl ⟨hopen, hover, rfl⟩
  case case2 hopen hover => exact Or.inr (Or.inl ⟨hopen, not_le.1 hover, rfl⟩)
  case case3 hhalf => exact Or.inr (Or.inr ⟨by rw [hhalf]; decide, rfl⟩)
  case case4 hclosed => exact Or.inr (Or.inr ⟨by rw [hclosed]; decide, rfl⟩)

/-- Asking changes nothing but an open breaker to a half open one. -/
theorem Counted.isCBOpen (h : Counted br n) (now : Time) : Counted (br.isCBOpen now).2 n := by
  rcases isCBOpen_cases now br with ⟨hopen, -, heq⟩ | ⟨-, -, heq⟩ | ⟨-, heq⟩
  · rw [heq]
    refine ⟨h.threshold, h.failures, iff_of_false (by simp) ?_⟩
    rw [← h.closed, hopen]
    simp
  · rwa [heq]
  · rwa [heq]

/-- One failure more opens a breaker that is not closed. -/
theorem Counted.opened_of_ne_closed (h : Counted br n) (hne : br.cbState ≠ .closed) (now : Time) :
    br.recordCBFailure now =
      { br with cbFailures := br.cbFailures + 1, cbState := .opened, cbOpenedAt := now } := by
  have hge : br.cbThreshold ≤ br.cbFailures := not_lt.1 (mt h.closed.2 hne)
  have hle : br.cbThreshold ≤ br.cbFailures + 1 := by omega
  rw [recordCBFailure, if_pos hle]

theorem Counted.recordCBFailure (h : Counted br n) (now : Time) :
    Counted (br.recordCBFailure now) (n + 1) := by
  have hcount : br.cbFailures + 1 = ((n + 1 : ℕ) : ℤ) := by
    rw [h.failures]
    push_cast
    rfl
  unfold Breaker.recordCBFailure
  split
  · rename_i hle
    exact ⟨h.threshold, hcount, iff_of_false (by simp) (not_lt.2 hle)⟩
  · rename_i hlt
    have hbelow : br.cbFailures < br.cbThreshold := by omega
    exact ⟨h.threshold, hcount, iff_of_true (h.closed.2 hbelow) (not_le.1 hlt)⟩

theorem Counted.recordCBSuccess (h : Counted br n) : Counted br.recordCBSuccess 0 := by
  have hpos : (0 : ℤ) < br.cbThreshold := by
    have := h.threshold
    omega
  exact ⟨h.threshold, rfl, iff_of_true rfl hpos⟩

/-- **A sequence of uses.** The count is that of the failures since the
last success. -/
theorem Counted.foldl (h : Counted br n) (ops : List Op) :
    Counted (ops.foldl Op.apply br) (failuresSince n ops) := by
  induction ops generalizing br n with
  | nil => exact h
  | cons op ops ih =>
    cases op with
    | isCBOpen now => exact ih (h.isCBOpen now)
    | recordCBFailure now => exact ih (h.recordCBFailure now)
    | recordCBSuccess => exact ih h.recordCBSuccess

theorem cbThreshold_apply (op : Op) (br : Breaker) :
    (op.apply br).cbThreshold = br.cbThreshold := by
  cases op with
  | isCBOpen now =>
    rcases isCBOpen_cases now br with ⟨-, -, heq⟩ | ⟨-, -, heq⟩ | ⟨-, heq⟩ <;>
      simp only [Op.apply, heq]
  | recordCBFailure now =>
    simp only [Op.apply, Breaker.recordCBFailure]
    split <;> rfl
  | recordCBSuccess => rfl

theorem cbThreshold_foldl (ops : List Op) (br : Breaker) :
    (ops.foldl Op.apply br).cbThreshold = br.cbThreshold := by
  induction ops generalizing br with
  | nil => rfl
  | cons op ops ih => exact (ih _).trans (cbThreshold_apply op br)

/-- **The counter invariant.** After any sequence of uses the breaker is
closed exactly if its count is below the threshold. So a failure recorded
while it is half open opens it again and restarts the cooldown, and it is
open or half open exactly if at least as many failures as the threshold
have been recorded since the last success. -/
theorem closed_iff_cbFailures_lt (cbThreshold : ℤ) (cbCooldown : Time) (h : 1 ≤ cbThreshold)
    (ops : List Op) (br : Breaker) (hbr : br = ops.foldl Op.apply (.new cbThreshold cbCooldown)) :
    (br.cbState = .closed ↔ br.cbFailures < br.cbThreshold) ∧
      (br.cbState = .halfOpen → ∀ now, (br.recordCBFailure now).cbState = .opened ∧
        (br.recordCBFailure now).cbOpenedAt = now) ∧
      (br.cbState = .opened ∨ br.cbState = .halfOpen ↔ cbThreshold ≤ failuresSince 0 ops) := by
  have hcounted : Counted br (failuresSince 0 ops) := hbr ▸ (counted_new h cbCooldown).foldl ops
  have hthreshold : br.cbThreshold = cbThreshold := by
    rw [hbr, cbThreshold_foldl]
    rfl
  refine ⟨hcounted.closed, fun hhalf now => ?_, ?_⟩
  · have hne : br.cbState ≠ .closed := by
      rw [hhalf]
      decide
    rw [hcounted.opened_of_ne_closed hne now]
    exact ⟨rfl, rfl⟩
  · have hstate : br.cbState = .opened ∨ br.cbState = .halfOpen ↔ br.cbState ≠ .closed := by
      cases br.cbState <;> decide
    rw [hstate, ne_eq, hcounted.closed, not_lt, hthreshold, hcounted.failures]

/-- Two failures at a threshold of two, a look after the cooldown, and a
third failure. -/
def reopening : List Op :=
  [.recordCBFailure 0, .recordCBFailure 1, .isCBOpen 40, .recordCBFailure 41]

theorem closed_iff_cbFailures_lt_reopening :
    (reopening.foldl Op.apply (.new 2 30)).cbState = .opened ∧ failuresSince 0 reopening = 3 ∧
      ((reopening.foldl Op.apply (.new 2 30)).cbState = .closed ↔
        (reopening.foldl Op.apply (.new 2 30)).cbFailures < 2) :=
  ⟨rfl, rfl, (closed_iff_cbFailures_lt 2 30 (by decide) reopening _ rfl).1⟩

end Breaker

end StickyProxy
