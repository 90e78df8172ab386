import StickyProxy.Common.Run
/-!
# A worker behind a signal

Changes are announced through a channel of one place, and an announcement
that finds it full is dropped. The worker takes the signal, waits for a
while, empties the channel once more and only then looks at what there is.
Dropped announcements are not lost changes: as long as one is outstanding,
the worker still owes a look.
-/

namespace StickyProxy.Signal

/-- What the worker does. -/
inductive Phase where
  | idle
  /-- It has taken the signal and waits. -/
  | woken
  /-- It has emptied the channel and is going to look. -/
  | cleared
  /-- It works on what it has seen. -/
  | working
  | stopped
  deriving DecidableEq, Repr

/-- The announcements still to be made, the channel and the worker. -/
structure State where
  pending : ℕ
  full : Bool
  phase : Phase
  deriving DecidableEq, Repr

inductive Action where
  /-- Changes, each of which is going to be announced. -/
  | change (n : ℕ)
  /-- One of them is, if there is room. -/
  | announce
  | wake
  | clear
  /-- The worker looks at what there is. -/
  | look
  | finish
  | stop
  deriving DecidableEq, Repr

def step (s : State) : Action → Option State
  | .change n => some { s with pending := s.pending + n }
  | .announce => if 0 < s.pending then some ⟨s.pending - 1, true, s.phase⟩ else none
  | .wake => if s.phase = .idle ∧ s.full then some ⟨s.pending, false, .woken⟩ else none
  | .clear => if s.phase = .woken then some ⟨s.pending, false, .cleared⟩ else none
  | .look => if s.phase = .cleared then some { s with phase := .working } else none
  | .finish => if s.phase = .working then some { s with phase := .idle } else none
  | .stop => if s.phase = .idle ∨ s.phase = .woken then some { s with phase := .stopped } else none

/-- Nothing is outstanding and the worker waits for a signal. -/
structure State.AtRest (s : State) : Prop where
  pending : s.pending = 0
  full : s.full = false
  phase : s.phase = .idle

/-- A look is still going to be taken, unless the worker is stopped. -/
def State.Owes (s : State) : Prop :=
  0 < s.pending ∨ s.full = true ∨ s.phase = .woken ∨ s.phase = .cleared ∨ s.phase = .stopped

variable {s s' : State} {a : Action}

theorem State.AtRest.not_owes (h : s.AtRest) : ¬ s.Owes := by
  rintro (hp | hf | hw | hc | hs)
  · rw [h.pending] at hp
    exact Nat.lt_irrefl 0 hp
  · rw [h.full] at hf
    cases hf
  · rw [h.phase] at hw
    cases hw
  · rw [h.phase] at hc
    cases hc
  · rw [h.phase] at hs
    cases hs

theorem owes_change {n : ℕ} (hn : 0 < n) (h : step s (.change n) = some s') : s'.Owes := by
  cases h
  exact Or.inl (Nat.add_pos_right _ hn)

/-- **Only a look pays what is owed.** -/
theorem State.Owes.step (h : s.Owes) (hst : Signal.step s a = some s') (hlook : a ≠ .look) :
    s'.Owes := by
  unfold State.Owes at h ⊢
  cases a with
  | change n =>
    cases hst
    exact h.imp_left fun hp => Nat.add_pos_left hp n
  | announce =>
    simp only [Signal.step, Option.ite_none_right_eq_some, Option.some.injEq] at hst
    obtain ⟨-, rfl⟩ := hst
    exact Or.inr (Or.inl rfl)
  | wake =>
    simp only [Signal.step, Option.ite_none_right_eq_some, Option.some.injEq] at hst
    obtain ⟨-, rfl⟩ := hst
    exact Or.inr (Or.inr (Or.inl rfl))
  | clear =>
    simp only [Signal.step, Option.ite_none_right_eq_some, Option.some.injEq] at hst
    obtain ⟨-, rfl⟩ := hst
    exact Or.inr (Or.inr (Or.inr (Or.inl rfl)))
  | look => exact absurd rfl hlook
  | finish =>
    simp only [Signal.step, Option.ite_none_right_eq_some, Option.some.injEq] at hst
    obtain ⟨hphase, rfl⟩ := hst
    rw [hphase] at h
    simpa using h
  | stop =>
    simp only [Signal.step, Option.ite_none_right_eq_some, Option.some.injEq] at hst
    obtain ⟨-, rfl⟩ := hst
    exact Or.inr (Or.inr (Or.inr (Or.inr rfl)))

end StickyProxy.Signal
