import Mathlib.Init
/-!
# Computations that may fail

Rules for chains of computations in `Except`: when a chain succeeds, and when
a failure of one chain carries over to another that has the same shape.
-/

namespace StickyProxy.Fallible

universe u v

variable {E : Type u} {A A' B B' : Type v}

/-- A chain succeeds if its first step does and so does the rest. -/
theorem bind_eq_ok {x : Except E A} {f : A → Except E B} {b : B} :
    (x >>= f) = .ok b ↔ ∃ a, x = .ok a ∧ f a = .ok b := by
  cases x with
  | error e => exact ⟨nofun, fun ⟨_, h, _⟩ => nomatch h⟩
  | ok a => exact ⟨fun h => ⟨a, rfl, h⟩, fun ⟨_, h, hf⟩ => by cases h; exact hf⟩

/-- What a computation returns, if it does, meets `Q`. -/
def Ensures (Q : A → Prop) (x : Except E A) : Prop := ∀ a, x = .ok a → Q a

theorem Ensures.ok {Q : A → Prop} {a : A} (h : Q a) : Ensures Q (.ok a : Except E A) := by
  intro b hb
  cases hb
  exact h

/-- **Step by step**: a chain returns what the rest does after any result of
the first step. -/
theorem Ensures.bind {Q : B → Prop} {x : Except E A} {f : A → Except E B}
    (h : ∀ a, x = .ok a → Ensures Q (f a)) : Ensures Q (x >>= f) := by
  intro b hb
  obtain ⟨a, ha, hf⟩ := bind_eq_ok.1 hb
  exact h a ha b hf

/-- A failure that meets `P` is one of the other computation too. -/
def Spreads (P : E → Prop) (x : Except E A) (x' : Except E A') : Prop :=
  ∀ e, x = .error e → P e → ∃ e', x' = .error e'

theorem Spreads.of_ok {P : E → Prop} {x' : Except E A'} (a : A) :
    Spreads P (.ok a : Except E A) x' :=
  nofun

/-- **Step by step**: failures of a chain spread if those of the first step do,
and those of the rest after any results of the first step in the two. -/
theorem Spreads.bind {P : E → Prop} {x : Except E A} {x' : Except E A'}
    {f : A → Except E B} {f' : A' → Except E B'} (hx : Spreads P x x')
    (hf : ∀ a a', x = .ok a → x' = .ok a' → Spreads P (f a) (f' a')) :
    Spreads P (x >>= f) (x' >>= f') := by
  intro e he hP
  cases hx' : x' with
  | error e' => exact ⟨e', rfl⟩
  | ok a' =>
    cases hxa : x with
    | error e₀ =>
      rw [hxa] at he
      cases he
      obtain ⟨e', he'⟩ := hx e hxa hP
      rw [hx'] at he'
      cases he'
    | ok a =>
      rw [hxa] at he
      exact hf a a' hxa hx' e he hP

end StickyProxy.Fallible
