import Mathlib.Data.Option.Basic
import Mathlib.Data.List.Basic
import Mathlib.Algebra.Ring.Nat
/-!
# Runs of a labelled step function

A system is a partial step function on states, labelled by actions that
carry every choice the step leaves open. A schedule is a list of
actions, `exec` the state it leads to when each of its steps is enabled,
and `Meets` a condition on the steps, read in the state each is taken
in. Invariants of whole runs come from one rule, `exec_invariant`: what
every step meeting the condition preserves, every run meeting it
preserves.
-/

namespace StickyProxy

namespace Run

variable {S A : Type*} {step : S → A → Option S} {ok : S → A → Prop}

/-- The state after a schedule, when every step of it is enabled. -/
def exec (step : S → A → Option S) : S → List A → Option S
  | s, [] => some s
  | s, a :: as => (step s a).bind fun s' => exec step s' as

/-- Every step of the schedule meets `ok` in the state it is taken in. -/
def Meets (step : S → A → Option S) (ok : S → A → Prop) : S → List A → Prop
  | _, [] => True
  | s, a :: as => ok s a ∧ ∀ s', step s a = some s' → Meets step ok s' as

@[simp] theorem exec_nil (s : S) : exec step s [] = some s := rfl

/-- A run of one step more is that step and the run after it. -/
theorem exec_cons_eq_some {s s' : S} {a : A} {as : List A} :
    exec step s (a :: as) = some s' ↔ ∃ t, step s a = some t ∧ exec step t as = some s' := by
  simp only [exec, Option.bind_eq_some_iff]

/-- A run in two parts. -/
theorem exec_append_eq_some {s s' : S} {as bs : List A} :
    exec step s (as ++ bs) = some s' ↔
      ∃ t, exec step s as = some t ∧ exec step t bs = some s' := by
  induction as generalizing s with
  | nil => simp
  | cons a as ih =>
    simp only [List.cons_append, exec_cons_eq_some, ih]
    constructor
    · rintro ⟨u, hu, t, ht, hrun⟩
      exact ⟨t, ⟨u, hu, ht⟩, hrun⟩
    · rintro ⟨t, ⟨u, hu, ht⟩, hrun⟩
      exact ⟨u, hu, t, ht, hrun⟩

/-- The condition that asks nothing is met by every schedule. -/
theorem meets_of_forall (h : ∀ s a, ok s a) : ∀ (as : List A) (s : S), Meets step ok s as
  | [], _ => trivial
  | a :: as, s => ⟨h s a, fun s' _ => meets_of_forall h as s'⟩

/-- A condition on the actions alone is met when every action of the
schedule has it. -/
theorem meets_of_forall_mem {as : List A} (h : ∀ a ∈ as, ∀ s, ok s a) (s : S) :
    Meets step ok s as := by
  induction as generalizing s with
  | nil => trivial
  | cons a as ih =>
    exact ⟨h a List.mem_cons_self s,
      fun s' _ => ih (fun b hb => h b (List.mem_cons_of_mem _ hb)) s'⟩

/-- A schedule meets the condition when its first step does, and the rest
does in the state that step leads to. -/
theorem meets_cons {s s' : S} {a : A} {as : List A} (hst : step s a = some s') (hok : ok s a)
    (has : Meets step ok s' as) : Meets step ok s (a :: as) :=
  ⟨hok, fun _ ht => Option.some.inj (hst.symm.trans ht) ▸ has⟩

/-- Two conditions are met together. -/
theorem Meets.and {ok' : S → A → Prop} {as : List A} {s : S} (h : Meets step ok s as)
    (h' : Meets step ok' s as) : Meets step (fun s a => ok s a ∧ ok' s a) s as := by
  induction as generalizing s with
  | nil => trivial
  | cons a as ih => exact ⟨⟨h.1, h'.1⟩, fun t ht => ih (h.2 t ht) (h'.2 t ht)⟩

instance decidableMeets [∀ s a, Decidable (ok s a)] :
    ∀ (s : S) (as : List A), Decidable (Meets step ok s as)
  | _, [] => isTrue trivial
  | s, a :: as =>
    match h : step s a with
    | none => decidable_of_iff (ok s a) (by simp [Meets, h])
    | some s' =>
      have : Decidable (Meets step ok s' as) := decidableMeets s' as
      decidable_of_iff (ok s a ∧ Meets step ok s' as) (by simp [Meets, h])

/-- **The invariant rule.** What every step meeting the condition
preserves, every run meeting it preserves. -/
theorem exec_invariant {I : S → Prop}
    (hstep : ∀ s a s', I s → ok s a → step s a = some s' → I s')
    {as : List A} {s s' : S} (hI : I s) (hok : Meets step ok s as)
    (hrun : exec step s as = some s') : I s' := by
  induction as generalizing s with
  | nil =>
    rw [exec_nil, Option.some.injEq] at hrun
    exact hrun ▸ hI
  | cons a as ih =>
    obtain ⟨t, hst, hrun⟩ := exec_cons_eq_some.1 hrun
    exact ih (hstep s a t hI hok.1 hst) (hok.2 t hst) hrun

/-- **What a run that meets a condition meets besides**: whatever the
condition and an invariant it preserves give of every step. -/
theorem Meets.of_invariant {I : S → Prop} {ok' : S → A → Prop}
    (hstep : ∀ s a s', I s → ok s a → step s a = some s' → I s')
    (hok' : ∀ s a, I s → ok s a → ok' s a)
    {as : List A} {s : S} (hI : I s) (hok : Meets step ok s as) : Meets step ok' s as := by
  induction as generalizing s with
  | nil => trivial
  | cons a as ih =>
    exact ⟨hok' s a hI hok.1, fun t hst => ih (hstep s a t hI hok.1 hst) (hok.2 t hst)⟩

/-- The rule for a condition every step meets. -/
theorem exec_invariant_of_forall {I : S → Prop}
    (hstep : ∀ s a s', I s → step s a = some s' → I s')
    {as : List A} {s s' : S} (hI : I s) (hrun : exec step s as = some s') : I s' := by
  have hok : Meets step (fun _ _ => True) s as := meets_of_forall (fun _ _ => trivial) as s
  exact exec_invariant (fun s a s' h _ => hstep s a s' h) hI hok hrun

/-- **What a spoilt run is left with.** A step that breaks the condition
leads to something no later step undoes, so a run with such a step ends
in it. -/
theorem exec_of_not_meets {I J : S → Prop}
    (hstep : ∀ s a s', I s → ok s a → step s a = some s' → I s')
    (hspoil : ∀ s a s', I s → ¬ ok s a → step s a = some s' → J s')
    (hstay : ∀ s a s', J s → step s a = some s' → J s')
    {as : List A} {s s' : S} (hI : I s) (hok : ¬ Meets step ok s as)
    (hrun : exec step s as = some s') : J s' := by
  induction as generalizing s with
  | nil => exact absurd trivial hok
  | cons a as ih =>
    obtain ⟨t, hst, hrun⟩ := exec_cons_eq_some.1 hrun
    by_cases ha : ok s a
    · exact ih (hstep s a t hI ha hst) (fun has => hok (meets_cons hst ha has)) hrun
    · exact exec_invariant_of_forall hstay (hspoil s a t hI ha hst) hrun

/-- **The descent rule.** Where a step can be taken that makes a measure
fall as long as the goal is not reached, some run reaches it. -/
theorem exists_exec_of_descent {I G : S → Prop} (μ : S → ℕ)
    (hstep : ∀ s, I s → ¬ G s → ∃ a s', step s a = some s' ∧ I s' ∧ μ s' < μ s)
    {s : S} (hI : I s) : ∃ as s', exec step s as = some s' ∧ I s' ∧ G s' := by
  induction hn : μ s using Nat.strong_induction_on generalizing s with
  | _ n ih =>
    by_cases hG : G s
    · exact ⟨[], s, rfl, hI, hG⟩
    · obtain ⟨a, t, hst, hIt, hlt⟩ := hstep s hI hG
      obtain ⟨as, s', hrun, hs'⟩ := ih (μ t) (hn ▸ hlt) hIt rfl
      exact ⟨a :: as, s', exec_cons_eq_some.2 ⟨t, hst, hrun⟩, hs'⟩

/-- **Where a run leaves**: a run that ends outside where it began has a
step that leads out. -/
theorem exists_leaving_step {I : S → Prop} {as : List A} {s s' : S} (hI : I s) (hnot : ¬ I s')
    (hrun : exec step s as = some s') :
    ∃ as₁ a as₂ t t', as = as₁ ++ a :: as₂ ∧ exec step s as₁ = some t ∧ I t ∧
      step t a = some t' ∧ ¬ I t' ∧ exec step t' as₂ = some s' := by
  induction as generalizing s with
  | nil =>
    rw [exec_nil, Option.some.injEq] at hrun
    exact absurd (hrun ▸ hI) hnot
  | cons a as ih =>
    obtain ⟨t, hst, hrun⟩ := exec_cons_eq_some.1 hrun
    by_cases hIt : I t
    · obtain ⟨as₁, a', as₂, u, u', rfl, hrun₁, hu⟩ := ih hIt hrun
      exact ⟨a :: as₁, a', as₂, u, u', rfl, exec_cons_eq_some.2 ⟨t, hst, hrun₁⟩, hu⟩
    · exact ⟨[], a, as, s, t, rfl, rfl, hI, hst, hIt, hrun⟩

/-- **The potential rule.** If every step is paid for by what it takes from a
potential and by what its action brings, a run has no more steps than the
potential it starts with and its actions can pay for. -/
theorem length_add_le_of_potential {φ : S → ℕ} {cost : A → ℕ}
    (hstep : ∀ s a s', step s a = some s' → φ s' + 1 ≤ φ s + cost a)
    {as : List A} {s s' : S} (hrun : exec step s as = some s') :
    as.length + φ s' ≤ φ s + (as.map cost).sum := by
  induction as generalizing s with
  | nil =>
    rw [exec_nil, Option.some.injEq] at hrun
    simp [hrun]
  | cons a as ih =>
    obtain ⟨t, hst, hrun⟩ := exec_cons_eq_some.1 hrun
    have hpaid := hstep s a t hst
    have hrest := ih hrun
    rw [List.length_cons, List.map_cons, List.sum_cons]
    omega

/-- **A condition that says exactly when a step preserves an invariant**
says of a run whether the invariant holds all along. -/
theorem forall_take_iff_meets {I : S → Prop}
    (hstep : ∀ s a s', I s → step s a = some s' → (I s' ↔ ok s a))
    {as : List A} {s s' : S} (hI : I s) (hrun : exec step s as = some s') :
    (∀ n t, exec step s (as.take n) = some t → I t) ↔ Meets step ok s as := by
  induction as generalizing s with
  | nil =>
    refine iff_of_true (fun n t ht => ?_) trivial
    rw [List.take_nil, exec_nil, Option.some.injEq] at ht
    exact ht ▸ hI
  | cons a as ih =>
    obtain ⟨t, hst, hrun⟩ := exec_cons_eq_some.1 hrun
    constructor
    · intro hall
      have hIt : I t := hall 1 t (exec_cons_eq_some.2 ⟨t, hst, rfl⟩)
      refine meets_cons hst ((hstep s a t hI hst).1 hIt) ((ih hIt hrun).1 fun n u hu => ?_)
      exact hall (n + 1) u (exec_cons_eq_some.2 ⟨t, hst, hu⟩)
    · intro hmeets n u hu
      cases n with
      | zero =>
        rw [List.take_zero, exec_nil, Option.some.injEq] at hu
        exact hu ▸ hI
      | succ n =>
        obtain ⟨t', hst', hu⟩ := exec_cons_eq_some.1 hu
        obtain rfl := Option.some.inj (hst.symm.trans hst')
        have hIt : I t := (hstep s a t hI hst).2 hmeets.1
        exact (ih hIt hrun).2 (hmeets.2 t hst) n u hu

end Run

end StickyProxy
