import StickyProxy.Common.Run
import Mathlib.Order.Defs.PartialOrder
/-!
# Machines that answer

A machine answers every call it is made, at once, and is in its next state.
Calls carry the time they are made at, and come at nondecreasing times.
What a state says may depend on the time it is asked at, so invariants and
relations are indexed by the time from which on they hold. The main rule is
about calls that change nothing of what is asked: left out of a run, they
leave the answers of the rest as they are.
-/

namespace StickyProxy

namespace Machine

variable {S S' A O T : Type*} {step : S → A → O × S} {step' : S' → A → O × S'}

/-- The state after the calls. -/
def final (step : S → A → O × S) (s : S) (as : List A) : S :=
  as.foldl (fun s a => (step s a).2) s

/-- The calls, each with its answer. -/
def replies (step : S → A → O × S) : S → List A → List (A × O)
  | _, [] => []
  | s, a :: as => (a, (step s a).1) :: replies step (step s a).2 as

/-- Every call meets `ok` in the state it is made in. -/
def Meets (step : S → A → O × S) (ok : S → A → Prop) : S → List A → Prop
  | _, [] => True
  | s, a :: as => ok s a ∧ Meets step ok (step s a).2 as

theorem map_fst_replies (s : S) (as : List A) : (replies step s as).map Prod.fst = as := by
  induction as generalizing s with
  | nil => rfl
  | cons a as ih => exact congrArg (a :: ·) (ih _)

theorem fst_mem_of_mem_replies {s : S} {as : List A} {p : A × O} (h : p ∈ replies step s as) :
    p.1 ∈ as := by
  have hmem := List.mem_map_of_mem (f := Prod.fst) h
  rwa [map_fst_replies] at hmem

/-- What every call preserves, all of them do. -/
theorem final_invariant {I : S → Prop} (hstep : ∀ s a, I s → I (step s a).2) {s : S} (hI : I s)
    (as : List A) : I (final step s as) := by
  induction as generalizing s with
  | nil => exact hI
  | cons a as ih => exact ih (hstep s a hI)

/-! ## Calls in the order of their times -/

section Times

variable [Preorder T] {time : A → T} {t t' : T} {a : A} {as bs : List A}

/-- The times of the calls do not decrease. -/
def InOrder (time : A → T) (as : List A) : Prop := as.Pairwise fun a b => time a ≤ time b

instance [DecidableLE T] (as : List A) : Decidable (InOrder time as) :=
  inferInstanceAs (Decidable (List.Pairwise _ as))

/-- Nor are they before `t`. -/
def From (time : A → T) : T → List A → Prop
  | _, [] => True
  | t, a :: as => t ≤ time a ∧ From time (time a) as

theorem InOrder.from (h : InOrder time as) (ht : ∀ a ∈ as, t ≤ time a) : From time t as := by
  induction as generalizing t with
  | nil => trivial
  | cons a as ih =>
    obtain ⟨ha, has⟩ := List.pairwise_cons.1 h
    exact ⟨ht a List.mem_cons_self, ih has ha⟩

/-- Calls in order are all made from some time on. -/
theorem InOrder.exists_from [Nonempty T] (h : InOrder time as) : ∃ t, From time t as := by
  cases as with
  | nil => exact ⟨Classical.arbitrary T, trivial⟩
  | cons a as =>
    refine ⟨time a, h.from fun b hb => ?_⟩
    rcases List.mem_cons.1 hb with rfl | hb
    · exact le_refl _
    · exact (List.pairwise_cons.1 h).1 b hb

theorem InOrder.filter (h : InOrder time as) (p : A → Bool) : InOrder time (as.filter p) :=
  List.Pairwise.filter p h

theorem From.mono (h : From time t as) (ht : t' ≤ t) : From time t' as := by
  cases as with
  | nil => trivial
  | cons a as => exact ⟨le_trans ht h.1, h.2⟩

theorem From.le (h : From time t as) (ha : a ∈ as) : t ≤ time a := by
  induction as generalizing t with
  | nil => cases ha
  | cons b as ih =>
    rcases List.mem_cons.1 ha with rfl | ha
    · exact h.1
    · exact le_trans h.1 (ih h.2 ha)

/-- **The rule of answers.** Where an invariant says of every call that its
answer is right if and only if it meets a condition, all answers are right if
and only if every call meets it. -/
theorem forall_replies_iff_meets {I : T → S → Prop} {ok : S → A → Prop} (right : A → O → Prop)
    (hstep : ∀ t s a, I t s → t ≤ time a → I (time a) (step s a).2)
    (hiff : ∀ t s a, I t s → t ≤ time a → (right a (step s a).1 ↔ ok s a))
    {s : S} (hI : I t s) (h : From time t as) :
    (∀ p ∈ replies step s as, right p.1 p.2) ↔ Meets step ok s as := by
  induction as generalizing t s with
  | nil => exact iff_of_true (fun p hp => by cases hp) trivial
  | cons a as ih =>
    rw [replies, List.forall_mem_cons, Meets, hiff t s a hI h.1, ih (hstep t s a hI h.1) h.2]

/-- **The rule of silent calls.** Let two machines be related, from a time
on. A call that is kept gets one answer from both and leaves them related,
and a call that is left out leaves the first related to the second as it
is. Then the answers to the calls kept are the answers of the second machine
to those calls alone. -/
theorem replies_filter {R : T → S → S' → Prop} (keep : A → Bool)
    (hkeep : ∀ t s s' a, R t s s' → t ≤ time a → keep a = true →
      (step s a).1 = (step' s' a).1 ∧ R (time a) (step s a).2 (step' s' a).2)
    (hdrop : ∀ t s s' a, R t s s' → t ≤ time a → keep a = false → R (time a) (step s a).2 s')
    {s : S} {s' : S'} (hR : R t s s') (h : From time t as) :
    ((replies step s as).filter fun p => keep p.1) = replies step' s' (as.filter keep) := by
  induction as generalizing t s s' with
  | nil => rfl
  | cons a as ih =>
    rw [replies]
    rcases ha : keep a with - | -
    · simp only [List.filter_cons, ha, Bool.false_eq_true, if_false]
      exact ih (hdrop t s s' a hR h.1 ha) h.2
    · obtain ⟨hanswer, hR'⟩ := hkeep t s s' a hR h.1 ha
      simp only [List.filter_cons, ha, if_true, replies, hanswer]
      rw [ih hR' h.2]

/-- With no call left out: related machines answer alike. -/
theorem replies_eq {R : T → S → S' → Prop}
    (hstep : ∀ t s s' a, R t s s' → t ≤ time a →
      (step s a).1 = (step' s' a).1 ∧ R (time a) (step s a).2 (step' s' a).2)
    {s : S} {s' : S'} (hR : R t s s') (h : From time t as) :
    replies step s as = replies step' s' as := by
  induction as generalizing t s s' with
  | nil => rfl
  | cons a as ih =>
    obtain ⟨hanswer, hR'⟩ := hstep t s s' a hR h.1
    rw [replies, replies, hanswer, ih hR' h.2]

end Times

end Machine

end StickyProxy
