import Mathlib.Algebra.BigOperators.Group.List.Basic
import Mathlib.Algebra.Order.Group.Int
import Mathlib.Tactic.Ring
/-!
# A pool of processes

Processes running side by side are a list of their local states, and a
step of one of them sets one place of the list. These are the laws of
that update: what a sum over the pool becomes, who is still in it, and
what the other places hold.
-/

namespace StickyProxy

namespace Pool

variable {P : Type*} {l : List P} {i j : ℕ} {p p' q : P}

/-- A sum over the pool moves by what the process that moved adds. -/
theorem sum_map_set (f : P → ℤ) (h : l[i]? = some p) :
    ((l.set i p').map f).sum = (l.map f).sum - f p + f p' := by
  induction l generalizing i with
  | nil => simp at h
  | cons x l ih =>
    cases i with
    | zero =>
      obtain rfl : x = p := by simpa using h
      simp only [List.set_cons_zero, List.map_cons, List.sum_cons]
      ring
    | succ i =>
      have hi : l[i]? = some p := by simpa using h
      simp only [List.set_cons_succ, List.map_cons, List.sum_cons, ih hi]
      ring

/-- The process that moved is where it was. -/
theorem getElem?_set_self (h : l[i]? = some p) : (l.set i p')[i]? = some p' := by
  have hi : i < l.length := (List.getElem?_eq_some_iff.1 h).1
  rw [List.getElem?_set_self hi]

/-- And every other process is what it was. -/
theorem getElem?_set_ne (h : i ≠ j) : (l.set i p')[j]? = l[j]? := List.getElem?_set_ne h

/-- What is at a place of the new pool is the process that moved or was
there. -/
theorem getElem?_set_cases (hp : l[i]? = some p) (h : (l.set i p')[j]? = some q) :
    (j = i ∧ q = p') ∨ (j ≠ i ∧ l[j]? = some q) := by
  by_cases hji : j = i
  · subst hji
    rw [getElem?_set_self hp] at h
    exact Or.inl ⟨rfl, (Option.some.inj h).symm⟩
  · rw [getElem?_set_ne (Ne.symm hji)] at h
    exact Or.inr ⟨hji, h⟩

/-- What a change made to one process leaves of another. -/
theorem getElem?_modify_cases {f : P → P} (h : (l.modify i f)[j]? = some q) :
    ∃ p, l[j]? = some p ∧ q = if i = j then f p else p := by
  rw [List.getElem?_modify] at h
  rcases hj : l[j]? with - | p
  · rw [hj] at h
    cases h
  · rw [hj] at h
    refine ⟨p, rfl, ?_⟩
    obtain rfl := Option.some.inj h
    split <;> rfl

/-- A process of the new pool is one of the old pool or the one that
moved. -/
theorem mem_or_eq_of_mem_set (h : q ∈ l.set i p') : q ∈ l ∨ q = p' :=
  List.mem_or_eq_of_mem_set h

/-- A process other than the one that moved stays in the pool. -/
theorem mem_set_of_mem_of_ne (hq : q ∈ l) (h : l[i]? = some p) (hne : q ≠ p) :
    q ∈ l.set i p' := by
  obtain ⟨j, hj⟩ := List.mem_iff_getElem?.1 hq
  have hij : i ≠ j := by
    rintro rfl
    rw [h] at hj
    exact hne (Option.some.inj hj).symm
  exact List.mem_iff_getElem?.2 ⟨j, by rw [getElem?_set_ne hij, hj]⟩

/-- The process that moved is in the pool. -/
theorem self_mem_set (h : l[i]? = some p) : p' ∈ l.set i p' :=
  List.mem_iff_getElem?.2 ⟨i, getElem?_set_self h⟩

/-- A process of a pool one of whose processes was modified is what it
was, or modified. -/
theorem exists_of_mem_modify {f : P → P} (h : q ∈ l.modify i f) : ∃ p ∈ l, q = p ∨ q = f p := by
  obtain ⟨j, hj⟩ := List.mem_iff_getElem?.1 h
  rw [List.getElem?_modify] at hj
  obtain ⟨p, hp, rfl⟩ := Option.map_eq_some_iff.1 hj
  refine ⟨p, List.mem_of_getElem? hp, ?_⟩
  split
  · exact Or.inr rfl
  · exact Or.inl rfl

/-- What the process that moved keeps, the pool keeps. -/
theorem map_set_of_eq {B : Type*} (f : P → B) (h : l[i]? = some p) (hp : f p' = f p) :
    (l.set i p').map f = l.map f := by
  obtain ⟨hi, rfl⟩ := List.getElem?_eq_some_iff.1 h
  have hmap : (l.map f)[i]? = some (f l[i]) := by rw [List.getElem?_map, h]; rfl
  obtain ⟨hi', hmap⟩ := List.getElem?_eq_some_iff.1 hmap
  rw [List.map_set, hp, ← hmap, List.set_getElem_self]

/-! ## What is read off the pool

A list put together from a part for each process. -/

variable {B : Type*} {f : P → List B}

/-- It shrinks with the part of the process that moved. -/
theorem flatMap_set_sublist (h : l[i]? = some p) (hp : (f p').Sublist (f p)) :
    ((l.set i p').flatMap f).Sublist (l.flatMap f) := by
  induction l generalizing i with
  | nil => simp at h
  | cons x l ih =>
    cases i with
    | zero =>
      obtain rfl : x = p := by simpa using h
      simp only [List.set_cons_zero, List.flatMap_cons]
      exact hp.append (List.Sublist.refl _)
    | succ i =>
      have hi : l[i]? = some p := by simpa using h
      simp only [List.set_cons_succ, List.flatMap_cons]
      exact (List.Sublist.refl _).append (ih hi)

/-- And grows with it. -/
theorem flatMap_sublist_set (h : l[i]? = some p) (hp : (f p).Sublist (f p')) :
    (l.flatMap f).Sublist ((l.set i p').flatMap f) := by
  have hback := flatMap_set_sublist (getElem?_set_self h) hp
  obtain ⟨hi, rfl⟩ := List.getElem?_eq_some_iff.1 h
  rwa [List.set_set, List.set_getElem_self hi] at hback

/-- A total over the pool changes by what the process that moved contributes. -/
theorem sum_map_set_add {α : Type*} [AddCommMonoid α] (f : P → α) (p' : P) (h : l[i]? = some p) :
    ((l.set i p').map f).sum + f p = (l.map f).sum + f p' := by
  induction l generalizing i with
  | nil => simp at h
  | cons x l ih =>
    cases i with
    | zero =>
      obtain rfl := Option.some.inj h
      rw [List.set_cons_zero, List.map_cons, List.map_cons, List.sum_cons, List.sum_cons,
        add_comm (f p'), add_right_comm, add_comm (l.map f).sum]
    | succ i =>
      have hrest := ih h
      rw [List.set_cons_succ, List.map_cons, List.map_cons, List.sum_cons, List.sum_cons,
        add_assoc, hrest, add_assoc]

/-- What is counted in it moves with the part of the process that moved. -/
theorem countP_flatMap_set (f : P → List B) (c : B → Bool) (p' : P) (h : l[i]? = some p) :
    ((l.set i p').flatMap f).countP c + (f p).countP c =
      (l.flatMap f).countP c + (f p').countP c := by
  induction l generalizing i with
  | nil => simp at h
  | cons x l ih =>
    cases i with
    | zero =>
      obtain rfl : x = p := by simpa using h
      simp only [List.set_cons_zero, List.flatMap_cons, List.countP_append]
      ring
    | succ i =>
      have hi : l[i]? = some p := by simpa using h
      simp only [List.set_cons_succ, List.flatMap_cons, List.countP_append]
      rw [Nat.add_assoc, ih hi, Nat.add_assoc]

/-- What is counted in the pool moves with the process that moved. -/
theorem countP_set (c : P → Bool) (p' : P) (h : l[i]? = some p) :
    (l.set i p').countP c + (if c p then 1 else 0) = l.countP c + (if c p' then 1 else 0) := by
  have hcount := countP_flatMap_set (fun q => [q]) c p' h
  simpa only [List.flatMap_singleton', List.countP_singleton] using hcount

/-! ## Processes that keep apart -/

/-- Any two processes at different places are related. -/
def Apart (R : P → P → Prop) (l : List P) : Prop :=
  ∀ (i j : ℕ) (p q : P), i ≠ j → l[i]? = some p → l[j]? = some q → R p q

theorem mem_eraseIdx : q ∈ l.eraseIdx i ↔ ∃ j ≠ i, l[j]? = some q :=
  List.mem_eraseIdx_iff_getElem?

/-- A process of the new pool is the one that moved or one of the
others. -/
theorem eq_or_mem_eraseIdx (h : q ∈ l.set i p') : q = p' ∨ q ∈ l.eraseIdx i := by
  obtain ⟨j, hj⟩ := List.mem_iff_getElem?.1 h
  by_cases hij : i = j
  · subst hij
    rw [List.getElem?_set] at hj
    grind
  · exact Or.inr (mem_eraseIdx.2 ⟨j, Ne.symm hij, getElem?_set_ne hij ▸ hj⟩)

/-- A process of the pool is the one taken out or one of the others. -/
theorem eq_or_mem_eraseIdx_of_mem (hq : q ∈ l) (h : l[i]? = some p) :
    q = p ∨ q ∈ l.eraseIdx i := by
  obtain ⟨j, hj⟩ := List.mem_iff_getElem?.1 hq
  by_cases hij : j = i
  · exact Or.inl (Option.some.inj (hj.symm.trans (hij ▸ h)))
  · exact Or.inr (mem_eraseIdx.2 ⟨j, hij, hj⟩)

theorem mem_set_iff (h : l[i]? = some p) : q ∈ l.set i p' ↔ q = p' ∨ q ∈ l.eraseIdx i := by
  refine ⟨eq_or_mem_eraseIdx, ?_⟩
  rintro (rfl | hq)
  · exact self_mem_set h
  · obtain ⟨j, hji, hj⟩ := mem_eraseIdx.1 hq
    exact List.mem_iff_getElem?.2 ⟨j, by rw [getElem?_set_ne hji.symm, hj]⟩

theorem mem_iff_of_getElem? (h : l[i]? = some p) : q ∈ l ↔ q = p ∨ q ∈ l.eraseIdx i := by
  refine ⟨fun hq => eq_or_mem_eraseIdx_of_mem hq h, ?_⟩
  rintro (rfl | hq)
  · exact List.mem_iff_getElem?.2 ⟨i, h⟩
  · exact List.mem_of_mem_eraseIdx hq

/-- What is read off the new pool comes from the process that moved or
from the others. -/
theorem mem_flatMap_set {x : B} (h : l[i]? = some p) :
    x ∈ (l.set i p').flatMap f ↔ x ∈ f p' ∨ x ∈ (l.eraseIdx i).flatMap f := by
  simp only [List.mem_flatMap, mem_set_iff h, or_and_right, exists_or, exists_eq_left]

theorem mem_flatMap_of_getElem? {x : B} (h : l[i]? = some p) :
    x ∈ l.flatMap f ↔ x ∈ f p ∨ x ∈ (l.eraseIdx i).flatMap f := by
  simp only [List.mem_flatMap, mem_iff_of_getElem? h, or_and_right, exists_or, exists_eq_left]

theorem Apart.of_mem_eraseIdx {R : P → P → Prop} (h : Apart R l) (hp : l[i]? = some p)
    (hq : q ∈ l.eraseIdx i) : R p q := by
  obtain ⟨j, hji, hj⟩ := mem_eraseIdx.1 hq
  exact h i j p q hji.symm hp hj

/-- The pool keeps apart when the process that moved does from the
others. -/
theorem Apart.set {R : P → P → Prop} (h : Apart R l) (hsymm : ∀ p q, R p q → R q p)
    (hp : l[i]? = some p) (hnew : ∀ q ∈ l.eraseIdx i, R p' q) : Apart R (l.set i p') := by
  have hself : (l.set i p')[i]? = some p' := getElem?_set_self hp
  intro j k q r hjk hj hk
  by_cases hij : i = j
  · subst hij
    rw [hself, Option.some.injEq] at hj
    rw [getElem?_set_ne hjk] at hk
    exact hj ▸ hnew r (mem_eraseIdx.2 ⟨k, hjk.symm, hk⟩)
  · rw [getElem?_set_ne hij] at hj
    by_cases hik : i = k
    · subst hik
      rw [hself, Option.some.injEq] at hk
      exact hk ▸ hsymm _ _ (hnew q (mem_eraseIdx.2 ⟨j, hjk, hj⟩))
    · rw [getElem?_set_ne hik] at hk
      exact h j k q r hjk hj hk

end Pool

end StickyProxy
