import Mathlib.Data.Set.Basic
/-!
# Following a table by messages

A table is a set of entries that changes, and a follower keeps a set of
its own that changes only by messages. An entry that enters the table is
owed to the follower until it is announced; one that is going to be removed
may be retracted first, and is then on its way out until it is removed.
The follower is in the picture when it knows only entries that are in the
table and not on their way out, and every entry it does not know is owed
or on its way out. Four kinds of steps keep it there, and once nothing is
owed and nothing on its way out it knows the table.
-/

namespace StickyProxy

/-- A table and its follower. -/
structure Follower (α : Type*) where
  /-- What is in the table. -/
  table : Set α
  /-- What the follower knows of it. -/
  known : Set α
  /-- What has been retracted and is not yet removed. -/
  leaving : Set α
  /-- What is yet to be announced. -/
  due : Set α

namespace Follower

variable {α : Type*} {s s' : Follower α}

/-- The follower is in the picture. -/
structure Informed (s : Follower α) : Prop where
  known : s.known ⊆ s.table \ s.leaving
  table : s.table ⊆ s.known ∪ (s.due ∪ s.leaving)

/-- The steps that keep it there. -/
inductive Step (s s' : Follower α) : Prop
  /-- Entries may enter the table that are owed. -/
  | enter : s.table ⊆ s'.table → s'.table ⊆ s.table ∪ s'.due → s'.known = s.known →
      s'.leaving = s.leaving → s.due ⊆ s'.due → Step s s'
  /-- Entries are retracted. -/
  | retract (told : Set α) : s'.table = s.table → s'.known = s.known \ told →
      s'.leaving = s.leaving ∪ told → s.due ⊆ s'.due → Step s s'
  /-- Entries are removed that are on their way out. -/
  | remove (gone : Set α) : s.table ∩ gone ⊆ s.leaving → s'.table = s.table \ gone →
      s'.known = s.known → s.leaving \ gone ⊆ s'.leaving → s'.leaving ⊆ s.leaving →
      s.due ⊆ s'.due → Step s s'
  /-- Entries are announced that are in the table, and not on their way
  out. -/
  | announce (told : Set α) : told ⊆ s.table \ s.leaving → s'.table = s.table →
      s'.known = s.known ∪ told → s'.leaving = s.leaving → s.due ⊆ s'.due ∪ told → Step s s'

/-- **A step keeps the follower in the picture.** -/
theorem Informed.step (h : s.Informed) (hstep : Step s s') : s'.Informed := by
  obtain ⟨hknown, htable⟩ := h
  cases hstep with
  | enter hgrow hnew hk hl hdue =>
    constructor
    · rw [hk, hl]
      exact fun x hx => ⟨hgrow (hknown hx).1, (hknown hx).2⟩
    · intro x hx
      rw [hk, hl]
      rcases hnew hx with hold | howed
      · rcases htable hold with hx | hx | hx
        · exact Or.inl hx
        · exact Or.inr (Or.inl (hdue hx))
        · exact Or.inr (Or.inr hx)
      · exact Or.inr (Or.inl howed)
  | retract told ht hk hl hdue =>
    constructor
    · rw [ht, hk, hl]
      rintro x ⟨hx, hnot⟩
      exact ⟨(hknown hx).1, fun hout => hout.elim (hknown hx).2 hnot⟩
    · intro x hx
      rw [hk, hl]
      by_cases htold : x ∈ told
      · exact Or.inr (Or.inr (Or.inr htold))
      · rcases htable (ht ▸ hx) with hx | hx | hx
        · exact Or.inl ⟨hx, htold⟩
        · exact Or.inr (Or.inl (hdue hx))
        · exact Or.inr (Or.inr (Or.inl hx))
  | remove gone hout ht hk hrest hl hdue =>
    constructor
    · rw [ht, hk]
      -- What the follower knows is not on its way out, so it is not removed.
      refine fun x hx => ⟨⟨(hknown hx).1, fun hgone => ?_⟩, fun hx' => (hknown hx).2 (hl hx')⟩
      exact (hknown hx).2 (hout ⟨(hknown hx).1, hgone⟩)
    · intro x hx
      rw [ht] at hx
      rw [hk]
      rcases htable hx.1 with hx' | hx' | hx'
      · exact Or.inl hx'
      · exact Or.inr (Or.inl (hdue hx'))
      · exact Or.inr (Or.inr (hrest ⟨hx', hx.2⟩))
  | announce told hin ht hk hl hdue =>
    constructor
    · rw [ht, hk, hl]
      exact Set.union_subset hknown hin
    · intro x hx
      rw [hk, hl]
      rcases htable (ht ▸ hx) with hx | hx | hx
      · exact Or.inl (Or.inl hx)
      · rcases hdue hx with hx | hx
        · exact Or.inr (Or.inl hx)
        · exact Or.inl (Or.inr hx)
      · exact Or.inr (Or.inr hx)

/-- **With nothing under way it knows the table.** -/
theorem Informed.known_eq (h : s.Informed) (hdue : s.due = ∅) (hleaving : s.leaving = ∅) :
    s.known = s.table := by
  refine Set.Subset.antisymm (fun x hx => (h.known hx).1) fun x hx => ?_
  have hx' := h.table hx
  rwa [hdue, hleaving, Set.union_empty, Set.union_empty] at hx'

/-- A follower that knows the table is in the picture. -/
theorem informed_of_known_eq (h : s.known = s.table) (hleaving : s.leaving = ∅) : s.Informed := by
  constructor
  · rw [h, hleaving]
    exact fun x hx => ⟨hx, Set.notMem_empty x⟩
  · rw [h]
    exact Set.subset_union_left

end Follower

end StickyProxy
