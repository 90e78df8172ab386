import Mathlib.Data.List.Induction
/-!
# Traversing a map that others write to

A map that is shared is the list of the writes to it: for a key, a value or a
deletion. A traversal hands out keys, each with the value the key had at some
point since the traversal began. A key that comes or goes meanwhile may be
handed out or not; all that is promised is that in the end every key has been
handed out that had a value all the time.

That is little, but it is what a sweep needs. A value that is in the map when
the traversal ends was stored since it began, or the traversal has seen it; so
a sweep that deletes what it sees of some kind leaves no value of that kind
but those that were stored since it began.
-/

namespace StickyProxy

/-- When a traversal began, by the writes there were, and the keys it has
handed out, each with the point its value is from. -/
structure Traversal (K : Type*) where
  start : ℕ
  visited : List (K × ℕ)
  deriving DecidableEq, Repr

namespace Traversal

variable {K V : Type*} {log ws : List (K × Option V)} {k : K} {v : V} {n t : ℕ} {tr : Traversal K}

/-- A traversal begins. -/
def begin (log : List (K × Option V)) : Traversal K := ⟨log.length, []⟩

/-- It hands out a key, with the value from after so many writes. -/
def visit (tr : Traversal K) (k : K) (t : ℕ) : Traversal K :=
  { tr with visited := tr.visited ++ [(k, t)] }

/-- The keys handed out so far. -/
def keys (tr : Traversal K) : List K := tr.visited.map Prod.fst

/-- A point since the traversal began. -/
def Covers (log : List (K × Option V)) (tr : Traversal K) (t : ℕ) : Prop :=
  tr.start ≤ t ∧ t ≤ log.length

instance decidableCovers (log : List (K × Option V)) (tr : Traversal K) (t : ℕ) :
    Decidable (Covers log tr t) :=
  inferInstanceAs (Decidable (_ ∧ _))

/-- The values that were handed out are from since the traversal began. -/
structure Valid (log : List (K × Option V)) (tr : Traversal K) : Prop where
  start : tr.start ≤ log.length
  visited : ∀ p ∈ tr.visited, Covers log tr p.2

theorem valid_begin (log : List (K × Option V)) : Valid log (begin log) :=
  ⟨Nat.le_refl _, fun _ h => (List.not_mem_nil h).elim⟩

theorem Valid.append (h : Valid log tr) (ws : List (K × Option V)) : Valid (log ++ ws) tr := by
  have hlen : log.length ≤ (log ++ ws).length := by
    rw [List.length_append]
    omega
  refine ⟨Nat.le_trans h.start hlen, fun p hp => ?_⟩
  exact ⟨(h.visited p hp).1, Nat.le_trans (h.visited p hp).2 hlen⟩

theorem Valid.visit (h : Valid log tr) (ht : Covers log tr t) : Valid log (tr.visit k t) := by
  refine ⟨h.start, fun p hp => ?_⟩
  rcases List.mem_append.1 hp with hp | hp
  · exact h.visited p hp
  · obtain rfl := List.mem_singleton.1 hp
    exact ht

variable [DecidableEq K]

/-! ## The map -/

/-- What the key has after the writes: what was written last, or nothing. -/
def value (log : List (K × Option V)) (k : K) : Option V :=
  log.foldl (fun v w => if w.1 = k then w.2 else v) none

@[simp] theorem value_nil : value ([] : List (K × Option V)) k = none := rfl

@[simp] theorem value_concat (log : List (K × Option V)) (w : K × Option V) (k : K) :
    value (log ++ [w]) k = if w.1 = k then w.2 else value log k := by
  simp only [value, List.foldl_append, List.foldl_cons, List.foldl_nil]

/-- **More writes**: the key was not among them, or has what one of them
wrote. -/
theorem value_append (log ws : List (K × Option V)) (k : K) :
    (k, value (log ++ ws) k) ∈ ws ∨
      ((∀ x, (k, x) ∉ ws) ∧ value (log ++ ws) k = value log k) := by
  induction ws using List.reverseRecOn with
  | nil => exact Or.inr ⟨fun x => List.not_mem_nil, by rw [List.append_nil]⟩
  | append_singleton ws w ih =>
    rw [← List.append_assoc, value_concat]
    by_cases hw : w.1 = k
    · rw [if_pos hw]
      exact Or.inl (List.mem_append_right _ (by rw [← hw]; exact List.mem_cons_self))
    · rw [if_neg hw]
      refine ih.imp (List.mem_append_left _) fun ⟨hnone, hvalue⟩ => ⟨fun x hx => ?_, hvalue⟩
      rcases List.mem_append.1 hx with hx | hx
      · exact hnone x hx
      · obtain rfl := List.mem_singleton.1 hx
        exact hw rfl

/-- What the key had after the first so many writes. -/
def valueAt (log : List (K × Option V)) (t : ℕ) (k : K) : Option V := value (log.take t) k

/-- Later writes do not change what was. -/
theorem valueAt_append (ws : List (K × Option V)) (ht : t ≤ log.length) :
    valueAt (log ++ ws) t k = valueAt log t k := by
  rw [valueAt, valueAt, List.take_append_of_le_length ht]

theorem valueAt_length (log : List (K × Option V)) (k : K) :
    valueAt log log.length k = value log k := by
  rw [valueAt, List.take_length]

/-- A key that was not written to has what it had. -/
theorem valueAt_eq_of_forall_notMem (hnone : ∀ x, (k, x) ∉ log.drop n) (hn : n ≤ t) :
    valueAt log t k = valueAt log n k := by
  obtain ⟨m, rfl⟩ := Nat.exists_eq_add_of_le hn
  rw [valueAt, List.take_add]
  rcases value_append (log.take n) ((log.drop n).take m) k with hmem | ⟨-, hvalue⟩
  · exact absurd (List.mem_of_mem_take hmem) (hnone _)
  · exact hvalue

/-- **What is in the map was stored since, or has been there all the time.** -/
theorem mem_drop_or_throughout (n : ℕ) (hv : value log k = some v) :
    (k, some v) ∈ log.drop n ∨
      ((∀ x, (k, x) ∉ log.drop n) ∧ ∀ t, n ≤ t → valueAt log t k = some v) := by
  have hlog : log.take n ++ log.drop n = log := List.take_append_drop n log
  have hcases := value_append (log.take n) (log.drop n) k
  rw [hlog, hv] at hcases
  refine hcases.imp_right fun ⟨hnone, hvalue⟩ => ⟨hnone, fun t ht => ?_⟩
  rw [valueAt_eq_of_forall_notMem hnone ht, valueAt, ← hvalue]

/-! ## The end of a traversal -/

/-- **The promise**: every key that has had a value since the traversal began
has been handed out. -/
def Complete (log : List (K × Option V)) (tr : Traversal K) : Prop :=
  ∀ k, (∀ t, Covers log tr t → valueAt log t k ≠ none) → k ∈ tr.keys

/-- Only keys that were written to can have a value. -/
theorem mem_map_of_value (hv : value log k = some v) : k ∈ log.map Prod.fst := by
  rcases mem_drop_or_throughout 0 hv with hmem | ⟨-, hall⟩
  · exact List.mem_map.2 ⟨_, hmem, rfl⟩
  · cases hall 0 (Nat.le_refl 0)

theorem complete_iff (hstart : tr.start ≤ log.length) : Complete log tr ↔
    ∀ k ∈ log.map Prod.fst, (∀ t ∈ List.range (log.length + 1), tr.start ≤ t →
      (valueAt log t k).isSome) → k ∈ tr.keys := by
  constructor
  · intro h k _ hall
    refine h k fun t ht hnone => ?_
    have hsome := hall t (List.mem_range.2 (Nat.lt_succ_of_le ht.2)) ht.1
    rw [hnone] at hsome
    cases hsome
  · intro h k hall
    have hend := hall log.length ⟨hstart, Nat.le_refl _⟩
    rw [valueAt_length] at hend
    obtain ⟨v, hv⟩ := Option.ne_none_iff_exists'.1 hend
    refine h k (mem_map_of_value hv) fun t ht hst => ?_
    exact Option.isSome_iff_ne_none.2 (hall t ⟨hst, Nat.le_of_lt_succ (List.mem_range.1 ht)⟩)

instance decidableComplete (log : List (K × Option V)) (tr : Traversal K) :
    Decidable (tr.start ≤ log.length ∧ Complete log tr) :=
  decidable_of_iff (tr.start ≤ log.length ∧
    ∀ k ∈ log.map Prod.fst, (∀ t ∈ List.range (log.length + 1), tr.start ≤ t →
      (valueAt log t k).isSome) → k ∈ tr.keys)
    (and_congr_right fun hstart => (complete_iff hstart).symm)

/-- **What the end of a traversal tells.** A value that is in the map was
stored since the traversal began, or its key was not written to since, and the
traversal has handed it out with that value. -/
theorem Complete.mem_or_seen (hvalid : Valid log tr) (h : Complete log tr)
    (hv : value log k = some v) :
    (k, some v) ∈ log.drop tr.start ∨
      ((∀ x, (k, x) ∉ log.drop tr.start) ∧
        ∃ t, (k, t) ∈ tr.visited ∧ valueAt log t k = some v) := by
  refine (mem_drop_or_throughout tr.start hv).imp_right fun ⟨hnone, hall⟩ => ⟨hnone, ?_⟩
  have hkey : k ∈ tr.keys := by
    refine h k fun t ht => ?_
    rw [hall t ht.1]
    exact Option.some_ne_none v
  obtain ⟨⟨k', t⟩, hmem, rfl⟩ := List.mem_map.1 hkey
  exact ⟨t, hmem, hall t (hvalid.visited _ hmem).1⟩

/-! ## Sweeps -/

/-- No value of a kind is in the map but those that were stored since. -/
def Purged (log : List (K × Option V)) (n : ℕ) (p : V → Prop) : Prop :=
  ∀ k v, value log k = some v → p v → (k, some v) ∈ log.drop n

/-- **What a sweep leaves.** If every key that was handed out with a value of
the kind has been deleted since the traversal began, no value of the kind is
left but those that were stored since. -/
theorem Complete.purged {p : V → Prop} (hvalid : Valid log tr) (h : Complete log tr)
    (hdeleted : ∀ k t v, (k, t) ∈ tr.visited → valueAt log t k = some v → p v →
      (k, none) ∈ log.drop tr.start) : Purged log tr.start p := by
  intro k v hv hp
  rcases h.mem_or_seen hvalid hv with hmem | ⟨hnone, t, hvisited, hseen⟩
  · exact hmem
  · exact absurd (hdeleted k t v hvisited hseen hp) (hnone none)

/-- What was stored since then was stored since any point before. -/
theorem Purged.mono {p : V → Prop} {m : ℕ} (h : Purged log m p) (hn : n ≤ m) : Purged log n p := by
  intro k v hv hp
  obtain ⟨j, rfl⟩ := Nat.exists_eq_add_of_le hn
  have hmem := h k v hv hp
  rw [← List.drop_drop] at hmem
  exact List.mem_of_mem_drop hmem

/-- And it stays so. -/
theorem Purged.append {p : V → Prop} (h : Purged log n p) (hn : n ≤ log.length)
    (ws : List (K × Option V)) : Purged (log ++ ws) n p := by
  intro k v hv hp
  rw [List.drop_append_of_le_length hn]
  rcases value_append log ws k with hmem | ⟨-, hvalue⟩
  · rw [hv] at hmem
    exact List.mem_append_right _ hmem
  · rw [hvalue] at hv
    exact List.mem_append_left _ (h k v hv hp)

end Traversal

end StickyProxy
