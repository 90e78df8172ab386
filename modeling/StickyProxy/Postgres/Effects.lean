import StickyProxy.Postgres.Accounting
/-!
# PostgreSQL — what each operation leaves, run alone

The counterpart of the Redis effects: for each operation the row every
key has after it, and for `AssignLeastLoaded` the answer and the choice.
Beside them, that an operation run alone keeps every count row at the
weight of its backend; for `AddBackend` that takes a backend no
assignment names, for its new count row starts at zero.
-/

namespace StickyProxy

namespace Postgres

variable {d : Database} {k k' : RoutingKey} {b : Backend} {now : Time} {rows : List Backend}

theorem mem_getBackendUsers :
    k ∈ getBackendUsers b d ↔ ∃ a, d.assignments.lookup k = some a ∧ a.backend = b := by
  simp only [getBackendUsers, List.mem_map, List.mem_filter, decide_eq_true_eq, Prod.exists,
    Table.mem_pairs]
  constructor
  · rintro ⟨k', a, ⟨ha, hb⟩, rfl⟩
    exact ⟨a, ha, hb⟩
  · rintro ⟨a, ha, hb⟩
    exact ⟨k, a, ⟨ha, hb⟩, rfl⟩

theorem healthy_addBackend (c : Backend) :
    (addBackend b d).Healthy c ↔ c = b ∨ d.Healthy c := by
  rw [Database.Healthy, addBackend, Table.lookup_insert_eq]
  by_cases h : c = b
  · simp [h]
  · simp [h, Database.Healthy]

theorem healthy_removeBackend (c : Backend) :
    (removeBackend b d).Healthy c ↔ d.Healthy c ∧ c ≠ b := by
  unfold removeBackend
  split
  · rw [Database.Healthy, Table.lookup_insert_eq]
    by_cases h : c = b
    · simp [h]
    · simp [h, Database.Healthy]
  · rename_i hb
    rw [Option.not_isSome_iff_eq_none] at hb
    refine ⟨fun hc => ⟨hc, fun heq => ?_⟩, fun hc => hc.1⟩
    rw [heq, Database.Healthy, hb] at hc
    cases hc

theorem assignments_removeBackend : (removeBackend b d).assignments = d.assignments :=
  (grows_removeBackend b d).assignments

theorem counts_removeBackend : (removeBackend b d).counts = d.counts := by
  unfold removeBackend
  split <;> rfl

/-- What `AssignLeastLoaded` does and answers. -/
inductive Assigns (rows : List Backend) (k : RoutingKey) (now : Time) (d : Database) :
    Option Assignment → Database → Prop
  /-- The key has a row and keeps it. -/
  | keep {a : Assignment} : d.assignments.lookup k = some a → d.joined.Nonempty →
      Assigns rows k now d (some a) d
  /-- No row to lock. -/
  | refuse : d.joined = ∅ → Assigns rows k now d none d
  /-- The key is assigned to a joined backend of least weight. -/
  | assign {b : Backend} : d.assignments.lookup k = none → leastLoaded rows d = some b →
      b ∈ d.joined →
      (∀ c ∈ d.joined, d.counts.value b ≤ d.counts.value c) →
      Assigns rows k now d (some (freshRow b now)) { d with
        assignments := d.assignments.insert k (freshRow b now)
        counts := d.counts.adjust b 1 }

/-- **`AssignLeastLoaded`**, in all its cases. -/
theorem assigns_assignLeastLoaded (k : RoutingKey) (now : Time)
    (hrows : Enumerates rows d.joined) :
    Assigns rows k now d (assignLeastLoaded rows now k d).1
      (assignLeastLoaded rows now k d).2 := by
  unfold assignLeastLoaded
  rcases hleast : leastLoaded rows d with - | b
  · refine .refuse ?_
    rw [← hrows.2, Table.least_eq_none.1 hleast]
    rfl
  · obtain ⟨hmem, hle, -⟩ := Table.least_eq_some.1 hleast
    have hb : b ∈ d.joined := hrows.mem.1 hmem
    rcases hk : d.assignments.lookup k with - | a
    · exact .assign hk hleast hb fun c hc => hle c (hrows.mem.2 hc)
    · exact .keep hk ⟨b, hb⟩

/-- An answer is the row the key had, or one on the selection. -/
theorem Assigns.answer_cases {a : Assignment} {d' : Database}
    (h : Assigns rows k now d (some a) d') :
    d.assignments.lookup k = some a ∨
      (d.assignments.lookup k = none ∧ leastLoaded rows d = some a.backend ∧
        a.backend ∈ d.joined ∧ ∀ c ∈ d.joined, d.counts.value a.backend ≤ d.counts.value c) := by
  cases h with
  | keep hk _ => exact Or.inl hk
  | assign hk hsel hb hleast => exact Or.inr ⟨hk, hsel, hb, hleast⟩

theorem lookup_bulkAssign (entries : Table RoutingKey BulkAssignEntry) (k : RoutingKey) :
    (bulkAssign now entries d).2.assignments.lookup k =
      (d.assignments.lookup k).or ((entries.lookup k).map (bulkRow now)) :=
  Table.lookup_insertNew_pairs _ _ k

theorem lookup_bulkAssign_answer (entries : Table RoutingKey BulkAssignEntry) (k : RoutingKey) :
    (bulkAssign now entries d).1.lookup k =
      if (d.assignments.lookup k).isSome then none else (entries.lookup k).map (·.backend) :=
  Table.lookup_insertAll_insertNew _ _ _ k

theorem lookup_bulkDeleteAssignments (keys : List RoutingKey) (k : RoutingKey) :
    (bulkDeleteAssignments keys d).assignments.lookup k =
      if k ∈ keys then none else d.assignments.lookup k :=
  Table.lookup_eraseAll keys _ k

/-! ## The count rows -/

/-- Every count row is the weight of the assignments to its backend. -/
def Database.Balanced (d : Database) : Prop :=
  ∀ b v, d.counts.lookup b = some v → v = d.weightOn b

theorem Database.Balanced.value_eq (h : d.Balanced) (hb : d.Counted b) :
    d.counts.value b = d.weightOn b := by
  obtain ⟨v, hv⟩ := Option.isSome_iff_exists.1 hb
  rw [Table.value, hv]
  exact h b v hv

theorem balanced_addBackend (h : d.Balanced)
    (hb : d.Counted b ∨ ∀ k a, d.assignments.lookup k = some a → a.backend ≠ b) :
    (addBackend b d).Balanced := by
  intro c v hv
  change v = d.weightOn c
  simp only [addBackend] at hv
  split at hv
  · exact h c v hv
  · rename_i hnone
    rw [Table.lookup_insert_eq] at hv
    split at hv
    · rename_i hcb
      rw [← Option.some.inj hv, hcb, weightOn_eq_zero (hb.resolve_left hnone)]
    · exact h c v hv

theorem balanced_removeBackend (h : d.Balanced) : (removeBackend b d).Balanced := by
  unfold removeBackend
  split
  · exact h
  · exact h

theorem balanced_assign (h : d.Balanced) (hk : d.assignments.lookup k = none) :
    Database.Balanced { d with
      assignments := d.assignments.insert k (freshRow b now)
      counts := d.counts.adjust b 1 } := by
  intro c v hv
  rw [Table.lookup_adjust] at hv
  obtain ⟨v₀, hv₀, rfl⟩ := Option.map_eq_some_iff.1 hv
  have hw := h c v₀ hv₀
  simp only [Database.weightOn, Table.total_insert, Table.share_of_lookup_none hk] at hw ⊢
  rw [hw, sub_zero]
  rfl

theorem balanced_bulkAssign (h : d.Balanced) (entries : Table RoutingKey BulkAssignEntry) :
    (bulkAssign now entries d).2.Balanced := by
  intro c v hv
  simp only [bulkAssign, Table.lookup_adjustAll, Table.sumAt_pairs, Table.value_gather] at hv
  obtain ⟨v₀, hv₀, rfl⟩ := Option.map_eq_some_iff.1 hv
  have hw := h c v₀ hv₀
  simp only [bulkAssign, insertRows, Database.weightOn, Table.total_insertNew, Table.sumAt_map]
    at hw ⊢
  rw [hw]
  rfl

theorem balanced_bulkDeleteAssignments (h : d.Balanced) (keys : List RoutingKey) :
    (bulkDeleteAssignments keys d).Balanced := by
  intro c v hv
  rw [bulkDeleteAssignments, Table.lookup_adjustAll, Table.sumAt_map_neg, Table.sumAt_pairs,
    Table.value_gather, Table.sumAt_map] at hv
  obtain ⟨v₀, hv₀, rfl⟩ := Option.map_eq_some_iff.1 hv
  have hw := h c v₀ hv₀
  simp only [bulkDeleteAssignments, Database.weightOn, Table.total_eraseAll_filter,
    sub_eq_add_neg] at hw ⊢
  rw [hw]
  rfl

/-! ## Every row weighs at least one -/

/-- The weights of the rows are positive. -/
def Database.Weighted (d : Database) : Prop :=
  ∀ k a, d.assignments.lookup k = some a → 1 ≤ a.weight

theorem weighted_assign (h : d.Weighted) :
    Database.Weighted { d with
      assignments := d.assignments.insert k (freshRow b now)
      counts := d.counts.adjust b 1 } := by
  intro k' a ha
  rw [Table.lookup_insert_eq] at ha
  split at ha
  · rw [← Option.some.inj ha]
    exact le_refl 1
  · exact h k' a ha

theorem weighted_bulkAssign (h : d.Weighted) (entries : Table RoutingKey BulkAssignEntry) :
    (bulkAssign now entries d).2.Weighted := by
  intro k a ha
  rw [lookup_bulkAssign, Option.or_eq_some_iff] at ha
  rcases ha with ha | ⟨-, ha⟩
  · exact h k a ha
  · obtain ⟨e, -, rfl⟩ := Option.map_eq_some_iff.1 ha
    exact e.one_le_storedWeight

theorem weighted_bulkDeleteAssignments (h : d.Weighted) (keys : List RoutingKey) :
    (bulkDeleteAssignments keys d).Weighted := by
  intro k a ha
  rw [lookup_bulkDeleteAssignments] at ha
  split at ha
  · cases ha
  · exact h k a ha

end Postgres

end StickyProxy
