import StickyProxy.Redis.Effects
import StickyProxy.Postgres.Effects
/-!
# Deleting a key that is listed twice

`BulkDeleteAssignments` of the Redis client reads every key it is given
before it deletes any, so a key that is listed twice is read twice, and its
weight is taken off the count of its backend twice, while there is one
assignment to delete. PostgreSQL returns every row it has deleted once. A
key can be listed twice: `HSCAN` may return a field more than once, and
`GetBackendUsersFromTable` passes on what it returns.
-/

namespace StickyProxy

namespace Redis

variable {r : Keyspace} {keys keys' : List RoutingKey} {k : RoutingKey} {b : Backend}

/-- The same assignments and the same counts. -/
def Keyspace.Agrees (r r' : Keyspace) : Prop :=
  (∀ k, r.assignments.lookup k = r'.assignments.lookup k) ∧
    ∀ b, r.counts.lookup b = r'.counts.lookup b

/-- No key that is assigned is listed twice. -/
def ListedOnce (keys : List RoutingKey) (r : Keyspace) : Prop :=
  ∀ k, (getAssignment k r).isSome → keys.count k ≤ 1

/-! ## What a key weighs -/

/-- What the assignment of a key adds to the weight on a backend. -/
def Keyspace.keyWeight (r : Keyspace) (b : Backend) (k : RoutingKey) : ℤ :=
  r.assignments.share (fun _ v => v.weightOn b) k

theorem keyWeight_of_none (h : getAssignment k r = none) : r.keyWeight b k = 0 := by
  unfold Keyspace.keyWeight
  rcases hk : r.assignments.lookup k with - | v
  · exact Table.share_of_lookup_none hk
  · rw [getAssignment, hk] at h
    have hv : unmarshalAssignment v = none := h
    rw [Table.share_of_lookup hk, Value.weightOn, hv]

theorem keyWeight_nonneg (b : Backend) (k : RoutingKey) : 0 ≤ r.keyWeight b k := by
  rcases ha : getAssignment k r with - | a
  · exact (keyWeight_of_none ha).ge
  · have h1 := a.one_le_effectiveWeight
    rw [Keyspace.keyWeight, share_of_getAssignment ha]
    split <;> omega

/-- An assigned key weighs something on its backend. -/
theorem isSome_of_keyWeight_ne_zero (h : r.keyWeight b k ≠ 0) : (getAssignment k r).isSome := by
  rcases ha : getAssignment k r with - | a
  · exact absurd (keyWeight_of_none ha) h
  · rfl

theorem exists_keyWeight_ne_zero (h : (getAssignment k r).isSome) : ∃ b, r.keyWeight b k ≠ 0 := by
  obtain ⟨a, ha⟩ := Option.isSome_iff_exists.1 h
  have h1 := a.one_le_effectiveWeight
  refine ⟨a.backend, ?_⟩
  rw [Keyspace.keyWeight, share_of_getAssignment ha, if_pos rfl]
  omega

theorem listedOnce_iff : ListedOnce keys r ↔
    ∀ b k, r.keyWeight b k ≠ 0 → keys.count k ≤ 1 := by
  constructor
  · intro h b k hk
    exact h k (isSome_of_keyWeight_ne_zero hk)
  · intro h k hk
    obtain ⟨b, hb⟩ := exists_keyWeight_ne_zero hk
    exact h b k hb

/-! ## What the delete takes off -/

/-- What is read weighs what the keys weigh, each as often as it is
listed. -/
theorem sum_readAll (keys : List RoutingKey) (b : Backend) :
    ((readAll keys r).map fun p => if p.2.backend = b then p.2.effectiveWeight else 0).sum =
      (keys.map (r.keyWeight b)).sum := by
  induction keys with
  | nil => rfl
  | cons k keys ih =>
    rw [readAll_cons, List.map_append, List.sum_append, ih, List.map_cons, List.sum_cons]
    rcases ha : getAssignment k r with - | a
    · rw [keyWeight_of_none ha]
      rfl
    · rw [Keyspace.keyWeight, share_of_getAssignment ha]
      simp

theorem value_bulkDeleteAssignments (keys : List RoutingKey) (b : Backend) :
    (bulkDeleteAssignments keys r).counts.value b =
      r.counts.value b - (keys.map (r.keyWeight b)).sum := by
  rw [bulkDeleteAssignments, Table.value_bumpAll, sumAt_decrements, sum_readAll, sub_eq_add_neg]

/-- The backends that are decremented. -/
theorem mem_map_fst_decrements {read : List (RoutingKey × Assignment)} :
    b ∈ (decrements read).map Prod.fst ↔ ∃ p ∈ read, p.2.backend = b := by
  rw [decrements, List.map_map]
  change b ∈ (Table.pairs _).map Prod.fst ↔ _
  rw [Table.mem_map_fst_pairs, Table.isSome_lookup_gather]
  simp

theorem mem_readAll_congr (h : ∀ k, k ∈ keys ↔ k ∈ keys') (p : RoutingKey × Assignment) :
    p ∈ readAll keys r ↔ p ∈ readAll keys' r := by
  obtain ⟨k, a⟩ := p
  rw [mem_readAll, mem_readAll, h]

/-- Which keys are listed decides what is deleted and which counts are
there. -/
theorem lookup_bulkDeleteAssignments_congr (h : ∀ k, k ∈ keys ↔ k ∈ keys') (k : RoutingKey) :
    (bulkDeleteAssignments keys r).assignments.lookup k =
      (bulkDeleteAssignments keys' r).assignments.lookup k := by
  simp only [bulkDeleteAssignments, Table.lookup_eraseAll, mem_map_fst_readAll, h]

theorem isSome_counts_bulkDeleteAssignments_congr (h : ∀ k, k ∈ keys ↔ k ∈ keys') (b : Backend) :
    ((bulkDeleteAssignments keys r).counts.lookup b).isSome ↔
      ((bulkDeleteAssignments keys' r).counts.lookup b).isSome := by
  simp only [bulkDeleteAssignments, Table.isSome_lookup_bumpAll, mem_map_fst_decrements,
    mem_readAll_congr h]

/-- **What a list with repetitions takes off too much**: the weight of
every key, once for each repetition. -/
theorem value_bulkDeleteAssignments_dedup (keys : List RoutingKey) (b : Backend) :
    (bulkDeleteAssignments keys r).counts.value b =
      (bulkDeleteAssignments keys.dedup r).counts.value b -
        ∑ k ∈ keys.toFinset, ((keys.count k : ℤ) - 1) * r.keyWeight b k := by
  rw [value_bulkDeleteAssignments, value_bulkDeleteAssignments,
    Table.sum_map_eq_sum_map_dedup_add]
  ring

theorem value_eq_dedup_iff : (∀ b, (bulkDeleteAssignments keys r).counts.value b =
    (bulkDeleteAssignments keys.dedup r).counts.value b) ↔ ListedOnce keys r := by
  rw [listedOnce_iff]
  refine forall_congr' fun b => ?_
  rw [value_bulkDeleteAssignments_dedup, sub_eq_self,
    Table.sum_repetitions_eq_zero_iff (keyWeight_nonneg b)]

theorem agrees_dedup_iff : (bulkDeleteAssignments keys r).Agrees
    (bulkDeleteAssignments keys.dedup r) ↔ ListedOnce keys r := by
  have hmem : ∀ k, k ∈ keys ↔ k ∈ keys.dedup := fun k => List.mem_dedup.symm
  rw [← value_eq_dedup_iff]
  constructor
  · intro h b
    rw [Table.value, h.2, Table.value]
  · intro h
    exact ⟨lookup_bulkDeleteAssignments_congr hmem, fun b =>
      Table.lookup_eq_of_value_eq (isSome_counts_bulkDeleteAssignments_congr hmem b) (h b)⟩

/-- A balanced table stays balanced under the same condition. -/
theorem balanced_bulkDeleteAssignments_iff_listedOnce (hr : r.Balanced) :
    (bulkDeleteAssignments keys r).Balanced ↔ ListedOnce keys r := by
  have hdedup : (bulkDeleteAssignments keys.dedup r).Balanced := balanced_iff_drift.2 fun b =>
    (drift_bulkDeleteAssignments keys.nodup_dedup).trans (balanced_iff_drift.1 hr b)
  have hweight : ∀ b, (bulkDeleteAssignments keys r).weightOn b =
      (bulkDeleteAssignments keys.dedup r).weightOn b := fun b =>
    Table.total_congr _ (lookup_bulkDeleteAssignments_congr fun k => List.mem_dedup.symm)
  rw [← value_eq_dedup_iff]
  refine forall_congr' fun b => ?_
  rw [hweight, hdedup b]

end Redis

namespace Postgres

variable {d : Database}

/-- The same assignments and the same count rows. -/
def Database.Agrees (d d' : Database) : Prop :=
  (∀ k, d.assignments.lookup k = d'.assignments.lookup k) ∧
    ∀ b, d.counts.lookup b = d'.counts.lookup b

theorem deletedRows_dedup (keys : List RoutingKey) :
    deletedRows keys.dedup d = deletedRows keys d := by
  simp only [deletedRows, List.mem_dedup]

theorem agrees_dedup (keys : List RoutingKey) :
    (bulkDeleteAssignments keys d).Agrees (bulkDeleteAssignments keys.dedup d) := by
  constructor
  · intro k
    simp only [lookup_bulkDeleteAssignments, List.mem_dedup]
  · intro b
    simp only [bulkDeleteAssignments, deletedRows_dedup]

end Postgres

namespace Store

/-- **Repeated keys.** From a balanced table, a bulk delete of the Redis
client leaves what it would for the list without repetitions, and the table
balanced, exactly if no assigned key is listed twice. PostgreSQL does so for
every list. -/
theorem insensitive_iff_listedOnce (r : Redis.Keyspace) (hr : r.Balanced) (d : Postgres.Database)
    (keys : List RoutingKey) :
    ((Redis.bulkDeleteAssignments keys r).Agrees (Redis.bulkDeleteAssignments keys.dedup r) ↔
      Redis.ListedOnce keys r) ∧
    ((Redis.bulkDeleteAssignments keys r).Balanced ↔ Redis.ListedOnce keys r) ∧
    (Postgres.bulkDeleteAssignments keys d).Agrees
      (Postgres.bulkDeleteAssignments keys.dedup d) :=
  ⟨Redis.agrees_dedup_iff, Redis.balanced_bulkDeleteAssignments_iff_listedOnce hr,
    Postgres.agrees_dedup keys⟩

/-- One account of weight 5, counted. -/
def heavyKeyspace : Redis.Keyspace :=
  { assignments := Table.insertAll ∅ [("u", .record ⟨"b1", 1, "assignment", some 5⟩)]
    counts := Table.insertAll ∅ [("b1", 5)]
    active := {"b1"} }

theorem balanced_heavyKeyspace : heavyKeyspace.Balanced := by
  have hrun : Run.exec Redis.step .empty
      [.addBackend "b1", .bulkAssign 1 (Table.insertAll ∅ [("u", ⟨"b1", 5⟩)])] =
        some heavyKeyspace := rfl
  exact Redis.balanced_of_exec hrun

/-- A key listed beside one that is not assigned. -/
theorem insensitive_heavyKeyspace :
    (Redis.bulkDeleteAssignments ["x", "u", "x"] heavyKeyspace).Agrees
      (Redis.bulkDeleteAssignments ["x", "u", "x"].dedup heavyKeyspace) := by
  refine (insensitive_iff_listedOnce heavyKeyspace balanced_heavyKeyspace .empty _).1.2 ?_
  intro k hk
  by_cases hu : k = "u"
  · rw [hu]
    decide
  · have hnone : heavyKeyspace.assignments.lookup k = none :=
      (Table.lookup_insert_eq _ _ _ _).trans (if_neg hu)
    rw [Redis.getAssignment, hnone] at hk
    cases hk

/-- The scan returns the account twice. The delete takes 10 off a count of
5, with one assignment of weight 5 to delete. -/
theorem scanned_twice_decrements_twice :
    heavyKeyspace.Balanced ∧
      Redis.getBackendUsersFromTable "b1" (heavyKeyspace.assignments.pairs ++
        heavyKeyspace.assignments.pairs) = ["u", "u"] ∧
      (Redis.bulkDeleteAssignments ["u", "u"] heavyKeyspace).counts.value "b1" = -5 ∧
      (Redis.bulkDeleteAssignments ["u", "u"] heavyKeyspace).weightOn "b1" = 0 ∧
      (Redis.bulkDeleteAssignments ["u", "u"].dedup heavyKeyspace).counts.value "b1" = 0 :=
  ⟨balanced_heavyKeyspace, by decide, by decide, by decide, by decide⟩

end Store

end StickyProxy
