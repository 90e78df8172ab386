import StickyProxy.Redis.Model.Failures
import StickyProxy.Redis.Accounting
/-!
# Redis — what a failed command leaves of the counts

A call changes the hash and the counts by separate commands, and a command
that fails leaves one without the other. Only `BulkAssign` recounts, and
only after an error of its second pipeline. An error of the first leaves
the entries that were set uncounted, and the two deletes leave whatever
half of them went through.
-/

namespace StickyProxy

namespace Redis

variable {r : Keyspace} {v : Verdicts} {k : RoutingKey} {b : Backend} {now : Time}

/-! ## The calls of `Keyspace` are those without a failure -/

theorem hincrbyAll_served (amounts : List (Backend × ℤ)) (counts : Table Backend ℤ) :
    Pipeline.hincrbyAll .served amounts counts = counts.bumpAll amounts := by
  simp [Pipeline.hincrbyAll, Verdicts.served]

theorem deleteAssignment_served (k : RoutingKey) (r : Keyspace) :
    Pipeline.deleteAssignment .served k r = deleteAssignment k r := by
  have hget : (if Verdicts.served.hget k then getAssignment k r else none) = getAssignment k r :=
    if_pos rfl
  rw [Pipeline.deleteAssignment, deleteAssignment, hget]
  rcases getAssignment k r with - | a
  · rfl
  · simp only [hincrbyAll_served]
    rfl

theorem bulkAssign_served (now : Time) (entries : Table RoutingKey BulkAssignEntry) (r : Keyspace) :
    Pipeline.bulkAssign .served now entries r =
      (((bulkAssign now entries r).1, true), (bulkAssign now entries r).2) := by
  unfold Pipeline.bulkAssign
  split
  · rename_i hnil
    have hpairs : entries.pairs = [] := List.isEmpty_iff.1 hnil
    simp [bulkAssign, hpairs, hsetnxAll, Table.insertNew, Table.gather, Table.bumpAll]
  · simp only [Verdicts.served, List.filter_true, List.all_eq_true, implies_true, if_true,
      Pipeline.hincrbyAll, bulkAssign]

theorem bulkDeleteAssignments_served (keys : List RoutingKey) (r : Keyspace) :
    Pipeline.bulkDeleteAssignments .served keys r = (true, bulkDeleteAssignments keys r) := by
  have hkeys : keys.filter Verdicts.served.hget = keys := List.filter_true _
  rw [Pipeline.bulkDeleteAssignments, hkeys, bulkDeleteAssignments]
  split
  · rename_i hnil
    have hread : readAll keys r = [] := List.isEmpty_iff.1 hnil
    simp [hread, decrements, Table.gather, Table.bumpAll]
  · simp only [Pipeline.removeRead, hincrbyAll_served]
    simp [Verdicts.served]

/-! ## The deletes -/

theorem value_hincrbyAll (amounts : List (Backend × ℤ)) (counts : Table Backend ℤ) :
    (Pipeline.hincrbyAll v amounts counts).value b =
      counts.value b + if v.hincrby b then Table.sumAt amounts b else 0 := by
  rw [Pipeline.hincrbyAll, Table.value_bumpAll, Table.sumAt_filter]

/-- What was read weighs something on its own backends and nothing on the
others. -/
theorem sumAt_decrements_eq_zero_iff {read : List (RoutingKey × Assignment)} :
    Table.sumAt (decrements read) b = 0 ↔ ∀ p ∈ read, p.2.backend ≠ b := by
  have hpos : ∀ e ∈ read.map fun p => (p.2.backend, p.2.effectiveWeight), 0 < e.2 := by
    intro e he
    obtain ⟨p, -, rfl⟩ := List.mem_map.1 he
    exact p.2.one_le_effectiveWeight
  rw [decrements, Table.sumAt_map_neg, Table.sumAt_pairs, Table.value_gather, neg_eq_zero,
    Table.sumAt_eq_zero_iff hpos, List.forall_mem_map]

/-- The pipeline of a delete moves the drift of a backend by what it read
there, unless the two halves agree. -/
theorem drift_removeRead {read : List (RoutingKey × Assignment)}
    (hnodup : (read.map Prod.fst).Nodup) (hread : ∀ p ∈ read, getAssignment p.1 r = some p.2) :
    (Pipeline.removeRead v read r).drift b = r.drift b +
      ((if v.hincrby b then Table.sumAt (decrements read) b else 0) -
        if v.hdel then Table.sumAt (decrements read) b else 0) := by
  have htotal := total_eraseAll_read (b := b) hnodup
    fun p hp => ⟨p.2, hread p hp, rfl, rfl⟩
  have hweight : (Pipeline.removeRead v read r).weightOn b =
      r.weightOn b + if v.hdel then Table.sumAt (decrements read) b else 0 := by
    by_cases hdel : v.hdel = true
    · simpa only [Keyspace.weightOn, Pipeline.removeRead, hdel, if_true] using htotal
    · simp only [Keyspace.weightOn, Pipeline.removeRead, if_neg hdel, add_zero]
  rw [Keyspace.drift, hweight, Keyspace.drift, Pipeline.removeRead, value_hincrbyAll]
  ring

/-- **A delete keeps the counts right exactly when its two halves share
one fate**, for every backend it read. -/
theorem balanced_removeRead_iff {read : List (RoutingKey × Assignment)} (h : r.Balanced)
    (hnodup : (read.map Prod.fst).Nodup) (hread : ∀ p ∈ read, getAssignment p.1 r = some p.2) :
    (Pipeline.removeRead v read r).Balanced ↔ ∀ p ∈ read, v.hincrby p.2.backend = v.hdel := by
  have hdrift : ∀ b, (Pipeline.removeRead v read r).drift b = 0 ↔
      Table.sumAt (decrements read) b = 0 ∨ v.hincrby b = v.hdel := by
    intro b
    rw [drift_removeRead hnodup hread, balanced_iff_drift.1 h b, zero_add]
    cases v.hincrby b <;> cases v.hdel <;> simp
  rw [balanced_iff_drift]
  simp only [hdrift, sumAt_decrements_eq_zero_iff]
  constructor
  · intro hall p hp
    exact (hall p.2.backend).resolve_left fun hne => hne p hp rfl
  · intro hall b
    by_cases hb : ∃ p ∈ read, p.2.backend = b
    · obtain ⟨p, hp, rfl⟩ := hb
      exact .inr (hall p hp)
    · exact .inl fun p hp hpb => hb ⟨p, hp, hpb⟩

theorem deleteAssignment_eq_removeRead {a : Assignment} (hget : v.hget k = true)
    (ha : getAssignment k r = some a) :
    (Pipeline.deleteAssignment v k r).2 = Pipeline.removeRead v [(k, a)] r := by
  rw [Pipeline.deleteAssignment, if_pos hget, ha, Pipeline.removeRead, decrements_singleton]
  rfl

theorem balanced_deleteAssignment_iff (h : r.Balanced) :
    ((Write.deleteAssignment k).run v r).Balanced ↔ (Write.deleteAssignment k).Harmless v r := by
  by_cases hread : ∃ a, v.hget k = true ∧ getAssignment k r = some a
  · obtain ⟨a, hget, ha⟩ := hread
    have hnodup : ([(k, a)].map Prod.fst).Nodup := List.nodup_singleton k
    have hiff := balanced_removeRead_iff (v := v) h hnodup
      fun p hp => by rwa [List.mem_singleton.1 hp]
    rw [Write.run, deleteAssignment_eq_removeRead hget ha, hiff, List.forall_mem_singleton]
    refine ⟨fun heq a' _ ha' => ?_, fun hall => hall a hget ha⟩
    rwa [← Option.some.inj (ha.symm.trans ha')]
  · have hrun : (Write.deleteAssignment k).run v r = r := by
      have hnone : (if v.hget k then getAssignment k r else none) = none := by
        rw [Option.eq_none_iff_forall_not_mem]
        intro a ha
        exact hread ⟨a, Option.ite_none_right_eq_some.1 ha⟩
      rw [Write.run, Pipeline.deleteAssignment, hnone]
    rw [hrun]
    exact iff_of_true h fun a hget ha => absurd ⟨a, hget, ha⟩ hread

theorem balanced_bulkDeleteAssignments_iff {keys : List RoutingKey} (h : r.Balanced)
    (hkeys : keys.Nodup) :
    ((Write.bulkDeleteAssignments keys).run v r).Balanced ↔
      (Write.bulkDeleteAssignments keys).Harmless v r := by
  have hmem : ∀ p : RoutingKey × Assignment, p ∈ readAll (keys.filter v.hget) r ↔
      (p.1 ∈ keys ∧ v.hget p.1 = true) ∧ getAssignment p.1 r = some p.2 := fun p => by
    rw [← List.mem_filter]
    exact mem_readAll
  have hharmless : (∀ p ∈ readAll (keys.filter v.hget) r, v.hincrby p.2.backend = v.hdel) ↔
      (Write.bulkDeleteAssignments keys).Harmless v r :=
    ⟨fun hall k hk a hget ha => hall (k, a) ((hmem _).2 ⟨⟨hk, hget⟩, ha⟩),
      fun hall p hp => hall p.1 ((hmem p).1 hp).1.1 p.2 ((hmem p).1 hp).1.2 ((hmem p).1 hp).2⟩
  rw [← hharmless, Write.run, Pipeline.bulkDeleteAssignments]
  split
  · rename_i hnil
    rw [List.isEmpty_iff.1 hnil]
    exact iff_of_true h fun p hp => absurd hp List.not_mem_nil
  · exact balanced_removeRead_iff h (nodup_readAll (hkeys.filter _)) fun p hp => ((hmem p).1 hp).2

/-! ## The bulk assignment -/

/-- Once the first pipeline went through, the counts end right: they are
raised by what was set, or recounted. -/
theorem balanced_bulkAssign_of_set {entries : Table RoutingKey BulkAssignEntry} (h : r.Balanced)
    (hset : entries.pairs.all (fun p => v.hsetnx p.1) = true) :
    (Pipeline.bulkAssign v now entries r).2.Balanced := by
  have hfilter : (entries.pairs.filter fun p => v.hsetnx p.1) = entries.pairs :=
    List.filter_eq_self.2 (List.all_eq_true.1 hset)
  rw [Pipeline.bulkAssign]
  split
  · exact h
  · rw [hfilter]
    dsimp only
    split
    · rename_i hcounts
      have hall : ∀ amounts : Table Backend ℤ, amounts.pairs.all (fun e => v.hincrby e.1) = true →
          Pipeline.hincrbyAll v amounts.pairs r.counts = r.counts.bumpAll amounts.pairs :=
        fun amounts hok => by
          rw [Pipeline.hincrbyAll, List.filter_eq_self.2 (List.all_eq_true.1 hok)]
      rw [hall _ hcounts]
      refine balanced_iff_drift.2 fun b => Eq.trans ?_ (balanced_iff_drift.1 h b)
      exact drift_bulkAssign entries
    · exact balanced_reconcileAssignmentCounts _

/-- A first pipeline that failed leaves what it set uncounted. -/
theorem balanced_bulkAssign_iff_of_not_set {entries : Table RoutingKey BulkAssignEntry}
    (h : r.Balanced) (hset : ¬ entries.pairs.all (fun p => v.hsetnx p.1) = true) :
    (Pipeline.bulkAssign v now entries r).2.Balanced ↔
      ∀ k e, entries.lookup k = some e → v.hsetnx k = true → (r.assignments.lookup k).isSome := by
  have hne : ¬ entries.pairs.isEmpty = true := fun hnil => by
    rw [List.isEmpty_iff.1 hnil] at hset
    exact hset rfl
  have hrun : (Pipeline.bulkAssign v now entries r).2 = { r with
      assignments :=
        (hsetnxAll now (entries.pairs.filter fun p => v.hsetnx p.1) r.assignments).2 } := by
    rw [Pipeline.bulkAssign, if_neg hne]
    simp only [if_neg hset]
  have hnodup : ((entries.pairs.filter fun p => v.hsetnx p.1).map Prod.fst).Nodup :=
    (Table.nodup_fst_pairs entries).sublist (List.filter_sublist.map _)
  have hpos : ∀ x ∈ (hsetnxAll now (entries.pairs.filter fun p => v.hsetnx p.1)
      r.assignments).1.map fun p => (p.2.backend, p.2.storedWeight), 0 < x.2 := by
    intro x hx
    obtain ⟨p, -, rfl⟩ := List.mem_map.1 hx
    exact p.2.one_le_storedWeight
  have hdrift : ∀ b, (Pipeline.bulkAssign v now entries r).2.drift b = 0 ↔
      ∀ p ∈ (hsetnxAll now (entries.pairs.filter fun p => v.hsetnx p.1) r.assignments).1,
        p.2.backend ≠ b := by
    intro b
    have hb : r.counts.value b =
        Table.total (fun _ v => Value.weightOn b v) r.assignments := h b
    have hset := Table.sumAt_eq_zero_iff hpos (k := b)
    rw [List.forall_mem_map] at hset
    rw [← hset, hrun, Keyspace.drift, Keyspace.weightOn, total_hsetnxAll, hb]
    constructor <;> intro hz <;> linarith
  rw [balanced_iff_drift]
  simp only [hdrift]
  constructor
  · intro hall k e hk hok
    by_contra hfree
    have hfree : r.assignments.lookup k = none := Option.not_isSome_iff_eq_none.1 hfree
    have hmem := (Table.mem_insertNew (g := bulkValue now) hnodup).2
      ⟨List.mem_filter.2 ⟨Table.mem_pairs.2 hk, hok⟩, hfree⟩
    exact hall e.backend _ hmem rfl
  · intro hall b p hp
    obtain ⟨hmem, hfree⟩ := (Table.mem_insertNew hnodup).1 hp
    obtain ⟨hpair, hok⟩ := List.mem_filter.1 hmem
    have hsome := hall p.1 p.2 (Table.mem_pairs.1 hpair) hok
    rw [hfree] at hsome
    exact absurd hsome Bool.false_ne_true

theorem balanced_bulkAssign_iff {entries : Table RoutingKey BulkAssignEntry} (h : r.Balanced) :
    ((Write.bulkAssign now entries).run v r).Balanced ↔
      (Write.bulkAssign now entries).Harmless v r := by
  have hall : entries.pairs.all (fun p => v.hsetnx p.1) = true ↔
      ∀ k e, entries.lookup k = some e → v.hsetnx k = true := by
    rw [List.all_eq_true]
    exact ⟨fun hp k e hk => hp (k, e) (Table.mem_pairs.2 hk),
      fun hk p hp => hk p.1 p.2 (Table.mem_pairs.1 hp)⟩
  by_cases hset : entries.pairs.all (fun p => v.hsetnx p.1) = true
  · exact iff_of_true (balanced_bulkAssign_of_set h hset) (.inl (hall.1 hset))
  · refine (balanced_bulkAssign_iff_of_not_set h hset).trans ⟨.inr, fun hharmless => ?_⟩
    exact hharmless.resolve_left fun hset' => hset (hall.2 hset')

/-! ## Any call -/

/-- **When failed commands make the counts drift.** A call alone on a
balanced table leaves a balanced one exactly when its failures cancel
out. -/
theorem balanced_run_iff_harmless {w : Write} (h : r.Balanced) (hdistinct : w.Distinct) :
    (w.run v r).Balanced ↔ w.Harmless v r := by
  cases w with
  | deleteAssignment k => exact balanced_deleteAssignment_iff h
  | bulkAssign now entries => exact balanced_bulkAssign_iff h
  | bulkDeleteAssignments keys => exact balanced_bulkDeleteAssignments_iff h hdistinct

/-- An account of weight five on one backend and one of weight two on
another, counted. -/
def countedAccounts : Keyspace :=
  (bulkAssign 1 (Table.insertAll ∅ [("u", ⟨"b1", 5⟩), ("v", ⟨"b2", 2⟩)]) .empty).2

theorem balanced_countedAccounts : countedAccounts.Balanced := by
  have hrun : Run.exec step .empty
      [.bulkAssign 1 (Table.insertAll ∅ [("u", ⟨"b1", 5⟩), ("v", ⟨"b2", 2⟩)])] =
        some countedAccounts := rfl
  exact balanced_of_exec hrun

/-- A delete none of whose writes went through leaves the counts right, and
so do a bulk assignment that is refused the one account that is new and one
that cannot count what it has set. A delete that cannot count one of two
backends does not. -/
theorem balanced_run_iff_harmless_countedAccounts :
    ((Write.bulkDeleteAssignments ["u", "v", "x"]).run
        { Verdicts.served with hdel := false, hincrby := fun _ => false }
        countedAccounts).Balanced ∧
    ((Write.bulkAssign 2 (Table.insertAll ∅ [("u", ⟨"b2", 1⟩), ("w", ⟨"b2", 1⟩)])).run
        { Verdicts.served with hsetnx := fun k => k ≠ "w" } countedAccounts).Balanced ∧
    ((Write.bulkAssign 2 (Table.insertAll ∅ [("w", ⟨"b2", 1⟩)])).run
        { Verdicts.served with hincrby := fun _ => false } countedAccounts).Balanced ∧
    ¬ ((Write.bulkDeleteAssignments ["u", "v"]).run
        { Verdicts.served with hincrby := fun b => b = "b1" } countedAccounts).Balanced := by
  refine ⟨(balanced_run_iff_harmless balanced_countedAccounts ?_).2 ?_,
    (balanced_run_iff_harmless balanced_countedAccounts ?_).2 (Or.inr ?_),
    (balanced_run_iff_harmless balanced_countedAccounts ?_).2 (Or.inl ?_), fun h => ?_⟩
  · simp [Write.Distinct]
  · exact fun _ _ _ _ _ => rfl
  · trivial
  · intro k e hk hset
    rcases Table.lookup_insertAll_cases hk with hmem | hnone
    · have hcases : k = "u" ∨ k = "w" := by
        simpa using List.mem_map_of_mem (f := Prod.fst) hmem
      rcases hcases with rfl | rfl
      · decide
      · exact absurd hset (by decide)
    · cases hnone
  · trivial
  · exact fun _ _ _ => rfl
  · have hharmless := (balanced_run_iff_harmless balanced_countedAccounts
      (by simp [Write.Distinct])).1 h
    exact absurd (hharmless "v" (by decide) ⟨"b2", 1, "assignment", 2⟩ rfl rfl) (by decide)

/-- One account of weight five on one backend, counted. -/
def countedAccount : Keyspace := (bulkAssign 1 (Table.insertAll ∅ [("u", ⟨"b1", 5⟩)]) .empty).2

theorem balanced_countedAccount : countedAccount.Balanced := by
  have hrun : Run.exec step .empty [.bulkAssign 1 (Table.insertAll ∅ [("u", ⟨"b1", 5⟩)])] =
      some countedAccount := rfl
  exact balanced_of_exec hrun

/-- **Every one of the three calls can make the counts drift.** A delete
whose `HDEL` fails has taken the weight off the count, one whose `HINCRBY`
fails has left it there, and a bulk assignment of two accounts that cannot
set the second returns without counting the first. -/
theorem failed_commands_drift :
    countedAccount.Balanced ∧
    ¬ ((Write.deleteAssignment "u").run
        { Verdicts.served with hdel := false } countedAccount).Balanced ∧
    ¬ ((Write.bulkDeleteAssignments ["u"]).run
        { Verdicts.served with hincrby := fun _ => false } countedAccount).Balanced ∧
    ¬ ((Write.bulkAssign 2 (Table.insertAll ∅ [("v", ⟨"b1", 5⟩), ("w", ⟨"b2", 1⟩)])).run
        { Verdicts.served with hsetnx := fun k => k ≠ "w" } countedAccount).Balanced :=
  ⟨balanced_countedAccount, fun h => absurd (h "b1") (by decide),
    fun h => absurd (h "b1") (by decide), fun h => absurd (h "b1") (by decide)⟩

end Redis

end StickyProxy
