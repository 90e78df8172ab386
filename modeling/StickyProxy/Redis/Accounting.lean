import StickyProxy.Redis.Model.Keyspace
import StickyProxy.Common.Run
/-!
# Redis — weight accounting, one operation at a time

`assignment:counts` is meant to hold, for every backend, the effective
weight of the assignments to it. The gap between the two is the drift of
the keyspace. Every operation keeps the drift as it is, and a recount
closes it, so a history that starts from the empty table never opens it.
-/

namespace StickyProxy

namespace Redis

variable {r : Keyspace} {k : RoutingKey} {b : Backend} {now : Time} {members : List Backend}

/-- How far a count is off the weight of the assignments it counts. -/
def Keyspace.drift (r : Keyspace) (b : Backend) : ℤ := r.counts.value b - r.weightOn b

/-- Every count is the effective weight of the assignments to its
backend. -/
def Keyspace.Balanced (r : Keyspace) : Prop := ∀ b, r.counts.value b = r.weightOn b

theorem balanced_iff_drift : r.Balanced ↔ ∀ b, r.drift b = 0 :=
  forall_congr' fun _ => sub_eq_zero.symm

/-! ## What the values weigh -/

theorem weightOn_fresh (selected : Backend) :
    (Value.record ⟨selected, now, "assignment", some 1⟩).weightOn b =
      if selected = b then 1 else 0 := by
  simp [Value.weightOn, unmarshalAssignment, Assignment.effectiveWeight]

theorem weightOn_record (d : Record) :
    (Value.record d).weightOn b = if d.backend = b then d.staleWeight else 0 := by
  rw [Value.weightOn_of_unmarshal (v := .record d) rfl, staleWeight_eq_effectiveWeight rfl]

theorem weightOn_bulkValue (e : BulkAssignEntry) :
    (bulkValue now e).weightOn b = if e.backend = b then e.storedWeight else 0 := by
  rw [bulkValue, Value.weightOn_of_unmarshal (unmarshalAssignment_marshalAssignment _),
    Assignment.effectiveWeight_of_pos e.one_le_storedWeight]

/-! ## The script -/

theorem drift_assignNew (hk : r.assignments.lookup k = none) :
    (assignNew members now k r).2.drift b = r.drift b := by
  unfold assignNew
  rcases leastLoaded r.counts members with - | selected
  · rfl
  · simp only [Keyspace.drift, Keyspace.weightOn, Table.value_bump, Table.total_insert,
      Table.share_of_lookup_none hk, weightOn_fresh]
    ring

/-- Dropping a stale assignment takes its weight off the hash and off
the count. -/
theorem drift_dropStale {d : Record} (hk : r.assignments.lookup k = some (.record d)) :
    (dropStale k d r).drift b = r.drift b := by
  simp only [dropStale, Keyspace.drift, Keyspace.weightOn, Table.value_bump, Table.total_erase,
    Table.share_of_lookup hk, weightOn_record]
  split <;> ring

/-- **The script keeps the drift**, whether it finds, drops or makes an
assignment. -/
theorem drift_assignScript : (assignScript members now k r).2.drift b = r.drift b := by
  unfold assignScript
  rcases hk : r.assignments.lookup k with - | ⟨d⟩ | text
  · exact drift_assignNew hk
  · dsimp only
    split
    · rfl
    · rw [drift_assignNew (by simp [dropStale]), drift_dropStale hk]
  · rfl

theorem drift_assignViaTable : (assignViaTable members now k r).2.drift b = r.drift b :=
  drift_assignScript

/-! ## The Go operations -/

theorem drift_deleteAssignment : (deleteAssignment k r).2.drift b = r.drift b := by
  unfold deleteAssignment
  rcases ha : getAssignment k r with - | a
  · rfl
  · obtain ⟨v, hv, hva⟩ := Option.bind_eq_some_iff.1 ha
    simp only [Keyspace.drift, Keyspace.weightOn, Table.value_bump, Table.total_erase,
      Table.share_of_lookup hv, Value.weightOn_of_unmarshal hva]
    split <;> ring

/-- `HSETNX` adds to the hash what the entries it set weigh. -/
theorem total_hsetnxAll (l : List (RoutingKey × BulkAssignEntry)) (t : Table RoutingKey Value) :
    Table.total (fun _ v => v.weightOn b) (hsetnxAll now l t).2 =
      Table.total (fun _ v => v.weightOn b) t +
        Table.sumAt ((hsetnxAll now l t).1.map fun p => (p.2.backend, p.2.storedWeight)) b := by
  rw [hsetnxAll, Table.total_insertNew, Table.sumAt_map]
  simp only [weightOn_bulkValue]

theorem drift_bulkAssign (entries : Table RoutingKey BulkAssignEntry) :
    (bulkAssign now entries r).2.drift b = r.drift b := by
  simp only [bulkAssign, Keyspace.drift, Keyspace.weightOn, Table.value_bumpAll_pairs,
    Table.value_gather, total_hsetnxAll]
  ring

theorem mem_readAll {keys : List RoutingKey} {a : Assignment} :
    (k, a) ∈ readAll keys r ↔ k ∈ keys ∧ getAssignment k r = some a := by
  simp only [readAll, List.mem_filterMap, Option.map_eq_some_iff, Prod.mk.injEq]
  constructor
  · rintro ⟨k', hk', a', ha', rfl, rfl⟩
    exact ⟨hk', ha'⟩
  · rintro ⟨hk, ha⟩
    exact ⟨k, hk, a, ha, rfl, rfl⟩

theorem readAll_cons (k : RoutingKey) (keys : List RoutingKey) :
    readAll (k :: keys) r =
      ((getAssignment k r).map fun a => (k, a)).toList ++ readAll keys r := by
  unfold readAll
  rcases h : getAssignment k r with - | a <;> simp [h]

/-- Distinct keys are read into distinct keys. -/
theorem nodup_readAll {keys : List RoutingKey} (hkeys : keys.Nodup) :
    ((readAll keys r).map Prod.fst).Nodup := by
  induction keys with
  | nil => exact List.nodup_nil
  | cons k keys ih =>
    obtain ⟨hk, hkeys⟩ := List.nodup_cons.1 hkeys
    rw [readAll_cons]
    rcases getAssignment k r with - | a
    · exact ih hkeys
    · refine List.nodup_cons.2 ⟨fun h => ?_, ih hkeys⟩
      obtain ⟨⟨k', a'⟩, hmem, heq⟩ := List.mem_map.1 h
      have heq : k' = k := heq
      exact hk (heq ▸ (mem_readAll.1 hmem).1)

/-- What was read under a key is what the key adds to the hash. -/
theorem share_of_getAssignment {a : Assignment} (h : getAssignment k r = some a) :
    Table.share (fun _ v => Value.weightOn b v) r.assignments k =
      if a.backend = b then a.effectiveWeight else 0 := by
  obtain ⟨v, hv, hva⟩ := Option.bind_eq_some_iff.1 h
  rw [Table.share_of_lookup hv, Value.weightOn_of_unmarshal hva]

theorem sumAt_decrements (read : List (RoutingKey × Assignment)) :
    Table.sumAt (decrements read) b =
      -(read.map fun p => if p.2.backend = b then p.2.effectiveWeight else 0).sum := by
  rw [decrements, Table.sumAt_map_neg, Table.sumAt_pairs, Table.value_gather, Table.sumAt_map]

theorem decrements_singleton (k : RoutingKey) (a : Assignment) :
    decrements [(k, a)] = [(a.backend, -a.effectiveWeight)] := by
  simp [decrements, Table.gather, Table.bumpAll, Table.bump, Table.pairs]

/-- The key still holds an assignment that weighs what `a` weighs, on the
backend of `a`. -/
def Holds (r : Keyspace) (k : RoutingKey) (a : Assignment) : Prop :=
  ∃ a', getAssignment k r = some a' ∧ a'.backend = a.backend ∧
    a'.effectiveWeight = a.effectiveWeight

/-- The keys a delete removes, while they still hold what it read, weigh
what it takes off the counts. -/
theorem total_eraseAll_read {read : List (RoutingKey × Assignment)}
    (hnodup : (read.map Prod.fst).Nodup) (hread : ∀ p ∈ read, Holds r p.1 p.2) :
    Table.total (fun _ v => v.weightOn b) (r.assignments.eraseAll (read.map Prod.fst)) =
      r.weightOn b + Table.sumAt (decrements read) b := by
  rw [Table.total_eraseAll _ hnodup, sumAt_decrements, List.map_map, Keyspace.weightOn,
    ← sub_eq_add_neg]
  congr 2
  refine List.map_congr_left fun p hp => ?_
  obtain ⟨a, ha, hab, haw⟩ := hread p hp
  rw [← hab, ← haw]
  exact share_of_getAssignment ha

theorem drift_bulkDeleteAssignments {keys : List RoutingKey} (hkeys : keys.Nodup) :
    (bulkDeleteAssignments keys r).drift b = r.drift b := by
  have h := total_eraseAll_read (b := b) (r := r) (nodup_readAll hkeys)
    fun p hp => ⟨p.2, (mem_readAll.1 hp).2, rfl, rfl⟩
  simp only [bulkDeleteAssignments, Keyspace.drift, Keyspace.weightOn, Table.value_bumpAll]
  rw [h, Keyspace.weightOn]
  ring

/-- The weight on a backend, added up over what decodes. -/
theorem weightOn_eq_total : r.weightOn b = Table.total
    (fun _ (a : Assignment) => if a.backend = b then a.effectiveWeight else 0)
    (getAllAssignments r) := by
  rw [getAllAssignments, Table.total_mapPartial, Keyspace.weightOn]
  congr 1
  funext k v
  rw [Value.weightOn]
  rcases unmarshalAssignment v with - | a <;> rfl

/-- The totals of a recount are the weights of the hash. -/
theorem value_recount : (recount r).value b = r.weightOn b := by
  rw [recount, Table.value_gather, weightOn_eq_total]
  exact Table.sumAt_map_pairs (fun _ a => (a.backend, a.effectiveWeight)) (getAllAssignments r) b

/-- **A recount closes the drift**, whatever it was. -/
theorem balanced_reconcileAssignmentCounts (r : Keyspace) :
    (reconcileAssignmentCounts r).Balanced := by
  intro b
  have h : (reconcileAssignmentCounts r).counts.value b = (recount r).value b := by
    simp only [reconcileAssignmentCounts, Table.value, Table.lookup_insertAll_pairs,
      AList.lookup_empty, Option.or_none]
  rw [h, value_recount]
  rfl

/-! ## Histories -/

/-- **No operation opens a drift.** -/
theorem balanced_step {r' : Keyspace} {op : Op} (h : r.Balanced) (hstep : step r op = some r') :
    r'.Balanced := by
  have hkeep : ∀ {t : Keyspace}, (∀ b, t.drift b = r.drift b) → t.Balanced := fun ht =>
    balanced_iff_drift.2 fun b => (ht b).trans (balanced_iff_drift.1 h b)
  cases op with
  | addBackend b =>
    obtain rfl := Option.some.inj hstep
    exact h
  | removeBackend b =>
    obtain rfl := Option.some.inj hstep
    exact h
  | assignViaTable members now k =>
    obtain ⟨-, hr'⟩ := Option.ite_none_right_eq_some.1 hstep
    obtain rfl := Option.some.inj hr'
    exact hkeep fun b => drift_assignViaTable
  | deleteAssignment k =>
    obtain rfl := Option.some.inj hstep
    exact hkeep fun b => drift_deleteAssignment
  | bulkAssign now entries =>
    obtain rfl := Option.some.inj hstep
    exact hkeep fun b => drift_bulkAssign entries
  | bulkDeleteAssignments keys =>
    obtain ⟨hkeys, hr'⟩ := Option.ite_none_right_eq_some.1 hstep
    obtain rfl := Option.some.inj hr'
    exact hkeep fun b => drift_bulkDeleteAssignments hkeys
  | reconcileAssignmentCounts =>
    obtain rfl := Option.some.inj hstep
    exact balanced_reconcileAssignmentCounts r

/-- Every history from the empty table leaves a balanced one. -/
theorem balanced_of_exec {ops : List Op} (hrun : Run.exec step .empty ops = some r) : r.Balanced :=
  Run.exec_invariant_of_forall (fun _ _ _ => balanced_step) (fun _ => rfl) hrun

/-- **Weight accounting.** After every history from the empty table each
count is the effective weight of the assignments to its backend, and a
recount makes it so from any table. -/
theorem counts_eq_weightOn :
    (∀ (ops : List Op) (r : Keyspace), Run.exec step .empty ops = some r →
      ∀ b, r.counts.value b = r.weightOn b) ∧
    ∀ (r : Keyspace), (∀ k v, r.assignments.lookup k = some v → (unmarshalAssignment v).isSome) →
      ∀ b, (reconcileAssignmentCounts r).counts.value b =
        (reconcileAssignmentCounts r).weightOn b :=
  ⟨fun _ _ hrun => balanced_of_exec hrun, fun r _ => balanced_reconcileAssignmentCounts r⟩

/-- Two accounts of one bulk assignment, one of them without a weight, and
a third that moves when its backend goes. -/
def movingHistory : List Op :=
  [.addBackend "b1", .bulkAssign 1 (Table.insertAll ∅ [("u", ⟨"b1", 5⟩), ("v", ⟨"b1", -2⟩)]),
    .assignViaTable ["b1"] 2 "w", .addBackend "b2", .removeBackend "b1",
    .assignViaTable ["b2"] 3 "w", .bulkDeleteAssignments ["u", "x"]]

theorem counts_eq_weightOn_movingHistory :
    ∃ r, Run.exec step .empty movingHistory = some r ∧ r.counts.value "b1" = 1 ∧
      r.counts.value "b2" = 1 ∧ r.counts.value "b1" = r.weightOn "b1" ∧
      (reconcileAssignmentCounts .empty).counts.value "b1" =
        (reconcileAssignmentCounts .empty).weightOn "b1" :=
  ⟨_, rfl, rfl, rfl, counts_eq_weightOn.1 movingHistory _ rfl "b1",
    counts_eq_weightOn.2 .empty (fun k v hv => by simp [Keyspace.empty] at hv) "b1"⟩

end Redis

end StickyProxy
