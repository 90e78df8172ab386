import StickyProxy.Redis.Accounting
/-!
# Redis — what each operation leaves under a key

One lemma for each operation: the assignment every key reads back after
it, and for the script also the answer and which backend it chose. The
counters are the business of the accounting; here they matter only as
what the script selects by.
-/

namespace StickyProxy

namespace Redis

variable {r : Keyspace} {k k' : RoutingKey} {now : Time} {members : List Backend}

/-- Every value of the hash is the JSON of an assignment. -/
def Keyspace.Decodes (r : Keyspace) : Prop :=
  ∀ k v, r.assignments.lookup k = some v → (unmarshalAssignment v).isSome

theorem getAssignment_isSome (h : r.Decodes) :
    (getAssignment k r).isSome = (r.assignments.lookup k).isSome := by
  rw [getAssignment]
  rcases hk : r.assignments.lookup k with - | v
  · rfl
  · exact h k v hk

theorem lookup_getAllAssignments (r : Keyspace) (k : RoutingKey) :
    (getAllAssignments r).lookup k = getAssignment k r :=
  Table.lookup_mapPartial _ _ k

theorem mem_getBackendUsers {b : Backend} :
    k ∈ getBackendUsers b r ↔ ∃ a, getAssignment k r = some a ∧ a.backend = b := by
  simp only [getBackendUsers, List.mem_map, List.mem_filter, decide_eq_true_eq, Prod.exists,
    Table.mem_pairs, lookup_getAllAssignments]
  constructor
  · rintro ⟨k', a, ⟨ha, hb⟩, rfl⟩
    exact ⟨a, ha, hb⟩
  · rintro ⟨a, ha, hb⟩
    exact ⟨k, a, ⟨ha, hb⟩, rfl⟩

/-! ## The script -/

/-- The assignment the script makes. -/
def freshAssignment (b : Backend) (now : Time) : Assignment := ⟨b, now, "assignment", 1⟩

/-- The script's selection: none from no members, else a member that no
member is below. -/
theorem leastLoaded_cases (counts : Table Backend ℤ) (members : List Backend) :
    (members = [] ∧ leastLoaded counts members = none) ∨
      ∃ b ∈ members, (∀ c ∈ members, counts.value b ≤ counts.value c) ∧
        leastLoaded counts members = some b := by
  rcases h : leastLoaded counts members with - | b
  · exact Or.inl ⟨Table.least_eq_none.1 h, rfl⟩
  · obtain ⟨hb, hle, -⟩ := Table.least_eq_some.1 h
    exact Or.inr ⟨b, hb, hle, rfl⟩

/-- The selection reads the counts of the members only. -/
theorem leastLoaded_congr {counts counts' : Table Backend ℤ}
    (h : ∀ c ∈ members, counts.value c = counts'.value c) :
    leastLoaded counts members = leastLoaded counts' members := by
  refine Option.ext fun b => ?_
  rw [leastLoaded, leastLoaded, Table.least_eq_some, Table.least_eq_some]
  refine and_congr_right fun hb => ?_
  refine and_congr (forall₂_congr fun c hc => by rw [h b hb, h c hc])
    (forall₂_congr fun c hc => by rw [h b hb, h c hc])

/-- Parts 2 to 4: the key is assigned to the selection. -/
theorem assignNew_of_some (now : Time) (k : RoutingKey) {b : Backend}
    (h : leastLoaded r.counts members = some b) :
    ((assignNew members now k r).1.bind unmarshalAssignment = some (freshAssignment b now)) ∧
      (assignNew members now k r).2.active = r.active ∧
      ∀ k', getAssignment k' (assignNew members now k r).2 =
        if k' = k then some (freshAssignment b now) else getAssignment k' r := by
  have heq : assignNew members now k r = (some (.record ⟨b, now, "assignment", some 1⟩), { r with
      assignments := r.assignments.insert k (.record ⟨b, now, "assignment", some 1⟩)
      counts := r.counts.bump b 1 }) := by
    simp only [assignNew, h]
  rw [heq]
  refine ⟨rfl, rfl, fun k' => ?_⟩
  rw [getAssignment, Table.lookup_insert_eq]
  by_cases hk : k' = k
  · rw [if_pos hk, if_pos hk]
    rfl
  · rw [if_neg hk, if_neg hk, getAssignment]

theorem assignNew_of_none (h : leastLoaded r.counts members = none) :
    assignNew members now k r = (none, r) := by
  simp only [assignNew, h]

theorem getAssignment_dropStale (d : Record) (k' : RoutingKey) :
    getAssignment k' (dropStale k d r) = if k' = k then none else getAssignment k' r := by
  rw [getAssignment, dropStale, Table.lookup_erase_eq]
  by_cases hk : k' = k
  · rw [if_pos hk, if_pos hk]
    rfl
  · rw [if_neg hk, if_neg hk, getAssignment]

/-- The counts of the active backends are not touched when an assignment
to an inactive one is dropped. -/
theorem value_dropStale {d : Record} (hd : d.backend ∉ r.active) {c : Backend}
    (hc : c ∈ r.active) : (dropStale k d r).counts.value c = r.counts.value c := by
  have hne : d.backend ≠ c := fun h => hd (h ▸ hc)
  simp only [dropStale, Table.value_bump, if_neg hne, add_zero]

/-- The script writes one field of the hash. -/
theorem lookup_assignNew_of_ne {k' : RoutingKey} (h : k' ≠ k) :
    (assignNew members now k r).2.assignments.lookup k' = r.assignments.lookup k' := by
  unfold assignNew
  rcases leastLoaded r.counts members with - | b
  · rfl
  · exact (Table.lookup_insert_eq _ _ _ _).trans (if_neg h)

theorem lookup_assignViaTable_of_ne {k' : RoutingKey} (h : k' ≠ k) :
    (assignViaTable members now k r).2.assignments.lookup k' = r.assignments.lookup k' := by
  simp only [assignViaTable, assignScript]
  rcases r.assignments.lookup k with - | ⟨d⟩ | text
  · exact lookup_assignNew_of_ne h
  · dsimp only
    split
    · rfl
    · rw [lookup_assignNew_of_ne h, dropStale, Table.lookup_erase_eq, if_neg h]
  · rfl

/-- What `AssignViaTable` does and answers. -/
inductive Assigns (members : List Backend) (k : RoutingKey) (now : Time) (r : Keyspace) :
    Option Assignment → Keyspace → Prop
  /-- The key is on an active backend and stays there. -/
  | keep {a : Assignment} : getAssignment k r = some a → a.backend ∈ r.active →
      Assigns members k now r (some a) r
  /-- The value does not decode. -/
  | corrupt {v : Value} : r.assignments.lookup k = some v → unmarshalAssignment v = none →
      Assigns members k now r none r
  /-- No backend is active; the key is left without an assignment. -/
  | refuse {r' : Keyspace} : r.active = ∅ → r'.active = r.active →
      (∀ k', getAssignment k' r' = if k' = k then none else getAssignment k' r) →
      Assigns members k now r none r'
  /-- The key is assigned to an active backend of least count. -/
  | assign {r' : Keyspace} {b : Backend} :
      (∀ a, getAssignment k r = some a → a.backend ∉ r.active) →
      leastLoaded r.counts members = some b → b ∈ r.active →
      (∀ c ∈ r.active, r.counts.value b ≤ r.counts.value c) → r'.active = r.active →
      (∀ k', getAssignment k' r' =
        if k' = k then some (freshAssignment b now) else getAssignment k' r) →
      Assigns members k now r (some (freshAssignment b now)) r'

/-- A key that was not assigned, or is no longer, goes through parts 2 to
4 of the script. -/
theorem assigns_assignNew {r₀ : Keyspace} (hm : Enumerates members r.active)
    (hactive : r.active = r₀.active)
    (hcounts : ∀ c ∈ r₀.active, r.counts.value c = r₀.counts.value c)
    (hstale : ∀ a, getAssignment k r₀ = some a → a.backend ∉ r₀.active)
    (hk : ∀ k', getAssignment k' r = if k' = k then none else getAssignment k' r₀) :
    Assigns members k now r₀ ((assignNew members now k r).1.bind unmarshalAssignment)
      (assignNew members now k r).2 := by
  rcases leastLoaded_cases r.counts members with ⟨hnil, hnone⟩ | ⟨b, hb, hleast, hsome⟩
  · rw [assignNew_of_none hnone]
    have hempty : r₀.active = ∅ := by rw [← hactive, ← hm.2, hnil]; rfl
    exact .refuse hempty hactive hk
  · obtain ⟨hans, hact, hget⟩ := assignNew_of_some now k hsome
    rw [hans]
    have hselect : leastLoaded r₀.counts members = some b := by
      rw [← hsome]
      exact (leastLoaded_congr fun c hc => hcounts c (hactive ▸ hm.mem.1 hc)).symm
    refine .assign hstale hselect (hactive ▸ hm.mem.1 hb) (fun c hc => ?_) (hact.trans hactive)
      fun k' => ?_
    · rw [← hcounts b (hactive ▸ hm.mem.1 hb), ← hcounts c hc]
      exact hleast c (hm.mem.2 (hactive ▸ hc))
    · rw [hget]
      by_cases hk' : k' = k
      · rw [if_pos hk', if_pos hk']
      · rw [if_neg hk', if_neg hk', hk, if_neg hk']

/-- **`AssignViaTable`**, in all its cases. -/
theorem assigns_assignViaTable (k : RoutingKey) (now : Time) (hm : Enumerates members r.active) :
    Assigns members k now r (assignViaTable members now k r).1
      (assignViaTable members now k r).2 := by
  have hget : getAssignment k r = (r.assignments.lookup k).bind unmarshalAssignment := rfl
  simp only [assignViaTable, assignScript]
  rcases hk : r.assignments.lookup k with - | ⟨d⟩ | text
  all_goals rw [hk] at hget
  · refine assigns_assignNew hm rfl (fun _ _ => rfl) (fun a ha => ?_) fun k' => ?_
    · rw [hget] at ha
      cases ha
    · by_cases hk' : k' = k
      · rw [if_pos hk', hk', hget]
        rfl
      · rw [if_neg hk']
  · dsimp only
    by_cases hd : d.backend ∈ r.active
    · rw [if_pos hd]
      exact .keep hget hd
    · rw [if_neg hd]
      refine assigns_assignNew hm rfl (fun c hc => value_dropStale hd hc) (fun a ha => ?_)
        (getAssignment_dropStale d)
      rw [hget] at ha
      obtain rfl := Option.some.inj ha
      exact hd
  · exact .corrupt hk rfl

/-- An answer is the assignment the key had, or one to the selection. -/
theorem Assigns.answer_cases {a : Assignment} {r' : Keyspace}
    (h : Assigns members k now r (some a) r') :
    (getAssignment k r = some a ∧ a.backend ∈ r.active) ∨
      ((∀ a, getAssignment k r = some a → a.backend ∉ r.active) ∧
        leastLoaded r.counts members = some a.backend ∧ a.backend ∈ r.active ∧
        ∀ c ∈ r.active, r.counts.value a.backend ≤ r.counts.value c) := by
  cases h with
  | keep hk hb => exact Or.inl ⟨hk, hb⟩
  | assign hstale hsel hb hleast _ _ => exact Or.inr ⟨hstale, hsel, hb, hleast⟩

/-! ## The bulk operations -/

theorem unmarshalAssignment_bulkValue (e : BulkAssignEntry) :
    unmarshalAssignment (bulkValue now e) = some ⟨e.backend, now, "assignment", e.storedWeight⟩ :=
  unmarshalAssignment_marshalAssignment _

theorem getAssignment_bulkAssign (h : r.Decodes) (entries : Table RoutingKey BulkAssignEntry)
    (k : RoutingKey) :
    getAssignment k (bulkAssign now entries r).2 =
      (getAssignment k r).or ((entries.lookup k).map fun e =>
        ⟨e.backend, now, "assignment", e.storedWeight⟩) := by
  have hlook : (bulkAssign now entries r).2.assignments.lookup k =
      (r.assignments.lookup k).or ((entries.lookup k).map (bulkValue now)) :=
    Table.lookup_insertNew_pairs _ _ k
  rw [getAssignment, getAssignment, hlook]
  rcases hk : r.assignments.lookup k with - | v
  · rcases entries.lookup k with - | e
    · rfl
    · exact unmarshalAssignment_bulkValue e
  · obtain ⟨a, ha⟩ := Option.isSome_iff_exists.1 (h k v hk)
    simp only [Option.some_or, Option.bind_some, ha]

theorem lookup_bulkAssign_answer (entries : Table RoutingKey BulkAssignEntry) (k : RoutingKey) :
    (bulkAssign now entries r).1.lookup k =
      if (r.assignments.lookup k).isSome then none else (entries.lookup k).map (·.backend) :=
  Table.lookup_insertAll_insertNew _ _ _ k

theorem mem_map_fst_readAll {keys : List RoutingKey} :
    k ∈ (readAll keys r).map Prod.fst ↔ k ∈ keys ∧ (getAssignment k r).isSome := by
  rw [List.mem_map]
  constructor
  · rintro ⟨⟨k', a⟩, hmem, rfl⟩
    obtain ⟨hk, ha⟩ := mem_readAll.1 hmem
    exact ⟨hk, by rw [ha]; rfl⟩
  · rintro ⟨hk, ha⟩
    obtain ⟨a, ha⟩ := Option.isSome_iff_exists.1 ha
    exact ⟨(k, a), mem_readAll.2 ⟨hk, ha⟩, rfl⟩

theorem getAssignment_bulkDeleteAssignments (keys : List RoutingKey) (k : RoutingKey) :
    getAssignment k (bulkDeleteAssignments keys r) =
      if k ∈ keys then none else getAssignment k r := by
  have hlook : getAssignment k (bulkDeleteAssignments keys r) =
      (if k ∈ (readAll keys r).map Prod.fst then none else r.assignments.lookup k).bind
        unmarshalAssignment := by
    rw [getAssignment, bulkDeleteAssignments, Table.lookup_eraseAll]
  rw [hlook]
  by_cases hread : k ∈ (readAll keys r).map Prod.fst
  · rw [if_pos hread, if_pos (mem_map_fst_readAll.1 hread).1]
    rfl
  · rw [if_neg hread]
    split
    · rename_i hk
      have hnone := fun ha => hread (mem_map_fst_readAll.2 ⟨hk, ha⟩)
      exact Option.not_isSome_iff_eq_none.1 hnone
    · rfl

/-! ## The hash stays decodable -/

theorem decodes_empty : Keyspace.empty.Decodes := fun _ _ h => absurd h (by simp [Keyspace.empty])

theorem decodes_assignNew (h : r.Decodes) : (assignNew members now k r).2.Decodes := by
  unfold assignNew
  rcases leastLoaded r.counts members with - | b
  · exact h
  · intro k' v hv
    rw [Table.lookup_insert_eq] at hv
    split at hv
    · obtain rfl := Option.some.inj hv
      rfl
    · exact h k' v hv

theorem decodes_dropStale (h : r.Decodes) (d : Record) : (dropStale k d r).Decodes := by
  intro k' v hv
  rw [dropStale, Table.lookup_erase_eq] at hv
  split at hv
  · cases hv
  · exact h k' v hv

theorem decodes_assignViaTable (h : r.Decodes) : (assignViaTable members now k r).2.Decodes := by
  simp only [assignViaTable, assignScript]
  rcases r.assignments.lookup k with - | ⟨d⟩ | text
  · exact decodes_assignNew h
  · dsimp only
    split
    · exact h
    · exact decodes_assignNew (decodes_dropStale h d)
  · exact h

theorem decodes_bulkAssign (h : r.Decodes) (entries : Table RoutingKey BulkAssignEntry) :
    (bulkAssign now entries r).2.Decodes := by
  intro k v hv
  have hlook : (bulkAssign now entries r).2.assignments.lookup k =
      (r.assignments.lookup k).or ((entries.lookup k).map (bulkValue now)) :=
    Table.lookup_insertNew_pairs _ _ k
  rw [hlook, Option.or_eq_some_iff] at hv
  rcases hv with hv | ⟨-, hv⟩
  · exact h k v hv
  · obtain ⟨e, -, rfl⟩ := Option.map_eq_some_iff.1 hv
    rw [unmarshalAssignment_bulkValue]
    rfl

theorem decodes_bulkDeleteAssignments (h : r.Decodes) (keys : List RoutingKey) :
    (bulkDeleteAssignments keys r).Decodes := by
  intro k v hv
  rw [bulkDeleteAssignments, Table.lookup_eraseAll] at hv
  split at hv
  · cases hv
  · exact h k v hv

end Redis

end StickyProxy
