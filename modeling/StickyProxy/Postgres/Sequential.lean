import StickyProxy.Postgres.Accounting
/-!
# A session alone is its operation

The operations of `Model.Database` act at once; those of
`Model.Transactions` are sessions of statements that keep their writes to
themselves until they commit. Run with no other session open, a session
commits what its operation does. A transaction sees the committed rows
under its own: what it will have written is read off `Tx.rows` and
`Tx.countRows`, and each statement does to these what the operation does
to the tables.
-/

namespace StickyProxy

namespace Postgres

variable {d d' d₁ : Database} {tx : Tx} {ss ss' : Session} {now : Time}

/-- The databases answer every query alike. -/
structure Database.Same (d d' : Database) : Prop where
  backends : ∀ b, d.backends.lookup b = d'.backends.lookup b
  assignments : ∀ k, d.assignments.lookup k = d'.assignments.lookup k
  counts : ∀ b, d.counts.lookup b = d'.counts.lookup b

/-- Alone on the committed database `d`, the session may end and leave
what answers like `d'`. -/
def Session.Leaves (ss : Session) (d d' : Database) : Prop :=
  ∀ added, ∃ sched d₁ added', Run.exec System.step ⟨d, [ss], added⟩ sched =
    some ⟨d₁, [.closed], added'⟩ ∧ d₁.Same d'

theorem leaves_closed (h : d.Same d') : Session.closed.Leaves d d' := fun added =>
  ⟨[], d, added, rfl, h⟩

theorem leaves_step {c : Choice} {eff : Effect} (hnext : ss.next d [] c = some (ss', eff))
    (h : ss'.Leaves (eff.apply d) d') : ss.Leaves d d' := by
  intro added
  obtain ⟨sched, d₁, added', hrun, hsame⟩ := h (eff.added added)
  refine ⟨⟨0, c⟩ :: sched, d₁, added', Run.exec_cons_eq_some.2 ⟨_, ?_, hrun⟩, hsame⟩
  simp [System.step, hnext]

theorem Database.Same.trans (h : d.Same d₁) (h' : d₁.Same d') : d.Same d' :=
  ⟨fun b => (h.backends b).trans (h'.backends b), fun k => (h.assignments k).trans
    (h'.assignments k), fun b => (h.counts b).trans (h'.counts b)⟩

theorem Session.Leaves.same (h : ss.Leaves d d₁) (hsame : d₁.Same d') : ss.Leaves d d' := by
  intro added
  obtain ⟨sched, d₂, added', hrun, h₂⟩ := h added
  exact ⟨sched, d₂, added', hrun, h₂.trans hsame⟩

theorem Database.Same.refl (d : Database) : d.Same d :=
  ⟨fun _ => rfl, fun _ => rfl, fun _ => rfl⟩

/-! ## What a transaction will have written -/

/-- The assignment rows as they will be after the commit. -/
def Tx.rows (tx : Tx) (d : Database) (k : RoutingKey) : Option Assignment :=
  (tx.commit d).assignments.lookup k

/-- The count rows as they will be after the commit. -/
def Tx.countRows (tx : Tx) (d : Database) (b : Backend) : Option ℤ :=
  (tx.commit d).counts.lookup b

theorem countRows_eq (tx : Tx) (d : Database) (b : Backend) :
    tx.countRows d b = (tx.counts.lookup b).or (d.counts.lookup b) :=
  Table.lookup_insertAll_pairs d.counts tx.counts b

theorem rows_eq (tx : Tx) (d : Database) (k : RoutingKey) :
    tx.rows d k = (tx.inserted.lookup k).or
      (if (tx.deleted.lookup k).isSome then none else d.assignments.lookup k) := by
  have hmem : k ∈ tx.deleted.pairs.map Prod.fst ↔ (tx.deleted.lookup k).isSome := by
    rw [Option.isSome_iff_exists, List.mem_map]
    constructor
    · rintro ⟨⟨k', a⟩, hp, rfl⟩
      exact ⟨a, Table.mem_pairs.1 hp⟩
    · rintro ⟨a, ha⟩
      exact ⟨(k, a), Table.mem_pairs.2 ha, rfl⟩
  rw [Tx.rows, Tx.commit, Table.lookup_insertAll_pairs, Table.lookup_eraseAll]
  simp only [hmem]

theorem rows_insertRow (k k' : RoutingKey) (a : Assignment) :
    (tx.insertRow k a).rows d k' = if k' = k then some a else tx.rows d k' := by
  rw [rows_eq, rows_eq, Tx.insertRow, Table.lookup_insert_eq]
  split <;> rfl

theorem leaves_commit (h : (tx.commit d).Same d') : (Session.inTx tx .commit).Leaves d d' :=
  leaves_step (c := .proceed) rfl (leaves_closed h)

/-! ## The statements of a transaction -/

/-- The `UPDATE`s adjust the count rows. -/
theorem leaves_updateCounts {counts : Table Backend ℤ}
    {assignments : Table RoutingKey Assignment} (todo : List (Backend × ℤ))
    (hrows : ∀ k, tx.rows d k = assignments.lookup k)
    (hcounts : ∀ b, tx.countRows d b = counts.lookup b) :
    (Session.inTx tx (.updateCounts todo)).Leaves d
      { d with assignments := assignments, counts := counts.adjustAll todo } := by
  induction todo generalizing tx counts with
  | nil => exact leaves_step (c := .proceed) rfl (leaves_commit ⟨fun _ => rfl, hrows, hcounts⟩)
  | cons e todo ih =>
    obtain ⟨b, n⟩ := e
    have hfree : CountFree [] b := List.forall_mem_nil _
    have hnext : (Session.inTx tx (.updateCounts ((b, n) :: todo))).next d [] .proceed =
        some (.inTx (tx.updateCount d b n) (.updateCounts todo), .none) := by
      simp only [Session.next, Statement.next, if_pos hfree]
    refine leaves_step hnext (ih (fun k => ?_) fun c => ?_)
    · refine Eq.trans ?_ (hrows k)
      unfold Tx.updateCount
      split <;> rfl
    · have hb := hcounts b
      rw [countRows_eq] at hb
      rw [Table.lookup_adjust, ← hcounts c, countRows_eq, countRows_eq, Tx.updateCount, hb]
      rcases hv : counts.lookup b with - | v
      · by_cases hbc : b = c
        · subst hbc
          simp [hb, hv]
        · simp [hbc]
      · simp only [Table.lookup_insert_eq]
        by_cases hbc : c = b
        · subst hbc
          simp [hb, hv]
        · simp [hbc, Ne.symm hbc]

/-- The `INSERT` of `BulkAssign` fills in the keys that have no row. -/
theorem leaves_insertMany {assignments : Table RoutingKey Assignment}
    (todo : List (RoutingKey × BulkAssignEntry)) (countDeltas : Table Backend ℤ)
    (hdeleted : tx.deleted = ∅) (hcounts : tx.counts = ∅)
    (hrows : ∀ k, tx.rows d k = assignments.lookup k) :
    (Session.inTx tx (.insertMany now todo countDeltas)).Leaves d { d with
      assignments := (insertRows now todo assignments).2
      counts := d.counts.adjustAll (countDeltas.bumpAll ((insertRows now todo assignments).1.map
        fun p => (p.2.backend, p.2.storedWeight))).pairs } := by
  induction todo generalizing tx assignments countDeltas with
  | nil =>
    have hcountRows : ∀ b, tx.countRows d b = d.counts.lookup b := fun b => by
      rw [countRows_eq, hcounts]
      simp
    exact leaves_step (c := .proceed) rfl (leaves_updateCounts _ hrows hcountRows)
  | cons p todo ih =>
    obtain ⟨k, e⟩ := p
    have hfree : KeyFree [] k := List.forall_mem_nil _
    have hconflicts : tx.Conflicts d k ↔ (assignments.lookup k).isSome := by
      rw [← hrows k, rows_eq, hdeleted]
      cases htx : tx.inserted.lookup k <;> simp [Tx.Conflicts, htx]
    unfold insertRows
    by_cases hk : (assignments.lookup k).isSome
    · rw [Table.insertNew_cons_of_isSome hk]
      have hnext : (Session.inTx tx (.insertMany now ((k, e) :: todo) countDeltas)).next d []
          .proceed = some (.inTx tx (.insertMany now todo countDeltas), .none) := by
        simp only [Session.next, Statement.next, if_pos hfree, if_pos (hconflicts.2 hk)]
      exact leaves_step hnext (ih countDeltas hdeleted hcounts hrows)
    · rw [Table.insertNew_cons_of_eq_none (Option.not_isSome_iff_eq_none.1 hk)]
      have hnext : (Session.inTx tx (.insertMany now ((k, e) :: todo) countDeltas)).next d []
          .proceed = some (.inTx (tx.insertRow k (bulkRow now e))
            (.insertMany now todo (countDeltas.bump e.backend e.storedWeight)), .none) := by
        simp only [Session.next, Statement.next, if_pos hfree, if_neg fun h => hk (hconflicts.1 h)]
      refine leaves_step hnext (ih (countDeltas.bump e.backend e.storedWeight) hdeleted hcounts
        fun k' => ?_)
      rw [Table.lookup_insert_eq, ← hrows k', rows_insertRow]

/-- The rows a `DELETE` has taken, and their weight. -/
structure Deletes (d : Database) (keys : List RoutingKey) (tx : Tx)
    (countDeltas : Table Backend ℤ) : Prop where
  inserted : tx.inserted = ∅
  counts : tx.counts = ∅
  deleted : ∀ k, tx.deleted.lookup k = if k ∈ keys then d.assignments.lookup k else none
  deltas : ∀ b, countDeltas.value b = tx.deleted.total fun _ a => rowWeight b a

theorem Deletes.rows {keys : List RoutingKey} {countDeltas : Table Backend ℤ}
    (h : Deletes d keys tx countDeltas) (k : RoutingKey) :
    tx.rows d k = (d.assignments.eraseAll keys).lookup k := by
  rw [rows_eq, h.inserted, h.deleted, Table.lookup_eraseAll]
  by_cases hk : k ∈ keys
  · cases hlook : d.assignments.lookup k <;> simp [hk]
  · simp [hk]

/-- The amounts gathered are those the operation gathers. -/
theorem Deletes.value_eq {keys : List RoutingKey} {countDeltas : Table Backend ℤ}
    (h : Deletes d keys tx countDeltas) (b : Backend) :
    countDeltas.value b = (Table.gather ((deletedRows keys d).map
      fun p => (p.2.backend, p.2.weight))).value b := by
  have hsub : ∀ k a, tx.deleted.lookup k = some a → d.assignments.lookup k = some a :=
    fun k a ha => by
      rw [h.deleted] at ha
      exact (Option.ite_none_right_eq_some.1 ha).2
  have herase : (d.assignments.eraseAll (tx.deleted.pairs.map Prod.fst)).total
      (fun _ a => rowWeight b a) =
        (d.assignments.eraseAll keys).total fun _ a => rowWeight b a := by
    refine Table.total_congr _ fun k => ?_
    rw [← h.rows k, Tx.rows, Tx.commit, Table.lookup_insertAll_pairs, h.inserted]
    simp
  rw [Table.total_eraseAll_pairs _ hsub, Table.total_eraseAll_filter] at herase
  rw [h.deltas, Table.value_gather, Table.sumAt_map]
  exact sub_right_injective herase

/-- One key of a `DELETE`. -/
theorem Deletes.deleteRow {keys : List RoutingKey} {countDeltas : Table Backend ℤ}
    {k : RoutingKey} {a : Assignment} (h : Deletes d keys tx countDeltas) (hk : k ∉ keys)
    (ha : d.assignments.lookup k = some a) :
    Deletes d (keys ++ [k]) (tx.deleteRow k a) (countDeltas.bump a.backend a.weight) where
  inserted := h.inserted
  counts := h.counts
  deleted k' := by
    rw [Tx.deleteRow, Table.lookup_insert_eq, h.deleted]
    by_cases hkk : k' = k
    · subst hkk
      simp [ha]
    · simp [hkk]
  deltas b := by
    have hnone : tx.deleted.lookup k = none := by rw [h.deleted, if_neg hk]
    rw [Table.value_bump, h.deltas, Tx.deleteRow, Table.total_insert,
      Table.share_of_lookup_none hnone, sub_zero]
    rfl

/-- A key without a row, or with one already taken. -/
theorem Deletes.skip {keys : List RoutingKey} {countDeltas : Table Backend ℤ} {k : RoutingKey}
    (h : Deletes d keys tx countDeltas) (hk : k ∈ keys ∨ d.assignments.lookup k = none) :
    Deletes d (keys ++ [k]) tx countDeltas where
  inserted := h.inserted
  counts := h.counts
  deltas := h.deltas
  deleted k' := by
    rw [h.deleted]
    by_cases hkk : k' = k
    · subst hkk
      rcases hk with hk | hk <;> simp [hk]
    · simp [hkk]

/-- The `DELETE` takes the rows of its keys, each of them once. -/
theorem leaves_deleteMany {done : List RoutingKey} {countDeltas : Table Backend ℤ}
    (todo : List RoutingKey) (h : Deletes d done tx countDeltas) :
    (Session.inTx tx (.deleteMany todo countDeltas)).Leaves d
      (bulkDeleteAssignments (done ++ todo) d) := by
  induction todo generalizing tx done countDeltas with
  | nil =>
    rw [List.append_nil]
    have hcountRows : ∀ b, tx.countRows d b = d.counts.lookup b := fun b => by
      rw [countRows_eq, h.counts]
      simp
    refine leaves_step (c := .proceed) rfl
      ((leaves_updateCounts _ h.rows hcountRows).same ⟨fun _ => rfl, fun _ => rfl, fun b => ?_⟩)
    simp only [bulkDeleteAssignments, Table.lookup_adjustAll, Table.sumAt_map_neg,
      Table.sumAt_pairs, h.value_eq]
  | cons k todo ih =>
    have hfree : KeyFree [] k := List.forall_mem_nil _
    have happend : done ++ k :: todo = (done ++ [k]) ++ todo := by simp
    rw [happend]
    -- The rest of the keys, when this one has nothing to delete.
    have hskip : (k ∈ done ∨ d.assignments.lookup k = none) →
        (Session.inTx tx (.deleteMany (k :: todo) countDeltas)).next d [] .proceed =
          some (.inTx tx (.deleteMany todo countDeltas), .none) →
        (Session.inTx tx (.deleteMany (k :: todo) countDeltas)).Leaves d
          (bulkDeleteAssignments ((done ++ [k]) ++ todo) d) := fun hk hnext =>
      leaves_step hnext (ih (h.skip hk))
    rcases ha : d.assignments.lookup k with - | a
    · refine hskip (Or.inr ha) ?_
      simp only [Session.next, Statement.next, if_pos hfree, ha]
    by_cases hk : k ∈ done
    · have hdeleted : (tx.deleted.lookup k).isSome := by rw [h.deleted, if_pos hk, ha]; rfl
      refine hskip (Or.inl hk) ?_
      simp only [Session.next, Statement.next, if_pos hfree, ha, if_pos hdeleted]
    · have hdeleted : ¬ (tx.deleted.lookup k).isSome := by rw [h.deleted, if_neg hk]; simp
      have hnext : (Session.inTx tx (.deleteMany (k :: todo) countDeltas)).next d [] .proceed =
          some (.inTx (tx.deleteRow k a)
            (.deleteMany todo (countDeltas.bump a.backend a.weight)), .none) := by
        simp only [Session.next, Statement.next, if_pos hfree, ha, if_neg hdeleted]
      exact leaves_step hnext (ih (h.deleteRow hk ha))

/-! ## The operations -/

/-- What a call alone does, given the order the joined rows are read in. -/
def Op.run (rows : List Backend) (d : Database) : Op → Database
  | .addBackend b => Postgres.addBackend b d
  | .removeBackend b => Postgres.removeBackend b d
  | .assignLeastLoaded now k => (Postgres.assignLeastLoaded rows now k d).2
  | .bulkAssign now entries => (Postgres.bulkAssign now entries d).2
  | .bulkDeleteAssignments keys => Postgres.bulkDeleteAssignments keys d

theorem rows_fresh (k : RoutingKey) : Tx.fresh.rows d k = d.assignments.lookup k := by
  rw [rows_eq]
  simp [Tx.fresh]

theorem countRows_fresh (b : Backend) : Tx.fresh.countRows d b = d.counts.lookup b := by
  rw [countRows_eq]
  simp [Tx.fresh]

/-- `AssignLeastLoaded`: the row locked is one that may come first. -/
theorem leaves_assignLeastLoaded {rows : List Backend} (hrows : Enumerates rows d.joined)
    (k : RoutingKey) :
    (Session.assignLeastLoaded now k).Leaves d (assignLeastLoaded rows now k d).2 := by
  unfold assignLeastLoaded
  refine leaves_step (c := .proceed) rfl ?_
  rcases hleast : leastLoaded rows d with - | b
  · exact leaves_step (c := .rollback) rfl (leaves_closed (.refl d))
  obtain ⟨hmem, hle, -⟩ := Table.least_eq_some.1 hleast
  have hfree : ∀ c, RowFree [] c := fun c => ⟨List.forall_mem_nil _, List.forall_mem_nil _⟩
  have hpick : (Session.inTx .fresh (.selectSkipLocked now k)).next d [] (.pick b) =
      some (.inTx (Tx.fresh.lock b) (.insertOne now k b), .none) :=
    if_pos ⟨hrows.mem.1 hmem, hfree b, fun c hc _ => hle c (hrows.mem.2 hc)⟩
  refine leaves_step hpick ?_
  have hkey : KeyFree [] k := List.forall_mem_nil _
  rcases hk : d.assignments.lookup k with - | a
  · have hnext : (Session.inTx (Tx.fresh.lock b) (.insertOne now k b)).next d [] .proceed =
        some (.inTx ((Tx.fresh.lock b).insertRow k (freshRow b now))
          (.updateCounts [(b, 1)]), .none) := by
      simp [Session.next, Statement.next, hkey, Tx.Conflicts, Tx.lock, Tx.fresh, hk]
    refine leaves_step hnext (leaves_updateCounts [(b, 1)] (fun k' => ?_) countRows_fresh)
    rw [rows_insertRow, Table.lookup_insert_eq]
    exact if_congr Iff.rfl rfl (rows_fresh k')
  · have hnext : (Session.inTx (Tx.fresh.lock b) (.insertOne now k b)).next d [] .proceed =
        some (.inTx (Tx.fresh.lock b) .commit, .none) := by
      simp [Session.next, Statement.next, hkey, Tx.Conflicts, hk]
    exact leaves_step hnext (leaves_commit ⟨fun _ => rfl, rows_fresh, countRows_fresh⟩)

/-- Every way a call may end is the end of a session, alone. -/
theorem leaves_addBackendReplies (first second : Reply) (b : Backend) (d : Database) :
    (Session.addBackend b).Leaves d (addBackendReplies first second b d).2 := by
  have hfree : BackendFree [] b := List.forall_mem_nil _
  have hnext : (Session.addBackend b).next d [] .proceed =
      some (.insertCount b, .upsertBackend b) := by
    simp only [Session.next, if_pos hfree]
  have hbroken : (Session.addBackend b).Leaves d (upsertBackend b d) :=
    leaves_step hnext (leaves_step (c := .rollback) rfl (leaves_closed (.refl _)))
  have hwhole : (Session.addBackend b).Leaves d (insertCount b (upsertBackend b d)) :=
    leaves_step hnext (leaves_step (c := .proceed) rfl (leaves_closed (.refl _)))
  cases first with
  | failed => exact leaves_step (c := .rollback) rfl (leaves_closed (.refl _))
  | lost => exact hbroken
  | done =>
    cases second with
    | failed => exact hbroken
    | lost => exact hwhole
    | done => exact hwhole

/-- **A session alone is its operation**: with no other session open it may
end with what the operation does in one step. -/
theorem leaves_run {rows : List Backend} (hrows : Enumerates rows d.joined) (op : Op) :
    (Session.start op).Leaves d (op.run rows d) := by
  cases op with
  | addBackend b => exact leaves_addBackendReplies .done .done b d
  | removeBackend b =>
    have hfree : BackendFree [] b := List.forall_mem_nil _
    have hnext : (Session.removeBackend b).next d [] .proceed =
        some (.closed, .removeBackend b) := by
      simp only [Session.next, if_pos hfree]
    exact leaves_step hnext (leaves_closed (.refl _))
  | assignLeastLoaded now k => exact leaves_assignLeastLoaded hrows k
  | bulkAssign now entries =>
    rcases hentries : entries.pairs with - | ⟨p, rest⟩
    · have hnext : (Session.bulkAssign now entries).next d [] .proceed =
          some (.closed, .none) := by
        simp [Session.next, hentries]
      have hrun : d.Same (bulkAssign now entries d).2 := by
        simp only [bulkAssign, hentries]
        exact .refl d
      exact leaves_step hnext (leaves_closed hrun)
    · have hnext : (Session.bulkAssign now entries).next d [] .proceed =
          some (.inTx .fresh (.insertMany now entries.pairs ∅), .none) := by
        simp [Session.next, hentries]
      exact leaves_step hnext (leaves_insertMany entries.pairs ∅ rfl rfl rows_fresh)
  | bulkDeleteAssignments keys =>
    rcases keys with - | ⟨k, keys⟩
    · have hrun : d.Same (bulkDeleteAssignments [] d) := by
        simp only [bulkDeleteAssignments, deletedRows, List.not_mem_nil, decide_false,
          List.filter_false]
        exact .refl d
      exact leaves_step (c := .proceed) rfl (leaves_closed hrun)
    · have hdeletes : Deletes d [] .fresh ∅ := ⟨rfl, rfl, fun _ => rfl, fun _ => rfl⟩
      exact leaves_step (c := .proceed) rfl (leaves_deleteMany (k :: keys) hdeletes)

/-- Two healthy backends, the first with an account of weight three. -/
def oneRow : Database :=
  ⟨Table.insertAll ∅ [("b1", true), ("b2", true)],
    Table.insertAll ∅ [("v", ⟨"b1", 1, "assignment", 3⟩)], Table.insertAll ∅ [("b1", 3), ("b2", 0)]⟩

/-- A new account is placed on the lighter backend, and counted there. -/
theorem leaves_run_oneRow :
    ∃ sched d added, Run.exec System.step ⟨oneRow, [.start (.assignLeastLoaded 5 "u")], ∅⟩ sched =
        some ⟨d, [.closed], added⟩ ∧
      d.assignments.lookup "u" = some ⟨"b2", 5, "assignment", 1⟩ ∧
      d.counts.lookup "b2" = some 1 := by
  have hrows : Enumerates ["b2", "b1"] oneRow.joined := by decide
  obtain ⟨sched, d, added, hrun, hsame⟩ := leaves_run hrows (.assignLeastLoaded 5 "u") ∅
  exact ⟨sched, d, added, hrun, (hsame.assignments "u").trans (by decide),
    (hsame.counts "b2").trans (by decide)⟩

end Postgres

end StickyProxy
