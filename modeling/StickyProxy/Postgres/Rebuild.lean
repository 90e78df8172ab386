import StickyProxy.Postgres.Model.Migration
import StickyProxy.Postgres.Effects
/-!
# PostgreSQL — what the rebuild restores

The rebuild sets the count row of every backend that is healthy in its
snapshot. No assignment changes between the snapshot and the commit, for
the migration has the table to itself, so these rows are right when it
commits. The rows of the other backends it leaves as they are, and
`AddBackend` keeps a row it finds: a count that was wrong while its
backend was away is wrong when the backend comes back. Where those rows
are right as well, the tables are consistent from the commit on, under
every interleaving.
-/

namespace StickyProxy

namespace Postgres

variable {d d' : Database} {tx tx' : Tx} {st st' : Statement} {b : Backend} {c : Choice}
  {ss ss' tt : Session} {eff : Effect} {others others' : List Session}

/-! ## Sessions over any tables -/

/-- Count rows are never deleted. -/
theorem counted_apply (eff : Effect) (h : d.Counted b) : (eff.apply d).Counted b := by
  cases eff with
  | none => exact h
  | commit tx => exact counted_commit h
  | upsertBackend b => exact h
  | insertCount b => exact (grows_insertCount b d).counted h
  | removeBackend b => exact (grows_removeBackend b d).counted h

/-- Whoever has returned from `AddBackend` has a count row. -/
theorem counted_added {added : Finset Backend} (h : ∀ b ∈ added, d.Counted b) (eff : Effect) :
    ∀ b ∈ eff.added added, (eff.apply d).Counted b := by
  intro b hb
  cases eff with
  | insertCount b' =>
    rcases Finset.mem_insert.1 hb with rfl | hb
    · exact counted_insertCount b d
    · exact counted_apply _ (h b hb)
  | _ => exact counted_apply _ (h b hb)

theorem KeyFree.mono {k : RoutingKey} (h : KeyFree others' k) (hsub : others ⊆ others') :
    KeyFree others k := fun tt htt => h tt (hsub htt)

theorem CountFree.mono (h : CountFree others' b) (hsub : others ⊆ others') :
    CountFree others b := fun tt htt => h tt (hsub htt)

theorem Tx.Takes.mono (h : tx.Takes others' tx') (hsub : others ⊆ others') :
    tx.Takes others tx' :=
  ⟨fun k hk => (h.writes k hk).imp_right fun hf => hf.mono hsub,
    fun b hb => (h.countLocks b hb).imp_right fun hf => hf.mono hsub⟩

theorem exclusive_fresh (st : Statement) (tt : Session) : Exclusive (.inTx .fresh st) tt := by
  rintro _ ⟨⟩ ux -
  exact ⟨fun k hk => absurd hk (by simp [Tx.Writes, Tx.fresh]),
    fun b hb => absurd hb (Finset.notMem_empty b)⟩

/-- A step keeps a session apart from the others. -/
theorem Session.Steps.exclusive (h : ss.Steps d others' c ss' eff) (hsub : others ⊆ others')
    (hex : ∀ tt ∈ others, Exclusive ss tt) : ∀ tt ∈ others, Exclusive ss' tt := by
  intro tt htt
  cases h with
  | assign => exact exclusive_fresh _ tt
  | bulkAssign => exact exclusive_fresh _ tt
  | bulkDelete => exact exclusive_fresh _ tt
  | statement _ hadv => exact exclusive_of_takes hex (hadv.takes.mono hsub) tt htt
  | _ => exact exclusive_of_tx_none rfl

/-- The transaction has written nothing. -/
structure Tx.Bare (tx : Tx) : Prop where
  inserted : tx.inserted = ∅
  deleted : tx.deleted = ∅
  counts : tx.counts = ∅

theorem bare_fresh : Tx.fresh.Bare := ⟨rfl, rfl, rfl⟩

/-- How an open transaction stands, whatever the tables hold: nothing is
written before the statement on the assignments, and no count before the
assignments are. -/
def Tx.Lawful (d : Database) (tx : Tx) : Statement → Prop
  | .selectSkipLocked _ _ | .selectForUpdate _ _ => tx.Bare
  | .insertOne _ _ b => tx.Bare ∧ d.Counted b
  | .insertMany _ _ countDeltas =>
    tx.counts = ∅ ∧ tx.deleted = ∅ ∧ (tx.inserted = ∅ → countDeltas = ∅)
  | .deleteMany _ countDeltas =>
    tx.counts = ∅ ∧ tx.inserted = ∅ ∧ (tx.deleted = ∅ → countDeltas = ∅)
  | .updateCounts _ | .commit => True

def Session.Lawful (d : Database) : Session → Prop
  | .inTx tx st => tx.Lawful d st
  | _ => True

theorem Session.Lawful.mono (h : ss.Lawful d) (hd : ∀ b, d.Counted b → d'.Counted b) :
    ss.Lawful d' := by
  cases ss with
  | inTx tx st =>
    cases st with
    | insertOne now k b => exact ⟨h.1, hd b h.2⟩
    | _ => exact h
  | _ => trivial

theorem Tx.Lawful.advances (h : tx.Lawful d st) (hadv : Advances d others tx st tx' st') :
    tx'.Lawful d st' := by
  cases hadv with
  | skipLocked hb _ =>
    exact ⟨⟨h.inserted, h.deleted, h.counts⟩, counted_of_mem_joined hb⟩
  | noRows => exact h
  | forUpdate hb _ => exact ⟨⟨h.inserted, h.deleted, h.counts⟩, counted_of_mem_joined hb⟩
  | keepNext => exact h
  | insertNext _ _ =>
    refine ⟨h.1, h.2.1, fun hempty => ?_⟩
    exact absurd (congrArg AList.entries hempty) (by simp [Tx.insertRow])
  | passNext => exact h
  | deleteNext _ _ _ =>
    refine ⟨h.1, h.2.1, fun hempty => ?_⟩
    exact absurd (congrArg AList.entries hempty) (by simp [Tx.deleteRow])
  | _ => trivial

theorem Session.Lawful.steps (h : ss.Lawful d) (hst : ss.Steps d others c ss' eff) :
    ss'.Lawful d := by
  cases hst with
  | assign => exact bare_fresh
  | bulkAssign => exact ⟨rfl, rfl, fun _ => rfl⟩
  | bulkDelete => exact ⟨rfl, rfl, fun _ => rfl⟩
  | statement _ hadv => exact Tx.Lawful.advances h hadv
  | _ => trivial

/-! ## What the migration asks of the tables -/

/-- The count row of the backend is right; without one, nothing is
assigned to the backend. -/
structure Database.RightAt (d : Database) (b : Backend) : Prop where
  count : ∀ v, d.counts.lookup b = some v → v = d.weightOn b
  named : ∀ k a, d.assignments.lookup k = some a → a.backend = b → d.Counted b

theorem consistent_of_rightAt (h : ∀ b, d.RightAt b) : d.Consistent :=
  ⟨fun b => (h b).count, fun k a ha => (h a.backend).named k a ha rfl⟩

/-- Every backend that is not healthy has a right count row, or none and
no assignment. -/
def Database.Agreed (d : Database) : Prop :=
  (∀ p ∈ d.counts.pairs, ¬ d.Healthy p.1 → p.2 = d.weightOn p.1) ∧
    ∀ p ∈ d.assignments.pairs, ¬ d.Healthy p.2.backend → (d.counts.lookup p.2.backend).isSome

instance (d : Database) : Decidable d.Agreed :=
  inferInstanceAs (Decidable ((∀ p ∈ d.counts.pairs, _) ∧ ∀ p ∈ d.assignments.pairs, _))

theorem Database.Agreed.rightAt (h : d.Agreed) (hb : ¬ d.Healthy b) : d.RightAt b := by
  refine ⟨fun v hv => h.1 (b, v) (Table.mem_pairs.2 hv) hb, fun k a ha hab => ?_⟩
  subst hab
  exact h.2 (k, a) (Table.mem_pairs.2 ha) hb

/-- A `BulkAssign` under way names only backends with a count row. -/
def Session.NamesCounted (d : Database) : Session → Prop
  | .inTx _ (.insertMany _ todo _) => ∀ p ∈ todo, (d.counts.lookup p.2.backend).isSome
  | _ => True

instance (d : Database) : DecidablePred (Session.NamesCounted d)
  | .inTx _ (.insertMany _ todo _) => inferInstanceAs (Decidable (∀ p ∈ todo, _))
  | .inTx _ (.selectSkipLocked _ _) | .inTx _ (.selectForUpdate _ _) | .inTx _ (.insertOne _ _ _)
  | .inTx _ (.deleteMany _ _) | .inTx _ (.updateCounts _) | .inTx _ .commit
  | .assignLeastLoaded _ _ | .bulkAssign _ _ | .bulkDeleteAssignments _ | .addBackend _
  | .insertCount _ | .removeBackend _ | .closed => isTrue trivial

/-- The call is `AddBackend` and fails between its two statements. -/
def Session.BreaksOff : Session → Choice → Prop
  | .insertCount _, .rollback => True
  | _, _ => False

instance (c : Choice) : DecidablePred fun ss : Session => ss.BreaksOff c := fun ss =>
  match ss, c with
  | .insertCount _, .rollback => isTrue trivial
  | .insertCount _, .proceed | .insertCount _, .pick _ | .insertCount _, .noRows
  | .insertCount _, .unseen | .assignLeastLoaded _ _, _ | .bulkAssign _ _, _
  | .bulkDeleteAssignments _, _ | .addBackend _, _ | .removeBackend _, _ | .inTx _ _, _
  | .closed, _ => isFalse id

/-- That is a session about to insert a count row, rolled back. -/
theorem breaksOff_iff : ss.BreaksOff c ↔ ∃ b, ss = .insertCount b ∧ c = .rollback := by
  cases ss <;> cases c <;> simp [Session.BreaksOff]

/-- What the rebuild relies on: it finds the counts of the backends it
leaves alone right; no `BulkAssign` that is under way when it commits, or
begins later, names a backend without a count row; and no `AddBackend` is
broken off. -/
def Startup.Orderly (s : Startup) : Startup.Move → Prop
  | .session a => (s.migration.IsDone → s.system.NamesAdded a) ∧
      ∀ ss ∈ s.system.sessions[a.session]?, ¬ ss.BreaksOff a.choice
  | .select _ => s.system.database.Agreed
  | .commit => ∀ tx ∈ s.migration.tx, ∀ ss ∈ s.system.sessions,
      ss.NamesCounted (tx.commit s.system.database)
  | _ => True

instance (s : Startup) : DecidablePred s.Orderly
  | .session a => inferInstanceAs (Decidable
      ((s.migration.IsDone → s.system.NamesAdded a) ∧ ∀ ss ∈ s.system.sessions[a.session]?, _))
  | .select _ => inferInstanceAs (Decidable s.system.database.Agreed)
  | .commit => inferInstanceAs (Decidable (∀ tx ∈ s.migration.tx, ∀ ss ∈ s.system.sessions, _))
  | .alter | .upsert | .fail => isTrue trivial

/-! ## Before the table is locked -/

/-- What holds of the sessions over any tables. -/
structure System.Early (s : System) : Prop where
  added : ∀ b ∈ s.added, s.database.Counted b
  lawful : ∀ ss ∈ s.sessions, ss.Lawful s.database
  exclusive : Pool.Apart Exclusive s.sessions

theorem early_start (d : Database) (ops : List Op) : (System.start d ops).Early := by
  refine ⟨fun b hb => ?_, fun ss hss => ?_, fun i j ss tt _ hi _ => ?_⟩
  · exact AList.lookup_isSome.2 (AList.mem_keys.2 (List.mem_toFinset.1 hb))
  · have hnone := tx_of_mem_start hss
    cases ss with
    | inTx tx st => cases hnone
    | _ => trivial
  · exact exclusive_of_tx_none (tx_of_mem_start (List.mem_of_getElem? hi))

section Steps

variable {s : System} {i : ℕ}

theorem System.Early.steps (h : s.Early) (hss : s.sessions[i]? = some ss)
    (hsub : s.sessions.eraseIdx i ⊆ others) (hst : ss.Steps s.database others c ss' eff) :
    System.Early ⟨eff.apply s.database, s.sessions.set i ss', eff.added s.added⟩ := by
  have hcounted : ∀ b, s.database.Counted b → (eff.apply s.database).Counted b :=
    fun b hb => counted_apply eff hb
  refine ⟨counted_added h.added eff, fun tt htt => ?_,
    h.exclusive.set (fun _ _ h => h.symm) hss (hst.exclusive hsub fun tt htt =>
      h.exclusive.of_mem_eraseIdx hss htt)⟩
  rcases Pool.mem_or_eq_of_mem_set htt with htt | rfl
  · exact (h.lawful tt htt).mono hcounted
  · exact ((h.lawful ss (List.mem_of_getElem? hss)).steps hst).mono hcounted

/-! ## While the table is locked -/

/-- No transaction has touched the table. -/
def System.Parked (s : System) : Prop := ∀ ss ∈ s.sessions, ¬ ss.Touches

/-- The effects that leave the assignments alone. -/
def Effect.Outside : Effect → Prop
  | .commit _ => False
  | _ => True

/-- A session that need not wait for the table stays off it. -/
theorem Session.Steps.parked (hst : ss.Steps d others c ss' eff) (hlawful : ss.Lawful d)
    (hss : ¬ ss.Touches)
    (hwait : c ≠ .rollback → ∀ tx st, ss = .inTx tx st → ¬ st.OnAssignments) :
    ¬ ss'.Touches ∧ eff.Outside := by
  have hbare : ∀ {tx : Tx} {now : Time} {k : RoutingKey} {b : Backend}, tx.Bare →
      ¬ Session.Touches (.inTx tx (.insertOne now k b)) := fun hb ht =>
    ht.elim (fun h => h (by rw [hb.inserted]; rfl)) fun h => h (by rw [hb.deleted]; rfl)
  cases hst with
  | assign => exact ⟨fun h => h.elim (fun h => h rfl) fun h => h rfl, trivial⟩
  | bulkAssign => exact ⟨fun h => h.elim (fun h => h rfl) fun h => h rfl, trivial⟩
  | bulkDelete => exact ⟨fun h => h.elim (fun h => h rfl) fun h => h rfl, trivial⟩
  | commit _ => exact absurd trivial hss
  | statement hc hadv =>
    refine ⟨?_, trivial⟩
    cases hadv with
    | skipLocked _ _ => exact hbare ⟨hlawful.inserted, hlawful.deleted, hlawful.counts⟩
    | forUpdate _ _ => exact hbare ⟨hlawful.inserted, hlawful.deleted, hlawful.counts⟩
    | noRows => exact hss
    | countedAll => exact absurd trivial hss
    | countNext _ => exact absurd trivial hss
    | _ => exact absurd trivial (hwait hc _ _ rfl)
  | _ => exact ⟨id, trivial⟩

theorem Effect.Outside.grows (h : eff.Outside) : d.Grows (eff.apply d) := by
  cases eff with
  | none => exact ⟨rfl, fun _ _ hv => hv⟩
  | commit tx => exact h.elim
  | upsertBackend b => exact ⟨rfl, fun _ _ hv => hv⟩
  | insertCount b => exact grows_insertCount b d
  | removeBackend b => exact grows_removeBackend b d

/-- Outside a transaction a count row is new only with the value zero. -/
theorem Effect.Outside.lookup_counts (h : eff.Outside) {v : ℤ}
    (hv : (eff.apply d).counts.lookup b = some v) :
    d.counts.lookup b = some v ∨ (d.counts.lookup b = Option.none ∧ v = 0) := by
  cases eff with
  | none => exact .inl hv
  | commit tx => exact h.elim
  | upsertBackend b => exact .inl hv
  | insertCount b' =>
    simp only [Effect.apply, Postgres.insertCount] at hv
    split at hv
    · exact .inl hv
    · rename_i hb'
      rw [Table.lookup_insert_eq] at hv
      split at hv
      · rename_i heq
        subst heq
        exact .inr ⟨Option.not_isSome_iff_eq_none.1 hb', (Option.some.inj hv).symm⟩
      · exact .inl hv
  | removeBackend b' =>
    simp only [Effect.apply, Postgres.removeBackend] at hv
    split at hv <;> exact .inl hv

theorem Effect.Outside.weightOn (h : eff.Outside) (b : Backend) :
    (eff.apply d).weightOn b = d.weightOn b := by
  simp only [Database.weightOn, h.grows.assignments]

theorem Database.RightAt.outside (h : d.RightAt b) (heff : eff.Outside) :
    (eff.apply d).RightAt b := by
  refine ⟨fun v hv => ?_, fun k a ha hab => ?_⟩
  · rw [heff.weightOn]
    rcases heff.lookup_counts hv with hv | ⟨hnone, rfl⟩
    · exact h.count v hv
    · -- Nothing is assigned to a backend without a count row.
      refine (weightOn_eq_zero fun k a ha hab => ?_).symm
      have hcounted := h.named k a ha hab
      rw [Database.Counted, hnone] at hcounted
      exact Bool.false_ne_true hcounted
  · rw [heff.grows.assignments] at ha
    exact counted_apply eff (h.named k a ha hab)

/-- What the migration has written and is to write is right, and so are
the counts it leaves alone. -/
structure Rebuilding (d : Database) (todo : List (Backend × ℤ)) (tx : Tx) : Prop where
  inserted : tx.inserted = ∅
  deleted : tx.deleted = ∅
  pending : ∀ p ∈ todo, p.2 = d.weightOn p.1
  counts : ∀ b v, tx.counts.lookup b = some v → v = d.weightOn b
  rest : ∀ b, b ∉ todo.map Prod.fst → tx.counts.lookup b = none → d.RightAt b

theorem Rebuilding.outside {todo : List (Backend × ℤ)} (h : Rebuilding d todo tx)
    (heff : eff.Outside) : Rebuilding (eff.apply d) todo tx :=
  ⟨h.inserted, h.deleted, fun p hp => (h.pending p hp).trans (heff.weightOn p.1).symm,
    fun b v hv => (h.counts b v hv).trans (heff.weightOn b).symm,
    fun b hb hnone => (h.rest b hb hnone).outside heff⟩

theorem rebuilding_select {order : List Backend} (hagreed : d.Agreed)
    (horder : Enumerates order (activeBackends d).toFinset) :
    Rebuilding d (order.map fun b => (b, d.weightOn b)) .fresh := by
  refine ⟨rfl, rfl, fun p hp => ?_, fun b v hv => absurd hv (by simp [Tx.fresh]),
    fun b hb _ => hagreed.rightAt fun hhealthy => hb ?_⟩
  · obtain ⟨b, -, rfl⟩ := List.mem_map.1 hp
    rfl
  · have hmem : b ∈ order := horder.mem.2 (List.mem_toFinset.2 (mem_activeBackends.2 hhealthy))
    exact List.mem_map.2 ⟨(b, d.weightOn b), List.mem_map_of_mem hmem, rfl⟩

theorem Rebuilding.upsert {w : ℤ} {todo : List (Backend × ℤ)}
    (h : Rebuilding d ((b, w) :: todo) tx) : Rebuilding d todo (tx.upsertCount b w) := by
  have hw : w = d.weightOn b := h.pending (b, w) List.mem_cons_self
  refine ⟨h.inserted, h.deleted, fun p hp => h.pending p (List.mem_cons_of_mem _ hp),
    fun b' v hv => ?_, fun b' hb' hnone => ?_⟩
  · rw [Tx.upsertCount, Table.lookup_insert_eq] at hv
    split at hv
    · rename_i heq
      rw [← Option.some.inj hv, heq, hw]
    · exact h.counts b' v hv
  · rw [Tx.upsertCount, Table.lookup_insert_eq] at hnone
    split at hnone
    · cases hnone
    · rename_i hne
      refine h.rest b' (fun hmem => ?_) hnone
      rcases List.mem_cons.1 hmem with rfl | hmem
      · exact hne rfl
      · exact hb' hmem

/-- **The rebuild makes the tables consistent.** -/
theorem Rebuilding.consistent (h : Rebuilding d [] tx) : (tx.commit d).Consistent := by
  have hassignments : (tx.commit d).assignments = d.assignments := by
    rw [Tx.commit, h.inserted, h.deleted]
    rfl
  have hweight : ∀ b, (tx.commit d).weightOn b = d.weightOn b := fun b => by
    simp only [Database.weightOn, hassignments]
  refine consistent_of_rightAt fun b => ⟨fun v hv => ?_, fun k a ha hab => ?_⟩
  · rw [hweight]
    rw [lookup_commit_counts] at hv
    rcases hb : tx.counts.lookup b with - | w
    · rw [hb, Option.none_or] at hv
      exact (h.rest b List.not_mem_nil hb).count v hv
    · rw [hb, Option.some_or] at hv
      exact h.counts b v (hb.trans hv)
  · rw [hassignments] at ha
    rcases hb : tx.counts.lookup b with - | w
    · exact counted_commit ((h.rest b List.not_mem_nil hb).named k a ha hab)
    · rw [Database.Counted, lookup_commit_counts, hb]
      rfl

/-- A session that is off the table is sound over consistent tables. -/
theorem Session.Lawful.sound (h : ss.Lawful d) (hss : ¬ ss.Touches) (hnamed : ss.NamesCounted d) :
    ss.Sound d := by
  cases ss with
  | inTx tx st =>
    -- The account of a transaction that has written nothing.
    have hbare : tx.Bare → (∀ b, st.owed b = 0) → (∀ b, st.Names b → d.Counted b) →
        tx.Sound d st := by
      intro hb howed hnames
      refine ⟨fun k a hk => ?_, fun k a hk => ?_, fun b v hv => ?_, fun b _ => ?_, hnames⟩
      · rw [hb.inserted] at hk
        cases hk
      · rw [hb.deleted] at hk
        cases hk
      · rw [hb.counts] at hv
        cases hv
      · rw [howed, Tx.net, hb.inserted, hb.deleted]
        rfl
    have hempty : ∀ {V : Type} {t u : Table RoutingKey V}, ¬ (t.pairs ≠ [] ∨ u.pairs ≠ []) →
        t = ∅ ∧ u = ∅ := by
      intro V t u hne
      rw [not_or, not_not, not_not] at hne
      exact ⟨AList.ext (List.map_eq_nil_iff.1 hne.1), AList.ext (List.map_eq_nil_iff.1 hne.2)⟩
    cases st with
    | selectSkipLocked now k => exact hbare h (fun _ => rfl) fun _ => False.elim
    | selectForUpdate now k => exact hbare h (fun _ => rfl) fun _ => False.elim
    | insertOne now k b =>
      refine hbare h.1 (fun _ => rfl) ?_
      rintro _ rfl
      exact h.2
    | insertMany now todo countDeltas =>
      obtain ⟨hins, hdel⟩ := hempty hss
      obtain rfl := h.2.2 hins
      refine hbare ⟨hins, hdel, h.1⟩ (fun _ => rfl) fun b hb => ?_
      rcases hb with ⟨p, hp, rfl⟩ | hb
      · exact hnamed p hp
      · exact absurd hb (by simp)
    | deleteMany todo countDeltas =>
      obtain ⟨hins, hdel⟩ := hempty hss
      obtain rfl := h.2.2 hdel
      exact hbare ⟨hins, hdel, h.1⟩ (fun _ => rfl) fun b hb =>
        absurd hb (by simp [Statement.Names])
    | updateCounts todo => exact absurd trivial hss
    | commit => exact absurd trivial hss
  | _ => trivial

/-! ## Backends that are healthy -/

/-- A healthy backend is one of `C`, or one `AddBackend` has returned for
or has still to insert the count row of. -/
def System.Covered (C : Backend → Prop) (s : System) : Prop :=
  ∀ b, s.database.Healthy b → C b ∨ b ∈ s.added ∨ Session.insertCount b ∈ s.sessions

theorem System.Covered.steps {C : Backend → Prop} (h : s.Covered C)
    (hss : s.sessions[i]? = some ss) (hst : ss.Steps s.database others c ss' eff)
    (hbreaks : ¬ ss.BreaksOff c) :
    System.Covered C ⟨eff.apply s.database, s.sessions.set i ss', eff.added s.added⟩ := by
  have hadded : s.added ⊆ eff.added s.added := by
    cases eff with
    | insertCount b => exact Finset.subset_insert b _
    | _ => exact Finset.Subset.refl _
  -- A row that was to be inserted has been, or still is.
  have hpending : ∀ b, Session.insertCount b ∈ s.sessions →
      b ∈ eff.added s.added ∨ Session.insertCount b ∈ s.sessions.set i ss' := by
    intro b hb
    by_cases heq : Session.insertCount b = ss
    · subst heq
      cases hst with
      | rollback => exact absurd trivial hbreaks
      | insertCount => exact .inl (Finset.mem_insert_self b _)
    · exact .inr (Pool.mem_set_of_mem_of_ne hb hss heq)
  have hold : ∀ b, s.database.Healthy b →
      C b ∨ b ∈ eff.added s.added ∨ Session.insertCount b ∈ s.sessions.set i ss' := by
    intro b hb
    rcases h b hb with hC | hmem | hmem
    · exact .inl hC
    · exact .inr (.inl (hadded hmem))
    · exact .inr (hpending b hmem)
  intro b hb
  cases hst with
  | @addBackend b' =>
    replace hb : (s.database.backends.insert b' true).lookup b = some true := hb
    rw [Table.lookup_insert_eq] at hb
    split at hb
    · rename_i heq
      subst heq
      exact .inr (.inr (Pool.self_mem_set hss))
    · exact hold b hb
  | removeBackend => exact hold b ((healthy_removeBackend b).1 hb).1
  | commit => exact hold b hb
  | insertCount => exact hold b hb
  | _ => exact hold b hb

end Steps

/-! ## Whole runs -/

section Runs

variable {s s' : Startup}

/-- What holds at each stage of the migration. -/
def Startup.Inv (s : Startup) : Prop :=
  match s.migration with
  | .altering => s.system.Early
  | .altered => s.system.Early ∧ s.system.Parked
  | .upserting todo tx => (s.system.Early ∧ s.system.Parked) ∧
      Rebuilding s.system.database todo tx ∧
      s.system.Covered fun b => b ∈ todo.map Prod.fst ∨ (tx.counts.lookup b).isSome
  | .done => s.system.Sound ∧ s.system.Covered fun _ => False
  | .failed => True

/-- What a step of a session is. -/
theorem stepSession_eq_some {a : Action} (h : s.stepSession a = some s') :
    ∃ ss ss' eff, s.system.sessions[a.session]? = some ss ∧
      (a.choice ≠ .rollback → ¬ s.migration.Blocks ss) ∧
      ss.next s.system.database (s.system.sessions.eraseIdx a.session ++ s.migration.sessions)
        a.choice = some (ss', eff) ∧
      s' = ⟨⟨eff.apply s.system.database, s.system.sessions.set a.session ss',
        eff.added s.system.added⟩, s.migration⟩ := by
  obtain ⟨ss, hss, h⟩ := Option.bind_eq_some_iff.1 h
  obtain ⟨hblocks, h⟩ := Option.ite_none_left_eq_some.1 h
  obtain ⟨⟨ss', eff⟩, hnext, rfl⟩ := Option.map_eq_some_iff.1 h
  refine ⟨ss, ss', eff, hss, fun hc hb => hblocks ⟨?_, hb⟩, hnext, rfl⟩
  cases hchoice : a.choice <;> first | exact Bool.false_ne_true | exact absurd hchoice hc

/-- While the table is locked the sessions stay off it. -/
theorem parked_stepSession {a : Action} (hearly : s.system.Early) (hparked : s.system.Parked)
    (hlocks : s.migration.LocksTable) (h : s.stepSession a = some s') :
    ∃ ss ss' eff, s.system.sessions[a.session]? = some ss ∧
      ss.Steps s.system.database
        (s.system.sessions.eraseIdx a.session ++ s.migration.sessions) a.choice ss' eff ∧
      eff.Outside ∧ (s'.system.Early ∧ s'.system.Parked) ∧
      s' = ⟨⟨eff.apply s.system.database, s.system.sessions.set a.session ss',
        eff.added s.system.added⟩, s.migration⟩ := by
  obtain ⟨ss, ss', eff, hss, hblocks, hnext, rfl⟩ := stepSession_eq_some h
  have hst := steps_of_next hnext
  have hmem := List.mem_of_getElem? hss
  obtain ⟨hss', heff⟩ := hst.parked (hearly.lawful ss hmem) (hparked ss hmem)
    fun hc tx st heq hon =>
    hblocks hc (by rw [heq]; exact ⟨hlocks, hon⟩)
  refine ⟨ss, ss', eff, hss, hst, heff,
    ⟨hearly.steps hss (List.subset_append_left _ _) hst, fun tt htt => ?_⟩, rfl⟩
  rcases Pool.mem_or_eq_of_mem_set htt with htt | rfl
  · exact hparked tt htt
  · exact hss'

theorem Startup.Inv.session {a : Action} (h : s.Inv) (hok : s.Orderly (.session a))
    (hstep : s.stepSession a = some s') : s'.Inv := by
  obtain ⟨hnamed, hbreaks⟩ := hok
  obtain ⟨system, migration⟩ := s
  cases migration with
  | altering =>
    obtain ⟨ss, ss', eff, hss, -, hnext, rfl⟩ := stepSession_eq_some hstep
    exact System.Early.steps h hss (List.subset_append_left _ _) (steps_of_next hnext)
  | altered =>
    obtain ⟨ss, ss', eff, -, -, -, hparked, rfl⟩ := parked_stepSession h.1 h.2 trivial hstep
    exact hparked
  | upserting todo tx =>
    obtain ⟨hparked, hrebuilding, hcovered⟩ := h
    obtain ⟨ss, ss', eff, hss, hst, heff, hparked', rfl⟩ :=
      parked_stepSession hparked.1 hparked.2 trivial hstep
    exact ⟨hparked', hrebuilding.outside heff, hcovered.steps hss hst (hbreaks ss hss)⟩
  | done =>
    obtain ⟨ss, ss', eff, hss, -, hnext, rfl⟩ := stepSession_eq_some hstep
    have hnext' : ss.next system.database (system.sessions.eraseIdx a.session) a.choice =
        some (ss', eff) := by
      simpa [Migration.sessions, Migration.tx] using hnext
    refine ⟨sound_step h.1 (hnamed trivial) ?_,
      System.Covered.steps h.2 hss (steps_of_next hnext) (hbreaks ss hss)⟩
    rw [System.step, hss, Option.bind_some, hnext']
    rfl
  | failed =>
    obtain ⟨ss, ss', eff, hss, -, hnext, rfl⟩ := stepSession_eq_some hstep
    trivial

/-- The commit of the migration. -/
theorem Startup.Inv.commit {system : System} {tx : Tx}
    (h : Startup.Inv ⟨system, .upserting [] tx⟩)
    (hnamed : ∀ ss ∈ system.sessions, ss.NamesCounted (tx.commit system.database)) :
    Startup.Inv ⟨{ system with
      database := tx.commit system.database
      added := system.added ∪ tx.counts.keys.toFinset }, .done⟩ := by
  obtain ⟨⟨hearly, hparked⟩, hrebuilding, hcovered⟩ := h
  have hwritten : ∀ b, (tx.counts.lookup b).isSome → b ∈ tx.counts.keys.toFinset := fun b hb =>
    List.mem_toFinset.2 (AList.mem_keys.1 (AList.lookup_isSome.1 hb))
  refine ⟨⟨hrebuilding.consistent, fun b hb => ?_, fun ss hss => ?_, hearly.exclusive⟩,
    fun b hb => .inr ?_⟩
  · rcases Finset.mem_union.1 hb with hb | hb
    · exact counted_commit (hearly.added b hb)
    · rw [Database.Counted, lookup_commit_counts, Option.isSome_or, Bool.or_eq_true_iff]
      exact .inl (AList.lookup_isSome.2 (AList.mem_keys.2 (List.mem_toFinset.1 hb)))
  · exact ((hearly.lawful ss hss).mono fun b => counted_commit).sound (hparked ss hss)
      (hnamed ss hss)
  · rcases hcovered b hb with (hmem | hmem) | hmem | hmem
    · exact absurd hmem List.not_mem_nil
    · exact .inl (Finset.mem_union_right _ (hwritten b hmem))
    · exact .inl (Finset.mem_union_left _ hmem)
    · exact .inr hmem

/-- **Every orderly step keeps what the stage of the migration promises.** -/
theorem Startup.Inv.step {a : Startup.Move} (h : s.Inv) (hok : s.Orderly a)
    (hstep : s.step a = some s') : s'.Inv := by
  cases a with
  | session a => exact h.session hok hstep
  | alter =>
    obtain ⟨system, migration⟩ := s
    cases migration with
    | altering =>
      obtain ⟨hparked, heq⟩ := Option.ite_none_right_eq_some.1 hstep
      obtain rfl := Option.some.inj heq
      exact ⟨h, hparked⟩
    | altered | upserting | done | failed => cases hstep
  | select order =>
    obtain ⟨system, migration⟩ := s
    cases migration with
    | altered =>
      obtain ⟨horder, heq⟩ := Option.ite_none_right_eq_some.1 hstep
      obtain rfl := Option.some.inj heq
      refine ⟨h, rebuilding_select hok horder, fun b hb => .inl (.inl ?_)⟩
      have hmem : b ∈ order := horder.mem.2 (List.mem_toFinset.2 (mem_activeBackends.2 hb))
      exact List.mem_map.2 ⟨_, List.mem_map_of_mem hmem, rfl⟩
    | altering | upserting | done | failed => cases hstep
  | upsert =>
    obtain ⟨system, migration⟩ := s
    cases migration with
    | upserting todo tx =>
      rcases todo with - | ⟨⟨b, w⟩, todo⟩
      · cases hstep
      · obtain ⟨-, heq⟩ := Option.ite_none_right_eq_some.1 hstep
        obtain rfl := Option.some.inj heq
        obtain ⟨hparked, hrebuilding, hcovered⟩ := h
        refine ⟨hparked, hrebuilding.upsert, fun b' hb' => (hcovered b' hb').imp_left ?_⟩
        have hlookup : ((tx.upsertCount b w).counts.lookup b').isSome ↔
            b' = b ∨ (tx.counts.lookup b').isSome := by
          rw [Tx.upsertCount, Table.lookup_insert_eq]
          by_cases heq : b' = b <;> simp [heq]
        rintro (hmem | hmem)
        · rcases List.mem_cons.1 hmem with rfl | hmem
          · exact .inr (hlookup.2 (.inl rfl))
          · exact .inl hmem
        · exact .inr (hlookup.2 (.inr hmem))
    | altering | altered | done | failed => cases hstep
  | commit =>
    obtain ⟨system, migration⟩ := s
    cases migration with
    | upserting todo tx =>
      rcases todo with - | ⟨p, todo⟩
      · obtain rfl := Option.some.inj hstep
        exact h.commit (hok tx rfl)
      · cases hstep
    | altering | altered | done | failed => cases hstep
  | fail =>
    obtain ⟨system, migration⟩ := s
    cases migration with
    | altering | altered | upserting =>
      obtain rfl := Option.some.inj hstep
      trivial
    | done | failed => cases hstep

/-- **What the rebuild restores.** Once `migrate` has completed, in an
orderly run, the count row of every healthy backend is there and is the
weight of its assignments, at every moment, unless `AddBackend` has still
to insert it. -/
theorem counts_of_orderly_startup {d : Database} {ops : List Op} {sched : List Startup.Move}
    (hok : Run.Meets Startup.step Startup.Orderly (.start d ops) sched)
    (hrun : Run.exec Startup.step (.start d ops) sched = some s) (hdone : s.migration.IsDone)
    (b : Backend) (hb : s.system.database.Healthy b)
    (hadded : Session.insertCount b ∉ s.system.sessions) :
    s.system.database.counts.lookup b = some (s.system.database.weightOn b) := by
  have hstart : (Startup.start d ops).Inv := early_start d ops
  have h : s.Inv := Run.exec_invariant (fun _ _ _ ht hok hst => ht.step hok hst) hstart hok hrun
  obtain ⟨system, migration⟩ := s
  cases migration with
  | done =>
    have hcounted : system.database.Counted b :=
      h.1.added b (((h.2 b hb).resolve_left id).resolve_right hadded)
    obtain ⟨v, hv⟩ := Option.isSome_iff_exists.1 hcounted
    exact hv.trans (congrArg some (h.1.database.counts b v hv))
  | altering | altered | upserting | failed => exact hdone.elim

/-- A healthy backend whose count is wrong, and one that is away. -/
def miscounted : Database where
  backends := Table.insertAll ∅ [("b1", true), ("b2", false)]
  assignments := Table.insertAll ∅ [("u", ⟨"b1", 1, "assignment", 2⟩)]
  counts := Table.insertAll ∅ [("b1", 9)]

/-- An account is assigned while the rebuild runs, and waits for the
table; then the second backend is added. -/
def assignedMeanwhile : List Startup.Move :=
  [.session ⟨0, .proceed⟩, .alter, .select ["b1"], .upsert, .commit, .session ⟨0, .pick "b1"⟩,
    .session ⟨0, .proceed⟩, .session ⟨0, .proceed⟩, .session ⟨0, .proceed⟩,
    .session ⟨0, .proceed⟩, .session ⟨1, .proceed⟩, .session ⟨1, .proceed⟩]

theorem counts_of_orderly_startup_assignedMeanwhile :
    ∃ s, Run.exec Startup.step (.start miscounted [.assignLeastLoaded 2 "v", .addBackend "b2"])
        assignedMeanwhile = some s ∧
      s.system.database.Healthy "b2" ∧ s.system.database.weightOn "b1" = 3 ∧
      s.system.database.counts.lookup "b1" = some (s.system.database.weightOn "b1") := by
  obtain ⟨s, hrun, hdone, hb₁, hb₂, hweight, hsessions⟩ : ∃ s,
      Run.exec Startup.step (.start miscounted [.assignLeastLoaded 2 "v", .addBackend "b2"])
        assignedMeanwhile = some s ∧
      s.migration = .done ∧ s.system.database.Healthy "b1" ∧ s.system.database.Healthy "b2" ∧
      s.system.database.weightOn "b1" = 3 ∧ s.system.sessions = [.closed, .closed] :=
    ⟨_, rfl, rfl, rfl, rfl, rfl, rfl⟩
  refine ⟨s, hrun, hb₂, hweight, counts_of_orderly_startup (by decide +kernel) hrun
    (by rw [hdone]; trivial) "b1" hb₁ ?_⟩
  rw [hsessions]
  simp

/-- A backend that is away, with a count left from before. -/
def staleCount : Database where
  backends := Table.insertAll ∅ [("b1", false)]
  assignments := ∅
  counts := Table.insertAll ∅ [("b1", 7)]

/-- **The rebuild passes over backends that are away.** Nothing is assigned
to the backend; `migrate` completes with no row to upsert, `AddBackend`
keeps the count it finds, and with every call over it is still seven. -/
theorem stale_count_survives :
    ∃ s, Run.exec Startup.step (.start staleCount [.addBackend "b1"])
        [.alter, .select [], .commit, .session ⟨0, .proceed⟩, .session ⟨0, .proceed⟩] = some s ∧
      s.migration = .done ∧ s.system.sessions = [.closed] ∧ s.system.database.Healthy "b1" ∧
      s.system.database.counts.lookup "b1" = some 7 ∧ s.system.database.weightOn "b1" = 0 :=
  ⟨_, rfl, rfl, rfl, rfl, rfl, rfl⟩

end Runs

end Postgres

end StickyProxy
