import StickyProxy.Postgres.Model.Transactions
import StickyProxy.Common.Pool
import StickyProxy.Common.Run
/-!
# PostgreSQL — weight accounting under concurrency

The committed count rows weigh what the committed assignments weigh, at
every moment of every run. An open transaction is sound when its own
versions of the count rows differ from the committed ones by what it has
inserted less what it has deleted and less what it has still to count;
so once its `UPDATE`s are through, a commit moves both tables alike.
What keeps it sound while others commit is that no two open transactions
have written one key or locked one count row.
-/

namespace StickyProxy

namespace Postgres

variable {d d' : Database} {tx : Tx} {st st' : Statement} {b : Backend} {k : RoutingKey}

/-- The backend has a count row. -/
def Database.Counted (d : Database) (b : Backend) : Prop := (d.counts.lookup b).isSome

/-- Every count row weighs what the assignments to its backend do, and
every assignment is to a backend with a count row. -/
structure Database.Consistent (d : Database) : Prop where
  counts : ∀ b v, d.counts.lookup b = some v → v = d.weightOn b
  counted : ∀ k a, d.assignments.lookup k = some a → d.Counted a.backend

theorem consistent_empty : Database.empty.Consistent :=
  ⟨fun _ _ h => absurd h (by simp [Database.empty]),
    fun _ _ h => absurd h (by simp [Database.empty])⟩

/-- The weight a transaction adds to a backend. -/
def Tx.net (tx : Tx) (b : Backend) : ℤ :=
  (tx.inserted.total fun _ a => rowWeight b a) - tx.deleted.total fun _ a => rowWeight b a

/-- The weight a transaction has written and is yet to count. -/
def Statement.owed (b : Backend) : Statement → ℤ
  | .insertMany _ _ countDeltas => countDeltas.value b
  | .deleteMany _ countDeltas => -countDeltas.value b
  | .updateCounts todo => Table.sumAt todo b
  | _ => 0

/-- The backends whose count rows the transaction is to update. -/
def Statement.Names (b : Backend) : Statement → Prop
  | .insertOne _ _ c => b = c
  | .insertMany _ todo countDeltas =>
    (∃ p ∈ todo, p.2.backend = b) ∨ (countDeltas.lookup b).isSome
  | .deleteMany _ countDeltas => (countDeltas.lookup b).isSome
  | .updateCounts todo => b ∈ todo.map Prod.fst
  | _ => False

/-- The account of an open transaction over the committed database. -/
structure Tx.Sound (d : Database) (tx : Tx) (st : Statement) : Prop where
  inserted : ∀ k a, tx.inserted.lookup k = some a →
    d.assignments.lookup k = none ∧ d.Counted a.backend
  deleted : ∀ k a, tx.deleted.lookup k = some a → d.assignments.lookup k = some a
  counts : ∀ b v, tx.counts.lookup b = some v →
    b ∈ tx.countLocks ∧ ∃ v₀, d.counts.lookup b = some v₀ ∧ v = v₀ + tx.net b - st.owed b
  uncounted : ∀ b, tx.counts.lookup b = none → tx.net b = st.owed b
  names : ∀ b, st.Names b → d.Counted b

/-- The account of a session. -/
def Session.Sound (d : Database) : Session → Prop
  | .inTx tx st => tx.Sound d st
  | _ => True

theorem sound_of_tx_none {ss : Session} (h : ss.tx = none) : ss.Sound d := by
  cases ss with
  | inTx tx st => cases h
  | _ => trivial

/-- Two sessions have written no key and locked no count row in common. -/
def Exclusive (ss tt : Session) : Prop :=
  ∀ tx ∈ ss.tx, ∀ ux ∈ tt.tx,
    (∀ k, tx.Writes k → ¬ ux.Writes k) ∧ ∀ b ∈ tx.countLocks, b ∉ ux.countLocks

theorem Exclusive.symm {ss tt : Session} (h : Exclusive ss tt) : Exclusive tt ss :=
  fun ux hux tx htx => ⟨fun k hu ht => (h tx htx ux hux).1 k ht hu,
    fun b hu ht => (h tx htx ux hux).2 b ht hu⟩

theorem exclusive_of_tx_none {ss tt : Session} (h : ss.tx = none) : Exclusive ss tt := by
  intro tx htx
  rw [h] at htx
  cases htx

/-- What holds in every state of a run. -/
structure System.Sound (s : System) : Prop where
  database : s.database.Consistent
  added : ∀ b ∈ s.added, s.database.Counted b
  sessions : ∀ ss ∈ s.sessions, ss.Sound s.database
  exclusive : Pool.Apart Exclusive s.sessions

/-! ## The account of each statement -/

/-- Moving to a statement that owes and names no more keeps the
account. -/
theorem Tx.Sound.advance (h : tx.Sound d st) (howed : ∀ b, st'.owed b = st.owed b)
    (hnames : ∀ b, st'.Names b → d.Counted b) : tx.Sound d st' where
  inserted := h.inserted
  deleted := h.deleted
  counts b v hv := by rw [howed]; exact h.counts b v hv
  uncounted b hb := by rw [howed]; exact h.uncounted b hb
  names := hnames

theorem sound_fresh (howed : ∀ b, st.owed b = 0) (hnames : ∀ b, st.Names b → d.Counted b) :
    Tx.fresh.Sound d st where
  inserted k a h := absurd h (by simp [Tx.fresh])
  deleted k a h := absurd h (by simp [Tx.fresh])
  counts b v h := absurd h (by simp [Tx.fresh])
  uncounted b _ := by rw [howed]; rfl
  names := hnames

/-- Locking changes no account. -/
theorem Tx.Sound.lock (h : tx.Sound d st) (b : Backend) : (tx.lock b).Sound d st where
  inserted := h.inserted
  deleted := h.deleted
  counts c v hv := ⟨Finset.mem_insert_of_mem (h.counts c v hv).1, (h.counts c v hv).2⟩
  uncounted := h.uncounted
  names := h.names

theorem net_insertRow {a : Assignment} (hk : tx.inserted.lookup k = none) :
    (tx.insertRow k a).net b = tx.net b + rowWeight b a := by
  simp only [Tx.net, Tx.insertRow, Table.total_insert, Table.share_of_lookup_none hk]
  ring

theorem net_deleteRow {a : Assignment} (hk : tx.deleted.lookup k = none) :
    (tx.deleteRow k a).net b = tx.net b - rowWeight b a := by
  simp only [Tx.net, Tx.deleteRow, Table.total_insert, Table.share_of_lookup_none hk]
  ring

/-- An insertion is owed. -/
theorem Tx.Sound.insertRow {a : Assignment} (h : tx.Sound d st) (hk : ¬ tx.Conflicts d k)
    (ha : d.Counted a.backend) (howed : ∀ b, st'.owed b = st.owed b + rowWeight b a)
    (hnames : ∀ b, st'.Names b → d.Counted b) : (tx.insertRow k a).Sound d st' := by
  have hk' : tx.inserted.lookup k = none ∧ d.assignments.lookup k = none := by
    simpa [Tx.Conflicts] using hk
  refine ⟨fun k' a' hk'' => ?_, h.deleted, fun b v hv => ?_, fun b hb => ?_, hnames⟩
  · rw [Tx.insertRow, Table.lookup_insert_eq] at hk''
    split at hk''
    · rename_i heq
      rw [heq, ← Option.some.inj hk'']
      exact ⟨hk'.2, ha⟩
    · exact h.inserted k' a' hk''
  · obtain ⟨hlock, v₀, hv₀, hnet⟩ := h.counts b v hv
    exact ⟨hlock, v₀, hv₀, by rw [net_insertRow hk'.1, howed]; omega⟩
  · rw [net_insertRow hk'.1, howed, h.uncounted b hb]

/-- A deletion is owed, with its sign. -/
theorem Tx.Sound.deleteRow {a : Assignment} (h : tx.Sound d st)
    (ha : d.assignments.lookup k = some a) (hk : tx.deleted.lookup k = none)
    (howed : ∀ b, st'.owed b = st.owed b - rowWeight b a)
    (hnames : ∀ b, st'.Names b → d.Counted b) : (tx.deleteRow k a).Sound d st' := by
  refine ⟨h.inserted, fun k' a' hk' => ?_, fun b v hv => ?_, fun b hb => ?_, hnames⟩
  · rw [Tx.deleteRow, Table.lookup_insert_eq] at hk'
    split at hk'
    · rename_i heq
      rw [heq, ← Option.some.inj hk', ha]
    · exact h.deleted k' a' hk'
  · obtain ⟨hlock, v₀, hv₀, hnet⟩ := h.counts b v hv
    exact ⟨hlock, v₀, hv₀, by rw [net_deleteRow hk, howed]; omega⟩
  · rw [net_deleteRow hk, howed, h.uncounted b hb]

/-- An `UPDATE` pays what is owed on its row, which is there. -/
theorem Tx.Sound.updateCount {n : ℤ} {todo : List (Backend × ℤ)}
    (h : tx.Sound d (.updateCounts ((b, n) :: todo))) :
    (tx.updateCount d b n).Sound d (.updateCounts todo) := by
  obtain ⟨v₀, hv₀⟩ := Option.isSome_iff_exists.1 (h.names b List.mem_cons_self)
  -- The version the statement reads is committed or the transaction's own.
  obtain ⟨v, hv, hnet⟩ : ∃ v, (tx.counts.lookup b).or (d.counts.lookup b) = some v ∧
      v = v₀ + tx.net b - Table.sumAt ((b, n) :: todo) b := by
    rcases hb : tx.counts.lookup b with - | v
    · refine ⟨v₀, by rw [Option.none_or, hv₀], ?_⟩
      have := h.uncounted b hb
      simp only [Statement.owed] at this
      omega
    · obtain ⟨-, w, hw, hnet⟩ := h.counts b v hb
      rw [hv₀, Option.some.injEq] at hw
      exact ⟨v, rfl, hw ▸ hnet⟩
  have htx : tx.updateCount d b n = { tx with
      counts := tx.counts.insert b (v + n), countLocks := insert b tx.countLocks } := by
    rw [Tx.updateCount, hv]
  rw [Table.sumAt_cons, if_pos rfl] at hnet
  rw [htx]
  refine ⟨h.inserted, h.deleted, fun c w hw => ?_, fun c hc => ?_,
    fun c hc => h.names c (List.mem_cons_of_mem _ hc)⟩
  · rw [Table.lookup_insert_eq] at hw
    split at hw
    · rename_i hcb
      subst hcb
      refine ⟨Finset.mem_insert_self c _, v₀, hv₀, ?_⟩
      rw [← Option.some.inj hw]
      change v + n = v₀ + tx.net c - Table.sumAt todo c
      omega
    · rename_i hcb
      obtain ⟨hlock, w₀, hw₀, hnet'⟩ := h.counts c w hw
      refine ⟨Finset.mem_insert_of_mem hlock, w₀, hw₀, ?_⟩
      rw [hnet', Statement.owed, Table.sumAt_cons, if_neg (Ne.symm hcb), zero_add]
      rfl
  · have hcb : b ≠ c := fun heq => by simp [heq] at hc
    rw [Table.lookup_insert_eq, if_neg hcb.symm] at hc
    have := h.uncounted c hc
    rw [Statement.owed, Table.sumAt_cons, if_neg hcb, zero_add] at this
    exact this

/-! ## Statements and locks -/

/-- A transaction goes on to one that has taken only free rows. -/
structure Tx.Takes (others : List Session) (tx tx' : Tx) : Prop where
  writes : ∀ k, tx'.Writes k → tx.Writes k ∨ KeyFree others k
  countLocks : ∀ b ∈ tx'.countLocks, b ∈ tx.countLocks ∨ CountFree others b

section Takes

variable {others : List Session}

theorem takes_refl (tx : Tx) : tx.Takes others tx :=
  ⟨fun _ h => Or.inl h, fun _ h => Or.inl h⟩

theorem takes_lock (h : CountFree others b) : tx.Takes others (tx.lock b) := by
  refine ⟨fun _ h => Or.inl h, fun c hc => ?_⟩
  rcases Finset.mem_insert.1 hc with rfl | hc
  · exact Or.inr h
  · exact Or.inl hc

theorem takes_insertRow (h : KeyFree others k) (a : Assignment) :
    tx.Takes others (tx.insertRow k a) := by
  refine ⟨fun k' hk' => ?_, fun _ h => Or.inl h⟩
  by_cases heq : k' = k
  · exact Or.inr (heq ▸ h)
  · left
    simpa [Tx.Writes, Tx.insertRow, Table.lookup_insert_eq, heq] using hk'

theorem takes_deleteRow (h : KeyFree others k) (a : Assignment) :
    tx.Takes others (tx.deleteRow k a) := by
  refine ⟨fun k' hk' => ?_, fun _ h => Or.inl h⟩
  by_cases heq : k' = k
  · exact Or.inr (heq ▸ h)
  · left
    simpa [Tx.Writes, Tx.deleteRow, Table.lookup_insert_eq, heq] using hk'

theorem takes_updateCount (h : CountFree others b) (n : ℤ) :
    tx.Takes others (tx.updateCount d b n) := by
  unfold Tx.updateCount
  split
  · refine ⟨fun _ h => Or.inl h, fun c hc => ?_⟩
    rcases Finset.mem_insert.1 hc with rfl | hc
    · exact Or.inr h
    · exact Or.inl hc
  · exact takes_refl tx

/-- Taking free rows keeps a session apart from the others. -/
theorem exclusive_of_takes {tx' : Tx} (h : ∀ tt ∈ others, Exclusive (.inTx tx st) tt)
    (ht : tx.Takes others tx') : ∀ tt ∈ others, Exclusive (.inTx tx' st') tt := by
  rintro tt htt _ ⟨⟩ ux hux
  have hold := h tt htt tx rfl ux hux
  refine ⟨fun k hk => ?_, fun b hb => ?_⟩
  · rcases ht.writes k hk with hk | hk
    · exact hold.1 k hk
    · exact hk tt htt ux hux
  · rcases ht.countLocks b hb with hb | hb
    · exact hold.2 b hb
    · exact hb tt htt ux hux

/-! ## What a statement leaves -/

theorem counted_of_mem_joined (h : b ∈ d.joined) : d.Counted b := (Database.mem_joined.1 h).1

/-- The rows an amount is gathered for are those of before and the one it
is added to. -/
theorem lookup_bump_isSome {t : Table Backend ℤ} {c : Backend} {n : ℤ}
    (h : ((t.bump c n).lookup b).isSome) : b = c ∨ (t.lookup b).isSome := by
  rw [Table.bump, Table.lookup_insert_eq] at h
  split at h
  · rename_i heq
    exact Or.inl heq
  · exact Or.inr h

theorem lookup_isSome_of_mem_pairs {t : Table Backend ℤ} (h : b ∈ t.pairs.map Prod.fst) :
    (t.lookup b).isSome := by
  obtain ⟨⟨c, n⟩, hp, rfl⟩ := List.mem_map.1 h
  rw [Table.mem_pairs.1 hp]
  rfl

/-- **Every statement**, with the transaction it leaves and the statement
after it. -/
inductive Advances (d : Database) (others : List Session) (tx : Tx) :
    Statement → Tx → Statement → Prop
  /-- Either `SELECT` locks a joined row. -/
  | skipLocked {now : Time} {k : RoutingKey} {b : Backend} : b ∈ d.joined → RowFree others b →
      Advances d others tx (.selectSkipLocked now k) (tx.lock b) (.insertOne now k b)
  | noRows {now : Time} {k : RoutingKey} :
      Advances d others tx (.selectSkipLocked now k) tx (.selectForUpdate now k)
  | forUpdate {now : Time} {k : RoutingKey} {b : Backend} : b ∈ d.joined → RowFree others b →
      Advances d others tx (.selectForUpdate now k) (tx.lock b) (.insertOne now k b)
  /-- The key is taken, so nothing is inserted or counted for it. -/
  | keepOne {now : Time} {k : RoutingKey} {b : Backend} :
      Advances d others tx (.insertOne now k b) tx .commit
  | insertOne {now : Time} {k : RoutingKey} {b : Backend} : KeyFree others k →
      ¬ tx.Conflicts d k → Advances d others tx (.insertOne now k b)
        (tx.insertRow k (freshRow b now)) (.updateCounts [(b, 1)])
  | insertedAll {now : Time} {countDeltas : Table Backend ℤ} :
      Advances d others tx (.insertMany now [] countDeltas) tx (.updateCounts countDeltas.pairs)
  | keepNext {now : Time} {q : RoutingKey × BulkAssignEntry}
      {todo : List (RoutingKey × BulkAssignEntry)} {countDeltas : Table Backend ℤ} :
      Advances d others tx (.insertMany now (q :: todo) countDeltas) tx
        (.insertMany now todo countDeltas)
  | insertNext {now : Time} {k : RoutingKey} {e : BulkAssignEntry}
      {todo : List (RoutingKey × BulkAssignEntry)} {countDeltas : Table Backend ℤ} :
      KeyFree others k → ¬ tx.Conflicts d k →
      Advances d others tx (.insertMany now ((k, e) :: todo) countDeltas)
        (tx.insertRow k (bulkRow now e))
        (.insertMany now todo (countDeltas.bump e.backend e.storedWeight))
  | deletedAll {countDeltas : Table Backend ℤ} :
      Advances d others tx (.deleteMany [] countDeltas) tx
        (.updateCounts (countDeltas.pairs.map fun p => (p.1, -p.2)))
  /-- A key the snapshot or the table has no row for. -/
  | passNext {k : RoutingKey} {todo : List RoutingKey} {countDeltas : Table Backend ℤ} :
      Advances d others tx (.deleteMany (k :: todo) countDeltas) tx (.deleteMany todo countDeltas)
  | deleteNext {k : RoutingKey} {a : Assignment} {todo : List RoutingKey}
      {countDeltas : Table Backend ℤ} : KeyFree others k → d.assignments.lookup k = some a →
      tx.deleted.lookup k = none →
      Advances d others tx (.deleteMany (k :: todo) countDeltas) (tx.deleteRow k a)
        (.deleteMany todo (countDeltas.bump a.backend a.weight))
  | countedAll : Advances d others tx (.updateCounts []) tx .commit
  | countNext {b : Backend} {n : ℤ} {todo : List (Backend × ℤ)} : CountFree others b →
      Advances d others tx (.updateCounts ((b, n) :: todo)) (tx.updateCount d b n)
        (.updateCounts todo)

/-- The transaction is left open, one statement further. -/
def Continues (d : Database) (others : List Session) (tx : Tx) (st : Statement)
    (p : Session × Effect) : Prop :=
  ∃ tx' st', p = (.inTx tx' st', .none) ∧ Advances d others tx st tx' st'

theorem Advances.continues {tx' : Tx} {p : Session × Effect} (h : Advances d others tx st tx' st')
    (heq : some (Session.inTx tx' st', Effect.none) = some p) : Continues d others tx st p :=
  ⟨tx', st', (Option.some.inj heq).symm, h⟩

section Statements

variable {p : Session × Effect} {c : Choice} {now : Time} {countDeltas : Table Backend ℤ}

theorem continues_select
    (hnext : Statement.next d others tx (.selectSkipLocked now k) c = some p) :
    Continues d others tx (.selectSkipLocked now k) p := by
  cases c with
  | pick b =>
    obtain ⟨⟨hb, hfree, -⟩, heq⟩ := Option.ite_none_right_eq_some.1 hnext
    exact Advances.continues (.skipLocked hb hfree) heq
  | noRows =>
    obtain ⟨-, heq⟩ := Option.ite_none_right_eq_some.1 hnext
    exact Advances.continues .noRows heq
  | proceed | unseen | rollback => cases hnext

theorem continues_insertOne
    (hnext : Statement.next d others tx (.insertOne now k b) c = some p) :
    Continues d others tx (.insertOne now k b) p := by
  cases c with
  | proceed =>
    obtain ⟨hfree, heq⟩ := Option.ite_none_right_eq_some.1 hnext
    split at heq
    · exact Advances.continues .keepOne heq
    · rename_i hk
      exact Advances.continues (.insertOne hfree hk) heq
  | pick | noRows | unseen | rollback => cases hnext

theorem continues_insertMany {todo : List (RoutingKey × BulkAssignEntry)}
    (hnext : Statement.next d others tx (.insertMany now todo countDeltas) c = some p) :
    Continues d others tx (.insertMany now todo countDeltas) p := by
  obtain rfl : c = .proceed := by
    cases c <;> first | rfl | (cases todo <;> cases hnext)
  rcases todo with - | ⟨⟨k, e⟩, todo⟩
  · exact Advances.continues .insertedAll hnext
  · obtain ⟨hfree, heq⟩ := Option.ite_none_right_eq_some.1 hnext
    split at heq
    · exact Advances.continues .keepNext heq
    · rename_i hk
      exact Advances.continues (.insertNext hfree hk) heq

theorem continues_deleteMany {todo : List RoutingKey}
    (hnext : Statement.next d others tx (.deleteMany todo countDeltas) c = some p) :
    Continues d others tx (.deleteMany todo countDeltas) p := by
  rcases todo with - | ⟨k, todo⟩
  · obtain rfl : c = .proceed := by cases c <;> first | rfl | cases hnext
    exact Advances.continues .deletedAll hnext
  cases c with
  | proceed =>
    obtain ⟨hfree, heq⟩ := Option.ite_none_right_eq_some.1 hnext
    rcases ha : d.assignments.lookup k with - | a
    · rw [ha] at heq
      exact Advances.continues .passNext heq
    simp only [ha] at heq
    split at heq
    · exact Advances.continues .passNext heq
    · rename_i hk
      exact Advances.continues (.deleteNext hfree ha (Option.not_isSome_iff_eq_none.1 hk)) heq
  | unseen => exact Advances.continues .passNext hnext
  | pick | noRows | rollback => cases hnext

/-- **A statement is one of these**, or the commit. -/
theorem continues_next (hnext : st.next d others tx c = some p) :
    Continues d others tx st p ∨ (st = .commit ∧ p = (.closed, .commit tx)) := by
  cases st with
  | selectSkipLocked now k => exact Or.inl (continues_select hnext)
  | selectForUpdate now k =>
    cases c with
    | pick b =>
      obtain ⟨⟨hb, hfree⟩, heq⟩ := Option.ite_none_right_eq_some.1 hnext
      exact Or.inl (Advances.continues (.forUpdate hb hfree) heq)
    | proceed | noRows | unseen | rollback => cases hnext
  | insertOne now k b => exact Or.inl (continues_insertOne hnext)
  | insertMany now todo countDeltas => exact Or.inl (continues_insertMany hnext)
  | deleteMany todo countDeltas => exact Or.inl (continues_deleteMany hnext)
  | updateCounts todo =>
    obtain rfl : c = .proceed := by
      cases c <;> first | rfl | (cases todo <;> cases hnext)
    rcases todo with - | ⟨⟨b, n⟩, todo⟩
    · exact Or.inl (Advances.continues .countedAll hnext)
    · obtain ⟨hfree, heq⟩ := Option.ite_none_right_eq_some.1 hnext
      exact Or.inl (Advances.continues (.countNext hfree) heq)
  | commit =>
    obtain rfl : c = .proceed := by cases c <;> first | rfl | cases hnext
    exact Or.inr ⟨rfl, (Option.some.inj hnext).symm⟩

/-- A statement takes only free rows. -/
theorem Advances.takes {tx' : Tx} (h : Advances d others tx st tx' st') : tx.Takes others tx' := by
  cases h with
  | skipLocked _ hfree => exact takes_lock hfree.1
  | forUpdate _ hfree => exact takes_lock hfree.1
  | insertOne hfree _ => exact takes_insertRow hfree _
  | insertNext hfree _ => exact takes_insertRow hfree _
  | deleteNext hfree _ _ => exact takes_deleteRow hfree _
  | countNext hfree => exact takes_updateCount hfree _
  | noRows => exact takes_refl tx
  | keepOne => exact takes_refl tx
  | insertedAll => exact takes_refl tx
  | keepNext => exact takes_refl tx
  | deletedAll => exact takes_refl tx
  | passNext => exact takes_refl tx
  | countedAll => exact takes_refl tx

/-- A row of an insert of several is owed, and its backend has a count
row. -/
theorem Tx.Sound.insertNext {e : BulkAssignEntry} {todo : List (RoutingKey × BulkAssignEntry)}
    (h : tx.Sound d (.insertMany now ((k, e) :: todo) countDeltas)) (hk : ¬ tx.Conflicts d k) :
    (tx.insertRow k (bulkRow now e)).Sound d
      (.insertMany now todo (countDeltas.bump e.backend e.storedWeight)) := by
  have he : d.Counted e.backend := h.names _ (Or.inl ⟨_, List.mem_cons_self, rfl⟩)
  refine h.insertRow hk he (fun b => Table.value_bump _ _ _ _) fun b hb => ?_
  rcases hb with ⟨q, hq, hb⟩ | hb
  · exact h.names b (Or.inl ⟨q, List.mem_cons_of_mem _ hq, hb⟩)
  · rcases lookup_bump_isSome hb with rfl | hb
    · exact he
    · exact h.names b (Or.inr hb)

theorem Tx.Sound.deleteNext {a : Assignment} {todo : List RoutingKey} (hd : d.Consistent)
    (h : tx.Sound d (.deleteMany (k :: todo) countDeltas))
    (ha : d.assignments.lookup k = some a) (hk : tx.deleted.lookup k = none) :
    (tx.deleteRow k a).Sound d (.deleteMany todo (countDeltas.bump a.backend a.weight)) := by
  refine h.deleteRow ha hk (fun b => ?_) fun b hb => ?_
  · simp only [Statement.owed, Table.value_bump, rowWeight]
    ring
  · rcases lookup_bump_isSome hb with rfl | hb
    · exact hd.counted k a ha
    · exact h.names b hb

/-- **A statement keeps the account.** -/
theorem Tx.Sound.advances {tx' : Tx} (hd : d.Consistent) (h : tx.Sound d st)
    (hadv : Advances d others tx st tx' st') : tx'.Sound d st' := by
  cases hadv with
  | skipLocked hb _ =>
    refine (h.lock _).advance (fun _ => rfl) ?_
    rintro _ rfl
    exact counted_of_mem_joined hb
  | noRows => exact h.advance (fun _ => rfl) fun _ => False.elim
  | forUpdate hb _ =>
    refine (h.lock _).advance (fun _ => rfl) ?_
    rintro _ rfl
    exact counted_of_mem_joined hb
  | keepOne => exact h.advance (fun _ => rfl) fun _ => False.elim
  | @insertOne now k b _ hk =>
    refine h.insertRow hk (h.names b rfl) (fun _ => add_comm _ _) fun c hc => ?_
    rw [List.mem_singleton.1 hc]
    exact h.names b rfl
  | @insertedAll now countDeltas =>
    exact h.advance (fun b => Table.sumAt_pairs countDeltas b)
      fun b hb => h.names b (Or.inr (lookup_isSome_of_mem_pairs hb))
  | keepNext =>
    refine h.advance (fun _ => rfl) fun b hb => h.names b (hb.imp_left ?_)
    rintro ⟨q, hq, hb⟩
    exact ⟨q, List.mem_cons_of_mem _ hq, hb⟩
  | insertNext _ hk => exact h.insertNext hk
  | deletedAll =>
    refine h.advance (fun b => ?_) fun b hb => ?_
    · simp only [Statement.owed, Table.sumAt_map_neg, Table.sumAt_pairs]
    · rw [Statement.Names, List.map_map] at hb
      exact h.names b (lookup_isSome_of_mem_pairs hb)
  | passNext => exact h.advance (fun _ => rfl) h.names
  | deleteNext _ ha hk => exact h.deleteNext hd ha hk
  | countedAll => exact h.advance (fun _ => rfl) fun _ => False.elim
  | countNext _ => exact h.updateCount

end Statements

end Takes

/-! ## What a step leaves of the database -/

theorem lookup_commit_assignments (tx : Tx) (d : Database) (k : RoutingKey) :
    (tx.commit d).assignments.lookup k =
      (tx.inserted.lookup k).or (if (tx.deleted.lookup k).isSome then none
        else d.assignments.lookup k) := by
  rw [Tx.commit, Table.lookup_insertAll_pairs, Table.lookup_eraseAll]
  congr 1
  refine if_congr ⟨fun h => ?_, fun h => ?_⟩ rfl rfl
  · obtain ⟨⟨k', a⟩, hp, rfl⟩ := List.mem_map.1 h
    rw [Table.mem_pairs.1 hp]
    rfl
  · obtain ⟨a, ha⟩ := Option.isSome_iff_exists.1 h
    exact List.mem_map.2 ⟨(k, a), Table.mem_pairs.2 ha, rfl⟩

theorem lookup_commit_counts (tx : Tx) (d : Database) (b : Backend) :
    (tx.commit d).counts.lookup b = (tx.counts.lookup b).or (d.counts.lookup b) :=
  Table.lookup_insertAll_pairs _ _ b

/-- A commit adds the net weight of the transaction. -/
theorem weightOn_commit (h : tx.Sound d st) :
    (tx.commit d).weightOn b = d.weightOn b + tx.net b := by
  have hnew : ∀ k a, tx.inserted.lookup k = some a →
      (d.assignments.eraseAll (tx.deleted.pairs.map Prod.fst)).lookup k = none := by
    intro k a hk
    rw [Table.lookup_eraseAll]
    split
    · rfl
    · exact (h.inserted k a hk).1
  simp only [Database.weightOn, Tx.commit, Tx.net, Table.total_insertAll_pairs _ hnew,
    Table.total_eraseAll_pairs _ h.deleted]
  ring

/-- Count rows are never deleted. -/
theorem counted_commit (h : d.Counted b) : (tx.commit d).Counted b := by
  rw [Database.Counted, lookup_commit_counts, Option.isSome_or]
  exact Bool.or_eq_true_iff.2 (Or.inr h)

/-- **A commit of a transaction that owes nothing moves both tables
alike.** -/
theorem consistent_commit (hd : d.Consistent) (h : tx.Sound d .commit) :
    (tx.commit d).Consistent := by
  refine ⟨fun b v hv => ?_, fun k a ha => counted_commit ?_⟩
  · rw [lookup_commit_counts] at hv
    rw [weightOn_commit h]
    rcases hb : tx.counts.lookup b with - | w
    · rw [hb, Option.none_or] at hv
      have hnet : tx.net b = 0 := h.uncounted b hb
      rw [hnet, add_zero]
      exact hd.counts b v hv
    · obtain ⟨-, v₀, hv₀, hw⟩ := h.counts b w hb
      rw [hb, Option.some_or, Option.some.injEq] at hv
      have := hd.counts b v₀ hv₀
      simp only [Statement.owed] at hw
      omega
  · rw [lookup_commit_assignments, Option.or_eq_some_iff] at ha
    rcases ha with ha | ⟨-, ha⟩
    · exact (h.inserted k a ha).2
    · split at ha
      · cases ha
      · exact hd.counted k a ha

/-- A transaction that shares no row with one that commits keeps its
account. -/
theorem Tx.Sound.of_commit {ux : Tx} {su : Statement} (hu : ux.Sound d su) (h : tx.Sound d st)
    (hkeys : ∀ k, ux.Writes k → ¬ tx.Writes k)
    (hlocks : ∀ b ∈ ux.countLocks, b ∉ tx.countLocks) : ux.Sound (tx.commit d) su := by
  have hassign : ∀ k, ux.Writes k → (tx.commit d).assignments.lookup k =
      d.assignments.lookup k := by
    intro k hk
    have hfree := hkeys k hk
    simp only [Tx.Writes, not_or, Option.not_isSome_iff_eq_none] at hfree
    rw [lookup_commit_assignments, hfree.1, hfree.2]
    rfl
  refine ⟨fun k a hk => ?_, fun k a hk => ?_, fun b v hv => ?_, hu.uncounted,
    fun b hb => counted_commit (hu.names b hb)⟩
  · rw [hassign k (Or.inl (by rw [hk]; rfl))]
    exact ⟨(hu.inserted k a hk).1, counted_commit (hu.inserted k a hk).2⟩
  · rw [hassign k (Or.inr (by rw [hk]; rfl))]
    exact hu.deleted k a hk
  · obtain ⟨hlock, v₀, hv₀, heq⟩ := hu.counts b v hv
    refine ⟨hlock, v₀, ?_, heq⟩
    have hnone : tx.counts.lookup b = none := by
      by_contra hne
      obtain ⟨w, hw⟩ := Option.ne_none_iff_exists'.1 hne
      exact hlocks b hlock (h.counts b w hw).1
    rw [lookup_commit_counts, hnone, Option.none_or, hv₀]

/-- A database with the same assignments, whose count rows are still there
unchanged. -/
structure Database.Grows (d d' : Database) : Prop where
  assignments : d'.assignments = d.assignments
  counts : ∀ b v, d.counts.lookup b = some v → d'.counts.lookup b = some v

theorem Database.Grows.counted (h : d.Grows d') (hb : d.Counted b) : d'.Counted b := by
  obtain ⟨v, hv⟩ := Option.isSome_iff_exists.1 hb
  rw [Database.Counted, h.counts b v hv]
  rfl

theorem Tx.Sound.of_grows (h : tx.Sound d st) (hg : d.Grows d') : tx.Sound d' st where
  inserted k a hk := by
    rw [hg.assignments]
    exact ⟨(h.inserted k a hk).1, hg.counted (h.inserted k a hk).2⟩
  deleted k a hk := by rw [hg.assignments]; exact h.deleted k a hk
  counts b v hv := by
    obtain ⟨hlock, v₀, hv₀, heq⟩ := h.counts b v hv
    exact ⟨hlock, v₀, hg.counts b v₀ hv₀, heq⟩
  uncounted := h.uncounted
  names b hb := hg.counted (h.names b hb)

theorem grows_insertCount (b : Backend) (d : Database) : d.Grows (insertCount b d) := by
  refine ⟨rfl, fun c v hv => ?_⟩
  simp only [insertCount]
  split
  · exact hv
  · rename_i hb
    have hne : c ≠ b := by
      rintro rfl
      rw [hv] at hb
      exact hb rfl
    rw [Table.lookup_insert_eq, if_neg hne, hv]

theorem counted_insertCount (b : Backend) (d : Database) : (insertCount b d).Counted b := by
  simp only [Database.Counted, insertCount]
  split
  · assumption
  · rw [Table.lookup_insert_eq, if_pos rfl]
    rfl

theorem grows_removeBackend (b : Backend) (d : Database) : d.Grows (removeBackend b d) := by
  unfold removeBackend
  split
  · exact ⟨rfl, fun _ _ hv => hv⟩
  · exact ⟨rfl, fun _ _ hv => hv⟩

/-- A backend no assignment names weighs nothing. -/
theorem weightOn_eq_zero (h : ∀ k a, d.assignments.lookup k = some a → a.backend ≠ b) :
    d.weightOn b = 0 := by
  refine List.sum_eq_zero fun x hx => ?_
  obtain ⟨⟨k, a⟩, hmem, rfl⟩ := List.mem_map.1 hx
  exact if_neg (h k a (AList.mem_lookup_iff.2 hmem))

/-- The rows of the count table with a new row of zero are right: nothing
is assigned to a backend without a count row. -/
theorem consistent_insertCount (hd : d.Consistent) (b : Backend) :
    (insertCount b d).Consistent := by
  refine ⟨fun c v hv => ?_, fun k a ha => (grows_insertCount b d).counted (hd.counted k a ha)⟩
  change v = d.weightOn c
  simp only [insertCount] at hv
  split at hv
  · exact hd.counts c v hv
  · rename_i hb
    rw [Table.lookup_insert_eq] at hv
    split at hv
    · rename_i hcb
      rw [← Option.some.inj hv, hcb]
      refine (weightOn_eq_zero fun k a ha hab => hb ?_).symm
      rw [← hab]
      exact hd.counted k a ha
    · exact hd.counts c v hv

theorem consistent_removeBackend (hd : d.Consistent) (b : Backend) :
    (removeBackend b d).Consistent := by
  unfold removeBackend
  split
  · exact ⟨hd.counts, hd.counted⟩
  · exact hd

/-! ## Whole runs -/

section Runs

variable {s s' : System} {i : ℕ} {ss ss' : Session}

theorem step_eq_some {a : Action} (h : s.step a = some s') :
    ∃ ss ss' eff, s.sessions[a.session]? = some ss ∧
      ss.next s.database (s.sessions.eraseIdx a.session) a.choice = some (ss', eff) ∧
      s' = ⟨eff.apply s.database, s.sessions.set a.session ss', eff.added s.added⟩ := by
  obtain ⟨ss, hss, h⟩ := Option.bind_eq_some_iff.1 h
  obtain ⟨⟨ss', eff⟩, hnext, rfl⟩ := Option.map_eq_some_iff.1 h
  exact ⟨ss, ss', eff, hss, hnext, rfl⟩

/-- A step is sound when what it commits is, the session that moved is and
keeps apart, and the others stay sound. -/
theorem System.Sound.set (h : s.Sound) (hss : s.sessions[i]? = some ss) {added' : Finset Backend}
    (hd : d'.Consistent) (hadded : ∀ b ∈ added', d'.Counted b) (hss' : ss'.Sound d')
    (hothers : ∀ tt ∈ s.sessions.eraseIdx i, tt.Sound d')
    (hex : ∀ tt ∈ s.sessions.eraseIdx i, Exclusive ss' tt) :
    System.Sound ⟨d', s.sessions.set i ss', added'⟩ where
  database := hd
  added := hadded
  sessions tt htt := by
    rcases Pool.eq_or_mem_eraseIdx htt with rfl | htt
    · exact hss'
    · exact hothers tt htt
  exclusive := h.exclusive.set (fun _ _ h => h.symm) hss hex

theorem System.Sound.sound_of_mem_eraseIdx (h : s.Sound) {tt : Session}
    (htt : tt ∈ s.sessions.eraseIdx i) : tt.Sound s.database :=
  h.sessions tt (List.mem_of_mem_eraseIdx htt)

/-- A step that commits nothing. -/
theorem System.Sound.set_local (h : s.Sound) (hss : s.sessions[i]? = some ss)
    (hss' : ss'.Sound s.database) (hex : ∀ tt ∈ s.sessions.eraseIdx i, Exclusive ss' tt) :
    System.Sound ⟨s.database, s.sessions.set i ss', s.added⟩ :=
  h.set hss h.database h.added hss' (fun _ => h.sound_of_mem_eraseIdx) hex

/-- A session that leaves no transaction open. -/
theorem System.Sound.set_closed (h : s.Sound) (hss : s.sessions[i]? = some ss) :
    System.Sound ⟨s.database, s.sessions.set i .closed, s.added⟩ :=
  h.set_local hss trivial fun _ _ => exclusive_of_tx_none rfl

/-- A transaction that begins. -/
theorem System.Sound.set_fresh {st : Statement} (h : s.Sound) (hss : s.sessions[i]? = some ss)
    (howed : ∀ b, st.owed b = 0) (hnames : ∀ b, st.Names b → s.database.Counted b) :
    System.Sound ⟨s.database, s.sessions.set i (.inTx .fresh st), s.added⟩ := by
  refine h.set_local hss (sound_fresh howed hnames) fun tt _ => ?_
  rintro _ ⟨⟩ ux -
  exact ⟨fun k hk => absurd hk (by simp [Tx.Writes, Tx.fresh]),
    fun b hb => absurd hb (Finset.notMem_empty b)⟩

/-- A statement outside a transaction that keeps the assignments and the
count rows. -/
theorem System.Sound.set_grows (h : s.Sound) (hss : s.sessions[i]? = some ss)
    {added' : Finset Backend} (hd : d'.Consistent) (hg : s.database.Grows d')
    (hadded : ∀ b ∈ added', d'.Counted b) (htx : ss'.tx = none) :
    System.Sound ⟨d', s.sessions.set i ss', added'⟩ := by
  refine h.set hss hd hadded ?_ (fun tt htt => ?_) fun _ _ => exclusive_of_tx_none htx
  · exact sound_of_tx_none htx
  · have := h.sound_of_mem_eraseIdx htt
    cases tt with
    | inTx ux su => exact Tx.Sound.of_grows this hg
    | _ => trivial

/-- The commit of a session. -/
theorem System.Sound.set_commit (h : s.Sound)
    (hss : s.sessions[i]? = some (.inTx tx .commit)) :
    System.Sound ⟨tx.commit s.database, s.sessions.set i .closed, s.added⟩ := by
  have htx : tx.Sound s.database .commit := h.sessions _ (List.mem_of_getElem? hss)
  refine h.set hss (consistent_commit h.database htx)
    (fun b hb => counted_commit (h.added b hb)) trivial (fun tt htt => ?_)
    fun _ _ => exclusive_of_tx_none rfl
  have hex := (h.exclusive.of_mem_eraseIdx hss htt).symm
  have htt' := h.sound_of_mem_eraseIdx htt
  cases tt with
  | inTx ux su =>
    have := hex ux rfl tx rfl
    exact Tx.Sound.of_commit htt' htx this.1 this.2
  | _ => trivial

/-- **Every step of a session.** -/
inductive Session.Steps (d : Database) (others : List Session) :
    Session → Choice → Session → Effect → Prop
  | rollback {ss : Session} : Session.Steps d others ss .rollback .closed .none
  | assign {now : Time} {k : RoutingKey} : Session.Steps d others (.assignLeastLoaded now k)
      .proceed (.inTx .fresh (.selectSkipLocked now k)) .none
  | assignNothing {now : Time} {entries : Table RoutingKey BulkAssignEntry} :
      Session.Steps d others (.bulkAssign now entries) .proceed .closed .none
  | bulkAssign {now : Time} {entries : Table RoutingKey BulkAssignEntry} :
      Session.Steps d others (.bulkAssign now entries) .proceed
        (.inTx .fresh (.insertMany now entries.pairs ∅)) .none
  | deleteNothing {keys : List RoutingKey} :
      Session.Steps d others (.bulkDeleteAssignments keys) .proceed .closed .none
  | bulkDelete {keys : List RoutingKey} : Session.Steps d others (.bulkDeleteAssignments keys)
      .proceed (.inTx .fresh (.deleteMany keys ∅)) .none
  | addBackend {b : Backend} :
      Session.Steps d others (.addBackend b) .proceed (.insertCount b) (.upsertBackend b)
  | insertCount {b : Backend} :
      Session.Steps d others (.insertCount b) .proceed .closed (.insertCount b)
  | removeBackend {b : Backend} :
      Session.Steps d others (.removeBackend b) .proceed .closed (.removeBackend b)
  | statement {tx tx' : Tx} {st st' : Statement} {c : Choice} : c ≠ .rollback →
      Advances d others tx st tx' st' → Session.Steps d others (.inTx tx st) c (.inTx tx' st') .none
  | commit {tx : Tx} {c : Choice} : c ≠ .rollback →
      Session.Steps d others (.inTx tx .commit) c .closed (.commit tx)

theorem steps_of_proceed {others : List Session} {eff : Effect} (htx : ss.tx = none)
    (h : ss.next d others .proceed = some (ss', eff)) :
    ss.Steps d others .proceed ss' eff := by
  cases ss with
  | closed => cases h
  | inTx tx st => cases htx
  | assignLeastLoaded now k =>
    obtain ⟨rfl, rfl⟩ := Prod.mk.inj (Option.some.inj h)
    exact .assign
  | bulkAssign now entries =>
    simp only [Session.next] at h
    split at h
    · obtain ⟨rfl, rfl⟩ := Prod.mk.inj (Option.some.inj h)
      exact .assignNothing
    · obtain ⟨rfl, rfl⟩ := Prod.mk.inj (Option.some.inj h)
      exact .bulkAssign
  | bulkDeleteAssignments keys =>
    simp only [Session.next] at h
    split at h
    · obtain ⟨rfl, rfl⟩ := Prod.mk.inj (Option.some.inj h)
      exact .deleteNothing
    · obtain ⟨rfl, rfl⟩ := Prod.mk.inj (Option.some.inj h)
      exact .bulkDelete
  | addBackend b =>
    obtain ⟨-, heq⟩ := Option.ite_none_right_eq_some.1 h
    obtain ⟨rfl, rfl⟩ := Prod.mk.inj (Option.some.inj heq)
    exact .addBackend
  | insertCount b =>
    obtain ⟨rfl, rfl⟩ := Prod.mk.inj (Option.some.inj h)
    exact .insertCount
  | removeBackend b =>
    obtain ⟨-, heq⟩ := Option.ite_none_right_eq_some.1 h
    obtain ⟨rfl, rfl⟩ := Prod.mk.inj (Option.some.inj heq)
    exact .removeBackend

theorem steps_of_next {others : List Session} {c : Choice} {eff : Effect}
    (h : ss.next d others c = some (ss', eff)) : ss.Steps d others c ss' eff := by
  by_cases hc : c = .rollback
  · subst hc
    cases ss
    case closed => cases h
    all_goals
      obtain ⟨rfl, rfl⟩ := Prod.mk.inj (Option.some.inj h)
      exact .rollback
  by_cases htx : ss.tx = none
  · -- Outside a transaction a session goes on or rolls back.
    obtain rfl : c = .proceed := by
      cases ss with
      | inTx tx st => cases htx
      | _ => cases c <;> first | rfl | exact absurd rfl hc | cases h
    exact steps_of_proceed htx h
  · cases ss with
    | inTx tx st =>
      have hnext : st.next d others tx c = some (ss', eff) := by
        cases c <;> first | exact h | exact absurd rfl hc
      rcases continues_next hnext with ⟨tx', st', heq, hadv⟩ | ⟨rfl, heq⟩
      · obtain ⟨rfl, rfl⟩ := Prod.mk.inj heq
        exact .statement hc hadv
      · obtain ⟨rfl, rfl⟩ := Prod.mk.inj heq
        exact .commit hc
    | _ => exact absurd rfl htx

/-- **Every step keeps the system sound**, when a `BulkAssign` that begins
names only backends that have been added. -/
theorem sound_step {a : Action} (h : s.Sound) (hnamed : s.NamesAdded a)
    (hstep : s.step a = some s') : s'.Sound := by
  obtain ⟨ss, ss', eff, hss, hnext, rfl⟩ := step_eq_some hstep
  obtain ⟨i, c⟩ := a
  dsimp only at hss hnext ⊢
  replace hnamed : ss.NamesAdded s.added := hnamed ss hss
  cases steps_of_next hnext with
  | rollback => exact h.set_closed hss
  | assign => exact h.set_fresh hss (fun _ => rfl) fun _ => False.elim
  | assignNothing => exact h.set_closed hss
  | @bulkAssign now entries =>
    -- The entries name backends that have been added, so they have count rows.
    refine h.set_fresh hss (fun _ => rfl) fun b hb => ?_
    obtain ⟨p, hp, rfl⟩ : ∃ p ∈ entries.pairs, p.2.backend = b := hb.resolve_right (by simp)
    exact h.added _ (hnamed p hp)
  | deleteNothing => exact h.set_closed hss
  | bulkDelete =>
    exact h.set_fresh hss (fun _ => rfl) fun b hb => absurd hb (by simp [Statement.Names])
  | addBackend =>
    exact h.set_grows hss ⟨h.database.counts, h.database.counted⟩ ⟨rfl, fun _ _ hv => hv⟩
      h.added rfl
  | @insertCount b =>
    refine h.set_grows hss (consistent_insertCount h.database b) (grows_insertCount b _) ?_ rfl
    intro c hadded
    rcases Finset.mem_insert.1 hadded with rfl | hadded
    · exact counted_insertCount c s.database
    · exact (grows_insertCount b _).counted (h.added c hadded)
  | @removeBackend b =>
    exact h.set_grows hss (consistent_removeBackend h.database b) (grows_removeBackend b _)
      (fun c hadded => (grows_removeBackend b _).counted (h.added c hadded)) rfl
  | @statement tx tx' st st' _ _ hadv =>
    have htx : tx.Sound s.database st := h.sessions _ (List.mem_of_getElem? hss)
    exact h.set_local hss (htx.advances h.database hadv)
      (exclusive_of_takes (fun tt htt => h.exclusive.of_mem_eraseIdx hss htt) hadv.takes)
  | commit _ => exact h.set_commit hss

/-- A call about to start has no transaction open. -/
theorem tx_of_mem_start {ops : List Op} (h : ss ∈ (System.start d ops).sessions) :
    ss.tx = none := by
  obtain ⟨op, -, rfl⟩ := List.mem_map.1 h
  cases op <;> rfl

theorem sound_start (hd : d.Consistent) (ops : List Op) : (System.start d ops).Sound := by
  refine ⟨hd, fun b hb => ?_, fun ss hss => ?_, fun i j ss tt _ hi _ => ?_⟩
  · exact AList.lookup_isSome.2 (AList.mem_keys.2 (List.mem_toFinset.1 hb))
  · exact sound_of_tx_none (tx_of_mem_start hss)
  · exact exclusive_of_tx_none (tx_of_mem_start (List.mem_of_getElem? hi))

/-- **The counts are right whenever no transaction is open**, and in fact
at every moment: each committed count row is the weight of the committed
assignments to its backend, through every interleaving of statements,
commits and rollbacks. -/
theorem count_rows_eq_weightOn (d : Database) (hd : d.Consistent) (ops : List Op)
    (sched : List Action) (s : System)
    (hnamed : Run.Meets System.step System.NamesAdded (.start d ops) sched)
    (hrun : Run.exec System.step (.start d ops) sched = some s) (b : Backend) (v : ℤ)
    (hv : s.database.counts.lookup b = some v) : v = s.database.weightOn b :=
  (Run.exec_invariant (fun _ _ _ => sound_step) (sound_start hd ops) hnamed hrun).database.counts
    b v hv

/-- A backend added; then one key assigned and one bulk assigned, in
transactions that overlap; then the first key deleted. -/
def overlapping : List Op :=
  [.addBackend "b1", .assignLeastLoaded 1 "u",
    .bulkAssign 1 (Table.insertAll ∅ [("v", ⟨"b1", 3⟩)]), .bulkDeleteAssignments ["u"]]

def overlappingSched : List Action :=
  [⟨0, .proceed⟩, ⟨0, .proceed⟩, ⟨1, .proceed⟩, ⟨2, .proceed⟩, ⟨1, .pick "b1"⟩, ⟨2, .proceed⟩,
    ⟨1, .proceed⟩, ⟨2, .proceed⟩, ⟨1, .proceed⟩, ⟨1, .proceed⟩, ⟨1, .proceed⟩,
    ⟨2, .proceed⟩, ⟨2, .proceed⟩, ⟨2, .proceed⟩,
    ⟨3, .proceed⟩, ⟨3, .proceed⟩, ⟨3, .proceed⟩, ⟨3, .proceed⟩, ⟨3, .proceed⟩, ⟨3, .proceed⟩]

/-- They end with the second key and its weight. -/
theorem count_rows_eq_weightOn_overlapping :
    ∃ s, Run.exec System.step (.start .empty overlapping) overlappingSched = some s ∧
      s.database.counts.lookup "b1" = some 3 ∧ 3 = s.database.weightOn "b1" :=
  ⟨_, rfl, rfl, count_rows_eq_weightOn .empty consistent_empty overlapping overlappingSched _
    (by decide) rfl "b1" 3 rfl⟩

end Runs

end Postgres

end StickyProxy
