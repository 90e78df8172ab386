import StickyProxy.Postgres.Model.Transactions
/-!
# PostgreSQL — the rebuild at startup

`migrate` of a starting replica beside the calls of replicas already
running. Its statements are sent as one query, which the server runs in
one transaction. Of those that create what is missing only one matters to
the others: `ALTER TABLE assignments` locks the table until the
transaction ends, so it waits for every transaction that has used the
table, and a statement on the table waits for it. Then the `SELECT` of the
rebuild reads one snapshot, and the rows it yields are upserted one by
one, each once its row lock is free. The transaction may fail at every
step.
-/

namespace StickyProxy

namespace Postgres

/-- How far `migrate` is. -/
inductive Migration where
  /-- `ALTER TABLE assignments` is next. -/
  | altering
  /-- The table is locked; the `INSERT ... SELECT` is next. -/
  | altered
  /-- The rows left to upsert, and what the transaction has written. -/
  | upserting (todo : List (Backend × ℤ)) (tx : Tx)
  | done
  | failed

/-- The count rows it has written and locked. -/
def Migration.tx : Migration → Option Tx
  | .upserting _ tx => some tx
  | _ => none

/-- The row locks of the migration, as the other sessions meet them. -/
def Migration.sessions (m : Migration) : List Session :=
  (m.tx.map fun tx => Session.inTx tx .commit).toList

/-- The migration has locked the table. -/
def Migration.LocksTable : Migration → Prop
  | .altered | .upserting _ _ => True
  | _ => False

instance : DecidablePred Migration.LocksTable
  | .altered | .upserting _ _ => isTrue trivial
  | .altering | .done | .failed => isFalse id

def Migration.IsDone : Migration → Prop
  | .done => True
  | _ => False

instance : DecidablePred Migration.IsDone
  | .done => isTrue trivial
  | .altering | .altered | .upserting _ _ | .failed => isFalse id

/-- The transaction of the session has written to the table, or has done
with it. -/
def Session.Touches : Session → Prop
  | .inTx _ (.updateCounts _) | .inTx _ .commit => True
  | .inTx tx _ => tx.inserted.pairs ≠ [] ∨ tx.deleted.pairs ≠ []
  | _ => False

instance : DecidablePred Session.Touches
  | .inTx _ (.updateCounts _) | .inTx _ .commit => isTrue trivial
  | .inTx tx (.selectSkipLocked _ _) | .inTx tx (.selectForUpdate _ _)
  | .inTx tx (.insertOne _ _ _) | .inTx tx (.insertMany _ _ _) | .inTx tx (.deleteMany _ _) =>
    inferInstanceAs (Decidable (tx.inserted.pairs ≠ [] ∨ tx.deleted.pairs ≠ []))
  | .assignLeastLoaded _ _ | .bulkAssign _ _ | .bulkDeleteAssignments _ | .addBackend _
  | .insertCount _ | .removeBackend _ | .closed => isFalse id

/-- The statement is on the table `assignments`. -/
def Statement.OnAssignments : Statement → Prop
  | .insertOne _ _ _ | .insertMany _ _ _ | .deleteMany _ _ => True
  | _ => False

instance : DecidablePred Statement.OnAssignments
  | .insertOne _ _ _ | .insertMany _ _ _ | .deleteMany _ _ => isTrue trivial
  | .selectSkipLocked _ _ | .selectForUpdate _ _ | .updateCounts _ | .commit => isFalse id

/-- The session has to wait for the migration: for the table, or, to
insert a count row, for one the migration has written. -/
def Migration.Blocks (m : Migration) : Session → Prop
  | .inTx _ st => m.LocksTable ∧ st.OnAssignments
  | .insertCount b => ∃ tx ∈ m.tx, b ∈ tx.countLocks
  | _ => False

instance (m : Migration) : DecidablePred m.Blocks
  | .inTx _ _ => inferInstanceAs (Decidable (_ ∧ _))
  | .insertCount b => inferInstanceAs (Decidable (∃ tx ∈ m.tx, b ∈ tx.countLocks))
  | .assignLeastLoaded _ _ | .bulkAssign _ _ | .bulkDeleteAssignments _ | .addBackend _
  | .removeBackend _ | .closed => isFalse id

/-- The statement fails, whether it waits or not. -/
def Choice.isRollback : Choice → Bool
  | .rollback => true
  | _ => false

/-- The sessions and the migration. -/
structure Startup where
  system : System
  migration : Migration

/-- The steps of either. -/
inductive Startup.Move where
  | session (a : Action)
  | alter
  /-- The `SELECT`, with the order it yields its rows in. -/
  | select (order : List Backend)
  | upsert
  | commit
  | fail

/-- A session takes its next step, unless it has to wait. -/
def Startup.stepSession (s : Startup) (a : Action) : Option Startup :=
  (s.system.sessions[a.session]?).bind fun ss =>
    if ¬ a.choice.isRollback ∧ s.migration.Blocks ss then none
    else
      (ss.next s.system.database (s.system.sessions.eraseIdx a.session ++ s.migration.sessions)
        a.choice).map fun p => { s with
          system := ⟨p.2.apply s.system.database, s.system.sessions.set a.session p.1,
            p.2.added s.system.added⟩ }

/-- `INSERT INTO assignment_counts ... ON CONFLICT DO UPDATE SET
total_weight = EXCLUDED.total_weight` of one row. -/
def Tx.upsertCount (tx : Tx) (b : Backend) (w : ℤ) : Tx :=
  { tx with counts := tx.counts.insert b w, countLocks := insert b tx.countLocks }

def Startup.step (s : Startup) : Startup.Move → Option Startup
  | .session a => s.stepSession a
  | .alter =>
    match s.migration with
    | .altering =>
      if ∀ ss ∈ s.system.sessions, ¬ ss.Touches then some { s with migration := .altered }
      else none
    | _ => none
  | .select order =>
    match s.migration with
    | .altered =>
      if Enumerates order (activeBackends s.system.database).toFinset then
        let rows := order.map fun b => (b, s.system.database.weightOn b)
        some { s with migration := .upserting rows .fresh }
      else none
    | _ => none
  | .upsert =>
    match s.migration with
    | .upserting ((b, w) :: todo) tx =>
      if CountFree s.system.sessions b then
        some { s with migration := .upserting todo (tx.upsertCount b w) }
      else none
    | _ => none
  | .commit =>
    match s.migration with
    | .upserting [] tx => some
      { system := { s.system with
          database := tx.commit s.system.database
          added := s.system.added ∪ tx.counts.keys.toFinset }
        migration := .done }
    | _ => none
  | .fail =>
    match s.migration with
    | .done | .failed => none
    | _ => some { s with migration := .failed }

/-- Calls of running replicas and a migration about to start, on any
tables. -/
def Startup.start (d : Database) (ops : List Op) : Startup := ⟨.start d ops, .altering⟩

end Postgres

end StickyProxy
