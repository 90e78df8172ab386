import StickyProxy.Postgres.Model.Database
import Mathlib.Data.Finset.Insert
/-!
# PostgreSQL — sessions and their transactions

The store under concurrency, at `READ COMMITTED`: a committed database,
and a pool of sessions that each run one call of the store, statement by
statement. What a transaction has written is its own until it commits,
and the rows it has written or locked are locked until it ends: a
statement that needs a row another session holds waits, that is, has no
step. A statement over several rows takes them one by one. Every session
may fail at every statement, which rolls its transaction back.
-/

namespace StickyProxy

namespace Postgres

/-- What a transaction has written and locked. -/
structure Tx where
  /-- Rows of `assignments` inserted, and rows deleted as they were. -/
  inserted : Table RoutingKey Assignment
  deleted : Table RoutingKey Assignment
  /-- The new `total_weight` of the count rows updated. -/
  counts : Table Backend ℤ
  countLocks : Finset Backend
  backendLocks : Finset Backend

/-- A transaction that has done nothing yet. -/
def Tx.fresh : Tx := ⟨∅, ∅, ∅, ∅, ∅⟩

/-- The transaction has written the row of a key. -/
def Tx.Writes (tx : Tx) (k : RoutingKey) : Prop :=
  (tx.inserted.lookup k).isSome ∨ (tx.deleted.lookup k).isSome

instance (tx : Tx) (k : RoutingKey) : Decidable (tx.Writes k) :=
  inferInstanceAs (Decidable (_ ∨ _))

/-- `FOR UPDATE` of a joined row locks the row of either table. -/
def Tx.lock (tx : Tx) (b : Backend) : Tx :=
  { tx with countLocks := insert b tx.countLocks, backendLocks := insert b tx.backendLocks }

/-- An `INSERT` of the key conflicts with a row of the transaction itself
or a committed one. No call inserts after it has deleted, so the
transaction's own deletions play no part. -/
def Tx.Conflicts (tx : Tx) (d : Database) (k : RoutingKey) : Prop :=
  (tx.inserted.lookup k).isSome ∨ (d.assignments.lookup k).isSome

instance (tx : Tx) (d : Database) (k : RoutingKey) : Decidable (tx.Conflicts d k) :=
  inferInstanceAs (Decidable (_ ∨ _))

/-- `INSERT` of a new row. -/
def Tx.insertRow (tx : Tx) (k : RoutingKey) (a : Assignment) : Tx :=
  { tx with inserted := tx.inserted.insert k a }

/-- `DELETE` of the committed row `a`. -/
def Tx.deleteRow (tx : Tx) (k : RoutingKey) (a : Assignment) : Tx :=
  { tx with deleted := tx.deleted.insert k a }

/-- `UPDATE assignment_counts SET total_weight = total_weight + n`, of the
transaction's own version of the row if it has one; with no row, of
none. -/
def Tx.updateCount (tx : Tx) (d : Database) (b : Backend) (n : ℤ) : Tx :=
  match (tx.counts.lookup b).or (d.counts.lookup b) with
  | some v => { tx with
      counts := tx.counts.insert b (v + n), countLocks := insert b tx.countLocks }
  | none => tx

/-- `COMMIT`. -/
def Tx.commit (tx : Tx) (d : Database) : Database :=
  { d with
    assignments := (d.assignments.eraseAll (tx.deleted.pairs.map Prod.fst)).insertAll
      tx.inserted.pairs
    counts := d.counts.insertAll tx.counts.pairs }

/-- The statement an open transaction runs next. -/
inductive Statement where
  /-- `AssignLeastLoaded`: `SELECT ... FOR UPDATE SKIP LOCKED`. -/
  | selectSkipLocked (now : Time) (k : RoutingKey)
  /-- And the `SELECT ... FOR UPDATE` that waits. -/
  | selectForUpdate (now : Time) (k : RoutingKey)
  /-- `INSERT ... ON CONFLICT DO NOTHING` on the backend locked. -/
  | insertOne (now : Time) (k : RoutingKey) (b : Backend)
  /-- `BulkAssign`: the rows left to insert, and the weight inserted. -/
  | insertMany (now : Time) (todo : List (RoutingKey × BulkAssignEntry))
      (countDeltas : Table Backend ℤ)
  /-- `BulkDeleteAssignments`: the keys left, and the weight deleted. -/
  | deleteMany (todo : List RoutingKey) (countDeltas : Table Backend ℤ)
  /-- The `UPDATE`s of `assignment_counts` left. -/
  | updateCounts (todo : List (Backend × ℤ))
  | commit

/-- A session: a call about to start, one between statements, or one that
is over. -/
inductive Session where
  | assignLeastLoaded (now : Time) (k : RoutingKey)
  | bulkAssign (now : Time) (entries : Table RoutingKey BulkAssignEntry)
  | bulkDeleteAssignments (keys : List RoutingKey)
  | addBackend (b : Backend)
  /-- The second statement of `AddBackend`. -/
  | insertCount (b : Backend)
  | removeBackend (b : Backend)
  | inTx (tx : Tx) (statement : Statement)
  | closed

/-- The open transaction of a session. -/
def Session.tx : Session → Option Tx
  | .inTx tx _ => some tx
  | _ => none

/-- What a step leaves open: the row a `SELECT` finds, whether it finds
one, whether the snapshot of a `DELETE` has the row, and failure. -/
inductive Choice where
  | proceed
  | pick (b : Backend)
  | noRows
  | unseen
  | rollback

/-- What a step does to the committed database. -/
inductive Effect where
  | none
  | commit (tx : Tx)
  | upsertBackend (b : Backend)
  | insertCount (b : Backend)
  | removeBackend (b : Backend)

/-- `INSERT INTO backends ... ON CONFLICT DO UPDATE SET healthy = true`. -/
def upsertBackend (b : Backend) (d : Database) : Database :=
  { d with backends := d.backends.insert b true }

/-- `INSERT INTO assignment_counts ... ON CONFLICT DO NOTHING`. -/
def insertCount (b : Backend) (d : Database) : Database :=
  { d with counts := if (d.counts.lookup b).isSome then d.counts else d.counts.insert b 0 }

/-- How a statement of its own ends: without an error, before it took
effect, or after, with its reply lost. -/
inductive Reply where
  | done
  | failed
  | lost
  deriving DecidableEq, Repr

/-- `AddBackend`, given how its statements end: whether it returns without
an error, and the database it leaves. -/
def addBackendReplies (first second : Reply) (b : Backend) (d : Database) : Bool × Database :=
  match first with
  | .failed => (false, d)
  | .lost => (false, upsertBackend b d)
  | .done =>
    match second with
    | .failed => (false, upsertBackend b d)
    | .lost => (false, insertCount b (upsertBackend b d))
    | .done => (true, insertCount b (upsertBackend b d))

def Effect.apply : Effect → Database → Database
  | .none, d => d
  | .commit tx, d => tx.commit d
  | .upsertBackend b, d => Postgres.upsertBackend b d
  | .insertCount b, d => Postgres.insertCount b d
  | .removeBackend b, d => Postgres.removeBackend b d

/-! ## Locks -/

/-- None of the sessions has written the row of the key. -/
def KeyFree (others : List Session) (k : RoutingKey) : Prop :=
  ∀ ss ∈ others, ∀ tx ∈ ss.tx, ¬ tx.Writes k

/-- None of the sessions has locked the count row. -/
def CountFree (others : List Session) (b : Backend) : Prop :=
  ∀ ss ∈ others, ∀ tx ∈ ss.tx, b ∉ tx.countLocks

/-- None of the sessions has locked the row of `backends`. -/
def BackendFree (others : List Session) (b : Backend) : Prop :=
  ∀ ss ∈ others, ∀ tx ∈ ss.tx, b ∉ tx.backendLocks

instance (others : List Session) (k : RoutingKey) : Decidable (KeyFree others k) :=
  inferInstanceAs (Decidable (∀ ss ∈ others, ∀ tx ∈ ss.tx, ¬ tx.Writes k))

instance (others : List Session) (b : Backend) : Decidable (CountFree others b) :=
  inferInstanceAs (Decidable (∀ ss ∈ others, ∀ tx ∈ ss.tx, b ∉ tx.countLocks))

instance (others : List Session) (b : Backend) : Decidable (BackendFree others b) :=
  inferInstanceAs (Decidable (∀ ss ∈ others, ∀ tx ∈ ss.tx, b ∉ tx.backendLocks))

/-- The joined row can be locked at once. -/
def RowFree (others : List Session) (b : Backend) : Prop :=
  CountFree others b ∧ BackendFree others b

instance (others : List Session) (b : Backend) : Decidable (RowFree others b) :=
  inferInstanceAs (Decidable (_ ∧ _))

/-! ## Steps -/

/-- The next statement of an open transaction, on the committed database
`d` and beside the other sessions. -/
def Statement.next (d : Database) (others : List Session) (tx : Tx) :
    Statement → Choice → Option (Session × Effect)
  | .selectSkipLocked now k, .pick b =>
    -- The statement does not wait, so the order it takes is that of now.
    if b ∈ d.joined ∧ RowFree others b ∧
        ∀ c ∈ d.joined, RowFree others c → d.counts.value b ≤ d.counts.value c then
      some (.inTx (tx.lock b) (.insertOne now k b), .none)
    else none
  | .selectSkipLocked now k, .noRows =>
    if ∀ c ∈ d.joined, ¬ RowFree others c then
      some (.inTx tx (.selectForUpdate now k), .none)
    else none
  | .selectForUpdate now k, .pick b =>
    -- The order was taken before the wait, so any row may come out of it.
    if b ∈ d.joined ∧ RowFree others b then
      some (.inTx (tx.lock b) (.insertOne now k b), .none)
    else none
  | .insertOne now k b, .proceed =>
    if KeyFree others k then
      if tx.Conflicts d k then some (.inTx tx .commit, .none)
      else some (.inTx (tx.insertRow k (freshRow b now)) (.updateCounts [(b, 1)]), .none)
    else none
  | .insertMany _ [] countDeltas, .proceed =>
    some (.inTx tx (.updateCounts countDeltas.pairs), .none)
  | .insertMany now ((k, e) :: todo) countDeltas, .proceed =>
    if KeyFree others k then
      if tx.Conflicts d k then some (.inTx tx (.insertMany now todo countDeltas), .none)
      else some (.inTx (tx.insertRow k (bulkRow now e))
        (.insertMany now todo (countDeltas.bump e.backend e.storedWeight)), .none)
    else none
  | .deleteMany [] countDeltas, .proceed =>
    some (.inTx tx (.updateCounts (countDeltas.pairs.map fun p => (p.1, -p.2))), .none)
  | .deleteMany (_ :: todo) countDeltas, .unseen =>
    some (.inTx tx (.deleteMany todo countDeltas), .none)
  | .deleteMany (k :: todo) countDeltas, .proceed =>
    if KeyFree others k then
      match d.assignments.lookup k with
      | some a =>
        if (tx.deleted.lookup k).isSome then
          some (.inTx tx (.deleteMany todo countDeltas), .none)
        else some (.inTx (tx.deleteRow k a)
          (.deleteMany todo (countDeltas.bump a.backend a.weight)), .none)
      | none => some (.inTx tx (.deleteMany todo countDeltas), .none)
    else none
  | .updateCounts [], .proceed => some (.inTx tx .commit, .none)
  | .updateCounts ((b, n) :: todo), .proceed =>
    if CountFree others b then some (.inTx (tx.updateCount d b n) (.updateCounts todo), .none)
    else none
  | .commit, .proceed => some (.closed, .commit tx)
  | _, _ => none

/-- The next step of a session. -/
def Session.next (d : Database) (others : List Session) :
    Session → Choice → Option (Session × Effect)
  | .closed, _ => none
  | _, .rollback => some (.closed, .none)
  | .assignLeastLoaded now k, .proceed => some (.inTx .fresh (.selectSkipLocked now k), .none)
  | .bulkAssign now entries, .proceed =>
    if entries.pairs.isEmpty then some (.closed, .none)
    else some (.inTx .fresh (.insertMany now entries.pairs ∅), .none)
  | .bulkDeleteAssignments keys, .proceed =>
    if keys.isEmpty then some (.closed, .none)
    else some (.inTx .fresh (.deleteMany keys ∅), .none)
  | .addBackend b, .proceed =>
    if BackendFree others b then some (.insertCount b, .upsertBackend b) else none
  | .insertCount b, .proceed => some (.closed, .insertCount b)
  | .removeBackend b, .proceed =>
    if BackendFree others b then some (.closed, .removeBackend b) else none
  | .inTx tx statement, c => statement.next d others tx c
  | _, _ => none

/-- The committed database, the sessions, and the backends `AddBackend`
has returned for. -/
structure System where
  database : Database
  sessions : List Session
  added : Finset Backend

/-- Which session moves, and how. -/
structure Action where
  session : ℕ
  choice : Choice

/-- The backends `AddBackend` has returned for after a step. -/
def Effect.added (added : Finset Backend) : Effect → Finset Backend
  | .insertCount b => insert b added
  | _ => added

/-- One session takes its next step. -/
def System.step (s : System) (a : Action) : Option System :=
  (s.sessions[a.session]?).bind fun ss =>
    (ss.next s.database (s.sessions.eraseIdx a.session) a.choice).map fun p =>
      ⟨p.2.apply s.database, s.sessions.set a.session p.1, p.2.added s.added⟩

/-- A call of the store that writes. -/
inductive Op where
  | addBackend (b : Backend)
  | removeBackend (b : Backend)
  | assignLeastLoaded (now : Time) (k : RoutingKey)
  | bulkAssign (now : Time) (entries : Table RoutingKey BulkAssignEntry)
  | bulkDeleteAssignments (keys : List RoutingKey)

/-- The session of a call about to start. -/
def Session.start : Op → Session
  | .addBackend b => .addBackend b
  | .removeBackend b => .removeBackend b
  | .assignLeastLoaded now k => .assignLeastLoaded now k
  | .bulkAssign now entries => .bulkAssign now entries
  | .bulkDeleteAssignments keys => .bulkDeleteAssignments keys

/-- Calls about to start, on a database whose count rows are those of the
`AddBackend` calls that have returned. -/
def System.start (d : Database) (ops : List Op) : System :=
  ⟨d, ops.map Session.start, d.counts.keys.toFinset⟩

/-- A `BulkAssign` about to begin names only backends that have been
added. -/
def Session.NamesAdded (added : Finset Backend) : Session → Prop
  | .bulkAssign _ entries => ∀ p ∈ entries.pairs, p.2.backend ∈ added
  | _ => True

instance (added : Finset Backend) : ∀ ss : Session, Decidable (ss.NamesAdded added)
  | .bulkAssign _ entries => inferInstanceAs (Decidable (∀ p ∈ entries.pairs, _))
  | .assignLeastLoaded _ _ | .bulkDeleteAssignments _ | .addBackend _ | .insertCount _
  | .removeBackend _ | .inTx _ _ | .closed => isTrue trivial

/-- The session that moves does. -/
def System.NamesAdded (s : System) (a : Action) : Prop :=
  ∀ ss ∈ s.sessions[a.session]?, ss.NamesAdded s.added

instance (s : System) (a : Action) : Decidable (s.NamesAdded a) :=
  inferInstanceAs (Decidable (∀ ss ∈ s.sessions[a.session]?, _))

end Postgres

end StickyProxy
