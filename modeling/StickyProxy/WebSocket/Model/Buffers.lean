import StickyProxy.WebSocket.Model.Bridge
import StickyProxy.Common.Tokens
/-!
# The buffers of messages

Every bridge reads its messages into buffers of `wsMsgBufPool`. A message
carries the buffer it was read into from channel to channel, and whoever
comes to its end releases it. What each step of a bridge gives back is
stated here line by line of the source, and independently of where
messages are; what is thrown away without a release is not given back.
-/

namespace StickyProxy

namespace WebSocket

variable {M α : Type*}

/-- A message in a buffer of the pool. -/
structure Pooled (α : Type*) where
  /-- The buffer `pool` points to. -/
  buf : ℕ
  data : α

/-! ## What a step releases -/

/-- `wsReadPump` puts the buffer back when its context is done. -/
def Reader.released (r : Reader M) : ReaderAction M → List M
  | .quit =>
    match r.phase with
    | .sending x => x.message.toList
    | _ => []
  | _ => []

/-- `wsWritePump` releases a message it has written, and the whole batch
after a write has failed. -/
def Pump.released (p : Pump M) : PumpAction → List M
  | .write true => p.batch.take 1
  | .write false => p.batch
  | _ => []

/-- The loop releases the message in hand when it hears of a failed write,
what `stopBackendWritePump` finds, and the message that overflows. -/
def Bridge.runReleased (s : Bridge M) (c : Case) : List M :=
  match s.run, c with
  | .toBackend m, .backendWriteErr => [m]
  | .toClient m, .clientWriteErr => [m]
  | .stopPump _, .next | .releasing, .next => s.backend.pump.ch.take 1
  | .forward, .next =>
    match s.clientReader.ch with
    | .data m :: _ => if s.backend.pump.ch.length < pumpCap then [] else [m]
    | _ => []
  | _, _ => []

def Bridge.released (s : Bridge M) : Action M → List M
  | .run c => s.runReleased c
  | .clientReader a => s.clientReader.released a
  | .clientPump a => s.clientPump.released a
  | .reader a => s.backend.reader.released a
  | .pump a => s.backend.pump.released a
  | .pastReader i a => ((s.past[i]?).map fun l => l.reader.released a).getD []
  | .pastPump i a => ((s.past[i]?).map fun l => l.pump.released a).getD []
  | .swapBackend _ | .closeBackend => []

/-! ## What a step reads -/

/-- The reader of a connection: the client's, or the one of a backend
connection, numbered in the order they were opened in. -/
def Bridge.readerOf (s : Bridge M) : Option ℕ → Option (Reader M)
  | none => some s.clientReader
  | some i => ((s.past ++ [s.backend])[i]?).map Link.reader

/-- A step that ends `wsReadPooled`: on which connection, and with what. -/
def Bridge.reads (s : Bridge M) : Action M → Option (Option ℕ × Option M)
  | .clientReader (.read m) => some (none, m)
  | .reader (.read m) => some (some s.past.length, m)
  | .pastReader i (.read m) => some (some i, m)
  | _ => none

def ReaderPhase.isReading : ReaderPhase M → Bool
  | .reading => true
  | _ => false

/-! ## The bridges and the pool -/

/-- A reader is in `readAllPooled`. -/
structure Filling where
  bridge : ℕ
  conn : Option ℕ
  buf : ℕ
  deriving DecidableEq, Repr

structure Buffers (α : Type*) where
  bridges : List (Bridge (Pooled α))
  /-- `wsMsgBufPool`. -/
  pool : Tokens
  filling : List Filling

def Buffers.start : Buffers α := ⟨[], .empty, []⟩

inductive BufferAction (α : Type*) where
  /-- A bridge is made, and runs. -/
  | newWSBridge
  /-- `wsMsgBufPool.Get()`, once the connection has a message to be read. -/
  | get (k : ℕ) (conn choice : Option ℕ)
  /-- A step of a bridge. -/
  | step (k : ℕ) (a : Action (Pooled α))
  /-- The pool drops a buffer. -/
  | forget (i : ℕ)

/-- What a reader is filling. -/
def Buffers.fillingOf (t : Buffers α) (k : ℕ) (conn : Option ℕ) : Option Filling :=
  t.filling.find? fun f => f.bridge = k ∧ f.conn = conn

/-- The end of `wsReadPooled`: what is still being filled, and what is put
back. -/
def Buffers.filled (t : Buffers α) (k : ℕ) :
    Option (Option ℕ × Option (Pooled α)) → Option (List Filling × List ℕ)
  | none => some (t.filling, [])
  | some (conn, some m) =>
    if ⟨k, conn, m.buf⟩ ∈ t.filling then some (t.filling.erase ⟨k, conn, m.buf⟩, []) else none
  | some (conn, none) =>
    match t.fillingOf k conn with
    | some f => some (t.filling.erase f, [f.buf])
    -- `NextReader` has failed.
    | none => some (t.filling, [])

def Buffers.step (t : Buffers α) : BufferAction α → Option (Buffers α)
  | .newWSBridge => some { t with bridges := t.bridges ++ [.start] }
  | .get k conn choice =>
    (t.bridges[k]?).bind fun s => (s.readerOf conn).bind fun r =>
      if r.phase.isReading ∧ (t.fillingOf k conn).isNone then
        (t.pool.get choice).map fun got =>
          { t with pool := got.2, filling := ⟨k, conn, got.1⟩ :: t.filling }
      else none
  | .step k a =>
    (t.bridges[k]?).bind fun s => (WebSocket.step s a).bind fun s' =>
      (t.filled k (s.reads a)).map fun done =>
        { bridges := t.bridges.set k s'
          pool := t.pool.put (done.2 ++ (s.released a).map Pooled.buf)
          filling := done.1 }
  | .forget i => some { t with pool := t.pool.forget i }

end WebSocket

end StickyProxy
