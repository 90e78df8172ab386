import StickyProxy.Model.Assignment
/-!
# The WebSocket bridge

`WSBridge` relays between a client and a backend. A reader for each
connection fills a channel, the loop of `run` moves messages from the
readers to the write pumps, and a pump writes what it has collected to its
connection. `SwapBackend` puts a URL into a channel of its own and closes
the backend connection; the loop then stops the old pump, dials, and goes
on with a new pump and a new reader. Neither the old pump nor the old
reader is waited for.

Every step of a goroutine is taken alone. A `select` takes any of its
cases that is ready, and its `default` only when none is. Whether a read,
a write or a dial succeeds is left to the step. What was read from and
written to each connection is recorded, and so are the client's messages
that were released without having been written while the bridge went on.
-/

namespace StickyProxy

namespace WebSocket

variable {M : Type*}

/-- Go's `wsMsg`: a message, of whatever type, or the error a reader ends
with. -/
inductive WsMsg (M : Type*) where
  | data (m : M)
  | error

/-- The message, if it is one. -/
def WsMsg.message : WsMsg M → Option M
  | .data m => some m
  | .error => none

/-! ## Readers -/

inductive ReaderPhase (M : Type*) where
  /-- The goroutine has not been started. -/
  | waiting
  /-- `wsReadPooled`. -/
  | reading
  /-- The send to the channel. -/
  | sending (x : WsMsg M)
  | exited

/-- `wsReadPump` on a connection, with its channel. -/
structure Reader (M : Type*) where
  phase : ReaderPhase M
  ch : List (WsMsg M)
  /-- Its context is done. -/
  cancelled : Bool
  /-- What it has read. -/
  read : List M

inductive ReaderAction (M : Type*) where
  /-- A message, or an error. -/
  | read (m : Option M)
  | send
  /-- `<-ctx.Done()`. -/
  | quit

/-- The capacity of a reader's channel. -/
def readerCap : ℕ := 8

def Reader.step (r : Reader M) : ReaderAction M → Option (Reader M)
  | .read m =>
    match r.phase, m with
    | .reading, some m => some { r with phase := .sending (.data m), read := r.read ++ [m] }
    | .reading, none => some { r with phase := .sending .error }
    | _, _ => none
  | .send =>
    match r.phase with
    | .sending x =>
      if r.ch.length < readerCap then
        some { r with
          ch := r.ch ++ [x]
          phase := if x.message.isSome then .reading else .exited }
      else none
    | _ => none
  | .quit =>
    match r.phase with
    | .sending _ => if r.cancelled then some { r with phase := .exited } else none
    | _ => none

/-! ## Write pumps -/

inductive PumpPhase where
  /-- The first `select`. -/
  | idle
  /-- The loop that grabs what is pending. -/
  | collecting
  /-- The batch is being written, under the mutex of the connection. -/
  | writing
  /-- A write has failed, and is to be reported. -/
  | failed
  | exited
  deriving DecidableEq, Repr

/-- `wsWritePump` on a connection, with its channels. -/
structure Pump (M : Type*) where
  phase : PumpPhase
  ch : List M
  /-- What is left of the batch. -/
  batch : List M
  /-- `done` is closed. -/
  done : Bool
  /-- `errCh` holds an error. -/
  err : Bool
  /-- What it has written. -/
  written : List M

inductive PumpAction where
  | take
  /-- `<-done`. -/
  | stop
  | collect
  | lock
  | write (ok : Bool)
  | unlock
  | report
  deriving DecidableEq, Repr

/-- The capacity of a pump's channel, and of a batch. -/
def pumpCap : ℕ := 16

def Pump.step (p : Pump M) : PumpAction → Option (Pump M)
  | .take =>
    match p.phase, p.ch with
    | .idle, m :: rest => some { p with phase := .collecting, batch := [m], ch := rest }
    | _, _ => none
  | .stop => if p.phase = .idle ∧ p.done then some { p with phase := .exited } else none
  | .collect =>
    match p.phase, p.ch with
    | .collecting, m :: rest =>
      if p.batch.length < pumpCap then some { p with batch := p.batch ++ [m], ch := rest } else none
    | _, _ => none
  -- The loop is left with the channel found empty or the batch full, and the
  -- mutex taken: one step here, so a message that comes between the two in the
  -- source waits for the next batch there and may still join this one here.
  | .lock =>
    if p.phase = .collecting ∧ (p.ch.isEmpty ∨ pumpCap ≤ p.batch.length) then
      some { p with phase := .writing }
    else none
  | .write ok =>
    match p.phase, p.batch with
    | .writing, m :: rest =>
      if ok then some { p with batch := rest, written := p.written ++ [m] }
      -- Nothing more of the batch is written, all of it is released.
      else some { p with batch := [], phase := .failed }
    | _, _ => none
  | .unlock =>
    if p.phase = .writing ∧ p.batch.isEmpty then some { p with phase := .idle } else none
  | .report => if p.phase = .failed then some { p with phase := .exited, err := true } else none

/-! ## The bridge -/

/-- A backend connection, with its pump and its reader. -/
structure Link (M : Type*) where
  pump : Pump M
  reader : Reader M
  closed : Bool

/-- What the loop of `run` does next. -/
inductive RunPhase (M : Type*) where
  | select
  /-- It has a message for the backend's pump. -/
  | toBackend (m : M)
  /-- It has a message for the client's pump. -/
  | toClient (m : M)
  /-- A swap was asked for: `b.backend.Close()`, then `<-backendCh`. -/
  | closeBackend (newURL : Backend)
  | drainReader (newURL : Backend)
  /-- `doSwap`: the reader is cancelled and the pump told to stop. -/
  | stopReader (newURL : Backend)
  /-- The loop of `stopBackendWritePump`. -/
  | stopPump (newURL : Backend)
  | dial (newURL : Backend)
  | closeOld
  /-- `b.backend = newConn`, and a pump for it. -/
  | install
  /-- The loop that forwards what is queued. -/
  | forward
  /-- The deferred function. -/
  | returning
  | releasing
  | closing
  | returned

/-- The loop has not begun to return. -/
def RunPhase.running : RunPhase M → Bool
  | .returning | .releasing | .closing | .returned => false
  | _ => true

/-- The bridge. The backend connections of before are in the order they
were opened in. -/
structure Bridge (M : Type*) where
  clientReader : Reader M
  clientPump : Pump M
  past : List (Link M)
  /-- `b.backend`. -/
  backend : Link M
  run : RunPhase M
  swapCh : Option Backend
  /-- Calls of `SwapBackend` that have yet to close the connection. -/
  swapping : ℕ
  /-- The client's messages released without having been written, while
  the bridge kept running. -/
  lost : List M

def Pump.start : Pump M := ⟨.idle, [], [], false, false, []⟩

def Reader.start : Reader M := ⟨.reading, [], false, []⟩

/-- A connection with its pump, whose reader is yet to be started. -/
def Link.dialed : Link M := ⟨.start, ⟨.waiting, [], false, []⟩, false⟩

/-- `startBackendReader`. -/
def Link.startReader (l : Link M) : Link M :=
  { l with reader := { l.reader with phase := .reading } }

/-- The bridge as `run` comes to its loop. -/
def Bridge.start : Bridge M :=
  { clientReader := .start
    clientPump := .start
    past := []
    backend := Link.dialed.startReader
    run := .select
    swapCh := none
    swapping := 0
    lost := [] }

/-- Messages are released unwritten, while the bridge keeps running or
not. -/
def Bridge.release (ms : List M) (s : Bridge M) : Bridge M :=
  { s with lost := if s.run.running then s.lost ++ ms else s.lost }

/-- `pendingSwap`: an empty URL is none. -/
def Bridge.pendingSwap (s : Bridge M) : Option Backend := s.swapCh.filter (· ≠ "")

/-- After an error of the backend connection: the pending swap, or the end
of the bridge. -/
def Bridge.swapOrReturn (s : Bridge M) : Bridge M :=
  { s with
    swapCh := none
    run := match s.pendingSwap with
      | some newURL => .stopReader newURL
      | none => .returning }

/-- The cases of a `select`, and the way on where there is only one. -/
inductive Case where
  | client
  | backend
  | backendWriteErr
  | clientWriteErr
  | swap
  | send
  | next
  | dial (ok : Bool)
  deriving DecidableEq, Repr

/-- `b.backendWriteErr` is received. -/
def Bridge.takeErr (s : Bridge M) : Bridge M :=
  { s with backend := { s.backend with pump := { s.backend.pump with err := false } } }

/-- The channel of the backend's pump. -/
def Bridge.setWriteCh (ch : List M) (s : Bridge M) : Bridge M :=
  { s with backend := { s.backend with pump := { s.backend.pump with ch := ch } } }

/-- `b.backend.Close()`. -/
def Bridge.closeConn (s : Bridge M) : Bridge M :=
  { s with backend := { s.backend with closed := true } }

/-- No pump holds `backendMu`. -/
def Bridge.muFree (s : Bridge M) : Bool :=
  s.backend.pump.phase ≠ .writing ∧ s.past.all fun l => l.pump.phase ≠ .writing

/-- The `select` of the loop. -/
def Bridge.selectStep (s : Bridge M) : Case → Option (Bridge M)
  | .client =>
    match s.clientReader.ch with
    | .data m :: rest => some { s with
        clientReader := { s.clientReader with ch := rest }
        run := .toBackend m }
    | .error :: rest => some { s with
        clientReader := { s.clientReader with ch := rest }
        run := .returning }
    | [] => none
  | .backend =>
    match s.backend.reader.ch with
    | .data m :: rest => some { s with
        backend := { s.backend with reader := { s.backend.reader with ch := rest } }
        run := .toClient m }
    | .error :: rest => some ({ s with
        backend := { s.backend with reader := { s.backend.reader with ch := rest } } }.swapOrReturn)
    | [] => none
  | .backendWriteErr => if s.backend.pump.err then some s.takeErr.swapOrReturn else none
  | .clientWriteErr => if s.clientPump.err then some { s with run := .returning } else none
  | .swap => s.swapCh.map fun newURL => { s with swapCh := none, run := .closeBackend newURL }
  | _ => none

/-- The `select` with a message for the backend's pump. -/
def Bridge.toBackendStep (m : M) (s : Bridge M) : Case → Option (Bridge M)
  | .send =>
    if s.backend.pump.ch.length < pumpCap then
      some { s.setWriteCh (s.backend.pump.ch ++ [m]) with run := .select }
    else none
  | .backendWriteErr =>
    if s.backend.pump.err then some (s.takeErr.swapOrReturn.release [m]) else none
  | _ => none

/-- The `select` with a message for the client's pump. -/
def Bridge.toClientStep (m : M) (s : Bridge M) : Case → Option (Bridge M)
  | .send =>
    if s.clientPump.ch.length < pumpCap then
      some { s with
        clientPump := { s.clientPump with ch := s.clientPump.ch ++ [m] }
        run := .select }
    else none
  | .clientWriteErr => if s.clientPump.err then some { s with run := .returning } else none
  | _ => none

/-- The loop of `stopBackendWritePump`: what is left in the channel is
released. -/
def Bridge.stopPumpStep (s : Bridge M) (next : RunPhase M) : Bridge M :=
  match s.backend.pump.ch with
  | m :: rest => (s.setWriteCh rest).release [m]
  | [] => { s with run := next }

/-- The loop of `doSwap` that forwards what the client has sent meanwhile,
and the new reader after it. -/
def Bridge.forwardStep (s : Bridge M) : Bridge M :=
  match s.clientReader.ch with
  | .data m :: rest =>
    let s := { s with clientReader := { s.clientReader with ch := rest } }
    if s.backend.pump.ch.length < pumpCap then s.setWriteCh (s.backend.pump.ch ++ [m])
    -- The message is released, and the bridge ends.
    else { s with run := .returning }
  | .error :: rest => { s with
      clientReader := { s.clientReader with ch := rest }
      run := .returning }
  | [] => { s with backend := s.backend.startReader, run := .select }

/-- A pump that was not told to stop is told so. -/
def Bridge.stopWriting (s : Bridge M) (next : RunPhase M) : Bridge M :=
  { s with
    backend := { s.backend with pump := { s.backend.pump with done := true } }
    run := next }

/-- The next step of the loop. -/
def Bridge.runStep (s : Bridge M) (c : Case) : Option (Bridge M) :=
  match s.run, c with
  | .select, c => s.selectStep c
  | .toBackend m, c => s.toBackendStep m c
  | .toClient m, c => s.toClientStep m c
  | .closeBackend newURL, .next => some { s.closeConn with run := .drainReader newURL }
  | .drainReader newURL, .next =>
    match s.backend.reader.ch with
    -- It may be a message that is thrown away here.
    | _ :: rest => some { s with
        backend := { s.backend with reader := { s.backend.reader with ch := rest } }
        run := .stopReader newURL }
    | [] => none
  | .stopReader newURL, .next =>
    some ({ s with
      backend := { s.backend with
        reader := { s.backend.reader with cancelled := true } } }.stopWriting (.stopPump newURL))
  | .stopPump newURL, .next => some (s.stopPumpStep (.dial newURL))
  | .dial _, .dial ok => some { s with run := if ok then .closeOld else .returning }
  | .closeOld, .next => some { s.closeConn with run := .install }
  | .install, .next =>
    if s.muFree then
      some { s with past := s.past ++ [s.backend], backend := .dialed, run := .forward }
    else none
  | .forward, .next => some s.forwardStep
  | .returning, .next =>
    let s := { s with
      clientReader := { s.clientReader with cancelled := true }
      clientPump := { s.clientPump with done := true } }
    -- `stopBackendWritePump` does nothing a second time.
    some (if s.backend.pump.done then { s with run := .closing } else s.stopWriting .releasing)
  | .releasing, .next => some (s.stopPumpStep .closing)
  | .closing, .next =>
    some { s with
      backend := { s.backend with
        closed := true
        reader := { s.backend.reader with cancelled := true } }
      run := .returned }
  | _, _ => none

/-- The steps of the goroutines; a pump or reader of a backend connection
is that of `b.backend`, or of one before it. -/
inductive Action (M : Type*) where
  | run (c : Case)
  | clientReader (a : ReaderAction M)
  | clientPump (a : PumpAction)
  | reader (a : ReaderAction M)
  | pump (a : PumpAction)
  | pastReader (i : ℕ) (a : ReaderAction M)
  | pastPump (i : ℕ) (a : PumpAction)
  /-- `SwapBackend`: the URL is dropped if one is waiting. -/
  | swapBackend (newURL : Backend)
  /-- The rest of `SwapBackend`: `b.backend.Close()`. -/
  | closeBackend

/-- What a pump releases unwritten in a step. -/
def Pump.dropped (p : Pump M) : PumpAction → List M
  | .write false => p.batch
  | _ => []

/-- A pump writes under the mutex of its connection's side. -/
def PumpAction.allowed (muFree : Bool) : PumpAction → Bool
  | .lock => muFree
  | _ => true

def step (s : Bridge M) : Action M → Option (Bridge M)
  | .run c => s.runStep c
  | .clientReader a => (s.clientReader.step a).map fun r => { s with clientReader := r }
  | .clientPump a => (s.clientPump.step a).map fun p => { s with clientPump := p }
  | .reader a => (s.backend.reader.step a).map fun r =>
      { s with backend := { s.backend with reader := r } }
  | .pump a =>
    if a.allowed s.muFree then
      (s.backend.pump.step a).map fun p =>
        { s with backend := { s.backend with pump := p } }.release (s.backend.pump.dropped a)
    else none
  | .pastReader i a =>
    (s.past[i]?).bind fun l => (l.reader.step a).map fun r =>
      { s with past := s.past.set i { l with reader := r } }
  | .pastPump i a =>
    if a.allowed s.muFree then
      (s.past[i]?).bind fun l => (l.pump.step a).map fun p =>
        { s with past := s.past.set i { l with pump := p } }.release (l.pump.dropped a)
    else none
  | .swapBackend newURL => some { s with
      swapCh := some (s.swapCh.getD newURL)
      swapping := s.swapping + 1 }
  | .closeBackend =>
    match s.swapping with
    | n + 1 => some { s.closeConn with swapping := n }
    | 0 => none

end WebSocket

end StickyProxy
