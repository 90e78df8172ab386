import StickyProxy.WebSocket.Effects
import StickyProxy.Common.Run
import StickyProxy.Common.Pool
import Mathlib.Data.List.Flatten
/-!
# What the bridge relays, it relays in order

The places a message of the client passes through, put in one line: what
each backend connection was written, what its pump has in its batch and in
its channel, connection after connection, then what the loop has in hand,
then the client's channel and what its reader has in hand. A step moves a
message to the place before it, or drops it, or adds one that was just read
at the end, so the line is always a subsequence of what was read. It does
not matter that an old pump goes on beside the new one: what it has left
stands before everything the new one is given. The line of the other
direction is shorter, since the loop listens to one reader only.
-/

namespace StickyProxy

namespace WebSocket

variable {M : Type*} {s s' : Bridge M} {p p' : Pump M} {r r' : Reader M}

/-! ## The places of a message -/

/-- What a pump has written and has yet to write. -/
def Pump.line (p : Pump M) : List M := p.written ++ (p.batch ++ p.ch)

/-- What a reader has in hand. -/
def ReaderPhase.held : ReaderPhase M → List M
  | .sending x => x.message.toList
  | _ => []

/-- What is in the channel of a reader and in its hand. -/
def Reader.queue (r : Reader M) : List M := r.ch.filterMap WsMsg.message ++ r.phase.held

/-- What the loop has in hand for the backend. -/
def RunPhase.forBackend : RunPhase M → List M
  | .toBackend m => [m]
  | _ => []

/-- What the loop has in hand for the client. -/
def RunPhase.forClient : RunPhase M → List M
  | .toClient m => [m]
  | _ => []

/-- The line from the client to the backends. -/
def Bridge.toBackends (s : Bridge M) : List M :=
  s.past.flatMap (·.pump.line) ++
    (s.backend.pump.line ++ (s.run.forBackend ++ s.clientReader.queue))

/-- The line from the backend to the client. -/
def Bridge.toClient (s : Bridge M) : List M :=
  s.clientPump.line ++ (s.run.forClient ++ s.backend.reader.queue)

/-- What the backend connections were written, in the order they were
opened in. -/
def Bridge.writtenToBackends (s : Bridge M) : List M :=
  s.past.flatMap (·.pump.written) ++ s.backend.pump.written

/-- What was read from them. -/
def Bridge.readFromBackends (s : Bridge M) : List M :=
  s.past.flatMap (·.reader.read) ++ s.backend.reader.read

/-! ## A step of a pump or a reader -/

/-- A pump moves messages on or drops them. -/
theorem Pump.line_step {a : PumpAction} (h : p.step a = some p') : p'.line.Sublist p.line := by
  cases Pump.steps_of_step h with
  | take _ hch =>
    simp only [line, hch, List.singleton_append]
    exact (List.Sublist.refl _).append (List.sublist_append_right _ _)
  | collect _ hch =>
    simp only [line, hch, List.append_assoc, List.singleton_append]
    exact List.Sublist.refl _
  | write _ hbatch =>
    simp only [line, hbatch, List.append_assoc, List.cons_append, List.nil_append]
    exact List.Sublist.refl _
  | writeError => exact (List.Sublist.refl _).append (List.sublist_append_right _ _)
  | stop | lock | unlock | report => exact List.Sublist.refl _

/-- A reader moves messages on or drops them, or adds the one it reads. -/
theorem Reader.queue_step {a : ReaderAction M} (h : r.step a = some r') :
    (r'.queue.Sublist r.queue ∧ r'.read = r.read) ∨
      ∃ m, r'.queue = r.queue ++ [m] ∧ r'.read = r.read ++ [m] := by
  cases Reader.steps_of_step h with
  | @read m hph =>
    refine Or.inr ⟨m, ?_, rfl⟩
    simp only [queue, hph, ReaderPhase.held, WsMsg.message, Option.toList_some, List.append_nil]
  | readError hph =>
    refine Or.inl ⟨?_, rfl⟩
    simp only [queue, hph, ReaderPhase.held, WsMsg.message, Option.toList_none]
    exact List.Sublist.refl _
  | @send x hph =>
    refine Or.inl ⟨?_, rfl⟩
    cases x with
    | data m =>
      simp only [queue, hph, List.filterMap_append, List.filterMap_cons, List.filterMap_nil,
        WsMsg.message, Option.isSome_some, if_true, ReaderPhase.held, Option.toList_some,
        List.append_nil]
      exact List.Sublist.refl _
    | error => simp [queue, hph, ReaderPhase.held, WsMsg.message]
  | quit => exact Or.inl ⟨(List.Sublist.refl _).append (List.nil_sublist _), rfl⟩

/-! ## A step of the loop -/

/-- The loop moves messages on or drops them, and reads nothing itself. -/
structure Shifts (s s' : Bridge M) : Prop where
  toBackends : s'.toBackends.Sublist s.toBackends
  toClient : s'.toClient.Sublist s.toClient
  clientRead : s'.clientReader.read = s.clientReader.read
  backendsRead : s'.readFromBackends = s.readFromBackends

theorem Shifts.refl (s : Bridge M) : Shifts s s :=
  ⟨List.Sublist.refl _, List.Sublist.refl _, rfl, rfl⟩

theorem Shifts.trans {s'' : Bridge M} (h : Shifts s s') (h' : Shifts s' s'') : Shifts s s'' :=
  ⟨h'.toBackends.trans h.toBackends, h'.toClient.trans h.toClient,
    h'.clientRead.trans h.clientRead, h'.backendsRead.trans h.backendsRead⟩

/-- Flags are in neither line. -/
theorem Shifts.congr {t : Bridge M} (h : Shifts s t) (hb : s'.toBackends = t.toBackends)
    (hc : s'.toClient = t.toClient) (hr : s'.clientReader.read = t.clientReader.read)
    (hbr : s'.readFromBackends = t.readFromBackends) : Shifts s s' :=
  ⟨hb ▸ h.toBackends, hc ▸ h.toClient, hr.trans h.clientRead, hbr.trans h.backendsRead⟩

/-- The loop goes on with nothing in hand. -/
theorem shifts_run (s : Bridge M) {q : RunPhase M} {swapCh : Option Backend}
    (hb : q.forBackend = []) (hc : q.forClient = []) :
    Shifts s { s with run := q, swapCh := swapCh } where
  toBackends := by
    simp only [Bridge.toBackends, hb, List.nil_append]
    exact (List.Sublist.refl _).append
      ((List.Sublist.refl _).append (List.sublist_append_right _ _))
  toClient := by
    simp only [Bridge.toClient, hc, List.nil_append]
    exact (List.Sublist.refl _).append (List.sublist_append_right _ _)
  clientRead := rfl
  backendsRead := rfl

theorem shifts_swapOrReturn (s : Bridge M) : Shifts s s.swapOrReturn := by
  unfold Bridge.swapOrReturn
  rcases s.pendingSwap with - | newURL
  · exact shifts_run s rfl rfl
  · exact shifts_run s rfl rfl

theorem shifts_takeErr (s : Bridge M) : Shifts s s.takeErr := (Shifts.refl s).congr rfl rfl rfl rfl

theorem shifts_closeConn (s : Bridge M) : Shifts s s.closeConn :=
  (Shifts.refl s).congr rfl rfl rfl rfl

theorem shifts_release (s : Bridge M) (ms : List M) : Shifts s (s.release ms) :=
  (Shifts.refl s).congr rfl rfl rfl rfl

theorem shifts_stopWriting (s : Bridge M) {q : RunPhase M} (hb : q.forBackend = [])
    (hc : q.forClient = []) : Shifts s (s.stopWriting q) := by
  have h : Shifts s { s with run := q } := shifts_run s hb hc
  exact h.congr rfl rfl rfl rfl

/-- What the loop takes from the reader it listens to it may throw away. -/
theorem shifts_dropRead {x : WsMsg M} {rest : List (WsMsg M)}
    (h : s.backend.reader.ch = x :: rest) :
    Shifts s (s.setBackendCh rest) where
  toBackends := List.Sublist.refl _
  toClient := by
    have hrest : (rest.filterMap WsMsg.message).Sublist
        (s.backend.reader.ch.filterMap WsMsg.message) := by
      rw [h]
      exact (List.sublist_cons_self x rest).filterMap _
    exact (List.Sublist.refl _).append ((List.Sublist.refl _).append
      (hrest.append (List.Sublist.refl _)))
  clientRead := rfl
  backendsRead := rfl

/-- And so with the client's. -/
theorem shifts_dropClient {x : WsMsg M} {rest : List (WsMsg M)}
    (h : s.clientReader.ch = x :: rest) :
    Shifts s (s.setClientCh rest) where
  toBackends := by
    have hrest : (rest.filterMap WsMsg.message).Sublist
        (s.clientReader.ch.filterMap WsMsg.message) := by
      rw [h]
      exact (List.sublist_cons_self x rest).filterMap _
    exact (List.Sublist.refl _).append ((List.Sublist.refl _).append
      ((List.Sublist.refl _).append (hrest.append (List.Sublist.refl _))))
  toClient := List.Sublist.refl _
  clientRead := rfl
  backendsRead := rfl

/-- The client's next message is taken in hand. -/
theorem shifts_client {m : M} {rest : List (WsMsg M)} (hrun : s.run = .select)
    (hch : s.clientReader.ch = .data m :: rest) :
    Shifts s { s.setClientCh rest with run := .toBackend m } where
  toBackends := by
    simp [Bridge.toBackends, Bridge.setClientCh, Reader.queue, RunPhase.forBackend, hrun, hch,
      WsMsg.message]
  toClient := by simp [Bridge.toClient, Bridge.setClientCh, RunPhase.forClient, hrun]
  clientRead := rfl
  backendsRead := rfl

/-- And the backend's. -/
theorem shifts_backend {m : M} {rest : List (WsMsg M)} (hrun : s.run = .select)
    (hch : s.backend.reader.ch = .data m :: rest) :
    Shifts s { s.setBackendCh rest with run := .toClient m } where
  toBackends := by simp [Bridge.toBackends, Bridge.setBackendCh, RunPhase.forBackend, hrun]
  toClient := by
    simp [Bridge.toClient, Bridge.setBackendCh, Reader.queue, RunPhase.forClient, hrun, hch,
      WsMsg.message]
  clientRead := rfl
  backendsRead := rfl

/-- What is in hand for the backend goes to the end of its pump's channel. -/
theorem shifts_toBackend {m : M} (hrun : s.run = .toBackend m) :
    Shifts s { s.setWriteCh (s.backend.pump.ch ++ [m]) with run := .select } where
  toBackends := by
    simp [Bridge.toBackends, Bridge.setWriteCh, Pump.line, RunPhase.forBackend, hrun]
  toClient := by simp [Bridge.toClient, Bridge.setWriteCh, RunPhase.forClient, hrun]
  clientRead := rfl
  backendsRead := rfl

theorem shifts_toClient {m : M} (hrun : s.run = .toClient m) :
    Shifts s { s with
      clientPump := { s.clientPump with ch := s.clientPump.ch ++ [m] }
      run := .select } where
  toBackends := by simp [Bridge.toBackends, RunPhase.forBackend, hrun]
  toClient := by simp [Bridge.toClient, Pump.line, RunPhase.forClient, hrun]
  clientRead := rfl
  backendsRead := rfl

theorem shifts_stopPumpStep (s : Bridge M) {q : RunPhase M} (hb : q.forBackend = [])
    (hc : q.forClient = []) : Shifts s (s.stopPumpStep q) := by
  unfold Bridge.stopPumpStep
  split
  · rename_i m rest hch
    refine ⟨?_, List.Sublist.refl _, rfl, rfl⟩
    have hline : (s.backend.pump.written ++ (s.backend.pump.batch ++ rest)).Sublist
        s.backend.pump.line := by
      rw [Pump.line, hch]
      exact (List.Sublist.refl _).append ((List.Sublist.refl _).append (List.sublist_cons_self _ _))
    exact (List.Sublist.refl _).append (hline.append (List.Sublist.refl _))
  · exact shifts_run s hb hc

/-- Forwarding hands the client's next message straight to the new pump,
which the loop's empty hand stands between. -/
theorem shifts_forwardStep (hrun : s.run = .forward) : Shifts s s.forwardStep := by
  unfold Bridge.forwardStep
  rcases hch : s.clientReader.ch with - | ⟨m | -, rest⟩
  · -- A reader that is started has nothing in hand.
    have h : Shifts s { s with run := .select } := shifts_run s rfl rfl
    refine ⟨h.toBackends, List.Sublist.trans ?_ h.toClient, rfl, rfl⟩
    exact (List.Sublist.refl _).append ((List.Sublist.refl _).append
      ((List.Sublist.refl _).append (List.nil_sublist _)))
  · dsimp only
    split
    · refine ⟨?_, List.Sublist.refl _, rfl, rfl⟩
      simp [Bridge.toBackends, Bridge.setWriteCh, Pump.line, Reader.queue, RunPhase.forBackend,
        hrun, hch, WsMsg.message]
    · exact (shifts_dropClient hch).trans (shifts_run _ rfl rfl)
  · exact (shifts_dropClient hch).trans (shifts_run _ rfl rfl)

/-- A new connection has nothing to show, and the reader of the old one is
no longer listened to. -/
theorem shifts_install (hrun : s.run = .install) :
    Shifts s { s with past := s.past ++ [s.backend], backend := .dialed, run := .forward } where
  toBackends := by
    simp [Bridge.toBackends, Link.dialed, Pump.start, Pump.line, RunPhase.forBackend, hrun]
  toClient := (List.Sublist.refl _).append (List.nil_sublist _)
  clientRead := rfl
  backendsRead := by simp [Bridge.readFromBackends, Link.dialed]

/-- **A step of the loop** moves messages on or drops them. -/
theorem shifts_of_runs {c : Case} (h : Runs s c s') : Shifts s s' := by
  cases h with
  | client hrun hch => exact shifts_client hrun hch
  | clientError _ hch => exact (shifts_dropClient hch).trans (shifts_run _ rfl rfl)
  | backend hrun hch => exact shifts_backend hrun hch
  | backendError _ hch => exact (shifts_dropRead hch).trans (shifts_swapOrReturn _)
  | backendWriteErr => exact (shifts_takeErr s).trans (shifts_swapOrReturn _)
  | clientWriteErr | toClientErr | swap => exact shifts_run s rfl rfl
  | toBackend hrun => exact shifts_toBackend hrun
  | toBackendErr =>
    exact ((shifts_takeErr s).trans (shifts_swapOrReturn _)).trans (shifts_release _ _)
  | toClient hrun => exact shifts_toClient hrun
  | closeBackend | closeOld => exact (shifts_closeConn s).trans (shifts_run _ rfl rfl)
  | drainReader _ hch => exact (shifts_dropRead hch).trans (shifts_run _ rfl rfl)
  | @stopReader newURL =>
    have h : Shifts s (s.stopWriting (.stopPump newURL)) := shifts_stopWriting s rfl rfl
    exact h.congr rfl rfl rfl rfl
  | stopPump | releasing => exact shifts_stopPumpStep s rfl rfl
  | @dial _ ok => cases ok <;> exact shifts_run s rfl rfl
  | install hrun => exact shifts_install hrun
  | forward hrun => exact shifts_forwardStep hrun
  | returning =>
    dsimp only
    split
    · have h : Shifts s { s with run := .closing } := shifts_run s rfl rfl
      exact h.congr rfl rfl rfl rfl
    · have h : Shifts s (s.stopWriting .releasing) := shifts_stopWriting s rfl rfl
      exact h.congr rfl rfl rfl rfl
  | closing =>
    have h : Shifts s { s with run := .returned } := shifts_run s rfl rfl
    exact h.congr rfl rfl rfl rfl

/-! ## Runs -/

/-- Both lines are in the order of what was read. -/
structure InOrder (s : Bridge M) : Prop where
  toBackends : s.toBackends.Sublist s.clientReader.read
  toClient : s.toClient.Sublist s.readFromBackends

theorem inOrder_start : InOrder (Bridge.start : Bridge M) :=
  ⟨List.nil_sublist _, List.nil_sublist _⟩

theorem InOrder.shift (h : InOrder s) (hs : Shifts s s') : InOrder s' where
  toBackends := by
    rw [hs.clientRead]
    exact hs.toBackends.trans h.toBackends
  toClient := by
    rw [hs.backendsRead]
    exact hs.toClient.trans h.toClient

/-- A step of the client's reader. -/
theorem InOrder.clientReader {a : ReaderAction M} (h : InOrder s)
    (hst : s.clientReader.step a = some r) : InOrder { s with clientReader := r } := by
  refine ⟨?_, h.toClient⟩
  have hline := h.toBackends
  simp only [Bridge.toBackends, ← List.append_assoc] at hline ⊢
  rcases Reader.queue_step hst with ⟨hqueue, hread⟩ | ⟨m, hqueue, hread⟩
  · rw [hread]
    exact ((List.Sublist.refl _).append hqueue).trans hline
  · rw [hread, hqueue, ← List.append_assoc]
    exact hline.append (List.Sublist.refl _)

/-- A step of the reader the loop listens to. -/
theorem InOrder.reader {a : ReaderAction M} (h : InOrder s)
    (hst : s.backend.reader.step a = some r) :
    InOrder { s with backend := { s.backend with reader := r } } := by
  refine ⟨h.toBackends, ?_⟩
  have hline := h.toClient
  simp only [Bridge.toClient, Bridge.readFromBackends, ← List.append_assoc] at hline ⊢
  rcases Reader.queue_step hst with ⟨hqueue, hread⟩ | ⟨m, hqueue, hread⟩
  · rw [hread]
    exact ((List.Sublist.refl _).append hqueue).trans hline
  · rw [hread, hqueue, ← List.append_assoc, ← List.append_assoc]
    exact hline.append (List.Sublist.refl _)

/-- An old link whose pump has no more than it had, and whose reader has read
no less. -/
theorem InOrder.setPast {i : ℕ} {l l' : Link M} (h : InOrder s) (hl : s.past[i]? = some l)
    (hline : l'.pump.line.Sublist l.pump.line) (hread : l.reader.read.Sublist l'.reader.read) :
    InOrder { s with past := s.past.set i l' } where
  toBackends :=
    ((Pool.flatMap_set_sublist hl hline).append (List.Sublist.refl _)).trans h.toBackends
  toClient :=
    h.toClient.trans ((Pool.flatMap_sublist_set hl hread).append (List.Sublist.refl _))

/-- What an old reader still reads is read, and goes nowhere. -/
theorem InOrder.pastReader {a : ReaderAction M} {i : ℕ} {l : Link M} (h : InOrder s)
    (hl : s.past[i]? = some l) (hst : l.reader.step a = some r) :
    InOrder { s with past := s.past.set i { l with reader := r } } := by
  refine h.setPast hl (List.Sublist.refl _) ?_
  rcases Reader.queue_step hst with ⟨-, hread⟩ | ⟨m, -, hread⟩
  · rw [hread]
  · rw [hread]
    exact List.sublist_append_left _ _

/-- A step of the client's pump. -/
theorem InOrder.clientPump {a : PumpAction} (h : InOrder s)
    (hst : s.clientPump.step a = some p) : InOrder { s with clientPump := p } :=
  ⟨h.toBackends, ((Pump.line_step hst).append (List.Sublist.refl _)).trans h.toClient⟩

/-- A step of the backend's pump. -/
theorem InOrder.pump {a : PumpAction} (h : InOrder s) (hst : s.backend.pump.step a = some p) :
    InOrder { s with backend := { s.backend with pump := p } } :=
  ⟨((List.Sublist.refl _).append ((Pump.line_step hst).append (List.Sublist.refl _))).trans
    h.toBackends, h.toClient⟩

/-- An old pump goes on with what it has. -/
theorem InOrder.pastPump {a : PumpAction} {i : ℕ} {l : Link M} (h : InOrder s)
    (hl : s.past[i]? = some l) (hst : l.pump.step a = some p) :
    InOrder { s with past := s.past.set i { l with pump := p } } :=
  h.setPast hl (Pump.line_step hst) (List.Sublist.refl _)

theorem InOrder.step {a : Action M} (h : InOrder s) (hst : step s a = some s') : InOrder s' := by
  cases steps_of_step hst with
  | run hruns => exact h.shift (shifts_of_runs hruns)
  | clientReader hr => exact h.clientReader hr
  | clientPump hp => exact h.clientPump hp
  | reader hr => exact h.reader hr
  | pump _ hp => exact (h.pump hp).shift (shifts_release _ _)
  | pastReader hl hr => exact h.pastReader hl hr
  | pastPump _ hl hp => exact (h.pastPump hl hp).shift (shifts_release _ _)
  | swapBackend | closeBackend => exact ⟨h.toBackends, h.toClient⟩

/-- **The bridge neither duplicates nor reorders.** Whatever the clients
and backends send, however often the backend is swapped, whichever writes
fail and however the goroutines take turns: what the backend connections
were written, one connection after the other, is a subsequence of what was
read from the client, and what the client was written is one of what was
read from the backend connections. -/
theorem written_sublist_read {schedule : List (Action M)}
    (hrun : Run.exec step Bridge.start schedule = some s) :
    s.writtenToBackends.Sublist s.clientReader.read ∧
      s.clientPump.written.Sublist s.readFromBackends := by
  have h : InOrder s :=
    Run.exec_invariant_of_forall (fun _ _ _ h hst => InOrder.step h hst) inOrder_start hrun
  constructor
  · refine List.Sublist.trans ?_ h.toBackends
    exact (List.Sublist.flatMap_right _ fun l _ => List.sublist_append_left _ _).append
      ((List.sublist_append_left _ _).trans (List.sublist_append_left _ _))
  · refine List.Sublist.trans ?_ h.toClient
    exact (List.sublist_append_left _ _).trans (List.sublist_append_left _ _)

/-- A message of the client's is written, then the backend is swapped, with
a second message forwarded to the new one, whose answer comes back. -/
def swappedRelay : List (Action String) :=
  [.clientReader (.read (some "one")), .clientReader .send, .run .client, .run .send,
    .pump .take, .pump .lock, .pump (.write true), .pump .unlock,
    .swapBackend "b2", .closeBackend, .reader (.read none), .reader .send, .run .backend,
    .clientReader (.read (some "two")), .clientReader .send,
    .run .next, .run .next, .run (.dial true), .run .next, .run .next, .run .next, .run .next,
    .pump .take, .pump .lock, .pump (.write true),
    .reader (.read (some "answer")), .reader .send, .run .backend, .run .send,
    .clientPump .take, .clientPump .lock, .clientPump (.write true)]

theorem written_sublist_read_swappedRelay :
    ∃ s, Run.exec step Bridge.start swappedRelay = some s ∧
      s.writtenToBackends = ["one", "two"] ∧ s.clientPump.written = ["answer"] ∧
      s.writtenToBackends.Sublist s.clientReader.read ∧
      s.clientPump.written.Sublist s.readFromBackends := by
  obtain ⟨s, hrun, hwritten, hanswer⟩ : ∃ s, Run.exec step Bridge.start swappedRelay = some s ∧
      s.writtenToBackends = ["one", "two"] ∧ s.clientPump.written = ["answer"] :=
    ⟨_, rfl, by decide +kernel, by decide +kernel⟩
  exact ⟨s, hrun, hwritten, hanswer, written_sublist_read hrun⟩

end WebSocket

end StickyProxy
