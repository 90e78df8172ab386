import StickyProxy.WebSocket.Model.Bridge
/-!
# What the goroutines of the bridge can do

`Reader.Steps` and `Pump.Steps` list the steps of a reader and of a pump,
and `Runs` those of `run`, one for each way a `select` can go and one for
each line of a swap and of the return; `Steps` has a case for each
goroutine. What a step keeps is proved for these and for nothing else.
-/

namespace StickyProxy

namespace WebSocket

variable {M : Type*} {s s' : Bridge M} {c : Case}

/-! ## Readers and pumps -/

/-- Every step a reader can take. -/
inductive Reader.Steps (r : Reader M) : ReaderAction M → Reader M → Prop
  | read {m : M} : r.phase = .reading →
      Steps r (.read (some m)) { r with phase := .sending (.data m), read := r.read ++ [m] }
  | readError : r.phase = .reading → Steps r (.read none) { r with phase := .sending .error }
  | send {x : WsMsg M} : r.phase = .sending x → r.ch.length < readerCap →
      Steps r .send { r with
        ch := r.ch ++ [x]
        phase := if x.message.isSome then .reading else .exited }
  | quit {x : WsMsg M} : r.phase = .sending x → r.cancelled = true →
      Steps r .quit { r with phase := .exited }

theorem Reader.steps_of_step {r r' : Reader M} {a : ReaderAction M} (h : r.step a = some r') :
    r.Steps a r' := by
  revert h
  fun_cases Reader.step r a <;> rintro ⟨⟩
  case case1 hph => exact .read hph
  case case2 hph => exact .readError hph
  case case4 hph hlt => exact .send hph hlt
  case case7 hph hcancelled => exact .quit hph hcancelled

/-- Every step a pump can take. -/
inductive Pump.Steps (p : Pump M) : PumpAction → Pump M → Prop
  | take {m : M} {rest : List M} : p.phase = .idle → p.ch = m :: rest →
      Steps p .take { p with phase := .collecting, batch := [m], ch := rest }
  | stop : p.phase = .idle → p.done = true → Steps p .stop { p with phase := .exited }
  | collect {m : M} {rest : List M} : p.phase = .collecting → p.ch = m :: rest →
      p.batch.length < pumpCap →
      Steps p .collect { p with batch := p.batch ++ [m], ch := rest }
  | lock : p.phase = .collecting → p.ch.isEmpty ∨ pumpCap ≤ p.batch.length →
      Steps p .lock { p with phase := .writing }
  | write {m : M} {rest : List M} : p.phase = .writing → p.batch = m :: rest →
      Steps p (.write true) { p with batch := rest, written := p.written ++ [m] }
  /-- Nothing more of the batch is written. -/
  | writeError {m : M} {rest : List M} : p.phase = .writing → p.batch = m :: rest →
      Steps p (.write false) { p with batch := [], phase := .failed }
  | unlock : p.phase = .writing → p.batch = [] → Steps p .unlock { p with phase := .idle }
  | report : p.phase = .failed → Steps p .report { p with phase := .exited, err := true }

theorem Pump.steps_of_step {p p' : Pump M} {a : PumpAction} (h : p.step a = some p') :
    p.Steps a p' := by
  revert h
  fun_cases Pump.step p a <;> rintro ⟨⟩
  case case1 hch hph => exact .take hph hch
  case case3 h => exact .stop h.1 h.2
  case case5 hch hph hlt => exact .collect hph hch hlt
  case case8 h => exact .lock h.1 h.2
  case case10 hbatch hph => exact .write hph hbatch
  case case11 hbatch hph hok =>
    obtain rfl := eq_false_of_ne_true hok
    exact .writeError hph hbatch
  case case13 h => exact .unlock h.1 (List.isEmpty_iff.1 h.2)
  case case15 h => exact .report h

/-! ## The loop -/

/-- What is left in the channel of the client's reader. -/
def Bridge.setClientCh (ch : List (WsMsg M)) (s : Bridge M) : Bridge M :=
  { s with clientReader := { s.clientReader with ch := ch } }

/-- What is left in the channel of the backend's reader. -/
def Bridge.setBackendCh (ch : List (WsMsg M)) (s : Bridge M) : Bridge M :=
  { s with backend := { s.backend with reader := { s.backend.reader with ch := ch } } }

/-- Every step the loop can take. -/
inductive Runs (s : Bridge M) : Case → Bridge M → Prop
  /-- The client has sent a message, or is gone. -/
  | client {m : M} {rest : List (WsMsg M)} : s.run = .select →
      s.clientReader.ch = .data m :: rest →
      Runs s .client { s.setClientCh rest with run := .toBackend m }
  | clientError {rest : List (WsMsg M)} : s.run = .select → s.clientReader.ch = .error :: rest →
      Runs s .client { s.setClientCh rest with run := .returning }
  /-- The backend has sent a message, or is gone. -/
  | backend {m : M} {rest : List (WsMsg M)} : s.run = .select →
      s.backend.reader.ch = .data m :: rest →
      Runs s .backend { s.setBackendCh rest with run := .toClient m }
  | backendError {rest : List (WsMsg M)} : s.run = .select → s.backend.reader.ch = .error :: rest →
      Runs s .backend (s.setBackendCh rest).swapOrReturn
  /-- A write has failed. -/
  | backendWriteErr : s.run = .select → s.backend.pump.err = true →
      Runs s .backendWriteErr s.takeErr.swapOrReturn
  | clientWriteErr : s.run = .select → s.clientPump.err = true →
      Runs s .clientWriteErr { s with run := .returning }
  | swap {newURL : Backend} : s.run = .select → s.swapCh = some newURL →
      Runs s .swap { s with swapCh := none, run := .closeBackend newURL }
  /-- The message in hand is handed over, or a write is found to have failed
  meanwhile. -/
  | toBackend {m : M} : s.run = .toBackend m → s.backend.pump.ch.length < pumpCap →
      Runs s .send { s.setWriteCh (s.backend.pump.ch ++ [m]) with run := .select }
  | toBackendErr {m : M} : s.run = .toBackend m → s.backend.pump.err = true →
      Runs s .backendWriteErr (s.takeErr.swapOrReturn.release [m])
  | toClient {m : M} : s.run = .toClient m → s.clientPump.ch.length < pumpCap →
      Runs s .send { s with
        clientPump := { s.clientPump with ch := s.clientPump.ch ++ [m] }
        run := .select }
  | toClientErr {m : M} : s.run = .toClient m → s.clientPump.err = true →
      Runs s .clientWriteErr { s with run := .returning }
  /-- The lines of a swap. -/
  | closeBackend {newURL : Backend} : s.run = .closeBackend newURL →
      Runs s .next { s.closeConn with run := .drainReader newURL }
  | drainReader {newURL : Backend} {x : WsMsg M} {rest : List (WsMsg M)} :
      s.run = .drainReader newURL → s.backend.reader.ch = x :: rest →
      Runs s .next { s.setBackendCh rest with run := .stopReader newURL }
  | stopReader {newURL : Backend} : s.run = .stopReader newURL →
      Runs s .next ({ s with
        backend := { s.backend with
          reader := { s.backend.reader with cancelled := true } } }.stopWriting (.stopPump newURL))
  | stopPump {newURL : Backend} : s.run = .stopPump newURL →
      Runs s .next (s.stopPumpStep (.dial newURL))
  | dial {newURL : Backend} {ok : Bool} : s.run = .dial newURL →
      Runs s (.dial ok) { s with run := if ok then .closeOld else .returning }
  | closeOld : s.run = .closeOld → Runs s .next { s.closeConn with run := .install }
  | install : s.run = .install → s.muFree = true →
      Runs s .next { s with past := s.past ++ [s.backend], backend := .dialed, run := .forward }
  | forward : s.run = .forward → Runs s .next s.forwardStep
  /-- And of the return. -/
  | returning : s.run = .returning →
      Runs s .next (
        let s := { s with
          clientReader := { s.clientReader with cancelled := true }
          clientPump := { s.clientPump with done := true } }
        if s.backend.pump.done then { s with run := .closing } else s.stopWriting .releasing)
  | releasing : s.run = .releasing → Runs s .next (s.stopPumpStep .closing)
  | closing : s.run = .closing →
      Runs s .next { s with
        backend := { s.backend with
          closed := true
          reader := { s.backend.reader with cancelled := true } }
        run := .returned }

theorem runs_of_selectStep (hrun : s.run = .select) (h : s.selectStep c = some s') :
    Runs s c s' := by
  revert h
  fun_cases Bridge.selectStep s c
  case case11 =>
    intro h
    obtain ⟨newURL, hswap, rfl⟩ := Option.map_eq_some_iff.1 h
    exact .swap hrun hswap
  all_goals rintro ⟨⟩
  case case1 hch => exact .client hrun hch
  case case2 hch => exact .clientError hrun hch
  case case4 hch => exact .backend hrun hch
  case case5 hch => exact .backendError hrun hch
  case case7 herr => exact .backendWriteErr hrun herr
  case case9 herr => exact .clientWriteErr hrun herr

theorem runs_of_toBackendStep {m : M} (hrun : s.run = .toBackend m)
    (h : s.toBackendStep m c = some s') : Runs s c s' := by
  revert h
  fun_cases Bridge.toBackendStep m s c <;> rintro ⟨⟩
  case case1 hlt => exact .toBackend hrun hlt
  case case3 herr => exact .toBackendErr hrun herr

theorem runs_of_toClientStep {m : M} (hrun : s.run = .toClient m)
    (h : s.toClientStep m c = some s') : Runs s c s' := by
  revert h
  fun_cases Bridge.toClientStep m s c <;> rintro ⟨⟩
  case case1 hlt => exact .toClient hrun hlt
  case case3 herr => exact .toClientErr hrun herr

/-- **A step of the loop is one of these.** -/
theorem runs_of_runStep (h : s.runStep c = some s') : Runs s c s' := by
  revert h
  fun_cases Bridge.runStep s c
  case case1 hrun => exact runs_of_selectStep hrun
  case case2 hrun => exact runs_of_toBackendStep hrun
  case case3 hrun => exact runs_of_toClientStep hrun
  all_goals rintro ⟨⟩
  case case4 hrun => exact .closeBackend hrun
  case case5 hrun _ _ hch => exact .drainReader hrun hch
  case case7 hrun => exact .stopReader hrun
  case case8 hrun => exact .stopPump hrun
  case case9 hrun => exact .dial hrun
  case case10 hrun => exact .closeOld hrun
  case case11 hrun hmu => exact .install hrun hmu
  case case13 hrun => exact .forward hrun
  case case14 hrun _ => exact .returning hrun
  case case15 hrun => exact .releasing hrun
  case case16 hrun => exact .closing hrun

/-! ## All goroutines -/

/-- Every step of the bridge, by the goroutine that takes it. -/
inductive Steps (s : Bridge M) : Action M → Bridge M → Prop
  | run {c : Case} {s' : Bridge M} : Runs s c s' → Steps s (.run c) s'
  | clientReader {a : ReaderAction M} {r : Reader M} : s.clientReader.step a = some r →
      Steps s (.clientReader a) { s with clientReader := r }
  | clientPump {a : PumpAction} {p : Pump M} : s.clientPump.step a = some p →
      Steps s (.clientPump a) { s with clientPump := p }
  | reader {a : ReaderAction M} {r : Reader M} : s.backend.reader.step a = some r →
      Steps s (.reader a) { s with backend := { s.backend with reader := r } }
  | pump {a : PumpAction} {p : Pump M} : a.allowed s.muFree = true →
      s.backend.pump.step a = some p →
      Steps s (.pump a) ({ s with backend := { s.backend with pump := p } }.release
        (s.backend.pump.dropped a))
  | pastReader {i : ℕ} {l : Link M} {a : ReaderAction M} {r : Reader M} : s.past[i]? = some l →
      l.reader.step a = some r →
      Steps s (.pastReader i a) { s with past := s.past.set i { l with reader := r } }
  | pastPump {i : ℕ} {l : Link M} {a : PumpAction} {p : Pump M} : a.allowed s.muFree = true →
      s.past[i]? = some l → l.pump.step a = some p →
      Steps s (.pastPump i a) ({ s with past := s.past.set i { l with pump := p } }.release
        (l.pump.dropped a))
  | swapBackend {newURL : Backend} : Steps s (.swapBackend newURL) { s with
      swapCh := some (s.swapCh.getD newURL)
      swapping := s.swapping + 1 }
  | closeBackend {n : ℕ} : s.swapping = n + 1 →
      Steps s .closeBackend { s.closeConn with swapping := n }

/-- **A step of the bridge is one of these.** -/
theorem steps_of_step {a : Action M} (h : step s a = some s') : Steps s a s' := by
  cases a with
  | run c => exact .run (runs_of_runStep h)
  | clientReader a =>
    obtain ⟨r, hr, rfl⟩ := Option.map_eq_some_iff.1 h
    exact .clientReader hr
  | clientPump a =>
    obtain ⟨p, hp, rfl⟩ := Option.map_eq_some_iff.1 h
    exact .clientPump hp
  | reader a =>
    obtain ⟨r, hr, rfl⟩ := Option.map_eq_some_iff.1 h
    exact .reader hr
  | pump a =>
    obtain ⟨hmu, h⟩ := Option.ite_none_right_eq_some.1 h
    obtain ⟨p, hp, rfl⟩ := Option.map_eq_some_iff.1 h
    exact .pump hmu hp
  | pastReader i a =>
    obtain ⟨l, hl, h⟩ := Option.bind_eq_some_iff.1 h
    obtain ⟨r, hr, rfl⟩ := Option.map_eq_some_iff.1 h
    exact .pastReader hl hr
  | pastPump i a =>
    obtain ⟨hmu, h⟩ := Option.ite_none_right_eq_some.1 h
    obtain ⟨l, hl, h⟩ := Option.bind_eq_some_iff.1 h
    obtain ⟨p, hp, rfl⟩ := Option.map_eq_some_iff.1 h
    exact .pastPump hmu hl hp
  | swapBackend newURL =>
    obtain rfl := Option.some.inj h
    exact .swapBackend
  | closeBackend =>
    simp only [step] at h
    split at h
    · rename_i n hn
      obtain rfl := Option.some.inj h
      exact .closeBackend hn
    · cases h

end WebSocket

end StickyProxy
