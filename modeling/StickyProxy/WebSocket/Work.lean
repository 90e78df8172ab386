import StickyProxy.WebSocket.Effects
import StickyProxy.Common.Run
import StickyProxy.Common.Pool
/-!
# What the bridge has left to do

A message is worth less at every place it comes to on its way, from the hand
of the reader to the batch of the pump. A goroutine is worth the steps that
it can still take before it waits for its peer or ends, and a swap that was
asked for the steps it takes and the goroutines it starts. The total is what
the bridge has left to do: whatever it does itself lowers the total, and only
a message that a peer sends and a call of `SwapBackend` raise it. So the
bridge never spins, and its steps are linear in what it was given to do.
-/

namespace StickyProxy

namespace WebSocket

variable {M : Type*} {s s' : Bridge M} {p p' : Pump M} {r r' : Reader M}

/-! ## What each part has left to do -/

/-- A message waits in the channel of a reader. -/
def WsMsg.work : WsMsg M → ℕ
  | .data _ => 6
  | .error => 1

def ReaderPhase.work : ReaderPhase M → ℕ
  | .waiting => 0
  | .reading => 3
  -- After a message the reader goes on reading.
  | .sending (.data _) => 10
  | .sending .error => 2
  | .exited => 0

def Reader.work (r : Reader M) : ℕ := r.phase.work + (r.ch.map WsMsg.work).sum

def PumpPhase.work : PumpPhase → ℕ
  | .idle => 1
  | .collecting => 3
  | .writing => 2
  | .failed => 2
  | .exited => 0

def Pump.work (p : Pump M) : ℕ :=
  p.phase.work + 4 * p.ch.length + p.batch.length + if p.err then 1 else 0

def Link.work (l : Link M) : ℕ := l.pump.work + l.reader.work

/-- A swap ends where the loop began, with one more pump and reader. -/
def RunPhase.work : RunPhase M → ℕ
  | .select => 4
  | .toBackend _ | .toClient _ => 9
  | .closeBackend _ => 16
  | .drainReader _ => 15
  | .stopReader _ => 14
  | .stopPump _ => 13
  | .dial _ => 12
  | .closeOld => 11
  | .install => 10
  | .forward => 8
  | .returning => 3
  | .releasing => 2
  | .closing => 1
  | .returned => 0

/-- What a URL that waits in the channel is worth. -/
def swapWork (swapCh : Option Backend) : ℕ := if swapCh.isSome then 13 else 0

def Bridge.work (s : Bridge M) : ℕ :=
  s.run.work + swapWork s.swapCh + s.swapping + s.clientReader.work + s.clientPump.work +
    s.backend.work + (s.past.map Link.work).sum

/-- What an action brings: it is more than its own step only where a peer
sends a message, or a swap is asked for. -/
def Action.cost : Action M → ℕ
  | .clientReader (.read (some _)) | .reader (.read (some _)) | .pastReader _ (.read (some _)) => 8
  | .swapBackend _ => 15
  | _ => 0

/-! ## A step takes from it -/

def ReaderAction.cost : ReaderAction M → ℕ
  | .read (some _) => 8
  | _ => 0

theorem Reader.work_step {a : ReaderAction M} (h : r.step a = some r') :
    r'.work + 1 ≤ r.work + a.cost := by
  cases Reader.steps_of_step h with
  | read hph | readError hph =>
    simp only [Reader.work, hph, ReaderPhase.work, ReaderAction.cost]
    omega
  | @send x hph =>
    have hch : ((r.ch ++ [x]).map WsMsg.work).sum = (r.ch.map WsMsg.work).sum + x.work := by
      rw [List.map_append, List.sum_append]
      rfl
    simp only [Reader.work, hph, hch, ReaderAction.cost]
    cases x with
    | data m =>
      simp only [WsMsg.message, Option.isSome_some, if_true, ReaderPhase.work, WsMsg.work]
      omega
    | error =>
      simp only [WsMsg.message, Option.isSome_none, Bool.false_eq_true, if_false,
        ReaderPhase.work, WsMsg.work]
      omega
  | @quit x hph =>
    have hpos : 2 ≤ (ReaderPhase.sending x).work := by
      cases x <;> simp only [ReaderPhase.work, le_refl, Nat.reduceLeDiff]
    simp only [Reader.work, hph, ReaderAction.cost, ReaderPhase.work]
    simp only [ReaderPhase.work] at hpos
    omega

theorem Pump.work_step {a : PumpAction} (h : p.step a = some p') : p'.work + 1 ≤ p.work := by
  cases Pump.steps_of_step h with
  | take hph hch =>
    simp only [Pump.work, hph, hch, PumpPhase.work, List.length_cons, List.length_nil]
    omega
  | collect hph hch =>
    simp only [Pump.work, hph, hch, PumpPhase.work, List.length_append, List.length_cons,
      List.length_nil]
    omega
  | write hph hbatch | writeError hph hbatch =>
    simp only [Pump.work, hph, hbatch, PumpPhase.work, List.length_cons, List.length_nil]
    omega
  | stop hph | lock hph | unlock hph =>
    simp only [Pump.work, hph, PumpPhase.work]
    omega
  | report hph =>
    simp only [Pump.work, hph, PumpPhase.work, if_true]
    omega

/-! ## A step of the loop -/

/-- The bridge with all that it has left to do in sight, but for the swaps
and the links of before. -/
theorem Bridge.work_eq (s : Bridge M) : s.work =
    s.run.work + swapWork s.swapCh + s.swapping +
      (s.clientReader.phase.work + (s.clientReader.ch.map WsMsg.work).sum) + s.clientPump.work +
      (s.backend.pump.work +
        (s.backend.reader.phase.work + (s.backend.reader.ch.map WsMsg.work).sum)) +
      (s.past.map Link.work).sum := rfl

/-- A pump whose channel is set. -/
theorem Pump.work_setCh (p : Pump M) (ch : List M) :
    ({ p with ch := ch } : Pump M).work + 4 * p.ch.length = p.work + 4 * ch.length := by
  simp only [Pump.work]
  omega

theorem work_takeErr (s : Bridge M) : s.takeErr.work ≤ s.work := by
  have herr : s.takeErr.backend.pump.work ≤ s.backend.pump.work := by
    simp only [Bridge.takeErr, Pump.work, Bool.false_eq_true, if_false]
    omega
  simp only [Bridge.work_eq]
  simp only [Bridge.takeErr] at herr ⊢
  omega

/-- The pending swap is worth the way through it. -/
theorem work_swapOrReturn (s : Bridge M) : s.swapOrReturn.work + s.run.work ≤ s.work + 3 := by
  have hswap : s.swapOrReturn.run.work ≤ swapWork s.swapCh + 3 := by
    unfold Bridge.swapOrReturn
    cases hpending : s.pendingSwap with
    | none =>
      simp only [RunPhase.work]
      omega
    | some newURL =>
      have hsome : s.swapCh.isSome = true := by
        unfold Bridge.pendingSwap at hpending
        rw [(Option.filter_eq_some_iff.1 hpending).1]
        rfl
      simp only [RunPhase.work, swapWork, hsome, if_true, Nat.reduceAdd, Nat.reduceLeDiff]
  have hnone : swapWork s.swapOrReturn.swapCh = 0 := rfl
  simp only [Bridge.work_eq, hnone]
  simp only [Bridge.swapOrReturn] at hswap ⊢
  omega

/-- Flags are worth nothing. -/
theorem work_stopWriting (s : Bridge M) (q : RunPhase M) :
    (s.stopWriting q).work + s.run.work = s.work + q.work := by
  have hpump : ({ s.backend.pump with done := true } : Pump M).work = s.backend.pump.work := rfl
  simp only [Bridge.stopWriting, Bridge.work, Link.work, hpump]
  omega

theorem work_stopPumpStep (s : Bridge M) {q : RunPhase M} (hq : q.work + 1 ≤ s.run.work) :
    (s.stopPumpStep q).work + 1 ≤ s.work := by
  unfold Bridge.stopPumpStep
  split
  · rename_i m rest hch
    have hpump := s.backend.pump.work_setCh rest
    rw [hch, List.length_cons] at hpump
    simp only [Bridge.release, Bridge.setWriteCh, Bridge.work_eq]
    omega
  · simp only [Bridge.work_eq]
    omega

theorem work_forwardStep (hrun : s.run = .forward) : s.forwardStep.work + 1 ≤ s.work := by
  unfold Bridge.forwardStep
  split
  · rename_i m rest hch
    dsimp only
    split
    · have hpump := s.backend.pump.work_setCh (s.backend.pump.ch ++ [m])
      rw [List.length_append, List.length_singleton] at hpump
      simp only [Bridge.setWriteCh, Bridge.work_eq, hch, List.map_cons, List.sum_cons, WsMsg.work]
      omega
    · simp only [Bridge.work_eq, hrun, hch, List.map_cons, List.sum_cons, RunPhase.work]
      omega
  · rename_i rest hch
    simp only [Bridge.work_eq, hrun, hch, List.map_cons, List.sum_cons, RunPhase.work]
    omega
  · simp only [Bridge.work_eq, hrun, Link.startReader, RunPhase.work, ReaderPhase.work]
    omega

theorem work_of_runs {c : Case} (h : Runs s c s') : s'.work + 1 ≤ s.work := by
  cases h with
  | client hrun hch | backend hrun hch | clientError hrun hch | drainReader hrun hch =>
    simp only [Bridge.setClientCh, Bridge.setBackendCh, Bridge.work_eq, hrun, hch, List.map_cons,
      List.sum_cons, RunPhase.work, WsMsg.work]
    omega
  | @backendError rest hrun hch =>
    have hswap := work_swapOrReturn (s.setBackendCh rest)
    have hread : (s.setBackendCh rest).work + 1 = s.work := by
      simp only [Bridge.setBackendCh, Bridge.work_eq, hch, List.map_cons, List.sum_cons, WsMsg.work]
      omega
    have hphase : (s.setBackendCh rest).run.work = 4 := congrArg RunPhase.work hrun
    omega
  | backendWriteErr hrun =>
    have hswap := work_swapOrReturn s.takeErr
    have herr := work_takeErr s
    have hphase : s.takeErr.run.work = 4 := congrArg RunPhase.work hrun
    omega
  | @toBackendErr m hrun =>
    have hswap := work_swapOrReturn s.takeErr
    have herr := work_takeErr s
    have hphase : s.takeErr.run.work = 9 := congrArg RunPhase.work hrun
    have hrelease : (s.takeErr.swapOrReturn.release [m]).work = s.takeErr.swapOrReturn.work := rfl
    omega
  | @swap newURL hrun hswap =>
    simp only [Bridge.work_eq, hrun, hswap, swapWork, RunPhase.work, Option.isSome_some,
      Option.isSome_none, if_true, Bool.false_eq_true, if_false]
    omega
  | @toBackend m hrun =>
    have hpump := s.backend.pump.work_setCh (s.backend.pump.ch ++ [m])
    rw [List.length_append, List.length_singleton] at hpump
    simp only [Bridge.setWriteCh, Bridge.work_eq, hrun, RunPhase.work]
    omega
  | @toClient m hrun =>
    have hpump := s.clientPump.work_setCh (s.clientPump.ch ++ [m])
    rw [List.length_append, List.length_singleton] at hpump
    simp only [Bridge.work_eq, hrun, RunPhase.work]
    omega
  | stopPump hrun | releasing hrun =>
    refine work_stopPumpStep s ?_
    rw [hrun]
    exact Nat.le_refl _
  | @dial _ ok hrun =>
    simp only [Bridge.work_eq, hrun, RunPhase.work]
    cases ok <;> simp only [Bool.false_eq_true, if_false, if_true] <;> omega
  | install hrun =>
    have hlink : (s.past ++ [s.backend]).map Link.work = s.past.map Link.work ++ [s.backend.work] :=
      List.map_append
    have hnew : (Link.dialed : Link M).work = 1 := rfl
    simp only [Bridge.work, hrun, RunPhase.work, hlink, hnew, List.sum_append, List.sum_singleton]
    omega
  | forward hrun => exact work_forwardStep hrun
  | @stopReader newURL hrun =>
    set t : Bridge M := { s with
      backend := { s.backend with reader := { s.backend.reader with cancelled := true } } }
    have hsame : t.work = s.work := rfl
    have hphase : t.run.work = 14 := congrArg RunPhase.work hrun
    have hnext : (RunPhase.stopPump newURL : RunPhase M).work = 13 := rfl
    have hstop := work_stopWriting t (.stopPump newURL)
    omega
  | returning hrun =>
    set t : Bridge M := { s with
      clientReader := { s.clientReader with cancelled := true }
      clientPump := { s.clientPump with done := true } }
    have hsame : t.work = s.work := rfl
    have hphase : t.run.work = 3 := congrArg RunPhase.work hrun
    dsimp only
    split
    · have hend : ({ t with run := .closing } : Bridge M).work + t.run.work = t.work + 1 := by
        simp only [Bridge.work, RunPhase.work]
        omega
      omega
    · have hnext : (RunPhase.releasing : RunPhase M).work = 2 := rfl
      have hstop := work_stopWriting t .releasing
      omega
  | clientWriteErr hrun | toClientErr hrun | closeBackend hrun | closeOld hrun | closing hrun =>
    simp only [Bridge.closeConn, Bridge.work, Link.work, Reader.work, hrun, RunPhase.work]
    omega

/-! ## A step of the bridge -/

/-- **Every step is paid for.** -/
theorem work_step {a : Action M} (hst : step s a = some s') : s'.work + 1 ≤ s.work + a.cost := by
  cases steps_of_step hst with
  | run hruns => exact (work_of_runs hruns).trans (Nat.le_add_right _ _)
  | @clientReader a r hr =>
    have hreader := Reader.work_step hr
    have hcost : (Action.clientReader a).cost = a.cost := by
      rcases a with (- | -) | - | - <;> rfl
    simp only [Bridge.work, hcost]
    omega
  | @clientPump a p hp =>
    have hpump := Pump.work_step hp
    simp only [Bridge.work]
    omega
  | @reader a r hr =>
    have hreader := Reader.work_step hr
    have hcost : (Action.reader a).cost = a.cost := by
      rcases a with (- | -) | - | - <;> rfl
    simp only [Bridge.work, Link.work, hcost]
    omega
  | @pump a p _ hp =>
    have hpump := Pump.work_step hp
    simp only [Bridge.release, Bridge.work, Link.work]
    omega
  | @pastReader i l a r hl hr =>
    have hreader := Reader.work_step hr
    have hsum := Pool.sum_map_set_add Link.work { l with reader := r } hl
    have hcost : (Action.pastReader i a).cost = a.cost := by
      rcases a with (- | -) | - | - <;> rfl
    have hlink : ({ l with reader := r } : Link M).work + l.reader.work = l.work + r.work := by
      simp only [Link.work]
      omega
    simp only [Bridge.work, hcost]
    omega
  | @pastPump i l a p _ hl hp =>
    have hpump := Pump.work_step hp
    have hsum := Pool.sum_map_set_add Link.work { l with pump := p } hl
    have hlink : ({ l with pump := p } : Link M).work + l.pump.work = l.work + p.work := by
      simp only [Link.work]
      omega
    simp only [Bridge.release, Bridge.work]
    omega
  | @swapBackend newURL =>
    have hswap (o : Option Backend) : swapWork o ≤ 13 := by
      unfold swapWork
      split <;> omega
    simp only [Bridge.work, Action.cost]
    have hbound := hswap (some (s.swapCh.getD newURL))
    omega
  | closeBackend hswapping =>
    simp only [Bridge.closeConn, Bridge.work, Link.work, hswapping]
    omega

/-- A peer sends a message. -/
def Action.reads : Action M → Bool
  | .clientReader (.read (some _)) | .reader (.read (some _)) | .pastReader _ (.read (some _)) =>
    true
  | _ => false

/-- A swap is asked for. -/
def Action.swaps : Action M → Bool
  | .swapBackend _ => true
  | _ => false

theorem sum_cost (schedule : List (Action M)) :
    (schedule.map Action.cost).sum =
      8 * schedule.countP Action.reads + 15 * schedule.countP Action.swaps := by
  induction schedule with
  | nil => rfl
  | cons a schedule ih =>
    have hcost : a.cost =
        8 * (if a.reads = true then 1 else 0) + 15 * (if a.swaps = true then 1 else 0) := by
      rcases a with - | ((- | -) | - | -) | - | ((- | -) | - | -) | - | ⟨-, (- | -) | - | -⟩ |
        - | - | - <;> rfl
    rw [List.map_cons, List.sum_cons, ih, List.countP_cons, List.countP_cons, hcost]
    omega

/-- **The bridge never spins.** However its goroutines take turns, whichever
reads, writes and dials fail, a run has at most so many steps for each message
that a peer sent and each swap that was asked for, and the steps that are left
in the state it comes to are accounted for. -/
theorem length_add_work_le {schedule : List (Action M)}
    (hrun : Run.exec step Bridge.start schedule = some s) :
    schedule.length + s.work ≤
      12 + 8 * schedule.countP Action.reads + 15 * schedule.countP Action.swaps := by
  have hbound := Run.length_add_le_of_potential (fun _ _ _ hst => work_step hst) hrun
  have hstart : (Bridge.start : Bridge M).work = 12 := rfl
  rw [sum_cost, hstart] at hbound
  omega

/-- A message of the client's on its way to the backend: the loop is left with
waiting, and the goroutines with ending. -/
theorem length_add_work_le_relayed :
    ∃ s, Run.exec step Bridge.start
        [.clientReader (.read (some "hello")), .clientReader .send, .run .client, .run .send,
          .pump .take, .pump .lock, .pump (.write true), .pump .unlock] = some s ∧
      8 + s.work ≤ 12 + 8 * 1 + 15 * 0 := by
  have hrun : ∃ s, Run.exec step Bridge.start
        [.clientReader (.read (some "hello")), .clientReader .send, .run .client, .run .send,
          .pump .take, .pump .lock, .pump (.write true), .pump .unlock] = some s := ⟨_, rfl⟩
  obtain ⟨s, hrun⟩ := hrun
  exact ⟨s, hrun, length_add_work_le hrun⟩

end WebSocket

end StickyProxy
