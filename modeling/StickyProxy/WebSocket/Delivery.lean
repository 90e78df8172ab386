import StickyProxy.WebSocket.Attendance
import StickyProxy.WebSocket.Relay
import StickyProxy.WebSocket.Loss
import Mathlib.Algebra.Order.Group.Multiset
import Mathlib.Tactic.Abel
/-!
# What the bridge has read it delivers

While the bridge runs, the line from the client to the backends and what was
lost have between them just the messages that were read from the client, and
what was read from the present backend is at the end of the line to the
client. When the bridge is at rest, with nothing to do unless a peer sends
something or a swap is asked for, it either waits for its peers with nothing
under way, so that both lines have been written, or it is over and all its
goroutines have ended.
-/

namespace StickyProxy

namespace WebSocket

variable {M : Type*} {s s' : Bridge M} {p p' : Pump M} {r r' : Reader M}

/-! ## Pumps and readers -/

/-- A pump whose write does not fail keeps its line. -/
theorem Pump.line_eq_of_step {a : PumpAction} (htidy : p.Tidy) (hst : p.step a = some p')
    (ha : a ≠ .write false) : p'.line = p.line := by
  cases Pump.steps_of_step hst with
  | take hph hch =>
    have hbatch : p.batch = [] := htidy (by rw [hph]; nofun) (by rw [hph]; nofun)
    simp only [line, hch, hbatch, List.singleton_append, List.nil_append]
  | collect _ hch => simp only [line, hch, List.append_assoc, List.singleton_append]
  | write _ hbatch => simp only [line, hbatch, List.append_assoc, List.cons_append, List.nil_append]
  | writeError => exact absurd rfl ha
  | stop | lock | unlock | report => rfl

/-- What leaves the line of a pump is what it drops. -/
theorem Pump.line_add_dropped {a : PumpAction} (htidy : p.Tidy) (hst : p.step a = some p') :
    (p'.line : Multiset M) + p.dropped a = p.line := by
  by_cases ha : a = .write false
  · subst ha
    cases Pump.steps_of_step hst with
    | writeError =>
      simp only [line, dropped, List.nil_append, ← Multiset.coe_add]
      abel
  · have hnone : p.dropped a = [] := (dropped_eq_nil_iff hst).2 ha
    rw [line_eq_of_step htidy hst ha, hnone, Multiset.coe_nil, add_zero]

/-- A reader whose context is not done drops nothing. -/
theorem Reader.queue_eq_of_step {a : ReaderAction M} (hcancelled : r.cancelled = false)
    (hst : r.step a = some r') :
    ∃ ms, r'.queue = r.queue ++ ms ∧ r'.read = r.read ++ ms := by
  cases Reader.steps_of_step hst with
  | @read m hph =>
    refine ⟨[m], ?_, rfl⟩
    simp only [queue, hph, ReaderPhase.held, WsMsg.message, Option.toList_some, List.append_nil]
  | readError hph =>
    refine ⟨[], ?_, (List.append_nil _).symm⟩
    simp only [queue, hph, ReaderPhase.held, WsMsg.message, Option.toList_none, List.append_nil]
  | @send x hph =>
    refine ⟨[], ?_, (List.append_nil _).symm⟩
    cases x with
    | data m =>
      simp only [queue, hph, List.filterMap_append, List.filterMap_cons, List.filterMap_nil,
        WsMsg.message, Option.isSome_some, if_true, ReaderPhase.held, Option.toList_some,
        List.append_nil]
    | error => simp [queue, hph, ReaderPhase.held, WsMsg.message]
  | quit _ hdone =>
    rw [hcancelled] at hdone
    cases hdone

/-! ## The line to the backends -/

/-- The line as a multiset, place by place. -/
theorem Bridge.coe_toBackends (s : Bridge M) : (s.toBackends : Multiset M) =
    (s.past.map fun l => (l.pump.line : Multiset M)).sum + (s.backend.pump.line +
      (s.run.forBackend + s.clientReader.queue)) := by
  have hpast (ls : List (Link M)) : (ls.flatMap (·.pump.line) : Multiset M) =
      (ls.map fun l => (l.pump.line : Multiset M)).sum := by
    induction ls with
    | nil => rfl
    | cons l ls ih => rw [List.flatMap_cons, ← Multiset.coe_add, ih, List.map_cons, List.sum_cons]
  rw [toBackends, ← Multiset.coe_add, ← Multiset.coe_add, ← Multiset.coe_add, hpast]

/-- A channel of a pump, in its line. -/
theorem Pump.coe_line (p : Pump M) : (p.line : Multiset M) = p.written + (p.batch + p.ch) := by
  rw [line, ← Multiset.coe_add, ← Multiset.coe_add]

theorem Reader.coe_queue (r : Reader M) :
    (r.queue : Multiset M) = r.ch.filterMap WsMsg.message + r.phase.held := by
  rw [queue, ← Multiset.coe_add]

/-- Where the parts of the line are what they were, so is the line. -/
theorem coe_toBackends_congr (hpast : s'.past = s.past)
    (hpump : s'.backend.pump.line = s.backend.pump.line)
    (hrun : s'.run.forBackend = s.run.forBackend) (hreader : s'.clientReader = s.clientReader) :
    (s'.toBackends : Multiset M) = s.toBackends := by
  rw [Bridge.coe_toBackends, Bridge.coe_toBackends, hpast, hpump, hrun, hreader]

theorem coe_cons (m : M) (ms : List M) : ((m :: ms : List M) : Multiset M) = {m} + ms := by
  rw [← Multiset.cons_coe, Multiset.singleton_add]

theorem coe_append (ms ns : List M) : ((ms ++ ns : List M) : Multiset M) = ms + ns :=
  (Multiset.coe_add ms ns).symm

theorem forBackend_swapOrReturn (s : Bridge M) : s.swapOrReturn.run.forBackend = [] := by
  unfold Bridge.swapOrReturn
  cases s.pendingSwap <;> rfl

/-- What is left in the channel of the pump that is stopped leaves the line. -/
theorem coe_toBackends_stopPumpStep (s : Bridge M) {q : RunPhase M}
    (hq : q.forBackend = s.run.forBackend) :
    ((s.stopPumpStep q).toBackends : Multiset M) + s.backend.pump.ch.take 1 = s.toBackends := by
  unfold Bridge.stopPumpStep
  cases hch : s.backend.pump.ch with
  | nil =>
    rw [List.take_nil, Multiset.coe_nil, add_zero]
    exact coe_toBackends_congr rfl rfl hq rfl
  | cons m rest =>
    simp only [Bridge.coe_toBackends, Bridge.release, Bridge.setWriteCh, Pump.coe_line, hch,
      List.take_succ_cons, List.take_zero, coe_cons, Multiset.coe_nil]
    abel

theorem coe_toBackends_forwardStep (hrun : s.run = .forward)
    (hrunning : s.forwardStep.run.running = true) :
    (s.forwardStep.toBackends : Multiset M) = s.toBackends := by
  revert hrunning
  unfold Bridge.forwardStep
  split
  · rename_i m rest hch
    dsimp only
    split
    · intro _
      simp only [Bridge.coe_toBackends, Bridge.setWriteCh, Pump.coe_line, Reader.coe_queue, hch,
        List.filterMap_cons, WsMsg.message, coe_cons, coe_append, Multiset.coe_nil]
      abel
    · intro h
      cases h
  · intro h
    cases h
  · exact fun _ => coe_toBackends_congr rfl rfl (by rw [hrun]; rfl) rfl

/-- **What leaves the line is what the loop releases**, while it does not
return. -/
theorem coe_toBackends_of_runs {c : Case} (hruns : Runs s c s')
    (hrunning : s'.run.running = true) :
    (s'.toBackends : Multiset M) + s.releases c = s.toBackends := by
  cases hruns with
  | client hrun hch =>
    simp only [Bridge.releases, Bridge.coe_toBackends, Bridge.setClientCh, Reader.coe_queue, hrun,
      hch, RunPhase.forBackend, List.filterMap_cons, WsMsg.message, coe_cons, Multiset.coe_nil]
    abel
  | toBackend hrun =>
    simp only [Bridge.releases, Bridge.coe_toBackends, Bridge.setWriteCh, Pump.coe_line, hrun,
      RunPhase.forBackend, coe_append, coe_cons, Multiset.coe_nil]
    abel
  | @toBackendErr m hrun =>
    have hswap : s.pendingSwap.isSome = true := by
      rw [← hrunning]
      exact (running_swapOrReturn s.takeErr).symm
    have hnext : (s.takeErr.swapOrReturn.release [m]).run.forBackend = [] :=
      forBackend_swapOrReturn s.takeErr
    have hhand : s.run.forBackend = [m] := by
      rw [hrun]
      rfl
    have hreleases : s.releases .backendWriteErr = [m] := by
      simp only [Bridge.releases, hrun, hswap, if_true]
    rw [Bridge.coe_toBackends, Bridge.coe_toBackends, hnext, hhand, hreleases, Multiset.coe_nil,
      zero_add]
    change (s.past.map fun l => (l.pump.line : Multiset M)).sum +
      (s.backend.pump.line + s.clientReader.queue) + ([m] : List M) = _
    abel
  | @stopPump newURL hrun =>
    simp only [Bridge.releases, hrun]
    exact coe_toBackends_stopPumpStep s (by rw [hrun]; rfl)
  | install hrun =>
    have hnew : (Link.dialed : Link M).pump.line = [] := rfl
    simp only [Bridge.releases, Bridge.coe_toBackends, hrun, hnew, RunPhase.forBackend,
      List.map_append, List.map_cons, List.map_nil, List.sum_append, List.sum_singleton,
      Multiset.coe_nil]
    abel
  | forward hrun =>
    simp only [Bridge.releases, hrun, Multiset.coe_nil, add_zero]
    exact coe_toBackends_forwardStep hrun hrunning
  | backendError hrun | backendWriteErr hrun =>
    simp only [Bridge.releases, hrun, Multiset.coe_nil, add_zero]
    refine coe_toBackends_congr rfl rfl ?_ rfl
    rw [forBackend_swapOrReturn, hrun]
    rfl
  | clientError | clientWriteErr | toClientErr => cases hrunning
  | returning hrun =>
    dsimp only at hrunning
    split at hrunning <;> cases hrunning
  | releasing hrun =>
    have hends := (leaves_of_runs (Runs.releasing hrun)).running hrunning
    rw [hrun] at hends
    cases hends
  | closing => cases hrunning
  | @dial _ ok hrun =>
    cases ok with
    | true =>
      simp only [Bridge.releases, hrun, Multiset.coe_nil, add_zero]
      exact coe_toBackends_congr rfl rfl (by rw [hrun]; rfl) rfl
    | false => cases hrunning
  | backend hrun | swap hrun | toClient hrun | closeBackend hrun | drainReader hrun
  | stopReader hrun | closeOld hrun =>
    simp only [Bridge.releases, hrun, Multiset.coe_nil, add_zero]
    exact coe_toBackends_congr rfl rfl (by rw [hrun]; rfl) rfl

/-- **While the bridge runs, what was read from the client is in the line or
was lost.** -/
def Conserved (s : Bridge M) : Prop :=
  s.run.running = true → (s.toBackends : Multiset M) + s.lost = s.clientReader.read

theorem conserved_start : Conserved (Bridge.start : Bridge M) := fun _ => rfl

theorem Conserved.step {a : Action M} (hatt : Attended s) (h : Conserved s)
    (hst : step s a = some s') : Conserved s' := by
  have hlost := lost_step hst
  cases steps_of_step hst with
  | @run c s' hruns =>
    intro hrunning
    have hleaves := leaves_of_runs hruns
    rw [hlost, Bridge.loses, ← (shifts_of_runs hruns).clientRead.symm,
      ← h (hleaves.running hrunning), ← coe_toBackends_of_runs hruns hrunning, coe_append]
    abel
  | @clientReader a r hr =>
    intro hrunning
    have hcancelled := ((expectsClient_of_running hrunning).1 hatt.client).1.cancelled
    obtain ⟨ms, hqueue, hread⟩ := Reader.queue_eq_of_step hcancelled hr
    have hbefore := h hrunning
    simp only [Bridge.coe_toBackends] at hbefore
    simp only [Bridge.coe_toBackends, hqueue, hread, coe_append, ← hbefore]
    abel
  | @pump a p _ hp =>
    intro hrunning
    have hrunning' : s.run.running = true := hrunning
    have hline := Pump.line_add_dropped hatt.backendTidy hp
    rw [hlost, Bridge.loses, if_pos hrunning']
    have hbefore := h hrunning'
    simp only [Bridge.coe_toBackends, ← hline] at hbefore
    simp only [Bridge.coe_toBackends, Bridge.release, coe_append, ← hbefore]
    abel
  | @pastPump i l a p _ hl hp =>
    intro hrunning
    have hrunning' : s.run.running = true := hrunning
    have htidy := (hatt.past l (List.mem_of_getElem? hl)).tidy
    have hline := Pump.line_add_dropped htidy hp
    have hsum := Pool.sum_map_set_add (fun l : Link M => (l.pump.line : Multiset M))
      { l with pump := p } hl
    rw [hlost, Bridge.loses, if_pos hrunning', hl, Option.elim_some]
    have hbefore := h hrunning'
    simp only [Bridge.coe_toBackends] at hbefore
    have hmoved : ((s.past.set i { l with pump := p }).map
        fun l => (l.pump.line : Multiset M)).sum + l.pump.dropped a =
          (s.past.map fun l => (l.pump.line : Multiset M)).sum := by
      refine add_right_cancel (b := (p.line : Multiset M)) ?_
      rw [← hsum, ← hline]
      abel
    simp only [Bridge.coe_toBackends, Bridge.release, coe_append, ← hbefore, ← hmoved]
    abel
  | @pastReader i l a r hl hr =>
    intro hrunning
    have hpast : (s.past.set i { l with reader := r }).map
        (fun l => (l.pump.line : Multiset M)) = s.past.map fun l => (l.pump.line : Multiset M) :=
      Pool.map_set_of_eq _ hl rfl
    have hbefore := h hrunning
    rw [Bridge.coe_toBackends] at hbefore ⊢
    rw [hpast]
    exact hbefore
  | clientPump | reader | swapBackend | closeBackend => exact h

/-! ## The line to the client -/

/-- **All that was read from the present backend is at the end of the line to
the client**, as long as the loop listens to it and no write to the client has
failed. -/
def UpToDate (s : Bridge M) : Prop :=
  s.run.relays = true → s.clientPump.Sound → s.backend.reader.read <:+ s.toClient

theorem upToDate_start : UpToDate (Bridge.start : Bridge M) := fun _ _ => List.suffix_rfl

/-- A pump that has seen no write fail has not seen one before. -/
theorem Pump.Sound.of_step {a : PumpAction} (h : p'.Sound) (hst : p.step a = some p') :
    p.Sound ∧ a ≠ .write false := by
  cases Pump.steps_of_step hst with
  | take hph | stop hph | collect hph | lock hph | write hph | unlock hph =>
    exact ⟨⟨h.err, by rw [hph]; nofun⟩, nofun⟩
  | writeError => exact absurd rfl h.phase
  | report => cases h.err

theorem relays_swapOrReturn (s : Bridge M) : s.swapOrReturn.run.relays = false := by
  unfold Bridge.swapOrReturn
  cases s.pendingSwap <;> rfl

theorem relays_stopPumpStep {q : RunPhase M} (hrun : s.run.relays = false)
    (hq : q.relays = false) : (s.stopPumpStep q).run.relays = false := by
  unfold Bridge.stopPumpStep
  split
  · exact hrun
  · exact hq

/-- The loop comes back from a swap with a reader that has read nothing. -/
theorem read_eq_nil_of_forwardStep (hrun : s.run = .forward)
    (hreader : s.backend.reader = ⟨.waiting, [], false, []⟩)
    (hrelays : s.forwardStep.run.relays = true) : s.forwardStep.backend.reader.read = [] := by
  revert hrelays
  unfold Bridge.forwardStep
  split
  · dsimp only
    split
    · intro hrelays
      simp only [Bridge.setWriteCh, hrun] at hrelays
      cases hrelays
    · intro hrelays
      cases hrelays
  · intro hrelays
    cases hrelays
  · intro _
    simp only [Link.startReader, hreader]

/-- The loop relays in order, and has nothing to make up for when it turns to
a new backend. -/
theorem UpToDate.runs {c : Case} (hatt : Attended s) (h : UpToDate s) (hruns : Runs s c s') :
    UpToDate s' := by
  intro hrelays hsound
  -- The line is what it was wherever the loop has nothing for the client.
  have hkept (hrun : s.run.relays = true) (hpump : s'.clientPump = s.clientPump)
      (hhand : s'.run.forClient = s.run.forClient)
      (hreader : s'.backend.reader = s.backend.reader) :
      s'.backend.reader.read <:+ s'.toClient := by
    rw [Bridge.toClient, hpump, hhand, hreader]
    exact h hrun (hpump ▸ hsound)
  cases hruns with
  | client hrun | swap hrun | toBackend hrun | closeBackend hrun =>
    exact hkept (by rw [hrun]; rfl) rfl (by rw [hrun]; rfl) rfl
  | @backend m rest hrun hch =>
    have hbefore := h (by rw [hrun]; rfl) hsound
    have hline : s.toClient = s.clientPump.line ++ ([m] ++
        (rest.filterMap WsMsg.message ++ s.backend.reader.phase.held)) := by
      simp only [Bridge.toClient, Reader.queue, hrun, hch, RunPhase.forClient, List.filterMap_cons,
        WsMsg.message, List.nil_append, List.cons_append]
    rw [hline] at hbefore
    exact hbefore
  | @toClient m hrun =>
    have hbefore := h (by rw [hrun]; rfl) ⟨hsound.err, hsound.phase⟩
    have hline : s.toClient = s.clientPump.written ++
        (s.clientPump.batch ++ (s.clientPump.ch ++ [m])) ++ ([] ++ s.backend.reader.queue) := by
      simp only [Bridge.toClient, Pump.line, hrun, RunPhase.forClient, List.append_assoc,
        List.nil_append]
    rw [hline] at hbefore
    exact hbefore
  | @forward hrun =>
    have hreader : s.backend.reader = ⟨.waiting, [], false, []⟩ := by
      have hexpects := hatt.backend
      rw [hrun] at hexpects
      exact hexpects.1
    rw [read_eq_nil_of_forwardStep hrun hreader hrelays]
    exact List.nil_suffix
  | backendError => exact absurd ((relays_swapOrReturn _).symm.trans hrelays) Bool.false_ne_true
  | backendWriteErr | toBackendErr =>
    exact absurd ((relays_swapOrReturn s.takeErr).symm.trans hrelays) Bool.false_ne_true
  | returning =>
    dsimp only at hrelays
    split at hrelays <;> cases hrelays
  | @stopPump newURL hrun =>
    have hends := relays_stopPumpStep (q := .dial newURL) (by rw [hrun]; rfl) rfl
    exact absurd (hends.symm.trans hrelays) Bool.false_ne_true
  | releasing hrun =>
    have hends := relays_stopPumpStep (q := .closing) (by rw [hrun]; rfl) rfl
    exact absurd (hends.symm.trans hrelays) Bool.false_ne_true
  | @dial _ ok => cases ok <;> cases hrelays
  | clientError | clientWriteErr | toClientErr | drainReader | stopReader | closeOld | install
  | closing => cases hrelays

theorem UpToDate.step {a : Action M} (hatt : Attended s) (h : UpToDate s)
    (hst : step s a = some s') : UpToDate s' := by
  cases steps_of_step hst with
  | run hruns => exact h.runs hatt hruns
  | @clientPump a p hp =>
    intro hrelays hsound
    obtain ⟨hbefore, ha⟩ := hsound.of_step hp
    have hline := Pump.line_eq_of_step hatt.clientTidy hp ha
    rw [Bridge.toClient, hline]
    exact h hrelays hbefore
  | @reader a r hr =>
    intro hrelays hsound
    have hcancelled := (expects_of_relays hrelays hatt.backend).1.cancelled
    obtain ⟨ms, hqueue, hread⟩ := Reader.queue_eq_of_step hcancelled hr
    obtain ⟨before, hbefore⟩ := h hrelays hsound
    refine ⟨before, ?_⟩
    have hline : ({ s with backend := { s.backend with reader := r } } : Bridge M).toClient =
        s.toClient ++ ms := by
      simp only [Bridge.toClient, hqueue, List.append_assoc]
    rw [hread, hline, ← hbefore, List.append_assoc]
  | clientReader | pump | pastReader | pastPump | swapBackend | closeBackend => exact h

/-! ## At rest -/

/-- The steps that the bridge takes by itself: all but those that wait for a
peer to send something or for a swap to be asked for. A read from a connection
that was closed fails, sooner or later. -/
def Bridge.Own (s : Bridge M) : Action M → Prop
  | .clientReader (.read m) => m = none ∧ s.run = .returned
  | .reader (.read m) => m = none ∧ s.backend.closed = true
  | .pastReader i (.read m) => m = none ∧ ∀ l, s.past[i]? = some l → l.closed = true
  | .swapBackend _ => False
  | _ => True

/-- The bridge has nothing to do by itself. -/
def Bridge.AtRest (s : Bridge M) : Prop := ∀ a, s.Own a → step s a = none

/-- A pump at rest waits for a message, or has ended. -/
theorem Pump.atRest_cases (hnone : ∀ a, p.step a = none) :
    p.phase = .exited ∨ (p.phase = .idle ∧ p.ch = [] ∧ p.done = false) := by
  cases hph : p.phase with
  | idle =>
    have htake := hnone .take
    have hstop := hnone .stop
    simp only [Pump.step, hph, true_and] at htake hstop
    cases hch : p.ch with
    | cons m rest => simp [hch] at htake
    | nil =>
      cases hdone : p.done with
      | false => exact Or.inr ⟨rfl, rfl, rfl⟩
      | true => simp [hdone] at hstop
  | collecting =>
    have hcollect := hnone .collect
    have hlock := hnone .lock
    simp only [Pump.step, hph, true_and] at hcollect hlock
    cases hch : p.ch with
    | nil => simp [hch] at hlock
    | cons m rest =>
      by_cases hlt : p.batch.length < pumpCap
      · simp [hch, hlt] at hcollect
      · simp [hch, Nat.le_of_not_lt hlt] at hlock
  | writing =>
    have hwrite := hnone (.write true)
    have hunlock := hnone .unlock
    simp only [Pump.step, hph, true_and] at hwrite hunlock
    cases hbatch : p.batch with
    | nil => simp [hbatch] at hunlock
    | cons m rest => simp [hbatch] at hwrite
  | failed =>
    have hreport := hnone .report
    simp [Pump.step, hph] at hreport
  | exited => exact Or.inl rfl

/-- A pump can always go on with the batch that it writes. -/
theorem Pump.not_writing (hwrite : p.step (.write true) = none) (hunlock : p.step .unlock = none) :
    p.phase ≠ .writing := by
  intro hph
  simp only [Pump.step, hph, true_and] at hwrite hunlock
  cases hbatch : p.batch with
  | nil => simp [hbatch] at hunlock
  | cons m rest => simp [hbatch] at hwrite

/-- A reader at rest has a full channel that it is still to send to, waits for
its peer, or has ended. -/
theorem Reader.atRest_cases (hsend : r.step .send = none) (hquit : r.step .quit = none) :
    r.phase = .waiting ∨ r.phase = .reading ∨ r.phase = .exited ∨
      (readerCap ≤ r.ch.length ∧ r.cancelled = false) := by
  cases hph : r.phase with
  | waiting => exact Or.inl rfl
  | reading => exact Or.inr (Or.inl rfl)
  | exited => exact Or.inr (Or.inr (Or.inl rfl))
  | sending x =>
    simp only [Reader.step, hph] at hsend hquit
    refine Or.inr (Or.inr (Or.inr ⟨?_, ?_⟩))
    · by_contra hlt
      simp [Nat.lt_of_not_le hlt] at hsend
    · simpa using hquit

/-- At rest nobody holds the mutex of the backends' side. -/
theorem Bridge.AtRest.muFree (h : s.AtRest) : s.muFree = true := by
  have hbackend : s.backend.pump.phase ≠ .writing := by
    have hwrite := h (.pump (.write true)) trivial
    have hunlock := h (.pump .unlock) trivial
    simp only [step, PumpAction.allowed, if_true, Option.map_eq_none_iff] at hwrite hunlock
    exact Pump.not_writing hwrite hunlock
  have hpast : ∀ l ∈ s.past, l.pump.phase ≠ .writing := by
    intro l hl
    obtain ⟨i, hi⟩ := List.mem_iff_getElem?.1 hl
    have hwrite := h (.pastPump i (.write true)) trivial
    have hunlock := h (.pastPump i .unlock) trivial
    simp only [step, PumpAction.allowed, if_true, hi, Option.bind_some, Option.map_eq_none_iff]
      at hwrite hunlock
    exact Pump.not_writing hwrite hunlock
  simp only [Bridge.muFree, decide_eq_true_eq, List.all_eq_true]
  exact ⟨hbackend, hpast⟩

/-- So every pump waits for a message, or has ended. -/
theorem Bridge.AtRest.pumps (h : s.AtRest) :
    (∀ a, s.clientPump.step a = none) ∧ (∀ a, s.backend.pump.step a = none) ∧
      ∀ l ∈ s.past, ∀ a, l.pump.step a = none := by
  have hmu (a : PumpAction) : a.allowed s.muFree = true := by
    rw [h.muFree]
    cases a <;> rfl
  refine ⟨fun a => ?_, fun a => ?_, fun l hl a => ?_⟩
  · have hnone := h (.clientPump a) trivial
    rwa [step, Option.map_eq_none_iff] at hnone
  · have hnone := h (.pump a) trivial
    rwa [step, if_pos (hmu a), Option.map_eq_none_iff] at hnone
  · obtain ⟨i, hi⟩ := List.mem_iff_getElem?.1 hl
    have hnone := h (.pastPump i a) trivial
    rwa [step, if_pos (hmu a), hi, Option.bind_some, Option.map_eq_none_iff] at hnone

theorem Bridge.AtRest.reader (h : s.AtRest) :
    s.backend.reader.phase = .waiting ∨ s.backend.reader.phase = .reading ∨
      s.backend.reader.phase = .exited ∨
      (readerCap ≤ s.backend.reader.ch.length ∧ s.backend.reader.cancelled = false) := by
  have hsend := h (.reader .send) trivial
  have hquit := h (.reader .quit) trivial
  rw [step, Option.map_eq_none_iff] at hsend hquit
  exact Reader.atRest_cases hsend hquit

/-- A reader does not wait for a connection that was closed. -/
theorem Bridge.AtRest.not_reading (h : s.AtRest) (hclosed : s.backend.closed = true) :
    s.backend.reader.phase ≠ .reading := by
  intro hreading
  have hread := h (.reader (.read none)) ⟨rfl, hclosed⟩
  simp [step, Reader.step, hreading] at hread

/-- **The loop stands still only where it should**: at its `select`, with no
case ready, or when it has returned. -/
theorem Bridge.AtRest.run_cases (h : s.AtRest) (hatt : Attended s) :
    (s.run = .select ∧ ∀ c, s.selectStep c = none) ∨ s.run = .returned := by
  have hnone (c : Case) : s.runStep c = none := h (.run c) trivial
  obtain ⟨hclientPump, hpump, -⟩ := h.pumps
  cases hrun : s.run with
  | select =>
    refine Or.inl ⟨rfl, fun c => ?_⟩
    have hselect := hnone c
    simp only [Bridge.runStep, hrun] at hselect
    exact hselect
  | returned => exact Or.inr rfl
  | toBackend m =>
    -- The pump takes what is in its channel, or has reported an error.
    have hsend := hnone .send
    have herr := hnone .backendWriteErr
    simp only [Bridge.runStep, hrun, Bridge.toBackendStep, ite_eq_right_iff, reduceCtorEq,
      imp_false] at hsend herr
    have hfed : s.backend.pump.Fed := by
      have hexpects := hatt.backend
      rw [hrun] at hexpects
      exact hexpects.2
    rcases Pump.atRest_cases hpump with hexited | ⟨-, hch, -⟩
    · exact absurd (hfed.exited hexited) herr
    · rw [hch] at hsend
      exact absurd (Nat.succ_pos 15) hsend
  | toClient m =>
    have hsend := hnone .send
    have herr := hnone .clientWriteErr
    simp only [Bridge.runStep, hrun, Bridge.toClientStep, ite_eq_right_iff, reduceCtorEq,
      imp_false] at hsend herr
    have hfed : s.clientPump.Fed := by
      have hexpects := hatt.client
      rw [hrun] at hexpects
      exact hexpects.2
    rcases Pump.atRest_cases hclientPump with hexited | ⟨-, hch, -⟩
    · exact absurd (hfed.exited hexited) herr
    · rw [hch] at hsend
      exact absurd (Nat.succ_pos 15) hsend
  | drainReader newURL =>
    -- The reader of a connection that was closed comes to an error.
    have hexpects := hatt.backend
    rw [hrun] at hexpects
    obtain ⟨⟨hheard, -⟩, hclosed⟩ := hexpects
    have hch : s.backend.reader.ch = [] := by
      have hnext := hnone .next
      simp only [Bridge.runStep, hrun] at hnext
      cases hch : s.backend.reader.ch with
      | nil => rfl
      | cons x rest =>
        rw [hch] at hnext
        cases hnext
    rcases h.reader with hwaiting | hreading | hexited | ⟨hfull, -⟩
    · exact absurd hwaiting hheard.started
    · exact absurd hreading (h.not_reading hclosed)
    · have herror := hheard.exited hexited
      rw [hch] at herror
      cases herror
    · rw [hch] at hfull
      exact absurd hfull (Nat.not_succ_le_zero 7)
  | install =>
    have hnext := hnone .next
    simp only [Bridge.runStep, hrun, h.muFree, if_true, reduceCtorEq] at hnext
  | dial newURL =>
    have hdial := hnone (.dial true)
    simp only [Bridge.runStep, hrun, reduceCtorEq] at hdial
  | closeBackend | stopReader | stopPump | closeOld | forward | returning | releasing | closing =>
    have hnext := hnone .next
    simp only [Bridge.runStep, hrun, reduceCtorEq] at hnext

/-! ## Delivery -/

/-- A reader that has ended, or that was never started. -/
def Reader.Ended (r : Reader M) : Prop := r.phase = .exited ∨ r.phase = .waiting

/-- A connection that is closed and has no goroutines any more. -/
structure Link.Over (l : Link M) : Prop where
  closed : l.closed = true
  pump : l.pump.phase = .exited
  reader : l.reader.Ended

/-- A pump that was told to stop has ended. -/
theorem Pump.exited_of_atRest (hnone : ∀ a, p.step a = none) (hdone : p.done = true) :
    p.phase = .exited := by
  rcases Pump.atRest_cases hnone with hexited | ⟨-, -, hgoes⟩
  · exact hexited
  · rw [hdone] at hgoes
    cases hgoes

/-- A reader whose context is done and whose connection is closed has ended. -/
theorem Reader.ended_of_atRest (hread : r.step (.read none) = none) (hsend : r.step .send = none)
    (hquit : r.step .quit = none) (hcancelled : r.cancelled = true) : r.Ended := by
  rcases Reader.atRest_cases hsend hquit with hwaiting | hreading | hexited | ⟨-, hgoes⟩
  · exact Or.inr hwaiting
  · simp [Reader.step, hreading] at hread
  · exact Or.inl hexited
  · rw [hcancelled] at hgoes
    cases hgoes

/-- The connections of before are over. -/
theorem Bridge.AtRest.past (h : s.AtRest) (hatt : Attended s) : ∀ l ∈ s.past, l.Over := by
  intro l hl
  have hleft := hatt.past l hl
  obtain ⟨i, hi⟩ := List.mem_iff_getElem?.1 hl
  have hreader (a : ReaderAction M) (ha : s.Own (.pastReader i a)) : l.reader.step a = none := by
    have hnone := h (.pastReader i a) ha
    rwa [step, hi, Option.bind_some, Option.map_eq_none_iff] at hnone
  have hclosed : s.Own (.pastReader i (.read none)) := by
    refine ⟨rfl, fun k hk => ?_⟩
    obtain rfl := Option.some.inj (hi.symm.trans hk)
    exact hleft.closed
  refine ⟨hleft.closed, Pump.exited_of_atRest (h.pumps.2.2 l hl) hleft.done, ?_⟩
  exact Reader.ended_of_atRest (hreader _ hclosed) (hreader .send trivial) (hreader .quit trivial)
    hleft.cancelled

/-- The present one is, once the loop has returned. -/
theorem Bridge.AtRest.backend (h : s.AtRest) (hatt : Attended s) (hrun : s.run = .returned) :
    s.backend.Over := by
  have hexpects := hatt.backend
  rw [hrun] at hexpects
  obtain ⟨htold, hclosed⟩ := hexpects
  have hreader (a : ReaderAction M) (ha : s.Own (.reader a)) : s.backend.reader.step a = none := by
    have hnone := h (.reader a) ha
    rwa [step, Option.map_eq_none_iff] at hnone
  refine ⟨hclosed, Pump.exited_of_atRest h.pumps.2.1 htold.done, ?_⟩
  exact Reader.ended_of_atRest (hreader _ ⟨rfl, hclosed⟩) (hreader .send trivial)
    (hreader .quit trivial) htold.cancelled

theorem Bridge.AtRest.client (h : s.AtRest) (hatt : Attended s) (hrun : s.run = .returned) :
    s.clientPump.phase = .exited ∧ s.clientReader.Ended := by
  have hexpects := hatt.client
  rw [hrun] at hexpects
  obtain ⟨hcancelled, hdone⟩ := hexpects
  have hreader (a : ReaderAction M) (ha : s.Own (.clientReader a)) :
      s.clientReader.step a = none := by
    have hnone := h (.clientReader a) ha
    rwa [step, Option.map_eq_none_iff] at hnone
  refine ⟨Pump.exited_of_atRest h.pumps.1 hdone, ?_⟩
  exact Reader.ended_of_atRest (hreader _ ⟨rfl, hrun⟩) (hreader .send trivial)
    (hreader .quit trivial) hcancelled

/-- A pump that the loop has messages for has written its line. -/
theorem Pump.Fed.line_of_atRest (hfed : p.Fed) (htidy : p.Tidy) (hnone : ∀ a, p.step a = none)
    (herr : p.err = false) : p.line = p.written ∧ p.Sound := by
  rcases Pump.atRest_cases hnone with hexited | ⟨hidle, hch, -⟩
  · rw [hfed.exited hexited] at herr
    cases herr
  · have hbatch : p.batch = [] := htidy (by rw [hidle]; nofun) (by rw [hidle]; nofun)
    refine ⟨?_, herr, by rw [hidle]; nofun⟩
    simp only [line, hbatch, hch, List.append_nil]

/-- A reader that the loop listens to, with nothing in its channel, waits for
its peer. -/
theorem Reader.Heard.reading_of_atRest (hheard : r.Heard) (hsend : r.step .send = none)
    (hquit : r.step .quit = none) (hch : r.ch = []) : r.phase = .reading ∧ r.queue = [] := by
  have hreading : r.phase = .reading := by
    rcases Reader.atRest_cases hsend hquit with hwaiting | hreading | hexited | ⟨hfull, -⟩
    · exact absurd hwaiting hheard.started
    · exact hreading
    · have herror := hheard.exited hexited
      rw [hch] at herror
      cases herror
    · rw [hch] at hfull
      exact absurd hfull (Nat.not_succ_le_zero 7)
  refine ⟨hreading, ?_⟩
  simp only [Reader.queue, hch, hreading, ReaderPhase.held, List.filterMap_nil, List.append_nil]

/-- What no case of the `select` being ready means. -/
theorem Bridge.quiet_of_selectStep (h : ∀ c, s.selectStep c = none) :
    s.clientReader.ch = [] ∧ s.backend.reader.ch = [] ∧ s.backend.pump.err = false ∧
      s.clientPump.err = false ∧ s.swapCh = none := by
  have hclient := h .client
  have hbackend := h .backend
  have hwrite := h .backendWriteErr
  have hclientWrite := h .clientWriteErr
  have hswap := h .swap
  simp only [Bridge.selectStep] at hclient hbackend hwrite hclientWrite
  rw [Bridge.selectStep, Option.map_eq_none_iff] at hswap
  refine ⟨?_, ?_, by simpa using hwrite, by simpa using hclientWrite, hswap⟩
  · cases hch : s.clientReader.ch with
    | nil => rfl
    | cons x rest =>
      rw [hch] at hclient
      cases x <;> cases hclient
  · cases hch : s.backend.reader.ch with
    | nil => rfl
    | cons x rest =>
      rw [hch] at hbackend
      cases x <;> cases hbackend

/-- **What the bridge has read it delivers.** However the goroutines take
turns, whichever reads, writes and dials fail and however often the backend
is swapped: a bridge that has nothing left to do by itself either waits for
its peers, with every message of the client written to a backend or lost in a
swap or a failed write, and every message of the present backend written to
the client; or it is over, with every connection closed and every goroutine
ended. -/
theorem delivered_of_atRest {schedule : List (Action M)}
    (hrun : Run.exec step Bridge.start schedule = some s) (hrest : s.AtRest) :
    (s.run = .select ∧ s.clientReader.phase = .reading ∧ s.backend.reader.phase = .reading ∧
      s.backend.closed = false ∧ (∀ l ∈ s.past, l.Over) ∧
      (s.writtenToBackends ++ s.lost).Perm s.clientReader.read ∧
      s.backend.reader.read <:+ s.clientPump.written) ∨
    (s.run = .returned ∧ s.clientPump.phase = .exited ∧ s.clientReader.Ended ∧
      ∀ l ∈ s.past ++ [s.backend], l.Over) := by
  obtain ⟨hatt, hconserved, hupToDate⟩ : Attended s ∧ Conserved s ∧ UpToDate s := by
    refine Run.exec_invariant_of_forall (I := fun s => Attended s ∧ Conserved s ∧ UpToDate s)
      (fun t a t' h hst => ?_) ⟨attended_start, conserved_start, upToDate_start⟩ hrun
    exact ⟨h.1.step hst, h.2.1.step h.1 hst, h.2.2.step h.1 hst⟩
  have hpast := hrest.past hatt
  rcases hrest.run_cases hatt with ⟨hselect, hquiet⟩ | hreturned
  · obtain ⟨hclientCh, hbackendCh, herr, hclientErr, -⟩ := Bridge.quiet_of_selectStep hquiet
    obtain ⟨hclient, hclientFed⟩ : s.clientReader.Heard ∧ s.clientPump.Fed := by
      have hexpects := hatt.client
      rwa [hselect] at hexpects
    obtain ⟨hbackend, hbackendFed⟩ : s.backend.reader.Heard ∧ s.backend.pump.Fed := by
      have hexpects := hatt.backend
      rwa [hselect] at hexpects
    obtain ⟨hreading, hqueue⟩ : s.clientReader.phase = .reading ∧ s.clientReader.queue = [] := by
      have hsend := hrest (.clientReader .send) trivial
      have hquit := hrest (.clientReader .quit) trivial
      rw [step, Option.map_eq_none_iff] at hsend hquit
      exact hclient.reading_of_atRest hsend hquit hclientCh
    obtain ⟨hbackendReading, hbackendQueue⟩ :
        s.backend.reader.phase = .reading ∧ s.backend.reader.queue = [] := by
      have hsend := hrest (.reader .send) trivial
      have hquit := hrest (.reader .quit) trivial
      rw [step, Option.map_eq_none_iff] at hsend hquit
      exact hbackend.reading_of_atRest hsend hquit hbackendCh
    obtain ⟨hclientLine, hsound⟩ :=
      hclientFed.line_of_atRest hatt.clientTidy hrest.pumps.1 hclientErr
    obtain ⟨hbackendLine, -⟩ :=
      hbackendFed.line_of_atRest hatt.backendTidy hrest.pumps.2.1 herr
    have hpastLine : s.past.flatMap (·.pump.line) = s.past.flatMap (·.pump.written) := by
      refine List.flatMap_congr fun l hl => ?_
      have hleft := hatt.past l hl
      have hbatch : l.pump.batch = [] := by
        refine hleft.tidy ?_ ?_ <;> rw [(hpast l hl).pump] <;> intro hph <;> cases hph
      simp only [Pump.line, hbatch, hleft.ch, List.append_nil]
    refine Or.inl ⟨hselect, hreading, hbackendReading, ?_, hpast, ?_, ?_⟩
    · exact Bool.eq_false_iff.2 fun hclosed => hrest.not_reading hclosed hbackendReading
    · have hline : s.toBackends = s.writtenToBackends := by
        simp only [Bridge.toBackends, Bridge.writtenToBackends, hpastLine, hbackendLine, hselect,
          hqueue, RunPhase.forBackend, List.append_nil]
      have hread := hconserved (by rw [hselect]; rfl)
      rw [hline, Multiset.coe_add, Multiset.coe_eq_coe] at hread
      exact hread
    · have hline : s.toClient = s.clientPump.written := by
        simp only [Bridge.toClient, hclientLine, hbackendQueue, hselect, RunPhase.forClient,
          List.append_nil]
      rw [← hline]
      exact hupToDate (by rw [hselect]; rfl) hsound
  · refine Or.inr ⟨hreturned, (hrest.client hatt hreturned).1, (hrest.client hatt hreturned).2,
      fun l hl => ?_⟩
    rcases List.mem_append.1 hl with hl | hl
    · exact hpast l hl
    · obtain rfl := List.mem_singleton.1 hl
      exact hrest.backend hatt hreturned

/-- A message is lost in a swap, and the next is written to the new backend. -/
def lostThenWritten : List (Action String) :=
  messageUnderWay "one" ++ swapTo "b2" 1 ++ [.pastPump 0 .stop] ++ messageUnderWay "two" ++
    messageWritten

/-- The bridge after it. -/
def afterSwap : Bridge String where
  clientReader := ⟨.reading, [], false, ["one", "two"]⟩
  clientPump := .start
  past := [⟨⟨.exited, [], [], true, false, []⟩, ⟨.exited, [], true, []⟩, true⟩]
  backend := ⟨⟨.idle, [], [], false, false, ["two"]⟩, .start, false⟩
  run := .select
  swapCh := none
  swapping := 0
  lost := ["one"]

theorem afterSwap_atRest : afterSwap.AtRest := by
  intro a ha
  rcases a with c | a | a | a | a | ⟨i, a⟩ | ⟨i, a⟩ | newURL | -
  case run => cases c <;> rfl
  case clientReader =>
    rcases a with m | - | -
    · cases ha.2
    all_goals rfl
  case reader =>
    rcases a with m | - | -
    · cases ha.2
    all_goals rfl
  case clientPump => rcases a with - | - | - | - | (- | -) | - | - <;> rfl
  case pump => rcases a with - | - | - | - | (- | -) | - | - <;> rfl
  case pastReader =>
    rcases i with - | i
    · rcases a with m | - | - <;> rfl
    · rfl
  case pastPump =>
    rcases i with - | i
    · rcases a with - | - | - | - | (- | -) | - | - <;> rfl
    · rcases a with - | - | - | - | (- | -) | - | - <;> rfl
  case swapBackend => exact ha.elim
  case closeBackend => rfl

theorem delivered_of_atRest_lostThenWritten :
    Run.exec step Bridge.start lostThenWritten = some afterSwap ∧ afterSwap.lost = ["one"] ∧
      (afterSwap.writtenToBackends ++ afterSwap.lost).Perm ["one", "two"] := by
  have hrun : Run.exec step Bridge.start lostThenWritten = some afterSwap := rfl
  refine ⟨hrun, rfl, ?_⟩
  rcases delivered_of_atRest hrun afterSwap_atRest with h | h
  · exact h.2.2.2.2.2.1
  · cases h.1

end WebSocket

end StickyProxy
