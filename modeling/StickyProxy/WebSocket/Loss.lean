import StickyProxy.WebSocket.Effects
import StickyProxy.Common.Run
/-!
# What a swap loses

A message of the client is released unwritten in four places: in the loop
of `stopBackendWritePump`, in the batch of a pump whose write fails, in the
hand of the loop of `run` when it hears of that failure, and when the queue
of the new pump is full, with which the bridge ends. The third comes only
after the second. So while the bridge keeps running nothing is lost exactly
when no write to a backend fails, and every pump has emptied its channel by
the time a swap stops it. Neither is in the hands of the bridge: the pump
is not waited for.
-/

namespace StickyProxy

namespace WebSocket

variable {M : Type*} {s s' : Bridge M} {p p' : Pump M}

/-! ## The effect of a step -/

/-- The pump has seen no write fail. -/
structure Pump.Sound (p : Pump M) : Prop where
  err : p.err = false
  phase : p.phase ≠ .failed

theorem Pump.sound_start : (Pump.start : Pump M).Sound where
  err := rfl
  phase := by simp [Pump.start]

/-- Only a failing write is seen to fail. -/
theorem Pump.Sound.step {a : PumpAction} (h : p.Sound) (hst : p.step a = some p')
    (ha : a ≠ .write false) : p'.Sound := by
  cases Pump.steps_of_step hst with
  | take | stop | lock | unlock => exact ⟨h.err, nofun⟩
  | collect | write => exact ⟨h.err, h.phase⟩
  | writeError => exact absurd rfl ha
  | report hph => exact absurd hph h.phase

/-- A failing write has a batch to fail on. -/
theorem Pump.dropped_ne_nil (hst : p.step (.write false) = some p') :
    p.dropped (.write false) ≠ [] := by
  cases Pump.steps_of_step hst with
  | writeError _ hbatch =>
    simp only [Pump.dropped, hbatch]
    exact List.cons_ne_nil _ _

/-- What the loop releases in a step that it does not return after. -/
def Bridge.releases (s : Bridge M) (c : Case) : List M :=
  match s.run, c with
  | .toBackend m, .backendWriteErr => if s.pendingSwap.isSome then [m] else []
  | .stopPump _, .next => s.backend.pump.ch.take 1
  | _, _ => []

/-- What a step of the loop comes to: it releases `ms`, does not come back
from the return, and sees no write fail. -/
structure Leaves (ms : List M) (s s' : Bridge M) : Prop where
  lost : s'.lost = s.lost ++ ms
  running : s'.run.running → s.run.running
  sound : s.backend.pump.Sound → s'.backend.pump.Sound

/-- A step that releases nothing and leaves the pump's errors as they are. -/
theorem leaves_nil (hlost : s'.lost = s.lost) (hrunning : s'.run.running → s.run.running)
    (herr : s'.backend.pump.err = s.backend.pump.err)
    (hphase : s'.backend.pump.phase = s.backend.pump.phase) : Leaves [] s s' where
  lost := by rw [hlost, List.append_nil]
  running := hrunning
  sound h := ⟨herr.trans h.err, hphase ▸ h.phase⟩

theorem leaves_swapOrReturn (h : s.run.running) : Leaves [] s s.swapOrReturn :=
  leaves_nil rfl (fun _ => h) rfl rfl

/-- The bridge goes on if there is a swap to go on with. -/
theorem running_swapOrReturn (s : Bridge M) :
    s.swapOrReturn.run.running = s.pendingSwap.isSome := by
  unfold Bridge.swapOrReturn
  cases s.pendingSwap <;> rfl

theorem leaves_takeErr (s : Bridge M) : Leaves [] s s.takeErr where
  lost := (List.append_nil _).symm
  running := id
  sound h := ⟨rfl, h.phase⟩

theorem Leaves.trans {ms ns : List M} {t : Bridge M} (h₁ : Leaves ms s t) (h₂ : Leaves ns t s') :
    Leaves (ms ++ ns) s s' where
  lost := by rw [h₂.lost, h₁.lost, List.append_assoc]
  running := h₁.running ∘ h₂.running
  sound := h₂.sound ∘ h₁.sound

theorem leaves_release (s : Bridge M) (ms : List M) :
    Leaves (if s.run.running then ms else []) s (s.release ms) where
  lost := by
    unfold Bridge.release
    split
    · rfl
    · exact (List.append_nil _).symm
  running := id
  sound := id

/-- The message in hand is lost when a swap is pending. -/
theorem leaves_toBackendErr {m : M} (hrun : s.run = .toBackend m) :
    Leaves (if s.pendingSwap.isSome then [m] else []) s (s.takeErr.swapOrReturn.release [m]) := by
  have hrunning : s.run.running := hrun ▸ rfl
  have h := ((leaves_takeErr s).trans (leaves_swapOrReturn hrunning)).trans
    (leaves_release s.takeErr.swapOrReturn [m])
  rwa [running_swapOrReturn] at h

/-- What the loop takes from the channel of the pump it stops is lost,
unless the bridge is ending. -/
theorem leaves_stopPumpStep (s : Bridge M) {q : RunPhase M} (hq : q.running → s.run.running) :
    Leaves (if s.run.running then s.backend.pump.ch.take 1 else []) s (s.stopPumpStep q) := by
  unfold Bridge.stopPumpStep
  rcases hch : s.backend.pump.ch with - | ⟨m, rest⟩
  · rw [List.take_nil, ite_self]
    exact leaves_nil rfl hq rfl rfl
  · have h : Leaves [] s (s.setWriteCh rest) := leaves_nil rfl id rfl rfl
    exact h.trans (leaves_release (s.setWriteCh rest) [m])

theorem leaves_forwardStep (hrun : s.run.running) : Leaves [] s s.forwardStep := by
  unfold Bridge.forwardStep
  split
  · dsimp only
    split <;> exact leaves_nil rfl (fun _ => hrun) rfl rfl
  all_goals exact leaves_nil rfl (fun _ => hrun) rfl rfl

/-- **What a step of the loop releases.** -/
theorem leaves_of_runs {c : Case} (h : Runs s c s') : Leaves (s.releases c) s s' := by
  cases h with
  | backendWriteErr hrun =>
    simp only [Bridge.releases, hrun]
    exact (leaves_takeErr s).trans (leaves_swapOrReturn (hrun ▸ rfl))
  | toBackendErr hrun =>
    simp only [Bridge.releases, hrun]
    exact leaves_toBackendErr hrun
  | @stopPump newURL hrun =>
    simp only [Bridge.releases, hrun]
    have h := leaves_stopPumpStep s (q := .dial newURL) fun _ => hrun ▸ rfl
    rwa [hrun] at h
  | install hrun =>
    simp only [Bridge.releases, hrun]
    exact ⟨(List.append_nil _).symm, fun _ => hrun ▸ rfl, fun _ => Pump.sound_start⟩
  | forward hrun =>
    simp only [Bridge.releases, hrun]
    exact leaves_forwardStep (hrun ▸ rfl)
  | returning hrun =>
    simp only [Bridge.releases, hrun]
    split <;> exact leaves_nil rfl (fun h => nomatch h) rfl rfl
  | releasing hrun =>
    simp only [Bridge.releases, hrun]
    have h := leaves_stopPumpStep s (q := .closing) fun h => nomatch h
    rwa [hrun] at h
  | closing hrun =>
    simp only [Bridge.releases, hrun]
    exact leaves_nil rfl (fun h => nomatch h) rfl rfl
  -- The other steps release nothing, and are not yet a return.
  | client hrun | clientError hrun | backend hrun | backendError hrun | clientWriteErr hrun
  | swap hrun | toBackend hrun | toClient hrun | toClientErr hrun | closeBackend hrun
  | drainReader hrun | stopReader hrun | dial hrun | closeOld hrun =>
    simp only [Bridge.releases, hrun]
    exact leaves_nil rfl (fun _ => hrun ▸ rfl) rfl rfl

/-- The client's messages a step releases unwritten while the bridge keeps
running. -/
def Bridge.loses (s : Bridge M) : Action M → List M
  | .run c => s.releases c
  | .pump a => if s.run.running then s.backend.pump.dropped a else []
  | .pastPump i a =>
    if s.run.running then (s.past[i]?).elim [] fun l => l.pump.dropped a else []
  | _ => []

/-- They are recorded, and nothing else is. -/
theorem lost_step {a : Action M} (hst : step s a = some s') : s'.lost = s.lost ++ s.loses a := by
  cases steps_of_step hst with
  | run hruns => exact (leaves_of_runs hruns).lost
  | @pump _ p => exact (leaves_release { s with backend := { s.backend with pump := p } } _).lost
  | @pastPump i l _ p _ hl =>
    simp only [Bridge.loses, hl, Option.elim_some]
    exact (leaves_release { s with past := s.past.set i { l with pump := p } } _).lost
  | clientReader | clientPump | reader | pastReader | swapBackend | closeBackend =>
    exact (List.append_nil _).symm

/-! ## Runs -/

/-- The loop is stopping the pump of the connection it swaps. -/
def RunPhase.stopping : RunPhase M → Bool
  | .stopPump _ => true
  | _ => false

/-- No write to a backend fails while the bridge keeps running, and a swap
finds the channel of the pump it stops empty. -/
def Careful (s : Bridge M) : Action M → Prop
  | .pump a | .pastPump _ a => s.run.running → a ≠ .write false
  | .run c => s.run.stopping → c = .next → s.backend.pump.ch.isEmpty
  | _ => True

instance decidableCareful (s : Bridge M) : ∀ a : Action M, Decidable (Careful s a)
  | .pump a | .pastPump _ a => inferInstanceAs (Decidable (s.run.running → a ≠ .write false))
  | .run c => inferInstanceAs (Decidable (s.run.stopping → c = .next → s.backend.pump.ch.isEmpty))
  | .clientReader _ | .clientPump _ | .reader _ | .pastReader _ _ | .swapBackend _
  | .closeBackend => isTrue trivial

/-- Nothing is lost, and no write to the backend was seen to fail. -/
structure Intact (s : Bridge M) : Prop where
  lost : s.lost = []
  sound : s.run.running → s.backend.pump.Sound

theorem intact_start : Intact (Bridge.start : Bridge M) := ⟨rfl, fun _ => Pump.sound_start⟩

/-- The loop loses what is in the channel of the pump it stops. What it has
in hand it loses only on hearing of a failed write. -/
theorem releases_eq_nil_iff {c : Case} (h : Intact s) (hruns : Runs s c s') :
    s.releases c = [] ↔ Careful s (.run c) := by
  cases hruns with
  | toBackendErr hrun herr =>
    have hsound : s.backend.pump.err = false := (h.sound (hrun ▸ rfl)).err
    rw [hsound] at herr
    cases herr
  | stopPump hrun =>
    simp only [Careful, Bridge.releases, hrun, RunPhase.stopping]
    cases s.backend.pump.ch <;> simp
  | client hrun | clientError hrun | backend hrun | backendError hrun | backendWriteErr hrun
  | clientWriteErr hrun | swap hrun | toBackend hrun | toClient hrun | toClientErr hrun
  | closeBackend hrun | drainReader hrun | stopReader hrun | dial hrun | closeOld hrun
  | install hrun | forward hrun | returning hrun | releasing hrun | closing hrun =>
    simp [Careful, Bridge.releases, hrun, RunPhase.stopping]

/-- A pump loses what is left of its batch when a write fails. -/
theorem dropped_eq_nil_iff {a : PumpAction} (hst : p.step a = some p') :
    p.dropped a = [] ↔ a ≠ .write false := by
  rcases a with - | - | - | - | (- | -) | - | -
  case write.false => simp [Pump.dropped_ne_nil hst]
  all_goals simp [Pump.dropped]

/-- **Which steps lose nothing.** -/
theorem loses_eq_nil_iff {a : Action M} (h : Intact s) (hst : step s a = some s') :
    s.loses a = [] ↔ Careful s a := by
  cases steps_of_step hst with
  | run hruns => exact releases_eq_nil_iff h hruns
  | pump _ hp => rw [Bridge.loses, Careful, ← dropped_eq_nil_iff hp, ite_eq_right_iff]
  | pastPump _ hl hp =>
    rw [Bridge.loses, Careful, ← dropped_eq_nil_iff hp, ite_eq_right_iff, hl, Option.elim_some]
  | clientReader | clientPump | reader | pastReader | swapBackend | closeBackend =>
    exact iff_of_true rfl trivial

theorem Intact.step {a : Action M} (h : Intact s) (ha : Careful s a)
    (hst : step s a = some s') : Intact s' := by
  have hlost : s'.lost = [] := by
    rw [lost_step hst, h.lost, List.nil_append, (loses_eq_nil_iff h hst).2 ha]
  refine ⟨hlost, ?_⟩
  cases steps_of_step hst with
  | run hruns =>
    have hleaves := leaves_of_runs hruns
    exact fun hrunning => hleaves.sound (h.sound (hleaves.running hrunning))
  | pump _ hp => exact fun hrunning => (h.sound hrunning).step hp (ha hrunning)
  | clientReader | clientPump | reader | pastReader | pastPump | swapBackend | closeBackend =>
    exact h.sound

/-- **What a bridge loses.** Whatever the client and the backends send,
however often the backend is swapped, and whichever writes and dials fail:
a client message that was read is released without having been written
while the bridge keeps running exactly if a write to a backend fails
before the bridge returns, or a swap finds messages in the channel of the
pump it stops. -/
theorem lost_eq_nil_iff_careful {schedule : List (Action M)}
    (hrun : Run.exec step Bridge.start schedule = some s) :
    s.lost = [] ↔ Run.Meets step Careful Bridge.start schedule := by
  constructor
  · intro hlost
    by_contra hmeets
    refine Run.exec_of_not_meets (I := Intact) (J := fun s => s.lost ≠ [])
      (fun _ _ _ h ha hst => h.step ha hst) ?_ ?_ intact_start hmeets hrun hlost
    · intro t a t' h ha hst
      rw [lost_step hst]
      exact List.append_ne_nil_of_right_ne_nil _ fun h' => ha ((loses_eq_nil_iff h hst).1 h')
    · intro t a t' h hst
      rw [lost_step hst]
      exact List.append_ne_nil_of_left_ne_nil h _
  · intro hmeets
    exact (Run.exec_invariant (fun _ _ _ h ha hst => Intact.step h ha hst) intact_start hmeets
      hrun).lost

/-! ## A swap with a message under way -/

/-- Every dial succeeds, the client stays connected, and a write to a
backend succeeds until its connection is closed. -/
def Smooth (s : Bridge M) : Action M → Prop
  | .run c => c ≠ .dial false
  | .clientReader (.read none) => False
  | .clientPump a => a ≠ .write false
  | .pump a => s.backend.closed = false → a ≠ .write false
  | .pastPump i a => (s.past[i]?).all (·.closed) = false → a ≠ .write false
  | _ => True

instance decidableSmooth (s : Bridge M) : ∀ a : Action M, Decidable (Smooth s a)
  | .run c => inferInstanceAs (Decidable (c ≠ .dial false))
  | .clientReader (.read none) => isFalse id
  | .clientPump a => inferInstanceAs (Decidable (a ≠ .write false))
  | .pump a => inferInstanceAs (Decidable (s.backend.closed = false → a ≠ .write false))
  | .pastPump i a =>
    inferInstanceAs (Decidable ((s.past[i]?).all (·.closed) = false → a ≠ .write false))
  | .clientReader (.read (some _)) | .clientReader .send | .clientReader .quit | .reader _
  | .pastReader _ _ | .swapBackend _ | .closeBackend => isTrue trivial

/-- The client's message comes to the channel of the backend's pump. -/
def messageUnderWay (m : M) : List (Action M) :=
  [.clientReader (.read (some m)), .clientReader .send, .run .client, .run .send]

/-- The pump writes it. -/
def messageWritten : List (Action M) :=
  [.pump .take, .pump .lock, .pump (.write true), .pump .unlock]

/-- A swap from the call to the new reader: `n` is what the loop finds in
the channel of the pump it stops. -/
def swapTo (newURL : Backend) (n : ℕ) : List (Action M) :=
  [.swapBackend newURL, .run .swap, .run .next, .reader (.read none), .reader .send, .run .next,
    .closeBackend, .run .next] ++ List.replicate (n + 1) (.run .next) ++
    [.run (.dial true), .run .next, .run .next, .run .next]

/-- With the message written before the swap, nothing is lost. -/
theorem lost_eq_nil_written :
    ∃ s : Bridge String,
      Run.exec step Bridge.start (messageUnderWay "hello" ++ messageWritten ++ swapTo "b2" 0) =
        some s ∧ s.lost = [] := by
  obtain ⟨s, hrun⟩ : ∃ s : Bridge String, Run.exec step Bridge.start
      (messageUnderWay "hello" ++ messageWritten ++ swapTo "b2" 0) = some s :=
    Option.isSome_iff_exists.1 (by decide +kernel)
  exact ⟨s, hrun, (lost_eq_nil_iff_careful hrun).2 (by decide +kernel)⟩

/-- **A message in the channel is lost.** The swap releases it, and the
bridge goes on with the new backend: the message was written to neither. -/
theorem underWay_is_lost :
    Run.Meets step Smooth (Bridge.start : Bridge String)
        (messageUnderWay "hello" ++ swapTo "b2" 1) ∧
      (Run.exec step Bridge.start (messageUnderWay "hello" ++ swapTo "b2" 1)).map
        (fun s => (s.run.running, s.lost,
          s.past.flatMap (·.pump.written) ++ s.backend.pump.written)) =
          some (true, ["hello"], []) := by
  decide +kernel

end WebSocket

end StickyProxy
