import StickyProxy.WebSocket.Effects
import StickyProxy.Common.Pool
/-!
# Nobody waits for a goroutine that has ended

What the loop of `run` can rely on, by where it is. While it listens to a
reader, that reader goes on or has left its error in the channel; while it
has messages for a pump, that pump goes on or has left its error; a
connection that it has turned away from is closed, its pump has been told to
stop with nothing in its channel, and its reader's context is done. Every
step keeps this, so that neither side of a channel is ever left alone with
it.
-/

namespace StickyProxy

namespace WebSocket

variable {M : Type*} {s s' : Bridge M} {p p' : Pump M} {r r' : Reader M} {l : Link M}

/-! ## Readers and pumps -/

/-- A reader that the loop listens to: it ends by an error that the loop has
yet to see. -/
structure Reader.Heard (r : Reader M) : Prop where
  started : r.phase ≠ .waiting
  cancelled : r.cancelled = false
  exited : r.phase = .exited → .error ∈ r.ch

/-- A pump that the loop has messages for: it ends by an error that the loop
has yet to see. -/
structure Pump.Fed (p : Pump M) : Prop where
  done : p.done = false
  exited : p.phase = .exited → p.err = true

/-- Between batches there is nothing in the batch. -/
def Pump.Tidy (p : Pump M) : Prop :=
  p.phase ≠ .collecting → p.phase ≠ .writing → p.batch = []

theorem Reader.heard_start : (Reader.start : Reader M).Heard := ⟨nofun, rfl, nofun⟩

theorem Pump.fed_start : (Pump.start : Pump M).Fed := ⟨rfl, nofun⟩

theorem Pump.tidy_start : (Pump.start : Pump M).Tidy := fun _ _ => rfl

theorem Reader.Heard.step {a : ReaderAction M} (h : r.Heard) (hst : r.step a = some r') :
    r'.Heard := by
  cases Reader.steps_of_step hst with
  | read | readError => exact ⟨nofun, h.cancelled, nofun⟩
  | @send x =>
    cases x with
    | data m => exact ⟨nofun, h.cancelled, nofun⟩
    | error =>
      refine ⟨nofun, h.cancelled, fun _ => ?_⟩
      exact List.mem_append_right _ List.mem_cons_self
  | quit _ hcancelled =>
    rw [h.cancelled] at hcancelled
    cases hcancelled

theorem Pump.Fed.step {a : PumpAction} (h : p.Fed) (hst : p.step a = some p') : p'.Fed := by
  cases Pump.steps_of_step hst with
  | take | lock | unlock | writeError => exact ⟨h.done, nofun⟩
  | collect | write => exact ⟨h.done, h.exited⟩
  | stop _ hdone =>
    rw [h.done] at hdone
    cases hdone
  | report => exact ⟨h.done, fun _ => rfl⟩

theorem Pump.Tidy.step {a : PumpAction} (h : p.Tidy) (hst : p.step a = some p') : p'.Tidy := by
  cases Pump.steps_of_step hst with
  | take => exact fun hcollecting _ => absurd rfl hcollecting
  | collect hph => exact fun hcollecting _ => absurd hph hcollecting
  | lock => exact fun _ hwriting => absurd rfl hwriting
  | write hph => exact fun _ hwriting => absurd hph hwriting
  | writeError => exact fun _ _ => rfl
  | unlock _ hbatch => exact fun _ _ => hbatch
  | stop hph | report hph =>
    have hbatch : p.batch = [] := h (by rw [hph]; nofun) (by rw [hph]; nofun)
    exact fun _ _ => hbatch

/-- No step of a reader takes its context back. -/
theorem Reader.cancelled_step {a : ReaderAction M} (hst : r.step a = some r') :
    r'.cancelled = r.cancelled := by
  cases Reader.steps_of_step hst <;> rfl

theorem Pump.done_step {a : PumpAction} (hst : p.step a = some p') : p'.done = p.done := by
  cases Pump.steps_of_step hst <;> rfl

/-- A pump does not put anything into its channel. -/
theorem Pump.ch_step {a : PumpAction} (hst : p.step a = some p') (hch : p.ch = []) :
    p'.ch = [] := by
  cases Pump.steps_of_step hst with
  | take _ hcons | collect _ hcons =>
    rw [hch] at hcons
    cases hcons
  | stop | lock | write | writeError | unlock | report => exact hch

/-! ## Where the loop is -/

/-- The pump has been told to stop, and the reader's context is done. -/
structure Link.Told (l : Link M) : Prop where
  done : l.pump.done = true
  cancelled : l.reader.cancelled = true

/-- A connection that the loop has turned away from. -/
structure Link.Left (l : Link M) : Prop extends l.Told where
  ch : l.pump.ch = []
  closed : l.closed = true
  tidy : l.pump.Tidy

/-- What the loop can rely on of its backend connection. -/
def RunPhase.Expects (q : RunPhase M) (l : Link M) : Prop :=
  match q with
  | .select | .toBackend _ | .toClient _ | .closeBackend _ => l.reader.Heard ∧ l.pump.Fed
  | .drainReader _ => (l.reader.Heard ∧ l.pump.Fed) ∧ l.closed = true
  | .stopReader _ | .returning => True
  | .stopPump _ => l.Told
  | .dial _ | .closeOld => l.Told ∧ l.pump.ch = []
  | .install => l.Told ∧ l.pump.ch = [] ∧ l.closed = true
  | .forward => l.reader = ⟨.waiting, [], false, []⟩ ∧ l.pump.Fed
  | .releasing | .closing => l.pump.done = true
  | .returned => l.Told ∧ l.closed = true

/-- What it can rely on of the client's connection. -/
def RunPhase.ExpectsClient (q : RunPhase M) (r : Reader M) (p : Pump M) : Prop :=
  match q with
  | .returning => True
  | .releasing | .closing | .returned => r.cancelled = true ∧ p.done = true
  | _ => r.Heard ∧ p.Fed

theorem expectsClient_of_running {q : RunPhase M} (hq : q.running = true) :
    q.ExpectsClient r p ↔ r.Heard ∧ p.Fed := by
  cases q <;> first | rfl | cases hq

/-- The loop relays what the present reader sends. -/
def RunPhase.relays : RunPhase M → Bool
  | .select | .toBackend _ | .toClient _ | .closeBackend _ | .drainReader _ => true
  | _ => false

theorem expects_of_relays {q : RunPhase M} (hq : q.relays = true) (h : q.Expects l) :
    l.reader.Heard ∧ l.pump.Fed := by
  cases q with
  | select | toBackend | toClient | closeBackend => exact h
  | drainReader => exact h.1
  | _ => cases hq

/-- **Every goroutine is attended to.** -/
structure Attended (s : Bridge M) : Prop where
  client : s.run.ExpectsClient s.clientReader s.clientPump
  backend : s.run.Expects s.backend
  past : ∀ l ∈ s.past, l.Left
  clientTidy : s.clientPump.Tidy
  backendTidy : s.backend.pump.Tidy

theorem attended_start : Attended (Bridge.start : Bridge M) where
  client := ⟨Reader.heard_start, Pump.fed_start⟩
  backend := ⟨Reader.heard_start, Pump.fed_start⟩
  past := nofun
  clientTidy := Pump.tidy_start
  backendTidy := Pump.tidy_start

/-! ## The steps of readers and pumps -/

theorem RunPhase.Expects.reader {q : RunPhase M} {a : ReaderAction M} (h : q.Expects l)
    (hst : l.reader.step a = some r) : q.Expects { l with reader := r } := by
  have hcancelled := Reader.cancelled_step hst
  have htold (htold : l.Told) : ({ l with reader := r } : Link M).Told :=
    ⟨htold.done, hcancelled.trans htold.cancelled⟩
  cases q with
  | select | toBackend | toClient | closeBackend => exact ⟨h.1.step hst, h.2⟩
  | drainReader => exact ⟨⟨h.1.1.step hst, h.1.2⟩, h.2⟩
  | stopReader | returning => exact h
  | stopPump => exact htold h
  | dial | closeOld | install | returned => exact ⟨htold h.1, h.2⟩
  | forward =>
    rw [h.1] at hst
    cases Reader.steps_of_step hst with
    | read hph | readError hph | send hph | quit hph => cases hph
  | releasing | closing => exact h

theorem RunPhase.Expects.pump {q : RunPhase M} {a : PumpAction} (h : q.Expects l)
    (hst : l.pump.step a = some p) : q.Expects { l with pump := p } := by
  have hdone := Pump.done_step hst
  have htold (htold : l.Told) : ({ l with pump := p } : Link M).Told :=
    ⟨hdone.trans htold.done, htold.cancelled⟩
  cases q with
  | select | toBackend | toClient | closeBackend | forward => exact ⟨h.1, h.2.step hst⟩
  | drainReader => exact ⟨⟨h.1.1, h.1.2.step hst⟩, h.2⟩
  | stopReader | returning => exact h
  | stopPump => exact htold h
  | dial | closeOld => exact ⟨htold h.1, Pump.ch_step hst h.2⟩
  | install => exact ⟨htold h.1, Pump.ch_step hst h.2.1, h.2.2⟩
  | returned => exact ⟨htold h.1, h.2⟩
  | releasing | closing => exact hdone.trans h

theorem RunPhase.ExpectsClient.reader {q : RunPhase M} {a : ReaderAction M}
    (h : q.ExpectsClient r p) (hst : r.step a = some r') : q.ExpectsClient r' p := by
  by_cases hq : q.running = true
  · rw [expectsClient_of_running hq] at h ⊢
    exact ⟨h.1.step hst, h.2⟩
  · cases q with
    | returning => exact h
    | releasing | closing | returned => exact ⟨(Reader.cancelled_step hst).trans h.1, h.2⟩
    | _ => exact absurd rfl hq

theorem RunPhase.ExpectsClient.pump {q : RunPhase M} {a : PumpAction}
    (h : q.ExpectsClient r p) (hst : p.step a = some p') : q.ExpectsClient r p' := by
  by_cases hq : q.running = true
  · rw [expectsClient_of_running hq] at h ⊢
    exact ⟨h.1, h.2.step hst⟩
  · cases q with
    | returning => exact h
    | releasing | closing | returned => exact ⟨h.1, (Pump.done_step hst).trans h.2⟩
    | _ => exact absurd rfl hq

/-- A connection is closed while the loop relies on it. -/
theorem RunPhase.Expects.close {q : RunPhase M} (h : q.Expects l) :
    q.Expects { l with closed := true } := by
  cases q with
  | select | toBackend | toClient | closeBackend | forward => exact h
  | drainReader => exact ⟨h.1, rfl⟩
  | stopReader | returning | releasing | closing => exact h
  | stopPump => exact ⟨h.done, h.cancelled⟩
  | dial | closeOld => exact ⟨⟨h.1.done, h.1.cancelled⟩, h.2⟩
  | install => exact ⟨⟨h.1.done, h.1.cancelled⟩, h.2.1, rfl⟩
  | returned => exact ⟨⟨h.1.done, h.1.cancelled⟩, rfl⟩

theorem Link.Left.reader {a : ReaderAction M} (h : l.Left) (hst : l.reader.step a = some r) :
    ({ l with reader := r } : Link M).Left :=
  ⟨⟨h.done, (Reader.cancelled_step hst).trans h.cancelled⟩, h.ch, h.closed, h.tidy⟩

theorem Link.Left.pump {a : PumpAction} (h : l.Left) (hst : l.pump.step a = some p) :
    ({ l with pump := p } : Link M).Left :=
  ⟨⟨(Pump.done_step hst).trans h.done, h.cancelled⟩, Pump.ch_step hst h.ch, h.closed,
    h.tidy.step hst⟩

/-! ## The steps of the loop -/

/-- Taking a message leaves the reader's error where it is. -/
theorem Reader.Heard.take {m : M} {rest : List (WsMsg M)} (h : r.Heard)
    (hch : r.ch = .data m :: rest) : ({ r with ch := rest } : Reader M).Heard := by
  refine ⟨h.started, h.cancelled, fun hexited => ?_⟩
  have herror := h.exited hexited
  rw [hch] at herror
  exact (List.mem_cons.1 herror).resolve_left nofun

/-- Where a swap or the return begins nothing is asked of the backend
connection. -/
theorem expects_swapOrReturn (s : Bridge M) :
    s.swapOrReturn.run.Expects s.swapOrReturn.backend := by
  unfold Bridge.swapOrReturn
  cases s.pendingSwap <;> exact trivial

theorem expectsClient_swapOrReturn (h : s.clientReader.Heard ∧ s.clientPump.Fed) :
    s.swapOrReturn.run.ExpectsClient s.swapOrReturn.clientReader s.swapOrReturn.clientPump := by
  unfold Bridge.swapOrReturn
  cases s.pendingSwap with
  | none => exact trivial
  | some newURL => exact h

/-- What the loop takes out of a channel, or puts into it, is not asked for
by anybody else. -/
theorem Attended.stopPumpStep {q : RunPhase M} (h : Attended s)
    (hclient : q.ExpectsClient s.clientReader s.clientPump)
    (hbackend : s.backend.pump.ch = [] → q.Expects s.backend)
    (hdrained : ∀ rest, s.run.Expects
      { s.backend with pump := { s.backend.pump with ch := rest } }) :
    Attended (s.stopPumpStep q) := by
  unfold Bridge.stopPumpStep
  split
  · rename_i m rest hch
    exact ⟨h.client, hdrained rest, h.past, h.clientTidy, h.backendTidy⟩
  · rename_i hch
    exact ⟨hclient, hbackend hch, h.past, h.clientTidy, h.backendTidy⟩

theorem Attended.forwardStep (h : Attended s) (hrun : s.run = .forward) :
    Attended s.forwardStep := by
  have hclient : s.clientReader.Heard ∧ s.clientPump.Fed := by
    have hexpects := h.client
    rwa [hrun] at hexpects
  obtain ⟨hreader, hpump⟩ : s.backend.reader = ⟨.waiting, [], false, []⟩ ∧ s.backend.pump.Fed := by
    have hexpects := h.backend
    rwa [hrun] at hexpects
  unfold Bridge.forwardStep
  split
  · rename_i m rest hch
    dsimp only
    split
    · refine ⟨?_, ?_, h.past, h.clientTidy, h.backendTidy⟩
      · simp only [Bridge.setWriteCh, hrun]
        exact ⟨hclient.1.take hch, hclient.2⟩
      · simp only [Bridge.setWriteCh, hrun]
        exact ⟨hreader, hpump.done, hpump.exited⟩
    · exact ⟨trivial, trivial, h.past, h.clientTidy, h.backendTidy⟩
  · exact ⟨trivial, trivial, h.past, h.clientTidy, h.backendTidy⟩
  · refine ⟨hclient, ⟨?_, hpump⟩, h.past, h.clientTidy, h.backendTidy⟩
    simp only [Link.startReader, hreader]
    exact ⟨nofun, rfl, nofun⟩

/-- The first of what the deferred function does. -/
theorem Attended.returning (h : Attended s) :
    Attended (
      let s := { s with
        clientReader := { s.clientReader with cancelled := true }
        clientPump := { s.clientPump with done := true } }
      if s.backend.pump.done then { s with run := .closing } else s.stopWriting .releasing) := by
  dsimp only
  split
  · rename_i hdone
    exact ⟨⟨rfl, rfl⟩, hdone, h.past, h.clientTidy, h.backendTidy⟩
  · exact ⟨⟨rfl, rfl⟩, rfl, h.past, h.clientTidy, h.backendTidy⟩

theorem Attended.runs {c : Case} (h : Attended s) (hruns : Runs s c s') : Attended s' := by
  -- What is known of both connections where the loop is.
  have hclient (hrun : s.run.running = true) : s.clientReader.Heard ∧ s.clientPump.Fed :=
    (expectsClient_of_running hrun).1 h.client
  have hbackend {q : RunPhase M} (hrun : s.run = q) : q.Expects s.backend := hrun ▸ h.backend
  have hheard (hrun : s.run.relays = true) : s.backend.reader.Heard ∧ s.backend.pump.Fed :=
    expects_of_relays hrun h.backend
  cases hruns with
  | client hrun hch =>
    have hexpects := hclient (hrun ▸ rfl)
    exact ⟨⟨hexpects.1.take hch, hexpects.2⟩, hheard (hrun ▸ rfl), h.past, h.clientTidy,
      h.backendTidy⟩
  | backend hrun hch =>
    have hexpects := hheard (hrun ▸ rfl)
    exact ⟨hclient (hrun ▸ rfl), ⟨hexpects.1.take hch, hexpects.2⟩, h.past, h.clientTidy,
      h.backendTidy⟩
  | @backendError rest hrun hch =>
    have hexpects := hclient (hrun ▸ rfl)
    exact ⟨expectsClient_swapOrReturn hexpects, expects_swapOrReturn _, h.past, h.clientTidy,
      h.backendTidy⟩
  | backendWriteErr hrun | toBackendErr hrun =>
    have hexpects := hclient (hrun ▸ rfl)
    exact ⟨expectsClient_swapOrReturn hexpects, expects_swapOrReturn s.takeErr, h.past,
      h.clientTidy, h.backendTidy⟩
  | clientError | clientWriteErr | toClientErr =>
    exact ⟨trivial, trivial, h.past, h.clientTidy, h.backendTidy⟩
  | swap hrun =>
    exact ⟨hclient (hrun ▸ rfl), hheard (hrun ▸ rfl), h.past, h.clientTidy, h.backendTidy⟩
  | closeBackend hrun =>
    exact ⟨hclient (hrun ▸ rfl), ⟨hheard (hrun ▸ rfl), rfl⟩, h.past, h.clientTidy, h.backendTidy⟩
  | toBackend hrun =>
    have hexpects := hheard (hrun ▸ rfl)
    exact ⟨hclient (hrun ▸ rfl), ⟨hexpects.1, hexpects.2.done, hexpects.2.exited⟩, h.past,
      h.clientTidy, h.backendTidy⟩
  | toClient hrun =>
    have hexpects := hclient (hrun ▸ rfl)
    exact ⟨⟨hexpects.1, hexpects.2.done, hexpects.2.exited⟩, hheard (hrun ▸ rfl), h.past,
      h.clientTidy, h.backendTidy⟩
  | drainReader hrun =>
    exact ⟨hclient (hrun ▸ rfl), trivial, h.past, h.clientTidy, h.backendTidy⟩
  | stopReader hrun =>
    exact ⟨hclient (hrun ▸ rfl), ⟨rfl, rfl⟩, h.past, h.clientTidy, h.backendTidy⟩
  | stopPump hrun =>
    have htold : s.backend.Told := hbackend hrun
    refine h.stopPumpStep (hclient (hrun ▸ rfl)) (fun hch => ⟨htold, hch⟩) fun rest => ?_
    rw [hrun]
    exact ⟨htold.done, htold.cancelled⟩
  | @dial newURL ok hrun =>
    have htold : s.backend.Told ∧ s.backend.pump.ch = [] := hbackend hrun
    cases ok with
    | true => exact ⟨hclient (hrun ▸ rfl), htold, h.past, h.clientTidy, h.backendTidy⟩
    | false => exact ⟨trivial, trivial, h.past, h.clientTidy, h.backendTidy⟩
  | closeOld hrun =>
    have htold : s.backend.Told ∧ s.backend.pump.ch = [] := hbackend hrun
    exact ⟨hclient (hrun ▸ rfl), ⟨⟨htold.1.done, htold.1.cancelled⟩, htold.2, rfl⟩, h.past,
      h.clientTidy, h.backendTidy⟩
  | install hrun =>
    obtain ⟨htold, hch, hclosed⟩ :
        s.backend.Told ∧ s.backend.pump.ch = [] ∧ s.backend.closed = true := hbackend hrun
    refine ⟨hclient (hrun ▸ rfl), ⟨rfl, Pump.fed_start⟩, fun l hl => ?_, h.clientTidy,
      Pump.tidy_start⟩
    rcases List.mem_append.1 hl with hl | hl
    · exact h.past l hl
    · obtain rfl := List.mem_singleton.1 hl
      exact ⟨htold, hch, hclosed, h.backendTidy⟩
  | forward hrun => exact h.forwardStep hrun
  | returning => exact h.returning
  | releasing hrun =>
    have hexpects := h.client
    rw [hrun] at hexpects
    have hdone : s.backend.pump.done = true := hbackend hrun
    refine h.stopPumpStep hexpects (fun _ => hdone) fun rest => ?_
    rw [hrun]
    exact hdone
  | closing hrun =>
    have hexpects := h.client
    rw [hrun] at hexpects
    have hdone : s.backend.pump.done = true := hbackend hrun
    exact ⟨hexpects, ⟨⟨hdone, rfl⟩, rfl⟩, h.past, h.clientTidy, h.backendTidy⟩

/-! ## The steps of the bridge -/

/-- A connection of before that has moved on. -/
theorem Attended.past_set {i : ℕ} {l' : Link M} (h : Attended s) (hl' : l'.Left) :
    ∀ k ∈ s.past.set i l', k.Left := by
  intro k hk
  rcases Pool.mem_or_eq_of_mem_set hk with hk | rfl
  · exact h.past k hk
  · exact hl'

theorem Attended.step {a : Action M} (h : Attended s) (hst : step s a = some s') :
    Attended s' := by
  cases steps_of_step hst with
  | run hruns => exact h.runs hruns
  | clientReader hr => exact ⟨h.client.reader hr, h.backend, h.past, h.clientTidy, h.backendTidy⟩
  | clientPump hp =>
    exact ⟨h.client.pump hp, h.backend, h.past, h.clientTidy.step hp, h.backendTidy⟩
  | reader hr => exact ⟨h.client, h.backend.reader hr, h.past, h.clientTidy, h.backendTidy⟩
  | pump _ hp =>
    exact ⟨h.client, h.backend.pump hp, h.past, h.clientTidy, h.backendTidy.step hp⟩
  | pastReader hl hr =>
    have hleft := (h.past _ (List.mem_of_getElem? hl)).reader hr
    exact ⟨h.client, h.backend, h.past_set hleft, h.clientTidy, h.backendTidy⟩
  | pastPump _ hl hp =>
    have hleft := (h.past _ (List.mem_of_getElem? hl)).pump hp
    exact ⟨h.client, h.backend, h.past_set hleft, h.clientTidy, h.backendTidy⟩
  | swapBackend => exact ⟨h.client, h.backend, h.past, h.clientTidy, h.backendTidy⟩
  | closeBackend => exact ⟨h.client, h.backend.close, h.past, h.clientTidy, h.backendTidy⟩

end WebSocket

end StickyProxy
