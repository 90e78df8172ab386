import StickyProxy.WebSocket.LastSwap
import StickyProxy.WebSocket.Loss
/-!
# Whether a bridge survives its swaps

The close of `SwapBackend` is for the connection the call wants to see
replaced, but it takes the one that is current by then. As long as the
request is in the channel or with the loop, the error that follows finds
it, or is swept away with the old connection. Once the new connection is
in place there is nothing left to find, and the same close ends the bridge.
-/

namespace StickyProxy

namespace WebSocket

variable {M : Type*}

/-! ## The conditions -/

/-- The loop forwards one message more than the new pump has room for. -/
def Bridge.overflows (s : Bridge M) : Bool :=
  match s.run, s.clientReader.ch with
  | .forward, .data _ :: _ => pumpCap ≤ s.backend.pump.ch.length
  | _, _ => false

/-- The messages queued during a swap find room, and the backend does not
close on its own. -/
def Bridge.undisturbed (s : Bridge M) : Action M → Bool
  | .run .next => !s.overflows
  | .reader (.read none) => s.backend.closed
  | _ => true

/-- Every dial succeeds, neither peer goes away, and no swap overflows. -/
def Peaceful (t : Swaps M) (a : SwapAction M) : Prop :=
  Smooth t.bridge a.action ∧ t.bridge.undisturbed a.action = true

instance (t : Swaps M) (a : SwapAction M) : Decidable (Peaceful t a) :=
  inferInstanceAs (Decidable (_ ∧ _))

/-- A call names a backend, and closes the connection before the request
it left or found in the channel has got its connection. -/
def Timely (t : Swaps M) : SwapAction M → Prop
  | .swapBackend newURL => newURL ≠ ""
  | .close i => ∀ call ∈ t.calls[i]?, t.waiting = some call.awaits ∨ t.serving = some call.awaits
  | _ => True

instance decidableTimely (t : Swaps M) : ∀ a : SwapAction M, Decidable (Timely t a)
  | .swapBackend newURL => inferInstanceAs (Decidable (newURL ≠ ""))
  | .close i => inferInstanceAs (Decidable (∀ call ∈ t.calls[i]?, _ ∨ _))
  | .run _ | .goroutine _ => isTrue trivial

/-! ## A bridge that keeps running -/

/-- The reader has met no error. -/
def Reader.Sound (r : Reader M) : Prop := .error ∉ r.ch ∧ r.phase ≠ .sending .error

theorem Reader.Sound.tail {r : Reader M} {x : WsMsg M} {rest : List (WsMsg M)} (h : r.Sound)
    (hch : r.ch = x :: rest) : ({ r with ch := rest } : Reader M).Sound :=
  ⟨fun hmem => h.1 (hch ▸ List.mem_cons_of_mem x hmem), h.2⟩

/-- Only a failing read is an error. -/
theorem Reader.Sound.step {r r' : Reader M} {a : ReaderAction M} (h : r.Sound)
    (hst : r.step a = some r') (ha : a ≠ .read none) : r'.Sound := by
  cases Reader.steps_of_step hst with
  | read => exact ⟨h.1, nofun⟩
  | readError => exact absurd rfl ha
  | send hph =>
    refine ⟨fun hmem => ?_, ?_⟩
    · rcases List.mem_append.1 hmem with hmem | hmem
      · exact h.1 hmem
      · exact h.2 (List.mem_singleton.1 hmem ▸ hph)
    · dsimp only
      split <;> exact nofun
  | quit => exact ⟨h.1, nofun⟩

/-- The bridge runs. The client has given no error, and the backend none
but those of a closed connection; and while the connection is closed, a
swap is waiting or going on. -/
structure Alive (s : Bridge M) : Prop where
  running : s.run.running = true
  clientReader : s.clientReader.Sound
  clientPump : s.clientPump.Sound
  reader : s.backend.closed = false → s.backend.reader.Sound
  pump : s.backend.closed = false → s.backend.pump.Sound
  closed : s.backend.closed = true → s.swapCh.isSome = true ∨ s.run.inSwap = true
  url : s.swapCh ≠ some ""

theorem alive_start : Alive (.start : Bridge M) where
  running := rfl
  clientReader := ⟨List.not_mem_nil, nofun⟩
  clientPump := Pump.sound_start
  reader _ := ⟨List.not_mem_nil, nofun⟩
  pump _ := Pump.sound_start
  closed := nofun
  url := nofun

section Alive

variable {s s' : Bridge M} {c : Case} {ph : RunPhase M} {x : WsMsg M} {rest : List (WsMsg M)}

/-- Outside a swap, a closed connection has one waiting. -/
theorem Alive.pending (h : Alive s) (hin : s.run.inSwap = false)
    (hclosed : s.backend.closed = true) : s.swapCh.isSome = true :=
  (h.closed hclosed).resolve_right (by rw [hin]; exact Bool.noConfusion)

theorem Alive.set_run (h : Alive s) (hrunning : ph.running = true)
    (hclosed : s.backend.closed = true → s.swapCh.isSome = true ∨ ph.inSwap = true) :
    Alive { s with run := ph } :=
  { h with running := hrunning, closed := hclosed }

theorem Alive.setClientCh (h : Alive s) (hch : s.clientReader.ch = x :: rest) :
    Alive (s.setClientCh rest) :=
  { h with clientReader := h.clientReader.tail hch }

theorem Alive.setBackendCh (h : Alive s) (hch : s.backend.reader.ch = x :: rest) :
    Alive (s.setBackendCh rest) :=
  { h with reader := fun hc => (h.reader hc).tail hch }

theorem Alive.setWriteCh (h : Alive s) (ch : List M) : Alive (s.setWriteCh ch) :=
  { h with pump := fun hc => ⟨(h.pump hc).err, (h.pump hc).phase⟩ }

theorem Alive.takeErr (h : Alive s) : Alive s.takeErr :=
  { h with pump := fun hc => ⟨rfl, (h.pump hc).phase⟩ }

theorem Alive.release (h : Alive s) (ms : List M) : Alive (s.release ms) := { h with }

/-- The connection may be closed while there is a swap to come. -/
theorem Alive.closeConn (h : Alive s) (hswap : s.swapCh.isSome = true ∨ s.run.inSwap = true) :
    Alive s.closeConn :=
  { h with reader := nofun, pump := nofun, closed := fun _ => hswap }

/-- **An error of a closed connection finds the swap.** -/
theorem Alive.swapOrReturn (h : Alive s) (hin : s.run.inSwap = false)
    (hclosed : s.backend.closed = true) : Alive s.swapOrReturn := by
  obtain ⟨u, hu⟩ := Option.isSome_iff_exists.1 (h.pending hin hclosed)
  have hne : u ≠ "" := fun heq => h.url (heq ▸ hu)
  have hpending : s.pendingSwap = some u := by
    rw [Bridge.pendingSwap, hu, Option.filter_some, if_pos (decide_eq_true hne)]
  have hrun : s.swapOrReturn.run = .stopReader u := by
    simp only [Bridge.swapOrReturn, hpending]
  have hnone : s.swapOrReturn.swapCh ≠ some "" := (Option.some_ne_none "").symm
  exact { h with running := hrun ▸ rfl, closed := fun _ => .inr (hrun ▸ rfl), url := hnone }

theorem Alive.stopPumpStep (h : Alive s) (hrunning : ph.running = true) (hin : ph.inSwap = true) :
    Alive (s.stopPumpStep ph) := by
  unfold Bridge.stopPumpStep
  split
  · exact (h.setWriteCh _).release _
  · exact h.set_run hrunning fun _ => .inr hin

theorem Alive.forwardStep (h : Alive s) (hrun : s.run = .forward) (hover : s.overflows = false) :
    Alive s.forwardStep := by
  have hpending : s.backend.closed = true → s.swapCh.isSome = true := h.pending (hrun ▸ rfl)
  unfold Bridge.forwardStep
  split
  · rename_i m rest hch
    have hroom : s.backend.pump.ch.length < pumpCap := by
      simpa only [Bridge.overflows, hrun, hch, decide_eq_false_iff_not, not_le] using hover
    exact (if_pos hroom).symm ▸ (h.setClientCh hch).setWriteCh _
  · rename_i rest hch
    exact absurd (hch ▸ List.mem_cons_self) h.clientReader.1
  · have hstarted : Alive { s with backend := s.backend.startReader } :=
      { h with reader := fun hc => ⟨(h.reader hc).1, nofun⟩ }
    exact hstarted.set_run rfl fun hc => .inl (hpending hc)

/-- **The loop does not return.** -/
theorem Alive.runs (h : Alive s) (hruns : Runs s c s') (hdial : c ≠ .dial false)
    (hover : c = .next → s.overflows = false) : Alive s' := by
  have hrunning := h.running
  cases hruns with
  | client hrun hch =>
    exact (h.setClientCh hch).set_run rfl fun hc => .inl (h.pending (hrun ▸ rfl) hc)
  | clientError _ hch => exact absurd (hch ▸ List.mem_cons_self) h.clientReader.1
  | backend hrun hch =>
    exact (h.setBackendCh hch).set_run rfl fun hc => .inl (h.pending (hrun ▸ rfl) hc)
  | backendError hrun hch =>
    have hclosed : s.backend.closed = true := eq_true_of_ne_false fun hopen =>
      (h.reader hopen).1 (hch ▸ List.mem_cons_self)
    exact (h.setBackendCh hch).swapOrReturn (hrun ▸ rfl) hclosed
  | backendWriteErr hrun herr =>
    have hclosed : s.backend.closed = true := eq_true_of_ne_false fun hopen =>
      Bool.false_ne_true ((h.pump hopen).err.symm.trans herr)
    exact h.takeErr.swapOrReturn (hrun ▸ rfl) hclosed
  | clientWriteErr _ herr => exact absurd (h.clientPump.err.symm.trans herr) Bool.false_ne_true
  | swap =>
    exact { h with running := rfl, closed := fun _ => .inr rfl, url := nofun }
  | toBackend hrun =>
    exact (h.setWriteCh _).set_run rfl fun hc => .inl (h.pending (hrun ▸ rfl) hc)
  | toBackendErr hrun herr =>
    have hclosed : s.backend.closed = true := eq_true_of_ne_false fun hopen =>
      Bool.false_ne_true ((h.pump hopen).err.symm.trans herr)
    exact (h.takeErr.swapOrReturn (hrun ▸ rfl) hclosed).release _
  | toClient hrun =>
    exact { h with
      running := rfl
      clientPump := ⟨h.clientPump.err, h.clientPump.phase⟩
      closed := fun hc => .inl (h.pending (hrun ▸ rfl) hc) }
  | toClientErr _ herr => exact absurd (h.clientPump.err.symm.trans herr) Bool.false_ne_true
  | closeBackend hrun =>
    exact (h.closeConn (.inr (hrun ▸ rfl))).set_run rfl fun _ => .inr rfl
  | drainReader _ hch => exact (h.setBackendCh hch).set_run rfl fun _ => .inr rfl
  | stopReader =>
    exact { h with
      running := rfl
      reader := fun hc => ⟨(h.reader hc).1, (h.reader hc).2⟩
      pump := fun hc => ⟨(h.pump hc).err, (h.pump hc).phase⟩
      closed := fun _ => .inr rfl }
  | stopPump => exact h.stopPumpStep rfl rfl
  | @dial _ ok =>
    obtain rfl : ok = true := eq_true_of_ne_false fun hok => hdial (hok ▸ rfl)
    exact h.set_run rfl fun _ => .inr rfl
  | closeOld hrun => exact (h.closeConn (.inr (hrun ▸ rfl))).set_run rfl fun _ => .inr rfl
  | install =>
    exact { h with
      running := rfl
      reader := fun _ => ⟨List.not_mem_nil, nofun⟩
      pump := fun _ => Pump.sound_start
      closed := nofun }
  | forward hrun => exact h.forwardStep hrun (hover rfl)
  | returning hrun | releasing hrun | closing hrun =>
    rw [hrun] at hrunning
    cases hrunning

/-- Nor do the readers and the pumps give it a reason to. -/
theorem Alive.goroutine {a : Action M} (h : Alive s) (ha : a.isGoroutine = true)
    (hsmooth : Smooth s a) (hquiet : s.undisturbed a = true) (hst : step s a = some s') :
    Alive s' := by
  cases steps_of_step hst with
  | run | swapBackend | closeBackend => cases ha
  | clientReader hr =>
    refine { h with clientReader := h.clientReader.step hr ?_ }
    rintro rfl
    exact hsmooth
  | clientPump hp => exact { h with clientPump := h.clientPump.step hp hsmooth }
  | reader hr =>
    refine { h with reader := fun hc => (h.reader hc).step hr ?_ }
    rintro rfl
    exact Bool.false_ne_true (hc.symm.trans hquiet)
  | pump _ hp => exact { h with pump := fun hc => (h.pump hc).step hp (hsmooth hc) }
  | pastReader | pastPump => exact { h with }

end Alive

/-! ## Runs with calls -/

section Calls

variable {t t' : Swaps M} {a : SwapAction M}

/-- **The bridge outlives every step.** The books say that a call that is
not late has a swap to close the connection for. -/
theorem Alive.step (h : Alive t.bridge) (hbooked : Booked t) (hpeace : Peaceful t a)
    (htimely : Timely t a) (hst : t.step a = some t') : Alive t'.bridge := by
  have hbridge := Swaps.bridge_step hst
  cases a with
  | run c =>
    refine h.runs (runs_of_runStep hbridge) hpeace.1 ?_
    rintro rfl
    exact Bool.not_eq_true' _ ▸ hpeace.2
  | goroutine a =>
    obtain ⟨ha, -⟩ := Option.ite_none_right_eq_some.1 hst
    exact h.goroutine ha hpeace.1 hpeace.2 hbridge
  | swapBackend newURL =>
    obtain rfl := Option.some.inj hst
    refine { h with closed := fun _ => .inl rfl, url := fun heq => ?_ }
    rcases hch : t.bridge.swapCh with - | u
    · exact htimely (by rw [hch] at heq; exact Option.some.inj heq)
    · exact h.url (by rw [hch] at heq ⊢; exact heq)
  | close i =>
    obtain ⟨call, hi, hst⟩ := Option.bind_eq_some_iff.1 hst
    have hswap : t.bridge.swapCh.isSome = true ∨ t.bridge.run.inSwap = true := by
      rcases htimely call hi with hw | hs
      · exact .inl (by rw [← hbooked.waiting, hw]; rfl)
      · exact .inr (by rw [← hbooked.serving h.running, hs]; rfl)
    generalize t'.bridge = b at hbridge ⊢
    cases steps_of_step hbridge with
    | closeBackend => exact { h.closeConn hswap with }

/-- A call that is not late does not close its own connection. -/
theorem ownClosed_step (hbooked : Booked t) (htimely : Timely t a) (hst : t.step a = some t') :
    t'.ownClosed = t.ownClosed := by
  cases a with
  | run c =>
    obtain ⟨b, -, rfl⟩ := Option.map_eq_some_iff.1 hst
    unfold Swaps.after
    split
    · rfl
    · rfl
    · split <;> rfl
  | goroutine a =>
    obtain ⟨-, hst⟩ := Option.ite_none_right_eq_some.1 hst
    obtain ⟨b, -, rfl⟩ := Option.map_eq_some_iff.1 hst
    rfl
  | swapBackend newURL =>
    obtain rfl := Option.some.inj hst
    rfl
  | close i =>
    obtain ⟨call, hi, hst⟩ := Option.bind_eq_some_iff.1 hst
    obtain ⟨-, hst⟩ := Option.ite_none_left_eq_some.1 hst
    obtain ⟨b, -, rfl⟩ := Option.map_eq_some_iff.1 hst
    have hne : t.requester ≠ some i := by
      intro hreq
      have hawaits : call.awaits = i := by
        have hown := hbooked.own i (.inr (.inr hreq))
        rw [Swaps.awaited, List.getElem?_map, hi] at hown
        exact Option.some.inj hown
      have happart := hbooked.apart i hreq
      rcases htimely call hi with hw | hs
      · exact happart.1 (hawaits ▸ hw)
      · exact happart.2 (hawaits ▸ hs)
    show (t.ownClosed || t.requester == some i) = t.ownClosed
    rw [beq_eq_false_iff_ne.2 hne, Bool.or_false]

/-- **A bridge survives swaps that are closed in time.** When every dial
succeeds, neither peer goes away and no swap overflows the new pump, then
as long as every call closes the connection before its request has got one,
the loop does not return, and no call closes what was dialled for it. -/
theorem survives_of_timely {url : Backend} {schedule : List (SwapAction M)}
    (hrun : Run.exec Swaps.step (.start url) schedule = some t)
    (hpeace : Run.Meets Swaps.step Peaceful (.start url) schedule)
    (htimely : Run.Meets Swaps.step Timely (.start url) schedule) :
    t.bridge.run.running = true ∧ t.ownClosed = false := by
  have hinv := Run.exec_invariant
    (I := fun t : Swaps M => Booked t ∧ Alive t.bridge ∧ t.ownClosed = false)
    (fun _ _ _ h hok hst => ⟨h.1.step hst, h.2.1.step h.1 hok.1 hok.2 hst,
      (ownClosed_step h.1 hok.2 hst).trans h.2.2⟩)
    ⟨booked_start url, alive_start, rfl⟩ (hpeace.and htimely) hrun
  exact ⟨hinv.2.1.running, hinv.2.2⟩

end Calls

/-- One swap that is closed while the loop dials, and one that is closed
at once. -/
theorem survives_of_timely_twoSwaps :
    ∃ t : Swaps Unit,
      Run.exec Swaps.step (.start "b1") ([.swapBackend "b2"] ++ loopSwaps.take 7 ++ [.close 0] ++
        loopSwaps.drop 7 ++ [.swapBackend "b3", .close 1] ++ loopSwaps) = some t ∧
      t.bridge.run.running = true ∧ t.ownClosed = false := by
  obtain ⟨t, hrun⟩ : ∃ t : Swaps Unit,
      Run.exec Swaps.step (.start "b1") ([.swapBackend "b2"] ++ loopSwaps.take 7 ++ [.close 0] ++
        loopSwaps.drop 7 ++ [.swapBackend "b3", .close 1] ++ loopSwaps) = some t :=
    Option.isSome_iff_exists.1 (by decide +kernel)
  exact ⟨t, hrun, survives_of_timely hrun (by decide +kernel) (by decide +kernel)⟩

/-- **A late close ends the bridge.** The loop has swapped before the call
comes to close the connection, which is by then the one it asked for. The
reader's error finds no swap, and the bridge returns. -/
theorem late_close_ends :
    Run.Meets Swaps.step Peaceful (.start "b1" : Swaps Unit)
        ([.swapBackend "b2"] ++ loopSwaps ++ [.close 0, .goroutine (.reader (.read none)),
          .goroutine (.reader .send), .run .backend]) ∧
      (Run.exec Swaps.step (.start "b1" : Swaps Unit)
        ([.swapBackend "b2"] ++ loopSwaps ++ [.close 0, .goroutine (.reader (.read none)),
          .goroutine (.reader .send), .run .backend])).map
        (fun t => (t.bridge.run.running, t.ownClosed)) = some (false, true) := by
  decide +kernel

end WebSocket

end StickyProxy
