import StickyProxy.WebSocket.Model.Bridge
/-!
# Calls of `SwapBackend`

The bridge with the calls of `SwapBackend` told apart. A call is numbered
by its place among the calls. It offers its URL to the channel, which
keeps the one it has, and then closes whatever connection is the current
one. Beside the bridge stands what the bridge does not record: whose URL
is in the channel, whose the loop is swapping to, whose the connection was
dialled for, and to what URL. No step of the bridge reads any of it.
-/

namespace StickyProxy

namespace WebSocket

variable {M : Type*}

/-- The URL the loop is about to dial. -/
def RunPhase.newURL : RunPhase M → Option Backend
  | .closeBackend newURL | .drainReader newURL | .stopReader newURL | .stopPump newURL
  | .dial newURL => some newURL
  | _ => none

/-- The loop has taken a URL and not yet put a connection in place. -/
def RunPhase.inSwap : RunPhase M → Bool
  | .closeOld | .install => true
  | run => run.newURL.isSome

/-- A call of `SwapBackend`. -/
structure Call where
  url : Backend
  /-- What it found in the channel. -/
  found : Option Backend
  /-- The call whose URL was in the channel once it had offered its own. -/
  awaits : ℕ
  /-- It has closed the connection. -/
  closed : Bool
  deriving DecidableEq, Repr

structure Swaps (M : Type*) where
  bridge : Bridge M
  calls : List Call
  /-- The call whose URL is in the channel. -/
  waiting : Option ℕ
  /-- The call whose URL the loop is swapping to. -/
  serving : Option ℕ
  /-- The call `b.backend` was dialled for; none asked for the first. -/
  requester : Option ℕ
  /-- The URL dialled last. -/
  dialled : Backend
  /-- The URL `b.backend` is connected to. -/
  backendURL : Backend
  /-- A call has closed the connection that was dialled for it. -/
  ownClosed : Bool

/-- What a step of the loop means for the calls. -/
def Swaps.after (s : Swaps M) (b : Bridge M) : Swaps M :=
  match s.bridge.run with
  | .dial newURL => { s with bridge := b, dialled := newURL }
  | .install =>
    { s with bridge := b, requester := s.serving, serving := none, backendURL := s.dialled }
  | _ =>
    if s.bridge.swapCh.isSome ∧ b.swapCh.isNone then
      { s with bridge := b, serving := s.waiting, waiting := none }
    else { s with bridge := b }

inductive SwapAction (M : Type*) where
  /-- A step of the loop. -/
  | run (c : Case)
  /-- A step of a reader or of a pump. -/
  | goroutine (a : Action M)
  | swapBackend (newURL : Backend)
  /-- The rest of a call. -/
  | close (i : ℕ)

/-- The step is one of a reader or of a pump. -/
def Action.isGoroutine : Action M → Bool
  | .run _ | .swapBackend _ | .closeBackend => false
  | _ => true

def Swaps.step (s : Swaps M) : SwapAction M → Option (Swaps M)
  | .run c => (s.bridge.runStep c).map s.after
  | .goroutine a =>
    if a.isGoroutine then (WebSocket.step s.bridge a).map fun b => { s with bridge := b }
    else none
  | .swapBackend newURL =>
    (WebSocket.step s.bridge (.swapBackend newURL)).map fun b =>
      let awaits := s.waiting.getD s.calls.length
      { s with
        bridge := b
        calls := s.calls ++ [⟨newURL, s.bridge.swapCh, awaits, false⟩]
        waiting := some awaits }
  | .close i =>
    (s.calls[i]?).bind fun call =>
      if call.closed then none
      else (WebSocket.step s.bridge .closeBackend).map fun b =>
        { s with
          bridge := b
          calls := s.calls.set i { call with closed := true }
          ownClosed := s.ownClosed || s.requester == some i }

/-- A bridge to a backend, and no call yet. -/
def Swaps.start (url : Backend) : Swaps M :=
  ⟨.start, [], none, none, none, url, url, false⟩

/-- The step of the bridge a step is. -/
def SwapAction.action : SwapAction M → Action M
  | .run c => .run c
  | .goroutine a => a
  | .swapBackend newURL => .swapBackend newURL
  | .close _ => .closeBackend

theorem Swaps.bridge_after (s : Swaps M) (b : Bridge M) : (s.after b).bridge = b := by
  unfold Swaps.after
  split
  · rfl
  · rfl
  · split <;> rfl

/-- **The bridge takes the same steps.** -/
theorem Swaps.bridge_step {s s' : Swaps M} {a : SwapAction M} (h : s.step a = some s') :
    WebSocket.step s.bridge a.action = some s'.bridge := by
  cases a with
  | run c =>
    obtain ⟨b, hb, rfl⟩ := Option.map_eq_some_iff.1 h
    rw [Swaps.bridge_after]
    exact hb
  | goroutine a =>
    obtain ⟨-, h⟩ := Option.ite_none_right_eq_some.1 h
    obtain ⟨b, hb, rfl⟩ := Option.map_eq_some_iff.1 h
    exact hb
  | swapBackend newURL =>
    obtain rfl := Option.some.inj h
    rfl
  | close i =>
    obtain ⟨call, -, h⟩ := Option.bind_eq_some_iff.1 h
    obtain ⟨-, h⟩ := Option.ite_none_left_eq_some.1 h
    obtain ⟨b, hb, rfl⟩ := Option.map_eq_some_iff.1 h
    exact hb

end WebSocket

end StickyProxy
