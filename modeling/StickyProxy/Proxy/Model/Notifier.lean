import StickyProxy.Proxy.Model.UserCache
/-!
# The debounced notifier

`subscribeDebouncedNotifier` collects the backends that other replicas
announce, and invalidates them in the cache when a timer fires. The callback
of the subscription, the loop, its timer and whoever else writes to the
cache take their steps in any order, those of the loop in the order of the
source. `InvalidateBackend` is one step here, as if nobody else wrote while it
goes through the cache; its single reads and deletes, and the writes that
come between them, are in the model of the shared cache.
-/

namespace StickyProxy

namespace Notifier

/-- The capacity of `ch`. -/
def chCap : ℕ := 64

/-- Where the loop is. -/
inductive Phase where
  | select
  /-- `InvalidateBackend` of the first backend left. -/
  | firing (todo : List Backend)
  | stopped
  deriving DecidableEq, Repr

/-- The variables of `subscribeDebouncedNotifier`. -/
structure Subscriber where
  ch : List Backend
  pending : Finset Backend
  /-- `timer != nil`. -/
  timer : Bool
  /-- `timerC != nil`. -/
  timerC : Bool
  /-- The timer last made is running, or its time has come and nobody has
  received it. -/
  armed : Bool
  phase : Phase
  cache : UserCache

/-- The loop begins. -/
def Subscriber.start (cache : UserCache) : Subscriber :=
  ⟨[], ∅, false, false, false, .select, cache⟩

inductive Action where
  /-- The callback of the subscription. -/
  | announce (b : Backend)
  /-- `case backend := <-ch`. -/
  | receive (b : Backend)
  /-- `case <-timerC`, with the backends in the order the map lists them in. -/
  | fire (order : List Backend)
  /-- `cache.InvalidateBackend`, from its beginning to its end. -/
  | invalidate (b : Backend)
  /-- `clear(pending)`, and the end of the firing. -/
  | clear
  /-- `case <-ctx.Done()`. -/
  | done
  /-- Somebody else writes to the cache. -/
  | other (cache : UserCache)

def step (s : Subscriber) : Action → Option Subscriber
  | .announce b => some (if s.ch.length < chCap then { s with ch := s.ch ++ [b] } else s)
  | .receive b =>
    match s.phase, s.ch with
    | .select, b' :: rest =>
      if b = b' then
        let s := { s with ch := rest, pending := insert b s.pending }
        some (if s.timer then s else { s with timer := true, timerC := true, armed := true })
      else none
    | _, _ => none
  | .fire order =>
    if s.phase = .select ∧ s.timerC = true ∧ s.armed = true ∧ Enumerates order s.pending then
      some { s with phase := .firing order, armed := false }
    else none
  | .invalidate b =>
    match s.phase with
    | .firing (b' :: todo) =>
      if b = b' then
        some { s with cache := s.cache.invalidateBackend b, phase := .firing todo }
      else none
    | _ => none
  | .clear =>
    if s.phase = .firing [] then
      some { s with pending := ∅, timer := false, timerC := false, phase := .select }
    else none
  | .done => if s.phase = .select then some { s with phase := .stopped, armed := false } else none
  | .other cache => some { s with cache := cache }

end Notifier

end StickyProxy
