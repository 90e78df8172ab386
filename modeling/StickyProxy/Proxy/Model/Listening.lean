import StickyProxy.Proxy.Model.SharedCache
/-!
# Announcements from publication to the cache

The way of an announcement through one replica that has its assignments in
Postgres. `Subscribe` connects, listens, and starts anew after a while when
it has lost the connection; only a session that listens is notified of what
is published. Its callback puts the backend into the channel of
`subscribeDebouncedNotifier`, or drops it if that is full. The loop there
collects the backends, and when the timer fires it runs `InvalidateBackend`
for each, one after the other, while others write to the cache.

Every announcement has with it how many writes to the cache there had been
when it was published, which the code does not know, and those that never
come to the channel are recorded.
-/

namespace StickyProxy

open Traversal

namespace Listening

/-- A backend that was published. -/
structure Event where
  backend : Backend
  /-- The writes to the cache before that. -/
  writes : ℕ
  deriving DecidableEq, Repr

/-- Where `Subscribe` and its `listen` are. -/
inductive Session where
  /-- The head of the loop: `ctx.Err()`. -/
  | check
  /-- `pgx.Connect`. -/
  | connect
  /-- `LISTEN`. -/
  | listen
  /-- `WaitForNotification`, with what the session was notified of. -/
  | wait (queue : List Event)
  /-- `onInvalidate`. -/
  | callback (e : Event) (queue : List Event)
  /-- The timer that is waited for before the next attempt. -/
  | reconnect
  | returned
  deriving DecidableEq, Repr

/-- What the session was notified of and has not passed on. -/
def Session.queue : Session → List Event
  | .wait queue => queue
  | .callback e queue => e :: queue
  | _ => []

/-- Where the loop of `subscribeDebouncedNotifier` is. -/
inductive Loop where
  | select
  /-- `InvalidateBackend` of the first backend left. -/
  | firing (todo : List Backend)
  /-- It goes through the cache. -/
  | sweeping (b : Backend) (tr : Traversal RoutingKey) (delete : Option RoutingKey)
      (todo : List Backend)
  | stopped
  deriving DecidableEq, Repr

structure State where
  session : Session
  ch : List Event
  pending : Finset Backend
  /-- `timer != nil`. -/
  timer : Bool
  loop : Loop
  /-- The writes to the cache. -/
  log : List (RoutingKey × Option CacheEntry)
  /-- The context is done. -/
  cancelled : Bool
  published : List Event
  /-- What has not come to the channel, and will not. -/
  missed : List Event
  deriving DecidableEq

/-- The capacity of `ch`. -/
def chCap : ℕ := 64

/-- `Subscribe` and the loop begin. -/
def State.start (log : List (RoutingKey × Option CacheEntry)) : State :=
  ⟨.check, [], ∅, false, .select, log, false, [], []⟩

inductive Action where
  /-- Some replica publishes the backend. -/
  | publish (b : Backend)
  /-- The context is cancelled. -/
  | cancel
  /-- The next step of `Subscribe`, with whether what it calls succeeds. -/
  | session (ok : Bool)
  /-- `case backend := <-ch`. -/
  | receive
  /-- `case <-timerC`, with the backends in the order the map lists them in. -/
  | fire (order : List Backend)
  /-- `Range` hands out a key. -/
  | visit (k : RoutingKey) (t : ℕ)
  /-- The next step of the loop within a firing. -/
  | loop
  /-- `case <-ctx.Done()`. -/
  | stop
  /-- Somebody else writes to the cache. -/
  | write (w : RoutingKey × Option CacheEntry)
  deriving DecidableEq

/-- The next step of `Subscribe`. When the context is done what it calls
fails. -/
def sessionStep (s : State) (ok : Bool) : Option State :=
  match s.session with
  | .check => some { s with session := if s.cancelled then .returned else .connect }
  | .connect => if ok && s.cancelled then none
    else some { s with session := if ok then .listen else .reconnect }
  | .listen => if ok && s.cancelled then none
    else some { s with session := if ok then .wait [] else .reconnect }
  | .wait queue =>
    match ok, queue with
    | true, e :: queue => some { s with session := .callback e queue }
    | true, [] => none
    -- What the session was notified of is gone with it.
    | false, queue => some { s with session := .reconnect, missed := s.missed ++ queue }
  | .callback e queue =>
    if s.ch.length < chCap then some { s with session := .wait queue, ch := s.ch ++ [e] }
    else some { s with session := .wait queue, missed := s.missed ++ [e] }
  -- The timer, or the context.
  | .reconnect => if ok then some { s with session := .check }
    else if s.cancelled then some { s with session := .returned } else none
  | .returned => none

/-- The next step of the loop when the timer has fired. -/
def loopStep (s : State) : Option State :=
  match s.loop with
  | .firing (b :: todo) => some { s with loop := .sweeping b (begin s.log) none todo }
  | .sweeping b tr (some k) todo =>
    some { s with log := s.log ++ [(k, none)], loop := .sweeping b tr none todo }
  | .sweeping _ tr none todo =>
    if tr.start ≤ s.log.length ∧ Complete s.log tr then some { s with loop := .firing todo }
    else none
  | .firing [] => some { s with pending := ∅, timer := false, loop := .select }
  | .select | .stopped => none

def step (s : State) : Action → Option State
  | .publish b =>
    let e : Event := ⟨b, s.log.length⟩
    let s := { s with published := s.published ++ [e] }
    some (match s.session with
      | .wait queue => { s with session := .wait (queue ++ [e]) }
      | .callback d queue => { s with session := .callback d (queue ++ [e]) }
      | _ => { s with missed := s.missed ++ [e] })
  | .cancel => some { s with cancelled := true }
  | .session ok => sessionStep s ok
  | .receive =>
    match s.loop, s.ch with
    | .select, e :: ch =>
      some { s with ch := ch, pending := insert e.backend s.pending, timer := true }
    | _, _ => none
  | .fire order =>
    if s.loop = .select ∧ s.timer = true ∧ Enumerates order s.pending then
      some { s with loop := .firing order }
    else none
  | .visit k t =>
    match s.loop with
    | .sweeping b tr none todo =>
      if Covers s.log tr t ∧ k ∉ tr.keys then
        (valueAt s.log t k).map fun entry => { s with
          loop := .sweeping b (tr.visit k t) (if entry.backend = b then some k else none) todo }
      else none
    | _ => none
  | .loop => loopStep s
  | .stop =>
    if s.loop = .select ∧ s.cancelled = true then some { s with loop := .stopped } else none
  | .write w => some { s with log := s.log ++ [w] }

/-- Nothing is under way: the session has passed on what it was notified of,
and the loop has dealt with it. -/
structure State.AtRest (s : State) : Prop where
  session : s.session.queue = []
  ch : s.ch = []
  pending : s.pending = ∅
  loop : s.loop = .select

end Listening

end StickyProxy
