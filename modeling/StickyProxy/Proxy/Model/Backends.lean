import StickyProxy.Common.Table
import StickyProxy.Model.Assignment
/-!
# The backend manager

The failure table of the `BackendManager` and the three functions that
touch it: `Available`, which also drops an entry whose eviction has run
out, `recordFailure`, and `ProxyRequest`, which runs the first before it
forwards and the second when forwarding fails. A new entry has the zero
time as its `until`.
-/

namespace StickyProxy

/-- Go's `failure`: how often forwarding failed, and the end of the
eviction (`until`). -/
structure Failure where
  count : ℤ
  evictedUntil : Time
  deriving DecidableEq, Repr

/-- The fields of `BackendManager` that decide about eviction. -/
structure BackendManager where
  failures : Table Backend Failure
  evictionThreshold : ℤ
  evictionCooldown : Time

namespace BackendManager

/-- `Available`, at the time `now`. -/
def available (now : Time) (b : Backend) (m : BackendManager) : Bool × BackendManager :=
  match m.failures.lookup b with
  | none => (true, m)
  | some f =>
    if f.evictedUntil < now then (true, { m with failures := m.failures.erase b })
    else (false, m)

/-- `recordFailure`, and whether it evicts the backend. -/
def recordFailure (now : Time) (b : Backend) (m : BackendManager) : Bool × BackendManager :=
  let f := (m.failures.lookup b).getD ⟨0, 0⟩
  let count := f.count + 1
  let shouldEvict := decide (m.evictionThreshold ≤ count)
  let evictedUntil := if shouldEvict then now + m.evictionCooldown else f.evictedUntil
  (shouldEvict, { m with failures := m.failures.insert b ⟨count, evictedUntil⟩ })

/-- How forwarding a request ends. -/
inductive Forward where
  | response
  | error
  deriving DecidableEq, Repr

/-- A call of `ProxyRequest` to one backend: when it starts, how
forwarding would end and when. -/
structure Call where
  start : Time
  finish : Time
  forward : Forward
  deriving DecidableEq, Repr

/-- `ProxyRequest` to a backend whose URL parses. -/
def proxyRequest (b : Backend) (c : Call) (m : BackendManager) : BackendManager :=
  let (ok, m) := m.available c.start b
  if ok then
    match c.forward with
    | .response => m
    | .error => (m.recordFailure c.finish b).2
  else m

/-- Calls made one after another. -/
def proxyRequests (b : Backend) (calls : List Call) (m : BackendManager) : BackendManager :=
  calls.foldl (fun m c => m.proxyRequest b c) m

/-- The calls follow one another from time `t` on, after the zero time. -/
def Timed : Time → List Call → Prop
  | _, [] => True
  | t, c :: cs => t ≤ c.start ∧ 0 < c.start ∧ c.start ≤ c.finish ∧ Timed c.finish cs

/-- Each of the calls is let through, and forwarding fails. -/
def AllFail (b : Backend) : List Call → BackendManager → Prop
  | [], _ => True
  | c :: cs, m => (m.available c.start b).1 = true ∧ c.forward = .error ∧
      AllFail b cs (m.proxyRequest b c)

instance decidableTimed : ∀ (t : Time) (calls : List Call), Decidable (Timed t calls)
  | _, [] => isTrue trivial
  | t, c :: cs =>
    have : Decidable (Timed c.finish cs) := decidableTimed c.finish cs
    inferInstanceAs (Decidable (t ≤ c.start ∧ 0 < c.start ∧ c.start ≤ c.finish ∧ _))

instance decidableAllFail (b : Backend) :
    ∀ (calls : List Call) (m : BackendManager), Decidable (AllFail b calls m)
  | [], _ => isTrue trivial
  | c :: cs, m =>
    have : Decidable (AllFail b cs (m.proxyRequest b c)) := decidableAllFail b cs _
    inferInstanceAs (Decidable (_ = _ ∧ _ = _ ∧ _))

end BackendManager

end StickyProxy
