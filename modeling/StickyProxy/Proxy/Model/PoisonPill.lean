import StickyProxy.Common.Table
import StickyProxy.Model.Assignment
import Mathlib.Data.Finset.Insert
/-!
# The poison pill detector

An account that is forced off its backend too often within a window is
quarantined, and requests for it are turned away. An operator may let it out
again. A ticker prunes the events that have left the window. The gauge of
the quarantined accounts is moved where an account goes into quarantine and
where it comes out.
-/

namespace StickyProxy

/-- Go's `PoisonPillDetector`. -/
structure PoisonPillDetector where
  events : Table RoutingKey (List Time)
  quarantine : Finset RoutingKey
  threshold : ℤ
  window : Time

namespace PoisonPillDetector

/-- `IsQuarantined`. -/
def isQuarantined (k : RoutingKey) (d : PoisonPillDetector) : Bool := k ∈ d.quarantine

/-- `RecordReassignment`, and whether the account is in quarantine now. -/
def recordReassignment (now : Time) (k : RoutingKey) (d : PoisonPillDetector) :
    Bool × PoisonPillDetector :=
  if k ∈ d.quarantine then (true, d)
  else
    let events := ((d.events.lookup k).getD [] ++ [now]).dropWhile (· < now - d.window)
    if d.threshold ≤ events.length then
      (true, { d with quarantine := insert k d.quarantine, events := d.events.erase k })
    else (false, { d with events := d.events.insert k events })

/-- `NewPoisonPillDetector`. -/
def new (threshold : ℤ) (window : Time) : PoisonPillDetector := ⟨∅, ∅, threshold, window⟩

/-- `prune`: a key whose events have all left the window is dropped. -/
def prune (now : Time) (d : PoisonPillDetector) : PoisonPillDetector :=
  { d with events := d.events.mapPartial fun events =>
      match events.dropWhile (· < now - d.window) with
      | [] => none
      | event :: rest => some (event :: rest) }

/-- The detector, and the gauge `quarantinedAccounts`. -/
structure Monitored where
  detector : PoisonPillDetector
  quarantinedAccounts : ℤ

/-- A call of the detector, with the time it reads. -/
inductive Call where
  | recordReassignment (now : Time) (k : RoutingKey)
  | unquarantine (now : Time) (k : RoutingKey)
  | prune (now : Time)
  deriving DecidableEq, Repr

def Call.time : Call → Time
  | .recordReassignment now _ | .unquarantine now _ | .prune now => now

namespace Monitored

/-- `RecordReassignment`, with `IncQuarantinedAccounts`. -/
def recordReassignment (now : Time) (k : RoutingKey) (m : Monitored) : Bool × Monitored :=
  if k ∈ m.detector.quarantine then (true, m)
  else
    let (blocked, d) := m.detector.recordReassignment now k
    (blocked, ⟨d, if blocked then m.quarantinedAccounts + 1 else m.quarantinedAccounts⟩)

/-- `Unquarantine`, with `DecQuarantinedAccounts`. -/
def unquarantine (k : RoutingKey) (m : Monitored) : Monitored :=
  if k ∈ m.detector.quarantine then
    ⟨{ m.detector with quarantine := m.detector.quarantine.erase k }, m.quarantinedAccounts - 1⟩
  else m

/-- A call, and what it returns. -/
def step (m : Monitored) : Call → Option Bool × Monitored
  | .recordReassignment now k =>
    let (blocked, m) := m.recordReassignment now k
    (some blocked, m)
  | .unquarantine _ k => (none, m.unquarantine k)
  | .prune now => (none, { m with detector := m.detector.prune now })

end Monitored

end PoisonPillDetector

end StickyProxy
