import StickyProxy.Common.Run
import Mathlib.Algebra.Order.Field.Rat
/-!
# The histogram of request durations

`RecordRequestDuration` counts an observation in the tightest bucket, then
in the total, and then adds it to the sum: it loads the sum and swaps in
the new one if nobody has changed it meanwhile, or tries again.
`MetricsHandler` reads the buckets one after the other, adding them up as it
goes, then the total, which it writes as the bucket `+Inf` and once more as
the count, then the sum. Every one of these reads and writes is
atomic and none is guarded by a lock, so the calls of both take their steps
in any order. Floats are values of a linear order with an addition about
which nothing is assumed; durations are never negative, so that equal
floats have equal bits.
-/

namespace StickyProxy

namespace Metrics

/-- `histogramBuckets`. -/
def histogramBuckets : List ℚ :=
  [1/1000, 1/200, 1/100, 1/40, 1/20, 1/10, 1/4, 1/2, 1, 5/2, 5, 10]

variable {F : Type*}

/-- Go's `histogram`. The buckets are not cumulative. -/
structure Histogram (F : Type*) where
  buckets : List ℕ
  count : ℕ
  sum : F
  deriving DecidableEq, Repr

/-- A call of `RecordRequestDuration`, and what it does next. -/
inductive Observation (F : Type*) where
  /-- It increments the bucket. -/
  | bucket (seconds : F)
  /-- It increments the total. -/
  | count (seconds : F)
  /-- It loads the sum. -/
  | load (seconds : F)
  /-- It compares and swaps, with the sum it has loaded. -/
  | swap (seconds oldVal : F)
  | done (seconds : F)
  deriving DecidableEq, Repr

/-- A call of `MetricsHandler`, with the lines it has written: one for each
bound, and the total for `+Inf`. -/
inductive Scrape (F : Type*) where
  /-- It reads the next bucket, or the total when there is none left. -/
  | buckets (rows : List ℕ) (cumulative : ℕ)
  /-- It reads the sum. -/
  | sum (rows : List ℕ) (totalCount : ℕ)
  | done (rows : List ℕ) (totalCount : ℕ) (sum : F)
  deriving DecidableEq, Repr

/-- The histogram and the calls under way. -/
structure State (F : Type*) where
  histogram : Histogram F
  observations : List (Observation F)
  scrapes : List (Scrape F)
  deriving DecidableEq, Repr

inductive Action where
  /-- The observation at an index takes a step. -/
  | observe (i : ℕ)
  /-- The scrape at an index takes a step. -/
  | scrape (j : ℕ)
  deriving DecidableEq, Repr

section Steps

variable [LinearOrder F] (add : F → F → F) (bounds : List F)

/-- The bucket an observation belongs to: the first with a bound it does not
exceed. -/
def tightest (seconds : F) : Option ℕ := bounds.findIdx? fun bound => seconds ≤ bound

/-- A step of `RecordRequestDuration`. -/
def Observation.step (h : Histogram F) : Observation F → Option (Histogram F × Observation F)
  | .bucket seconds =>
    match tightest bounds seconds with
    | some i => some ({ h with buckets := h.buckets.modify i (· + 1) }, .count seconds)
    | none => some (h, .count seconds)
  | .count seconds => some ({ h with count := h.count + 1 }, .load seconds)
  | .load seconds => some (h, .swap seconds h.sum)
  | .swap seconds oldVal =>
    if h.sum = oldVal then some ({ h with sum := add oldVal seconds }, .done seconds)
    else some (h, .load seconds)
  | .done _ => none

omit [LinearOrder F] in
/-- A step of `MetricsHandler`. -/
def Scrape.step (h : Histogram F) : Scrape F → Option (Scrape F)
  | .buckets rows cumulative =>
    match h.buckets[rows.length]? with
    | some n => some (.buckets (rows ++ [cumulative + n]) (cumulative + n))
    | none => some (.sum rows h.count)
  | .sum rows totalCount => some (.done rows totalCount h.sum)
  | .done _ _ _ => none

def step (s : State F) : Action → Option (State F)
  | .observe i =>
    (s.observations[i]?).bind fun o => (o.step add bounds s.histogram).map fun p =>
      { s with histogram := p.1, observations := s.observations.set i p.2 }
  | .scrape j =>
    (s.scrapes[j]?).bind fun c => (c.step s.histogram).map fun c =>
      { s with scrapes := s.scrapes.set j c }

omit [LinearOrder F] in
/-- Nothing has been observed yet; these durations are going to be, and this
many scrapes made. -/
def State.start (zero : F) (durations : List F) (scrapes : ℕ) : State F where
  histogram := ⟨List.replicate bounds.length 0, 0, zero⟩
  observations := durations.map .bucket
  scrapes := List.replicate scrapes (.buckets [] 0)

end Steps

end Metrics

end StickyProxy
