import StickyProxy.Ownership.Model.Checker
/-!
# A pass as a whole

`check` and `checkBatch` as the source has them, for a pass nobody
interferes with and any size of its batches. The keys that have been asked
for are kept beside the checker. What the `n`-th `MGET` finds is given;
nothing if it fails.
-/

namespace StickyProxy

namespace Ownership

open Sticky

/-- A pass under way: the keys asked for, and the checker. -/
structure Progress where
  queried : List String
  checker : Checker
  deriving DecidableEq

/-- The loop of `checkBatch`, for one value. -/
def judge (p : Progress) (v : RoutingKey × Option String) : Progress :=
  if owner v.2 = p.checker.myAddr then p
  else { p with checker := { p.checker with
    users := p.checker.users.erase v.1
    evicted := p.checker.evicted ++ [v.1] } }

/-- `checkBatch`. -/
def checkBatch (found : Option Strings) (userIDs : List RoutingKey) (p : Progress) : Progress :=
  let keys := userIDs.map stickyKey
  let p := { p with queried := p.queried ++ keys }
  match found with
  | none => p
  | some strings => (userIDs.zip (keys.map strings.lookup)).foldl judge p

/-- The loop of `check`, with the number of the batch and the index it
begins at; nothing if the fuel runs out. -/
def checkFrom (size : ℕ) (mget : ℕ → Option Strings) (userIDs : List RoutingKey) :
    ℕ → ℕ → ℕ → Progress → Option Progress
  | 0, _, _, _ => none
  | fuel + 1, n, i, p =>
    if i < userIDs.length then
      let stop := min (i + size) userIDs.length
      checkFrom size mget userIDs fuel (n + 1) (i + size)
        (checkBatch (mget n) ((userIDs.take stop).drop i) p)
    else some p

/-- `check`, with the users in the order the map lists them in. -/
def checkPass (fuel size : ℕ) (mget : ℕ → Option Strings) (userIDs : List RoutingKey)
    (c : Checker) : Option Progress :=
  if userIDs = [] then some ⟨[], c⟩
  else checkFrom size mget userIDs fuel 0 0 ⟨[], c⟩

/-- The batches of that size. -/
def batchesOf (size : ℕ) (userIDs : List RoutingKey) : List (List RoutingKey) :=
  (List.range ((userIDs.length + size - 1) / size)).map fun i =>
    (userIDs.drop (i * size)).take size

end Ownership

end StickyProxy
