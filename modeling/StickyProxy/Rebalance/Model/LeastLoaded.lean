import StickyProxy.Model.Assignment
import StickyProxy.Common.Table
/-!
# The least-loaded strategy

`LeastLoadedStrategy.ComputeMoves` sums the weight on every backend, takes
the average over the active ones as its ideal, and lets the backends with
something to give away offer their users one after the other. Go ranges
over its maps in any order: the accounts come as a list in the order one
range over `assignments` gives them, and the donors as a list in the order
a range over `backendUsers` does.
-/

namespace StickyProxy

/-- Go's `Move`. -/
structure Move where
  routingKey : RoutingKey
  fromBackend : Backend
  toBackend : Backend
  deriving DecidableEq, Repr

namespace LeastLoaded

/-- What has been planned: the weight each backend is going to have, and
the moves that bring it there. -/
structure Plan where
  planned : Table Backend ℤ
  moves : List Move

/-- `weights`: zero for an active backend without users. -/
def weights (activeBackends : List Backend) (users : List (RoutingKey × Assignment)) :
    Table Backend ℤ :=
  Table.bumpAll (Table.insertAll ∅ (activeBackends.map fun b => (b, 0)))
    (users.map fun u => (u.2.backend, u.2.effectiveWeight))

/-- `ideal`. The total is not negative, so the division rounds down. -/
def ideal (activeBackends : List Backend) (users : List (RoutingKey × Assignment)) : ℤ :=
  let ideal := Table.total (fun _ w => w) (weights activeBackends users) / activeBackends.length
  if ideal = 0 then 1 else ideal

/-- The loop that picks a target: the least loaded of the active backends
that are below the ideal and can take the weight; no name if there is
none. -/
def target (activeBackends : List Backend) (ideal : ℤ) (planned : Table Backend ℤ) (w : ℤ) :
    Backend :=
  (activeBackends.foldl (fun best b =>
    if planned.value b < best.2 ∧ planned.value b + w ≤ ideal + 1 then (b, planned.value b)
    else best) ("", ideal)).1

/-- One round of the loop over the users of a backend, with what has been
moved off it so far. -/
def offer (activeBackends : List Backend) (ideal excess : ℤ) (backend : Backend)
    (st : ℤ × Plan) (user : RoutingKey × Assignment) : ℤ × Plan :=
  -- Once the loop would break, no later round does anything either.
  if excess ≤ st.1 then st
  else
    let w := user.2.effectiveWeight
    let target := target activeBackends ideal st.2.planned w
    if target = "" then st
    else (st.1 + w,
      { planned := (st.2.planned.bump target w).bump backend (-w)
        moves := st.2.moves ++ [⟨user.1, backend, target⟩] })

/-- `excess`: what a backend needs to shed, if anything. -/
def excess (activeBackends : List Backend) (users : List (RoutingKey × Assignment))
    (backend : Backend) : Option ℤ :=
  let weight := (weights activeBackends users).value backend
  let ideal := ideal activeBackends users
  if backend ∉ activeBackends then some weight
  else if ideal + 1 < weight then some (weight - ideal - 1)
  else none

/-- `backendUsers[backend]`. -/
def backendUsers (users : List (RoutingKey × Assignment)) (backend : Backend) :
    List (RoutingKey × Assignment) :=
  users.filter fun u => u.2.backend = backend

/-- One round of the loop over `backendUsers`. -/
def donate (activeBackends : List Backend) (users : List (RoutingKey × Assignment)) (plan : Plan)
    (backend : Backend) : Plan :=
  match excess activeBackends users backend with
  | some e => ((backendUsers users backend).foldl
      (offer activeBackends (ideal activeBackends users) e backend) (0, plan)).2
  | none => plan

/-- What is planned once the donors have had their turn. -/
def planAfter (activeBackends : List Backend) (users : List (RoutingKey × Assignment))
    (donors : List Backend) : Plan :=
  donors.foldl (donate activeBackends users) ⟨weights activeBackends users, []⟩

/-- `ComputeMoves`. -/
def computeMoves (activeBackends : List Backend) (users : List (RoutingKey × Assignment))
    (donors : List Backend) : List Move :=
  if activeBackends.length = 0 then [] else (planAfter activeBackends users donors).moves

/-- The lists are what a range over the table, and one over the backends
its accounts are on, may give out. -/
structure Ranges (assignments : Table RoutingKey Assignment)
    (users : List (RoutingKey × Assignment)) (donors : List Backend) : Prop where
  perm : users.Perm (Table.pairs assignments)
  donors : Enumerates donors (users.map fun u => u.2.backend).toFinset

end LeastLoaded

end StickyProxy
