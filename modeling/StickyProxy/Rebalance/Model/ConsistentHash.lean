import StickyProxy.Model.Hashing
import StickyProxy.Rebalance.Model.LeastLoaded
/-!
# The consistent-hash strategy

`ConsistentHashStrategy.ComputeMoves` hashes every account over the sorted
backends and moves those that are elsewhere. The accounts come as a list,
in the order one range over `assignments` gives them.
-/

namespace StickyProxy

namespace ConsistentHash

/-- `sorted[hash%uint32(len(sorted))]`, of a list that is not empty. -/
def target (activeBackends : List Backend) (user : RoutingKey) : Option Backend :=
  pick (hashUser user) (sortStrings activeBackends)

/-- One round of the loop over the accounts. -/
def move (activeBackends : List Backend) (user : RoutingKey × Assignment) : Option Move :=
  (target activeBackends user.1).bind fun target =>
    if target ≠ user.2.backend then some ⟨user.1, user.2.backend, target⟩ else none

/-- `ComputeMoves`. -/
def computeMoves (activeBackends : List Backend) (users : List (RoutingKey × Assignment)) :
    List Move :=
  if activeBackends.length = 0 then [] else users.filterMap (move activeBackends)

/-- A move goes to the target of its account. -/
theorem target_of_mem_computeMoves {activeBackends : List Backend}
    {users : List (RoutingKey × Assignment)} {m : Move}
    (h : m ∈ computeMoves activeBackends users) :
    target activeBackends m.routingKey = some m.toBackend := by
  unfold computeMoves at h
  split at h
  · cases h
  · obtain ⟨user, -, hmove⟩ := List.mem_filterMap.1 h
    obtain ⟨t, ht, hmove⟩ := Option.bind_eq_some_iff.1 hmove
    obtain ⟨-, hm⟩ := Option.ite_none_right_eq_some.1 hmove
    cases hm
    exact ht

end ConsistentHash

end StickyProxy
