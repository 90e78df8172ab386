import StickyProxy.Proxy.Model.Serve
import StickyProxy.Rebalance.Model.ConsistentHash
/-!
# What two replicas pick

Replicas that route by hash do not talk to each other: they agree because
each picks from the same list. `SMEMBERS` and a Go map give the backends
out in any order, so `assignViaHash` and the consistent-hash strategy sort
the list first. `hashFallback` picks from the list as `RefreshBackendList`
stored it, and there two replicas with the same backends send an account
to different ones, unless the place the account hashes to has the same
backend in both lists.
-/

namespace StickyProxy

variable {order order' : List Backend} {s : Finset Backend}

theorem Enumerates.perm (h : Enumerates order s) (h' : Enumerates order' s) :
    order.Perm order' := by
  rw [List.perm_ext_iff_of_nodup h.1 h'.1]
  intro b
  rw [h.mem, h'.mem]

theorem Enumerates.length_eq (h : Enumerates order s) : order.length = s.card := by
  rw [← h.2, List.toFinset_card_of_nodup h.1]

/-- Sorting loses the order a list came in. -/
theorem sortStrings_eq_of_perm (h : order.Perm order') :
    sortStrings order = sortStrings order' := by
  have hperm : (sortStrings order).Perm (sortStrings order') :=
    ((List.perm_insertionSort (· ≤ ·) order).trans h).trans
      (List.perm_insertionSort (· ≤ ·) order').symm
  exact hperm.eq_of_pairwise' (List.pairwise_insertionSort _ order)
    (List.pairwise_insertionSort _ order')

/-- The place `hashFallback` looks at for an account, among `n` backends. -/
def fallbackPlace (k : RoutingKey) (n : ℕ) : ℕ :=
  (checksumIEEE (hashBytes (hashUser k))).toNat % n

theorem hashFallback_eq (k : RoutingKey) (br : Breaker) :
    br.hashFallback (hashUser k) =
      (br.cachedBackends[fallbackPlace k br.cachedBackends.length]?).getD "" := rfl

/-- Two lists of one length have an entry at a place or neither has. -/
theorem getD_getElem?_eq_iff {n : ℕ} (h : order.length = order'.length) :
    (order[n]?).getD "" = (order'[n]?).getD "" ↔ order[n]? = order'[n]? := by
  rcases Nat.lt_or_ge n order.length with hlt | hge
  · rw [List.getElem?_eq_getElem hlt, List.getElem?_eq_getElem (h ▸ hlt), Option.getD_some,
      Option.getD_some, Option.some.injEq]
  · rw [List.getElem?_eq_none hge, List.getElem?_eq_none (h ▸ hge)]
    exact iff_of_true rfl rfl

/-- **Where replicas agree.** For every account and any two orders of one
set of backends: `assignViaHash` picks one backend on both replicas, and so
does the consistent-hash strategy, whatever table it is given; and
`hashFallback` does exactly if the two lists have the same backend at the
place the account hashes to. -/
theorem replicas_agree_iff (k : RoutingKey) (hs : Enumerates order s) (hs' : Enumerates order' s) :
    (∀ req req' : Request, req.key = k → req'.key = k → req.order = order →
      req'.order = order' → Proxy.assignViaHash req = Proxy.assignViaHash req') ∧
    (ConsistentHash.target order k = ConsistentHash.target order' k ∧
      ∀ users users' m m', m ∈ ConsistentHash.computeMoves order users →
        m' ∈ ConsistentHash.computeMoves order' users' → m.routingKey = k → m'.routingKey = k →
        m.toBackend = m'.toBackend) ∧
    ∀ br br' : Breaker, br.cachedBackends = order → br'.cachedBackends = order' →
      (br.hashFallback (hashUser k) = br'.hashFallback (hashUser k) ↔
        order[fallbackPlace k s.card]? = order'[fallbackPlace k s.card]?) := by
  have hsorted : sortStrings order = sortStrings order' := sortStrings_eq_of_perm (hs.perm hs')
  have htarget : ConsistentHash.target order k = ConsistentHash.target order' k := by
    rw [ConsistentHash.target, ConsistentHash.target, hsorted]
  refine ⟨?_, ⟨htarget, ?_⟩, ?_⟩
  · intro req req' hk hk' ho ho'
    rw [Proxy.assignViaHash, Proxy.assignViaHash, hk, hk', ho, ho', hsorted]
  · intro users users' m m' hm hm' hk hk'
    have h := ConsistentHash.target_of_mem_computeMoves hm
    have h' := ConsistentHash.target_of_mem_computeMoves hm'
    rw [hk] at h
    rw [hk'] at h'
    exact Option.some.inj (h.symm.trans (htarget.trans h'))
  · intro br br' ho ho'
    rw [hashFallback_eq, hashFallback_eq, ho, ho', hs.length_eq, hs'.length_eq]
    exact getD_getElem?_eq_iff (hs.length_eq.trans hs'.length_eq.symm)

/-- Lists in the same order, whatever it is that orders them, are one list, so
with them `hashFallback` agrees on every account. -/
theorem hashFallback_eq_of_ordered {r : Backend → Backend → Prop} [Std.Antisymm r]
    (hs : Enumerates order s) (hs' : Enumerates order' s) (h : order.Pairwise r)
    (h' : order'.Pairwise r) (k : RoutingKey) {br br' : Breaker}
    (hbr : br.cachedBackends = order) (hbr' : br'.cachedBackends = order') :
    br.hashFallback (hashUser k) = br'.hashFallback (hashUser k) := by
  have horder : order = order' := (hs.perm hs').eq_of_pairwise' h h'
  rw [hashFallback_eq, hashFallback_eq, hbr, hbr', horder]

/-- A breaker with a cached list. -/
def cachedBreaker (order : List Backend) : Breaker := ⟨0, .closed, 0, 5, 30, order⟩

/-- Three backends, of which the outer two come the other way round on the
second replica: the account hashes to the middle. -/
theorem replicas_agree_middle :
    (cachedBreaker ["b1", "b2", "b3"]).hashFallback (hashUser "u") =
      (cachedBreaker ["b3", "b2", "b1"]).hashFallback (hashUser "u") :=
  ((replicas_agree_iff (s := {"b1", "b2", "b3"}) "u" (by decide) (by decide)).2.2
    (cachedBreaker ["b1", "b2", "b3"]) (cachedBreaker ["b3", "b2", "b1"]) rfl rfl).2
      (by decide +kernel)

/-- **Two replicas, two backends.** The same set in two orders: the account
is sent to `b1` by one replica and to `b2` by the other. -/
theorem fallbacks_differ :
    Enumerates ["b1", "b2"] {"b1", "b2"} ∧ Enumerates ["b2", "b1"] {"b1", "b2"} ∧
      (cachedBreaker ["b1", "b2"]).hashFallback (hashUser "u") ≠
        (cachedBreaker ["b2", "b1"]).hashFallback (hashUser "u") := by
  decide +kernel

end StickyProxy
