import StickyProxy.Proxy.Model.PublicPath
import StickyProxy.Proxy.Routing
import StickyProxy.Store.Effects
/-!
# Binding a key on a public path

`bindStickyKey` writes the cache, calls `BulkAssign` and sends the hook, one
after the other and each for itself. `BulkAssign` sets what is absent, and
its answer is not looked at: for a key that is assigned already the table
keeps its backend while the cache and the hook have the one that answered.
So the three agree exactly if the key is free or is on that backend already.
-/

namespace StickyProxy

namespace PublicPath

variable {req : Request} {s : Replica} {k : RoutingKey} {b c : Backend} {now : Time}

/-- The backend of the cached entry. -/
def Replica.cached (k : RoutingKey) (s : Replica) : Option Backend :=
  (s.proxy.cache.data.lookup k).map (·.backend)

/-- The backend of the stored assignment. -/
def Replica.stored (k : RoutingKey) (s : Replica) : Option Backend :=
  (s.proxy.store.getAssignment k).map (·.backend)

/-- The backends told about the key from one state to the next. -/
def told (k : RoutingKey) (s s' : Replica) : List Backend :=
  ((s'.sendAssign.drop s.sendAssign.length).filter fun m => k ∈ m.2).map Prod.fst

/-- The cache, the table and the hook have one backend for the key. -/
def Coherent (k : RoutingKey) (s s' : Replica) : Prop :=
  ∃ b, s'.cached k = some b ∧ s'.stored k = some b ∧ ∀ c ∈ told k s s', c = b

/-! ## What is written where -/

theorem cached_bindStickyKey (call : BulkAssign) :
    (bindStickyKey call now k b s).cached k = some b := by
  simp only [Replica.cached, bindStickyKey, UserCache.set, Table.lookup_insert_eq, if_true,
    Option.map_some]

/-- The hook tells the backend that answered, if there are hooks. -/
theorem told_bindStickyKey (call : BulkAssign) :
    told k s (bindStickyKey call now k b s) = if s.hooks then [b] else [] := by
  unfold told bindStickyKey
  dsimp only
  split
  · rw [List.drop_left]
    simp
  · rw [List.drop_length]
    rfl

theorem stored_bindStickyKey_of_occupied (hmode : s.proxy.routingMode = .assignment)
    (h : s.proxy.store.Occupied k) :
    (bindStickyKey .succeeds now k b s).stored k = s.stored k := by
  simp only [Replica.stored, bindStickyKey, hmode, BulkAssign.left,
    Store.getAssignment_bulkAssign_of_occupied h]

theorem stored_bindStickyKey_of_not_occupied (hmode : s.proxy.routingMode = .assignment)
    (h : ¬ s.proxy.store.Occupied k) :
    (bindStickyKey .succeeds now k b s).stored k = some b := by
  have hentry : (Table.insertAll ∅ [(k, ⟨b, 1⟩)] : Table RoutingKey BulkAssignEntry).lookup k =
      some ⟨b, 1⟩ := AList.lookup_insert _
  simp only [Replica.stored, bindStickyKey, hmode, BulkAssign.left,
    Store.getAssignment_bulkAssign_of_not_occupied h, hentry, Option.map_some]

/-- The table has the key free, or on the backend. -/
def FreeOrOn (k : RoutingKey) (b : Backend) (s : Replica) : Prop :=
  ¬ s.proxy.store.Occupied k ∨ s.stored k = some b

theorem stored_bindStickyKey_iff (hmode : s.proxy.routingMode = .assignment) :
    (bindStickyKey .succeeds now k b s).stored k = some b ↔ FreeOrOn k b s := by
  by_cases hocc : s.proxy.store.Occupied k
  · rw [stored_bindStickyKey_of_occupied hmode hocc]
    exact (or_iff_right (not_not_intro hocc)).symm
  · exact iff_of_true (stored_bindStickyKey_of_not_occupied hmode hocc) (Or.inl hocc)

/-- **When a binding is coherent**, in any state it is made in. -/
theorem coherent_bindStickyKey_iff (hmode : s.proxy.routingMode = .assignment) :
    Coherent k s (bindStickyKey .succeeds now k b s) ↔ FreeOrOn k b s := by
  rw [← stored_bindStickyKey_iff hmode]
  constructor
  · rintro ⟨c, hcached, hstored, -⟩
    rw [cached_bindStickyKey] at hcached
    exact hstored.trans hcached.symm
  · intro hstored
    refine ⟨b, cached_bindStickyKey _, hstored, fun c hc => ?_⟩
    rw [told_bindStickyKey] at hc
    split at hc
    · exact List.mem_singleton.1 hc
    · exact absurd hc List.not_mem_nil

/-- A request that is handed to a backend leaves what the binding does. -/
theorem servePublic_of_proxyRequest (h : (servePublic req s).1 = .proxyRequest b k) (hk : k ≠ "") :
    (servePublic req s).2 =
      bindStickyKey req.bulkAssign req.now k b (s.proxyRequest b req.call) := by
  unfold servePublic at h ⊢
  generalize req.activeBackends = listed at h ⊢
  rcases listed with - | backends
  · cases h
  dsimp only at h ⊢
  generalize pick (hashUser req.remoteAddr) (sortStrings backends) = picked at h ⊢
  rcases picked with - | b'
  · cases h
  obtain ⟨rfl, rfl⟩ := Outcome.proxyRequest.inj h
  exact if_pos hk

/-- **When a public path binds coherently**: exactly if the key that is
announced has no assignment, or has the backend that answers already. -/
theorem servePublic_coherent_iff (req : Request) (s : Replica) (b : Backend) (k : RoutingKey)
    (hmode : s.proxy.routingMode = .assignment) (hcall : req.bulkAssign = .succeeds)
    (hbound : (servePublic req s).1 = .proxyRequest b k) (hk : k ≠ "") :
    Coherent k s (servePublic req s).2 ↔ FreeOrOn k b s := by
  rw [servePublic_of_proxyRequest hbound hk, hcall]
  -- Proxying the request has touched the failure table only.
  exact coherent_bindStickyKey_iff (s := s.proxyRequest b req.call) hmode

/-- A replica with two backends, one of which has a key. -/
def loginReplica : Replica where
  proxy :=
    { store := .redis ⟨Table.insertAll ∅ [("u", marshalAssignment ⟨"b1", 1, "assignment", 1⟩)],
        Table.insertAll ∅ [("b1", 1)], {"b1", "b2"}⟩
      cache := ⟨100, ∅⟩
      backends := ⟨∅, 3, 30⟩
      draining := some ∅
      redis := some ⟨0, .closed, 0, 5, 30, []⟩
      poisonPill := none
      routingMode := .assignment }
  hooks := true
  sendAssign := []

/-- A login that is answered with a routing key. The address of the client
selects the second backend. -/
def login (k : RoutingKey) : Request :=
  ⟨"10.0.0.2:40000", 20, some ["b2", "b1"], ⟨20, 21, .response⟩, [k], .succeeds⟩

theorem servePublic_coherent_iff_newUser :
    FreeOrOn "v" "b2" loginReplica ∧
      Coherent "v" loginReplica (servePublic (login "v") loginReplica).2 := by
  have hfree : FreeOrOn "v" "b2" loginReplica := Or.inl Bool.false_ne_true
  exact ⟨hfree, (servePublic_coherent_iff (login "v") loginReplica "b2" "v" rfl rfl
    (by decide +kernel) (by decide)).2 hfree⟩

/-- **A login that leaves two backends for a key**: its assignment stays
where it is, and the cache and the hook have the backend that answered. -/
theorem second_login_splits :
    ¬ ∀ (req : Request) (s : Replica) (b : Backend) (k : RoutingKey) (order : List Backend),
      s.proxy.routingMode = .assignment → req.bulkAssign = .succeeds →
      req.activeBackends = some order → Enumerates order s.proxy.store.active →
      (servePublic req s).1 = .proxyRequest b k → k ≠ "" → Coherent k s (servePublic req s).2 := by
  intro h
  have hcached : (servePublic (login "u") loginReplica).2.cached "u" = some "b2" := by
    decide +kernel
  have hstored : (servePublic (login "u") loginReplica).2.stored "u" = some "b1" := by
    decide +kernel
  obtain ⟨b, hb, hb', -⟩ := h (login "u") loginReplica "b2" "u" ["b2", "b1"] rfl rfl rfl (by decide)
    (by decide +kernel) (by decide)
  rw [hcached] at hb
  rw [hstored, ← hb] at hb'
  exact absurd hb' (by decide)

end PublicPath

end StickyProxy
