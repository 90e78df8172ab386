import StickyProxy.Drain.Model.Replica
import StickyProxy.Store.Effects
import StickyProxy.Common.Run
import StickyProxy.Common.Pool
/-!
# What a drain leaves behind

The drain reads the users of its backend once and clears what it has read.
Until it reads them every pointer to the backend belongs to one of its
users; afterwards every pointer belongs to a user it has still to clear.
The backend stays active until the end, though, and its load drops to
nothing in between, so a request may be placed on it, or finish being
placed on it, after the drain has passed. `Timely` is the condition that
none is.
-/

namespace StickyProxy

namespace Drain

variable {b : Backend} {s s' : Replica} {k : RoutingKey}

/-! ## How far the drain is -/

/-- The users have not been read. -/
def DrainStep.BeforeSnapshot : DrainStep → Prop
  | .start | .lock | .getBackendUsers => True
  | _ => False

/-- The backend has not been removed. -/
def DrainStep.BeforeRemoval : DrainStep → Prop
  | .unmark | .finished => False
  | _ => True

/-- The assignment of the user is still to be deleted. -/
def DrainStep.ToDelete (k : RoutingKey) : DrainStep → Prop
  | .sendUnassign users | .bulkDeleteAssignments users => k ∈ users
  | _ => False

/-- The cache entry of the user is still to be invalidated. -/
def DrainStep.ToInvalidate (k : RoutingKey) : DrainStep → Prop
  | .sendUnassign users | .bulkDeleteAssignments users => k ∈ users
  | .invalidate todo | .closeConns _ todo => k ∈ todo
  | _ => False

/-- The bridges of the user are still to be closed. -/
def DrainStep.ToClose (k : RoutingKey) : DrainStep → Prop
  | .sendUnassign users | .bulkDeleteAssignments users => k ∈ users
  | .invalidate todo => k ∈ todo
  | .closeConns u todo => k = u ∨ k ∈ todo
  | _ => False

/-- The key is assigned to the backend in the store. -/
def Replica.StoredOn (b : Backend) (k : RoutingKey) (s : Replica) : Prop :=
  ∃ a, s.store.getAssignment k = some a ∧ a.backend = b

/-- The request is on its way to the backend, for a key. -/
def RequestStep.Holds (b : Backend) (k : RoutingKey) : RequestStep → Prop
  | .check k' _ c | .set k' _ c | .forward k' _ c | .add k' c => k' = k ∧ c = b
  | _ => False

/-- No request is placed on the backend after the users are read, unless
the drain has still to clear what it writes; and the drain gets its lock. -/
def Timely (b : Backend) (s : Replica) : Action → Prop
  | .abandon => False
  | .request i _ =>
    match s.requests[i]? with
    | some (.assign k _) =>
      s.store.Chooses k b → s.drain.BeforeSnapshot ∨ s.StoredOn b k
    | some (.set k _ c) => c = b → s.drain.BeforeSnapshot ∨ s.drain.ToInvalidate k
    | some (.add k c) => c = b → s.drain.BeforeSnapshot ∨ s.drain.ToClose k
    | _ => True
  | _ => True

/-- Every pointer to the backend belongs to a user the drain is to read,
or to one it has read and is to clear. -/
structure Tracked (b : Backend) (s : Replica) : Prop where
  active : s.drain.BeforeRemoval → b ∈ s.store.active
  store : ∀ k, s.StoredOn b k → s.drain.BeforeSnapshot ∨ s.drain.ToDelete k
  cache : ∀ k entry, s.cache.data.lookup k = some entry → entry.backend = b →
    (s.drain.BeforeSnapshot ∧ s.StoredOn b k) ∨ s.drain.ToInvalidate k
  bridges : ∀ k, (k, b) ∈ s.bridges →
    (s.drain.BeforeSnapshot ∧ s.StoredOn b k) ∨ s.drain.ToClose k
  requests : ∀ q ∈ s.requests, ∀ k, q.Holds b k → s.drain.BeforeSnapshot → s.StoredOn b k

/-- Once the users are read: every pointer to the backend belongs to one
that is to be cleared. -/
theorem tracked_of_after (hafter : ¬ s.drain.BeforeSnapshot)
    (hactive : s.drain.BeforeRemoval → b ∈ s.store.active)
    (hdelete : ∀ k, s.StoredOn b k → s.drain.ToDelete k)
    (hinvalidate : ∀ k entry, s.cache.data.lookup k = some entry → entry.backend = b →
      s.drain.ToInvalidate k)
    (hclose : ∀ k, (k, b) ∈ s.bridges → s.drain.ToClose k) : Tracked b s where
  active := hactive
  store k hk := Or.inr (hdelete k hk)
  cache k entry he hb := Or.inr (hinvalidate k entry he hb)
  bridges k hk := Or.inr (hclose k hk)
  requests _ _ _ _ hpc := absurd hpc hafter

/-! ## Steps of the drain -/

/-- A step that only moves the drain on. -/
theorem Tracked.advance {pc : DrainStep} (h : Tracked b s)
    (hremoval : pc.BeforeRemoval → s.drain.BeforeRemoval)
    (hbefore : pc.BeforeSnapshot ↔ s.drain.BeforeSnapshot)
    (hdelete : ∀ k, s.drain.ToDelete k → pc.ToDelete k)
    (hinvalidate : ∀ k, s.drain.ToInvalidate k → pc.ToInvalidate k)
    (hclose : ∀ k, s.drain.ToClose k → pc.ToClose k) :
    Tracked b { s with drain := pc } where
  active hpc := h.active (hremoval hpc)
  store k hk := (h.store k hk).imp hbefore.2 (hdelete k)
  cache k entry he hb := (h.cache k entry he hb).imp (fun hp => ⟨hbefore.2 hp.1, hp.2⟩)
    (hinvalidate k)
  bridges k hk := (h.bridges k hk).imp (fun hp => ⟨hbefore.2 hp.1, hp.2⟩) (hclose k)
  requests q hq k hk hpc := h.requests q hq k hk (hbefore.1 hpc)

/-- Reading the users: whoever points to the backend is among them. -/
theorem tracked_getBackendUsers (h : Tracked b s) (hd : s.drain = .getBackendUsers)
    {pc : DrainStep} (hafter : ¬ pc.BeforeSnapshot)
    (hdelete : ∀ k ∈ s.store.getBackendUsers b, pc.ToDelete k)
    (hinvalidate : ∀ k ∈ s.store.getBackendUsers b, pc.ToInvalidate k)
    (hclose : ∀ k ∈ s.store.getBackendUsers b, pc.ToClose k) :
    Tracked b { s with drain := pc } := by
  have huser : ∀ k, s.StoredOn b k → k ∈ s.store.getBackendUsers b := fun k hk =>
    Store.mem_getBackendUsers.2 hk
  have hbefore : s.drain.BeforeRemoval := by rw [hd]; trivial
  refine tracked_of_after hafter (fun _ => h.active hbefore) (fun k hk => hdelete k (huser k hk))
    (fun k entry he hb => ?_) fun k hk => ?_
  · rcases h.cache k entry he hb with hp | hp
    · exact hinvalidate k (huser k hp.2)
    · rw [hd] at hp
      exact hp.elim
  · rcases h.bridges k hk with hp | hp
    · exact hclose k (huser k hp.2)
    · rw [hd] at hp
      exact hp.elim

section Snapshot

variable (h : Tracked b s) (hafter : ¬ s.drain.BeforeSnapshot)
include h hafter

/-- Once the users are read, whoever is on the backend is to be deleted, -/
theorem Tracked.toDelete {k : RoutingKey} (hk : s.StoredOn b k) : s.drain.ToDelete k :=
  (h.store k hk).resolve_left hafter

/-- every entry for it is to be invalidated, -/
theorem Tracked.toInvalidate {k : RoutingKey} {entry : CacheEntry}
    (he : s.cache.data.lookup k = some entry) (hb : entry.backend = b) : s.drain.ToInvalidate k :=
  (h.cache k entry he hb).resolve_left fun hp => hafter hp.1

/-- and every bridge to it is to be closed. -/
theorem Tracked.toClose {k : RoutingKey} (hk : (k, b) ∈ s.bridges) : s.drain.ToClose k :=
  (h.bridges k hk).resolve_left fun hp => hafter hp.1

end Snapshot

/-- The delete takes the users off the backend, and nobody else is on it. -/
theorem tracked_bulkDeleteAssignments {users : List RoutingKey} (h : Tracked b s)
    (hd : s.drain = .bulkDeleteAssignments users) :
    Tracked b { s with
      store := s.store.bulkDeleteAssignments users, drain := .invalidate users } := by
  have hbefore : s.drain.BeforeRemoval := by rw [hd]; trivial
  have hafter : ¬ s.drain.BeforeSnapshot := by rw [hd]; exact id
  refine tracked_of_after id (fun _ => ?_) (fun k hk => ?_) (fun k entry he hb => ?_) fun k hk => ?_
  · rw [Store.active_bulkDeleteAssignments]
    exact h.active hbefore
  · obtain ⟨a, ha, hab⟩ := hk
    rw [Store.getAssignment_bulkDeleteAssignments] at ha
    split at ha
    · cases ha
    · rename_i hk
      have hdelete := h.toDelete hafter ⟨a, ha, hab⟩
      rw [hd] at hdelete
      exact absurd hdelete hk
  · have hinvalidate := h.toInvalidate hafter he hb
    rwa [hd] at hinvalidate
  · have hclose := h.toClose hafter hk
    rwa [hd] at hclose

/-- An entry invalidated is gone, and the others are still to be. -/
theorem tracked_invalidate {u : RoutingKey} {todo : List RoutingKey} (h : Tracked b s)
    (hd : s.drain = .invalidate (u :: todo)) :
    Tracked b { s with cache := s.cache.invalidate u, drain := .closeConns u todo } := by
  have hbefore : s.drain.BeforeRemoval := by rw [hd]; trivial
  have hafter : ¬ s.drain.BeforeSnapshot := by rw [hd]; exact id
  refine tracked_of_after id (fun _ => h.active hbefore) (fun k hk => ?_) (fun k entry he hb => ?_)
    fun k hk => ?_
  · have hdelete := h.toDelete hafter hk
    rwa [hd] at hdelete
  · obtain ⟨hne, he⟩ := UserCache.lookup_of_invalidate he
    have hinvalidate := h.toInvalidate hafter he hb
    rw [hd] at hinvalidate
    exact (List.mem_cons.1 hinvalidate).resolve_left hne
  · have hclose := h.toClose hafter hk
    rw [hd] at hclose
    exact List.mem_cons.1 hclose

/-- Bridges closed are gone, and the others are still to be. -/
theorem tracked_closeConns {u : RoutingKey} {todo : List RoutingKey} (h : Tracked b s)
    (hd : s.drain = .closeConns u todo) :
    Tracked b { s with
      bridges := s.bridges.filter fun p => p.1 ≠ u, drain := .invalidate todo } := by
  have hbefore : s.drain.BeforeRemoval := by rw [hd]; trivial
  have hafter : ¬ s.drain.BeforeSnapshot := by rw [hd]; exact id
  refine tracked_of_after id (fun _ => h.active hbefore) (fun k hk => ?_) (fun k entry he hb => ?_)
    fun k hk => ?_
  · have hdelete := h.toDelete hafter hk
    rwa [hd] at hdelete
  · have hinvalidate := h.toInvalidate hafter he hb
    rwa [hd] at hinvalidate
  · obtain ⟨hmem, hne⟩ := List.mem_filter.1 hk
    have hclose := h.toClose hafter hmem
    rw [hd] at hclose
    exact hclose.resolve_left (of_decide_eq_true hne)

/-- Nothing points to the backend by the time it is removed. -/
theorem tracked_removeBackend (h : Tracked b s) (hd : s.drain = .removeBackend) :
    Tracked b { s with store := s.store.removeBackend b, drain := .unmark } := by
  have hafter : ¬ s.drain.BeforeSnapshot := by rw [hd]; exact id
  refine tracked_of_after id False.elim (fun k hk => ?_) (fun k entry he hb => ?_) fun k hk => ?_
  · obtain ⟨a, ha, hab⟩ := hk
    rw [Store.getAssignment_removeBackend] at ha
    have hdelete := h.toDelete hafter ⟨a, ha, hab⟩
    rwa [hd] at hdelete
  · have hinvalidate := h.toInvalidate hafter he hb
    rwa [hd] at hinvalidate
  · have hclose := h.toClose hafter hk
    rwa [hd] at hclose

/-- **A step of the drain keeps track.** -/
theorem tracked_drainStep (h : Tracked b s) (hstep : drainStep b s = some s') :
    Tracked b s' := by
  unfold drainStep at hstep
  rcases hd : s.drain with - | - | - | users | users | todo | ⟨u, todo⟩ | - | - | - | -
  all_goals rw [hd] at hstep
  case start | lock | sendUnassign | publish | unmark =>
    obtain rfl := Option.some.inj hstep
    refine h.advance ?_ ?_ ?_ ?_ ?_ <;> rw [hd] <;> simp [DrainStep.BeforeRemoval,
      DrainStep.BeforeSnapshot, DrainStep.ToDelete, DrainStep.ToInvalidate, DrainStep.ToClose]
  case getBackendUsers =>
    obtain rfl := Option.some.inj hstep
    -- With no users the drain goes straight to the notification.
    rcases hu : s.store.getBackendUsers b with - | ⟨u, users⟩
    · exact tracked_getBackendUsers h hd id (by simp [hu]) (by simp [hu]) (by simp [hu])
    · exact tracked_getBackendUsers h hd id (by rw [hu]; exact fun _ hk => hk)
        (by rw [hu]; exact fun _ hk => hk) (by rw [hu]; exact fun _ hk => hk)
  case bulkDeleteAssignments =>
    obtain rfl := Option.some.inj hstep
    exact tracked_bulkDeleteAssignments h hd
  case invalidate =>
    rcases todo with - | ⟨u, todo⟩
    · obtain rfl := Option.some.inj hstep
      refine h.advance ?_ ?_ ?_ ?_ ?_ <;> rw [hd] <;> simp [DrainStep.BeforeRemoval,
        DrainStep.BeforeSnapshot, DrainStep.ToDelete, DrainStep.ToInvalidate, DrainStep.ToClose]
    · obtain rfl := Option.some.inj hstep
      exact tracked_invalidate h hd
  case closeConns =>
    obtain rfl := Option.some.inj hstep
    exact tracked_closeConns h hd
  case removeBackend =>
    obtain rfl := Option.some.inj hstep
    exact tracked_removeBackend h hd
  case finished => cases hstep

/-! ## Steps of a request -/

/-- A step that takes entries off the cache or the list of bridges, and
moves a request to one that holds no more than is stored. -/
theorem Tracked.shrink {cache : UserCache} {bridges : List (RoutingKey × Backend)}
    {requests : List RequestStep} (h : Tracked b s)
    (hcache : ∀ k entry, cache.data.lookup k = some entry → s.cache.data.lookup k = some entry)
    (hbridges : ∀ p ∈ bridges, p ∈ s.bridges)
    (hrequests : ∀ q ∈ requests, q ∈ s.requests ∨
      ∀ k, q.Holds b k → s.drain.BeforeSnapshot → s.StoredOn b k) :
    Tracked b ⟨s.store, cache, bridges, s.drain, requests⟩ where
  active := h.active
  store := h.store
  cache k entry he hb := h.cache k entry (hcache k entry he) hb
  bridges k hk := h.bridges k (hbridges _ hk)
  requests q hq k hk hpc := by
    rcases hrequests q hq with hq | hq
    · exact h.requests q hq k hk hpc
    · exact hq k hk hpc

section Requests

variable {i : ℕ} {c : Choice} {q q' : RequestStep} {t : Replica}

/-- The pool after a step of one request: the others are as they were. -/
theorem requests_set (hq' : ∀ k, q'.Holds b k → s.drain.BeforeSnapshot → s.StoredOn b k) :
    ∀ q ∈ s.requests.set i q', q ∈ s.requests ∨
      ∀ k, q.Holds b k → s.drain.BeforeSnapshot → s.StoredOn b k := by
  intro q hq
  rcases Pool.mem_or_eq_of_mem_set hq with hq | rfl
  · exact Or.inl hq
  · exact Or.inr hq'

theorem not_toInvalidate_of_beforeSnapshot {pc : DrainStep} (h : pc.BeforeSnapshot) :
    ¬ pc.ToInvalidate k := by
  cases pc <;> first | exact id | exact h.elim

theorem beforeRemoval_of_beforeSnapshot {pc : DrainStep} (h : pc.BeforeSnapshot) :
    pc.BeforeRemoval := by
  cases pc <;> trivial

/-- The cache is read: a hit on the backend is stored there, if the drain
has not begun to clear. -/
theorem tracked_start {ws : Bool} (h : Tracked b s)
    (hstep : requestStep b c s (.start k ws) = some (q', t)) :
    Tracked b { t with requests := s.requests.set i q' } := by
  simp only [requestStep] at hstep
  rcases hget : s.cache.get c.now k with ⟨- | cached, cache⟩
  · rw [hget] at hstep
    obtain ⟨rfl, rfl⟩ := Prod.mk.inj (Option.some.inj hstep)
    refine h.shrink (fun k' entry he => ?_) (fun _ hp => hp) (requests_set fun _ => False.elim)
    exact UserCache.lookup_of_get (by rw [hget]; exact he)
  · rw [hget] at hstep
    obtain ⟨rfl, rfl⟩ := Prod.mk.inj (Option.some.inj hstep)
    refine h.shrink (fun k' entry he => ?_) (fun _ hp => hp) (requests_set ?_)
    · exact UserCache.lookup_of_get (by rw [hget]; exact he)
    · rintro _ ⟨rfl, rfl⟩ hpc
      obtain ⟨entry, hentry, hb⟩ := UserCache.exists_of_get
        (show (s.cache.get c.now k).1 = some cached by rw [hget])
      rcases h.cache k entry hentry hb with hp | hp
      · exact hp.2
      · exact absurd hp (not_toInvalidate_of_beforeSnapshot hpc)

/-- The store answers: a key stays on the backend, or is placed on it in
time. -/
theorem tracked_assign {ws : Bool} (h : Tracked b s)
    (ht : s.store.Chooses k b → s.drain.BeforeSnapshot ∨ s.StoredOn b k)
    (hstep : requestStep b c s (.assign k ws) = some (q', t)) :
    Tracked b { t with requests := s.requests.set i q' } := by
  simp only [requestStep] at hstep
  obtain ⟨horder, hstep⟩ := Option.ite_none_right_eq_some.1 hstep
  have hplaced := Store.placed_assignLeastLoaded k c.now horder
  have hchooses : ∀ a, (s.store.assignLeastLoaded c.order c.now k).1 = some a →
      s.store.Chooses k a.backend := fun a => Store.chooses_of_assignLeastLoaded horder
  rcases hans : s.store.assignLeastLoaded c.order c.now k with ⟨- | a, store⟩
  · rw [hans] at hstep
    cases hstep
  rw [hans] at hstep hplaced hchooses
  obtain ⟨rfl, rfl⟩ := Prod.mk.inj (Option.some.inj hstep)
  dsimp only at hplaced hchooses
  obtain ⟨hstored, -⟩ := hplaced.answered a rfl
  -- Before the removal the keys on the backend stay there.
  have hkeeps : s.drain.BeforeSnapshot → ∀ k', s.StoredOn b k' →
      ∃ a, store.getAssignment k' = some a ∧ a.backend = b := by
    rintro hpc k' ⟨a', ha', hab⟩
    have hact : b ∈ s.store.active := h.active (beforeRemoval_of_beforeSnapshot hpc)
    by_cases hk' : k' = k
    · subst hk'
      exact ⟨a', hplaced.kept a' ha' (hab ▸ hact), hab⟩
    · exact ⟨a', (hplaced.others k' hk').trans ha', hab⟩
  refine ⟨fun hpc => ?_, fun k' hk' => ?_, fun k' entry he hb => ?_, fun k' hk' => ?_,
    fun q hq k' hk' hpc => ?_⟩
  · rw [hplaced.active]
    exact h.active hpc
  · obtain ⟨a', ha', hab⟩ := hk'
    by_cases hkk : k' = k
    · -- The key is on the backend now: it was placed there in time, or was there before.
      subst hkk
      have haa : a = a' := Option.some.inj (hstored.symm.trans ha')
      rcases ht (hab ▸ haa ▸ hchooses a rfl) with hpc | hold
      · exact Or.inl hpc
      · exact h.store k' hold
    · exact h.store k' ⟨a', (hplaced.others k' hkk).symm.trans ha', hab⟩
  · exact (h.cache k' entry he hb).imp_left fun hp => ⟨hp.1, hkeeps hp.1 k' hp.2⟩
  · exact (h.bridges k' hk').imp_left fun hp => ⟨hp.1, hkeeps hp.1 k' hp.2⟩
  · rcases Pool.mem_or_eq_of_mem_set hq with hq | rfl
    · exact hkeeps hpc k' (h.requests q hq k' hk' hpc)
    · obtain ⟨rfl, hab⟩ := hk'
      exact ⟨a, hstored, hab⟩

/-- The cache is written, in time. -/
theorem tracked_set {ws : Bool} {backend : Backend} (h : Tracked b s)
    (hq : s.requests[i]? = some (.set k ws backend))
    (ht : backend = b → s.drain.BeforeSnapshot ∨ s.drain.ToInvalidate k) :
    Tracked b ⟨s.store, s.cache.set c.now k backend, s.bridges, s.drain,
      s.requests.set i (.forward k ws backend)⟩ := by
  have hold : ∀ k', k = k' ∧ backend = b → s.drain.BeforeSnapshot → s.StoredOn b k' :=
    fun k' hk' hpc => h.requests _ (List.mem_of_getElem? hq) k' hk' hpc
  refine ⟨h.active, h.store, fun k' entry he hb => ?_, h.bridges, fun q hq' k' hk' hpc => ?_⟩
  · rcases UserCache.lookup_of_set he with ⟨rfl, heq⟩ | ⟨-, he⟩
    · -- The entry written points to the backend: the drain is still to read or to clear it.
      have hbackend : backend = b := heq.symm.trans hb
      exact (ht hbackend).imp_left fun hpc => ⟨hpc, hold k' ⟨rfl, hbackend⟩ hpc⟩
    · exact h.cache k' entry he hb
  · rcases Pool.mem_or_eq_of_mem_set hq' with hq' | rfl
    · exact h.requests q hq' k' hk' hpc
    · exact hold k' hk' hpc

/-- The bridge is tracked, in time. -/
theorem tracked_add {backend : Backend} (h : Tracked b s)
    (hq : s.requests[i]? = some (.add k backend))
    (ht : backend = b → s.drain.BeforeSnapshot ∨ s.drain.ToClose k) :
    Tracked b ⟨s.store, s.cache, (k, backend) :: s.bridges, s.drain,
      s.requests.set i .done⟩ := by
  refine ⟨h.active, h.store, h.cache, fun k' hk' => ?_, fun q hq' k' hk' hpc => ?_⟩
  · rcases List.mem_cons.1 hk' with heq | hk'
    · obtain ⟨rfl, rfl⟩ := Prod.mk.inj heq
      exact (ht rfl).imp_left fun hpc =>
        ⟨hpc, h.requests _ (List.mem_of_getElem? hq) k' ⟨rfl, rfl⟩ hpc⟩
    · exact h.bridges k' hk'
  · rcases Pool.mem_or_eq_of_mem_set hq' with hq' | rfl
    · exact h.requests q hq' k' hk' hpc
    · exact hk'.elim

/-- **A timely step of a request keeps track.** -/
theorem tracked_requestStep (h : Tracked b s) (hq : s.requests[i]? = some q)
    (ht : Timely b s (.request i c)) (hstep : requestStep b c s q = some (q', t)) :
    Tracked b { t with requests := s.requests.set i q' } := by
  have hold : ∀ k, q.Holds b k → s.drain.BeforeSnapshot → s.StoredOn b k :=
    h.requests q (List.mem_of_getElem? hq)
  simp only [Timely, hq] at ht
  cases q with
  | start k ws => exact tracked_start h hstep
  | check k ws cached =>
    simp only [requestStep] at hstep
    split at hstep
    · obtain ⟨rfl, rfl⟩ := Prod.mk.inj (Option.some.inj hstep)
      exact h.shrink (fun _ _ he => he) (fun _ hp => hp) (requests_set hold)
    · obtain ⟨rfl, rfl⟩ := Prod.mk.inj (Option.some.inj hstep)
      exact h.shrink (fun _ _ he => he) (fun _ hp => hp) (requests_set fun _ => False.elim)
  | unfit k ws =>
    simp only [requestStep] at hstep
    split at hstep
    · obtain ⟨rfl, rfl⟩ := Prod.mk.inj (Option.some.inj hstep)
      exact h.shrink (fun _ _ he => (UserCache.lookup_of_invalidate he).2) (fun _ hp => hp)
        (requests_set fun _ => False.elim)
    · obtain ⟨rfl, rfl⟩ := Prod.mk.inj (Option.some.inj hstep)
      exact h.shrink (fun _ _ he => he) (fun _ hp => hp) (requests_set fun _ => False.elim)
  | assign k ws => exact tracked_assign h ht hstep
  | set k ws backend =>
    obtain ⟨rfl, rfl⟩ := Prod.mk.inj (Option.some.inj hstep)
    exact tracked_set h hq ht
  | forward k ws backend =>
    obtain ⟨rfl, rfl⟩ := Prod.mk.inj (Option.some.inj hstep)
    refine h.shrink (fun _ _ he => he) (fun _ hp => hp) (requests_set ?_)
    split
    · exact hold
    · exact fun _ => False.elim
  | add k backend =>
    obtain ⟨rfl, rfl⟩ := Prod.mk.inj (Option.some.inj hstep)
    exact tracked_add h hq ht
  | done => cases hstep

end Requests

/-! ## Whole runs -/

/-- **Every timely step keeps track.** -/
theorem tracked_step {a : Action} (h : Tracked b s) (ht : Timely b s a)
    (hstep : step b s a = some s') : Tracked b s' := by
  have hself : ∀ q ∈ s.requests, q ∈ s.requests ∨
      ∀ k, q.Holds b k → s.drain.BeforeSnapshot → s.StoredOn b k := fun q hq => Or.inl hq
  cases a with
  | drain => exact tracked_drainStep h hstep
  | abandon => exact ht.elim
  | request i c =>
    obtain ⟨q, hq, hstep⟩ := Option.bind_eq_some_iff.1 hstep
    obtain ⟨⟨q', t⟩, hqs, rfl⟩ := Option.map_eq_some_iff.1 hstep
    exact tracked_requestStep h hq ht hqs
  | cleanup now =>
    obtain rfl := Option.some.inj hstep
    exact h.shrink (fun _ _ he => UserCache.lookup_of_cleanup he) (fun _ hp => hp) hself
  | notify =>
    obtain rfl := Option.some.inj hstep
    exact h.shrink (fun _ _ he => UserCache.lookup_of_invalidateBackend he) (fun _ hp => hp)
      hself
  | disconnect bridge =>
    obtain rfl := Option.some.inj hstep
    exact h.shrink (fun _ _ he => he) (fun _ hp => List.mem_of_mem_erase hp) hself

/-- The drain and the requests are about to start, the backend is active,
and what points to it belongs to its users. -/
structure Ready (b : Backend) (s : Replica) : Prop where
  drain : s.drain = .start
  requests : ∀ q ∈ s.requests, ∃ k ws, q = .start k ws
  active : b ∈ s.store.active
  cache : ∀ k entry, s.cache.data.lookup k = some entry → entry.backend = b → s.StoredOn b k
  bridges : ∀ k, (k, b) ∈ s.bridges → s.StoredOn b k

theorem tracked_of_ready (h : Ready b s) : Tracked b s := by
  have hbefore : s.drain.BeforeSnapshot := by rw [h.drain]; trivial
  refine ⟨fun _ => h.active, fun _ _ => Or.inl hbefore,
    fun k entry he hb => Or.inl ⟨hbefore, h.cache k entry he hb⟩,
    fun k hk => Or.inl ⟨hbefore, h.bridges k hk⟩, fun q hq k hk _ => ?_⟩
  obtain ⟨k', ws, rfl⟩ := h.requests q hq
  exact hk.elim

/-- Once the drain is over there is nothing left to clear. -/
theorem clean_of_finished (h : Tracked b s) (hfin : s.Finished) : s.Clean b := by
  refine ⟨fun k a ha hab => ?_, fun k entry he hb => ?_, fun k hk => ?_⟩
  · have := h.store k ⟨a, ha, hab⟩
    rw [hfin.1] at this
    exact this.elim id id
  · have := h.cache k entry he hb
    rw [hfin.1] at this
    exact this.elim (fun hp => hp.1) id
  · have := h.bridges k hk
    rw [hfin.1] at this
    exact this.elim (fun hp => hp.1) id

/-- **A timely drain is complete.** Once it and the requests are over
nothing points to the backend. -/
theorem clean_of_timely (b : Backend) (s₀ s : Replica) (sched : List Action) (h₀ : Ready b s₀)
    (ht : Run.Meets (step b) (Timely b) s₀ sched) (hrun : Run.exec (step b) s₀ sched = some s)
    (hfin : s.Finished) : s.Clean b :=
  clean_of_finished
    (Run.exec_invariant (fun _ _ _ => tracked_step) (tracked_of_ready h₀) ht hrun) hfin

/-- Two users on one of two backends, the first cached and with a bridge.
There is a WebSocket request for the second, one for a new user, and one for
the first. -/
def usersReplica : Replica where
  store := .redis ⟨Table.insertAll ∅ [("v", marshalAssignment ⟨"b1", 1, "assignment", 1⟩),
    ("u", marshalAssignment ⟨"b1", 2, "assignment", 1⟩)], Table.insertAll ∅ [("b1", 2)],
    {"b1", "b2"}⟩
  cache := ⟨100, Table.insertAll ∅ [("u", ⟨"b1", 50⟩)]⟩
  bridges := [("u", "b1")]
  drain := .start
  requests := [.start "v" true, .start "w" false, .start "u" false]

theorem ready_usersReplica : Ready "b1" usersReplica where
  drain := rfl
  requests q hq := by
    have hcases : q = .start "v" true ∨ q = .start "w" false ∨ q = .start "u" false := by
      simpa [usersReplica] using hq
    rcases hcases with rfl | rfl | rfl <;> exact ⟨_, _, rfl⟩
  active := by decide
  cache k entry he _ := by
    have hk := Table.mem_pairs.2 he
    obtain ⟨rfl, -⟩ := Prod.mk.inj (List.mem_singleton.1 hk)
    exact ⟨_, rfl, rfl⟩
  bridges k hk := by
    obtain ⟨rfl, -⟩ := Prod.mk.inj (List.mem_singleton.1 hk)
    exact ⟨_, rfl, rfl⟩

/-- The second user is looked up, cached and given a bridge between the
steps of the drain, each before the drain clears it; the new user is placed
while the backend is the heavier one, and the first user once it is gone. -/
def servedWhileDrained : List Action :=
  [.request 0 ⟨20, [], true⟩, .drain, .drain, .drain,
    .request 0 ⟨20, ["b1", "b2"], true⟩,
    .request 1 ⟨20, [], true⟩, .request 1 ⟨20, ["b1", "b2"], true⟩, .request 1 ⟨20, [], true⟩,
    .request 1 ⟨20, [], true⟩,
    .drain, .drain, .drain, .drain,
    .request 0 ⟨20, [], true⟩, .request 0 ⟨20, [], true⟩, .drain, .request 0 ⟨20, [], true⟩,
    .drain, .drain, .drain, .drain,
    .request 2 ⟨30, [], true⟩, .request 2 ⟨30, ["b2"], true⟩, .request 2 ⟨30, [], true⟩,
    .request 2 ⟨30, [], true⟩, .drain]

theorem timely_servedWhileDrained :
    Run.Meets (step "b1") (Timely "b1") usersReplica servedWhileDrained := by
  have hother : ("b2" : Backend) ≠ "b1" := by decide
  have hheavier : ¬ usersReplica.store.Chooses "w" "b1" := by
    rintro (⟨a, ha, -⟩ | ⟨-, -, hle⟩)
    · cases ha
    · exact absurd (hle "b2" (by decide)) (by decide)
  have hgone : ∀ r : Redis.Keyspace, "b1" ∉ r.active → ¬ (Store.redis r).Chooses "u" "b1" := by
    rintro r hr (⟨a, -, hactive, hab⟩ | ⟨-, hactive, -⟩)
    · exact hr (hab ▸ hactive)
    · exact hr hactive
  unfold servedWhileDrained
  iterate 4 apply Run.meets_cons rfl trivial
  -- The second user is stored on the backend.
  apply Run.meets_cons rfl fun _ => Or.inr ⟨_, rfl, rfl⟩
  apply Run.meets_cons rfl trivial
  apply Run.meets_cons rfl fun h => absurd h hheavier
  apply Run.meets_cons rfl fun h => absurd h hother
  iterate 5 apply Run.meets_cons rfl trivial
  -- Its cache entry and its bridges are still to be cleared.
  apply Run.meets_cons rfl fun _ => Or.inr (List.mem_singleton.2 rfl)
  iterate 2 apply Run.meets_cons rfl trivial
  apply Run.meets_cons rfl fun _ => Or.inr (Or.inl rfl)
  iterate 5 apply Run.meets_cons rfl trivial
  apply Run.meets_cons rfl fun h => absurd h (hgone _ (by decide))
  apply Run.meets_cons rfl fun h => absurd h hother
  iterate 2 apply Run.meets_cons rfl trivial
  trivial

theorem clean_of_timely_usersReplica :
    ∃ s, Run.exec (step "b1") usersReplica servedWhileDrained = some s ∧ s.Finished ∧
      s.store.getAssignment "v" = none ∧ s.bridges = [] ∧
      s.store.getAssignment "u" = some ⟨"b2", 30, "assignment", 1⟩ ∧ s.Clean "b1" := by
  have hend : (Run.exec (step "b1") usersReplica servedWhileDrained).map (fun s =>
      (s.drain, s.requests, s.bridges, s.store.getAssignment "v", s.store.getAssignment "u")) =
        some (.finished, [.done, .done, .done], [], none,
          some ⟨"b2", 30, "assignment", 1⟩) := rfl
  obtain ⟨s, hrun, hend⟩ := Option.map_eq_some_iff.1 hend
  simp only [Prod.mk.injEq] at hend
  obtain ⟨hdrain, hrequests, hbridges, hv, hu⟩ := hend
  have hfin : s.Finished := ⟨hdrain, by rw [hrequests]; simp⟩
  exact ⟨s, hrun, hfin, hv, hbridges, hu, clean_of_timely "b1" usersReplica s servedWhileDrained
    ready_usersReplica timely_servedWhileDrained hrun hfin⟩

/-- Two backends without users, and a request for a new one. -/
def emptyReplica : Replica :=
  ⟨.redis ⟨∅, ∅, {"b1", "b2"}⟩, ⟨100, ∅⟩, [], .start, [.start "u" false]⟩

/-- The drain reads the users, the request is served, and the drain goes
on. -/
def placedAfterSnapshot : List Action :=
  List.replicate 3 .drain ++ List.replicate 4 (.request 0 ⟨20, ["b1", "b2"], true⟩) ++
    List.replicate 3 .drain

/-- **A drain leaves a user on the backend it removes**, placed there after
it had read the users. -/
theorem placed_after_snapshot_not_clean :
    ¬ ∀ (b : Backend) (s₀ s : Replica) (sched : List Action), Ready b s₀ → .abandon ∉ sched →
      Run.exec (step b) s₀ sched = some s → s.Finished → s.Clean b := by
  intro h
  have hready : Ready "b1" emptyReplica :=
    ⟨rfl, fun q hq => ⟨"u", false, List.mem_singleton.1 hq⟩, by decide,
      fun k entry he => absurd he (by simp [emptyReplica]),
      fun k hk => absurd hk List.not_mem_nil⟩
  obtain ⟨s, hrun, hfin, hstored⟩ : ∃ s,
      Run.exec (step "b1") emptyReplica placedAfterSnapshot = some s ∧ s.Finished ∧
        s.store.getAssignment "u" = some ⟨"b1", 20, "assignment", 1⟩ :=
    ⟨_, rfl, ⟨rfl, fun q hq => List.mem_singleton.1 hq⟩, rfl⟩
  exact (h "b1" emptyReplica s placedAfterSnapshot hready (by decide) hrun hfin).store "u" _
    hstored rfl

end Drain

end StickyProxy
