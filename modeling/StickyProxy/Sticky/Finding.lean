import StickyProxy.Sticky.Model.Replicas
import StickyProxy.Proxy.Traffic
import StickyProxy.Common.Run
import StickyProxy.Common.Pool
/-!
# Finding the accounts of a backend

A drain and an eviction in hash mode look an account up by its sticky key,
and the requests route it by its cache entry. Nothing a request does
writes a sticky key: the hash is computed anew on every miss, and
`AssignBackend`, which would keep its choice under the key, is not called.
So the accounts of a backend are found as long as every backend that is
cached for an account is the one its key has held all along.
-/

namespace StickyProxy

namespace Sticky

open Traffic

variable {strings : Strings} {pages : List (List String)} {u k : RoutingKey} {b : Backend}
  {key : String}

/-! ## Keys and scans -/

theorem isSticky_stickyKey (u : RoutingKey) : IsSticky (stickyKey u) := by
  rw [IsSticky, stickyKey, String.toList_append]
  exact List.prefix_append _ _

theorem userOf_stickyKey (u : RoutingKey) : userOf (stickyKey u) = u := by
  rw [userOf, stickyKey, String.toList_append, List.drop_left, String.ofList_toList]

/-- A key with the pattern is the key of its account. -/
theorem stickyKey_userOf (h : IsSticky key) : stickyKey (userOf key) = key := by
  obtain ⟨rest, hrest⟩ := h
  apply String.toList_injective
  simp only [stickyKey, userOf, ← hrest, List.drop_left, String.toList_append,
    String.toList_ofList]

/-- **The list is what the keys say.** -/
theorem mem_getUsersForBackend (h : Scans pages strings) :
    u ∈ getUsersForBackend pages b strings ↔ InPlace strings u b := by
  simp only [getUsersForBackend, List.mem_flatMap, List.mem_filterMap, InPlace]
  constructor
  · rintro ⟨keys, hkeys, key, hkey, hu⟩
    split at hu
    · rename_i hb
      obtain ⟨hsticky, -⟩ := (h key).1 ⟨keys, hkeys, hkey⟩
      rw [← Option.some.inj hu, stickyKey_userOf hsticky, hb]
    · cases hu
  · intro hb
    obtain ⟨keys, hkeys, hkey⟩ :=
      (h (stickyKey u)).2 ⟨isSticky_stickyKey u, Option.isSome_of_eq_some hb⟩
    exact ⟨keys, hkeys, stickyKey u, hkey, by rw [if_pos hb, userOf_stickyKey]⟩

/-- A database can be scanned. -/
theorem exists_scans (strings : Strings) : ∃ pages, Scans pages strings := by
  refine ⟨[(strings.pairs.map Prod.fst).filter fun key => IsSticky key], fun key => ?_⟩
  simp only [List.mem_singleton, exists_eq_left, List.mem_filter, Table.mem_map_fst_pairs,
    decide_eq_true_eq]
  exact and_comm

/-! ## What is found -/

/-- The hook of an operation names the accounts listed. -/
theorem unassigned_iff {e : Effects} {users : List RoutingKey}
    (he : e.sendUnassign = if users = [] then [] else [(b, users)]) :
    e.Unassigned b u ↔ u ∈ users := by
  rw [Effects.Unassigned, he]
  split
  · rename_i hnil
    simp [hnil]
  · simp

/-- Every cached backend is the one the key has. -/
def Placed (s : Replicas) : Prop :=
  ∀ f ∈ s.frontends, ∀ u entry, f.cache.data.lookup u = some entry →
    InPlace s.strings u entry.backend

theorem found_iff_placed {s : Replicas} : Found s ↔ Placed s := by
  constructor
  · intro h f hf u entry hentry
    obtain ⟨pages, hpages⟩ := exists_scans s.strings
    exact (mem_getUsersForBackend hpages).1 (h f hf u entry hentry pages hpages).1
  · intro h f hf u entry hentry pages hpages
    have hu := (mem_getUsersForBackend hpages).2 (h f hf u entry hentry)
    exact ⟨hu, (unassigned_iff rfl).2 hu, hu, fun _ => (unassigned_iff rfl).2 hu⟩

/-! ## What a request writes -/

/-- The backend a request is about to cache is the one the key has. -/
def Agrees (strings : Strings) : RequestStep → Prop
  | .set k b => InPlace strings k b
  | _ => True

instance (strings : Strings) : ∀ q : RequestStep, Decidable (Agrees strings q)
  | .set k b => inferInstanceAs (Decidable (InPlace strings k b))
  | .start _ | .wait _ | .held _ | .get _ | .check _ _ | .unfit _ | .assign _ | .forwarded _ _
  | .refused _ => isTrue trivial

/-- No step caches a backend that is not the one the key has. -/
def Cautious (s : Replicas) : Action → Prop
  | .request i _ => ∀ p ∈ s.requests[i]?, Agrees s.strings p.2
  | _ => True

instance (s : Replicas) : ∀ act : Action, Decidable (Cautious s act)
  | .request i _ => inferInstanceAs (Decidable (∀ p ∈ s.requests[i]?, Agrees s.strings p.2))
  | .cleanup _ _ | .addBackend _ | .removeBackend _ => isTrue trivial

variable {mode : RoutingMode} {c : Choice} {store store' : Store} {f f' : Frontend}
  {q q' : RequestStep} {s s' : Replicas} {act : Action}

/-- A step other than the choice of a backend is one of the assignment
mode. -/
theorem requestStep_of_ne (h : ∀ k, q ≠ .assign k) :
    requestStep mode c store f q = Traffic.requestStep c.toChoice store f q := by
  cases q with
  | assign k => exact absurd rfl (h k)
  | _ => rfl

/-- What a step leaves in the cache was there, or has just been set. -/
theorem cached_of_requestStep (h : requestStep mode c store f q = some (q', store', f'))
    {entry : CacheEntry} (hentry : f'.cache.data.lookup u = some entry) :
    f.cache.data.lookup u = some entry ∨ q = .set u entry.backend := by
  by_cases hq : ∃ k, q = .assign k
  · obtain ⟨k, rfl⟩ := hq
    obtain ⟨t, -, ht⟩ := Option.map_eq_some_iff.1 h
    split at ht <;> cases ht <;> exact Or.inl hentry
  · rw [requestStep_of_ne fun k hk => hq ⟨k, hk⟩] at h
    cases takes_of_requestStep h with
    | pass _ hcache _ _ => exact Or.inl (hcache u entry hentry)
    | assign hassign _ _ => exact Or.inl hentry
    | set hset =>
      rcases UserCache.lookup_of_set hentry with ⟨rfl, hb⟩ | ⟨-, hold⟩
      · exact Or.inr (hb ▸ hset)
      · exact Or.inl hold

/-- And what is set is there. -/
theorem lookup_of_requestStep_set
    (h : requestStep mode c store f (.set k b) = some (q', store', f')) :
    f'.cache.data.lookup k = some ⟨b, c.now + f.cache.ttl⟩ := by
  cases h
  exact AList.lookup_insert _

/-- **A step keeps everything in place exactly if it is cautious.** -/
theorem placed_step_iff (h : Placed s) (hst : step mode s act = some s') :
    Placed s' ↔ Cautious s act := by
  cases act with
  | request i ch =>
    obtain ⟨p, hp, hst⟩ := Option.bind_eq_some_iff.1 hst
    obtain ⟨f, hf, hst⟩ := Option.bind_eq_some_iff.1 hst
    obtain ⟨⟨q', store', f'⟩, hreq, rfl⟩ := Option.map_eq_some_iff.1 hst
    constructor
    · rintro h' ⟨r, q⟩ hq
      obtain rfl := Option.some.inj (hp.symm.trans hq)
      cases q with
      | set k b => exact h' f' (Pool.self_mem_set hf) k _ (lookup_of_requestStep_set hreq)
      | _ => trivial
    · intro hok g hg u entry hentry
      rcases Pool.mem_or_eq_of_mem_set hg with hg | rfl
      · exact h g hg u entry hentry
      · rcases cached_of_requestStep hreq hentry with hold | hset
        · exact h f (List.mem_of_getElem? hf) u entry hold
        · have hp' := hok p hp
          rwa [hset] at hp'
  | cleanup r now =>
    obtain rfl := Option.some.inj hst
    refine iff_of_true (fun g hg u entry hentry => ?_) trivial
    obtain ⟨f, hf, rfl | rfl⟩ := Pool.exists_of_mem_modify hg
    · exact h g hf u entry hentry
    · exact h f hf u entry (UserCache.lookup_of_cleanup hentry)
  | addBackend b =>
    obtain rfl := Option.some.inj hst
    exact iff_of_true h trivial
  | removeBackend b =>
    obtain rfl := Option.some.inj hst
    exact iff_of_true h trivial

/-- A replica in front of two backends, with one request to serve. -/
def oneReplica (strings : Strings) : Replicas where
  store := .redis ⟨∅, ∅, {"b1", "b2"}⟩
  strings := strings
  frontends := [⟨⟨60, ∅⟩, ∅⟩]
  requests := [(0, .start "u")]

theorem fresh_oneReplica (strings : Strings) : (oneReplica strings).Fresh where
  redis := ⟨_, rfl⟩
  caches := fun f hf => by rw [List.mem_singleton.1 hf]
  requests := fun p hp => ⟨"u", by rw [List.mem_singleton.1 hp]⟩

/-- The request from its start to its answer. -/
def servedByHash : List Action :=
  List.replicate 5 (.request 0 ⟨⟨60, ["b2", "b1"], true⟩, .served, false, ""⟩)

/-- The keys `AssignBackend` would have left. -/
def keysInPlace : Strings := (assignBackend ["b1", "b2"] "u" (hashUser "u") ∅).2

end Sticky

end StickyProxy
