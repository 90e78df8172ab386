import StickyProxy.Common.Table
import StickyProxy.Model.Assignment
/-!
# The user cache

The sticky mappings a replica keeps in memory: a backend for a routing
key until the entry expires. An expired entry is as good as none; `Get`
drops it when it meets it.
-/

namespace StickyProxy

/-- Go's `cacheEntry`. -/
structure CacheEntry where
  backend : Backend
  exp : Time
  deriving DecidableEq, Repr

/-- Go's `UserCache`. -/
structure UserCache where
  ttl : Time
  data : Table RoutingKey CacheEntry

namespace UserCache

/-- `Get`: nothing is a cache miss. -/
def get (now : Time) (k : RoutingKey) (c : UserCache) : Option Backend × UserCache :=
  match c.data.lookup k with
  | none => (none, c)
  | some entry =>
    if entry.exp < now then (none, { c with data := c.data.erase k })
    else (some entry.backend, c)

/-- `Set`. -/
def set (now : Time) (k : RoutingKey) (b : Backend) (c : UserCache) : UserCache :=
  { c with data := c.data.insert k ⟨b, now + c.ttl⟩ }

/-- `Invalidate`. -/
def invalidate (k : RoutingKey) (c : UserCache) : UserCache := { c with data := c.data.erase k }

/-- `UsersForBackend`. -/
def usersForBackend (now : Time) (b : Backend) (c : UserCache) : List RoutingKey :=
  (c.data.pairs.filter fun p => p.2.backend = b ∧ now ≤ p.2.exp).map Prod.fst

/-- `InvalidateBackend`. -/
def invalidateBackend (b : Backend) (c : UserCache) : UserCache :=
  { c with data := c.data.mapPartial fun entry => if entry.backend = b then none else some entry }

/-- A tick of `cleanupLoop`. -/
def cleanup (now : Time) (c : UserCache) : UserCache :=
  { c with data := c.data.mapPartial fun entry => if entry.exp < now then none else some entry }

/-- The backend of an entry that has not expired. -/
def live (now : Time) (k : RoutingKey) (c : UserCache) : Option Backend :=
  (c.data.lookup k).bind fun entry => if entry.exp < now then none else some entry.backend

theorem get_fst (now : Time) (k : RoutingKey) (c : UserCache) : (c.get now k).1 = c.live now k := by
  unfold get live
  rcases c.data.lookup k with - | entry
  · rfl
  · dsimp only [Option.bind_some]
    split <;> rfl

/-! ## What is left of an entry -/

variable {now : Time} {k k' : RoutingKey} {b : Backend} {c : UserCache} {entry : CacheEntry}

/-- A hit reads an entry that is there. -/
theorem exists_of_get (h : (c.get now k).1 = some b) :
    ∃ entry, c.data.lookup k = some entry ∧ entry.backend = b := by
  rw [get_fst, live] at h
  obtain ⟨entry, hentry, h⟩ := Option.bind_eq_some_iff.1 h
  split at h
  · cases h
  · exact ⟨entry, hentry, Option.some.inj h⟩

/-- Reading, sweeping and invalidating only take entries away. -/
theorem lookup_of_get (h : (c.get now k).2.data.lookup k' = some entry) :
    c.data.lookup k' = some entry := by
  unfold get at h
  rcases hk : c.data.lookup k with - | e
  · simp only [hk] at h
    exact h
  · simp only [hk] at h
    split at h
    · rw [Table.lookup_erase_eq] at h
      split at h
      · cases h
      · exact h
    · exact h

/-- A miss leaves no entry. -/
theorem lookup_of_get_eq_none (h : (c.get now k).1 = none) :
    (c.get now k).2.data.lookup k = none := by
  unfold get at h ⊢
  rcases hk : c.data.lookup k with - | e
  · simp only [hk]
  · simp only [hk] at h ⊢
    split
    · rw [Table.lookup_erase_eq, if_pos rfl]
    · rename_i hlive
      rw [if_neg hlive] at h
      cases h

theorem lookup_of_invalidate (h : (c.invalidate k).data.lookup k' = some entry) :
    k' ≠ k ∧ c.data.lookup k' = some entry := by
  rw [invalidate, Table.lookup_erase_eq] at h
  split at h
  · cases h
  · rename_i hne
    exact ⟨hne, h⟩

theorem lookup_of_cleanup (h : (c.cleanup now).data.lookup k' = some entry) :
    c.data.lookup k' = some entry := by
  rw [cleanup, Table.lookup_mapPartial] at h
  obtain ⟨e, he, h⟩ := Option.bind_eq_some_iff.1 h
  split at h
  · cases h
  · exact Option.some.inj h ▸ he

theorem lookup_of_invalidateBackend
    (h : (c.invalidateBackend b).data.lookup k' = some entry) :
    c.data.lookup k' = some entry := by
  rw [invalidateBackend, Table.lookup_mapPartial] at h
  obtain ⟨e, he, h⟩ := Option.bind_eq_some_iff.1 h
  split at h
  · cases h
  · exact Option.some.inj h ▸ he

theorem ne_of_invalidateBackend (h : (c.invalidateBackend b).data.lookup k' = some entry) :
    entry.backend ≠ b := by
  rw [invalidateBackend, Table.lookup_mapPartial] at h
  obtain ⟨e, he, h⟩ := Option.bind_eq_some_iff.1 h
  split at h
  · cases h
  · rename_i hne
    exact Option.some.inj h ▸ hne

theorem lookup_of_set (h : (c.set now k b).data.lookup k' = some entry) :
    (k' = k ∧ entry.backend = b) ∨ (k' ≠ k ∧ c.data.lookup k' = some entry) := by
  rw [set, Table.lookup_insert_eq] at h
  split at h
  · rename_i heq
    exact Or.inl ⟨heq, by rw [← Option.some.inj h]⟩
  · rename_i hne
    exact Or.inr ⟨hne, h⟩

end UserCache

end StickyProxy
