import StickyProxy.Hold.Model.Manager
import StickyProxy.Common.Run
import StickyProxy.Common.Pool
/-!
# The discipline of the hold set

Marks are not counted, so the hold set is right only because one operation
at a time uses it. Whoever has the transition lock owns the whole set: it
is empty before the owner marks, holds the owner's keys until they are
cleared, and is empty again before the lock is given back. An entry is in
the set until its channel is closed, so it is closed once, and no later
than its operation ends.
-/

namespace StickyProxy

namespace Hold

variable {h h' : Manager} {k k' : RoutingKey} {n i j owner : ℕ} {e : Entry}
  {p q : Operation} {ph : Phase} {s s' : System}

/-! ## The manager -/

/-- Its channel has been closed, once. -/
def Entry.Closed (e : Entry) : Prop := e.once = true ∧ e.closes = 1

/-- `close` has not been called. -/
def Entry.Fresh (e : Entry) : Prop := e.once = false ∧ e.closes = 0

theorem Entry.Fresh.close (he : e.Fresh) : e.close.Closed := by
  obtain ⟨honce, hcloses⟩ := he
  simp [Entry.close, Entry.Closed, honce, hcloses]

@[simp] theorem Entry.owner_close (e : Entry) : e.close.owner = e.owner := by
  unfold Entry.close
  split <;> rfl

/-- The entries in the set are fresh and each is there under one key, and
every other entry is closed. -/
structure Manager.Coherent (h : Manager) : Prop where
  fresh : ∀ k n, h.holds.lookup k = some n → ∃ e, h.entries[n]? = some e ∧ e.Fresh
  apart : ∀ k k' n, h.holds.lookup k = some n → h.holds.lookup k' = some n → k = k'
  settled : ∀ n e, h.entries[n]? = some e → e.Closed ∨ ∃ k, h.holds.lookup k = some n

/-- Marking one key. -/
theorem mark_cases (owner : ℕ) (h : Manager) (k : RoutingKey) :
    ((h.holds.lookup k).isSome ∧ h.mark owner k = h) ∨
    (h.holds.lookup k = none ∧
      h.mark owner k = ⟨h.holds.insert k h.entries.length, h.entries ++ [⟨owner, false, 0⟩]⟩) := by
  unfold Manager.mark
  rcases hk : h.holds.lookup k with - | n
  · exact .inr ⟨rfl, rfl⟩
  · exact .inl ⟨rfl, rfl⟩

theorem isSome_lookup_mark :
    ((h.mark owner k).holds.lookup k').isSome ↔ k' = k ∨ (h.holds.lookup k').isSome := by
  rcases mark_cases owner h k with ⟨hk, heq⟩ | ⟨-, heq⟩
  · rw [heq]
    refine ⟨.inr, ?_⟩
    rintro (rfl | hk')
    · exact hk
    · exact hk'
  · rw [heq, Table.lookup_insert_eq]
    by_cases hkk : k' = k <;> simp [hkk]

theorem Manager.Coherent.mark (hc : h.Coherent) : (h.mark owner k).Coherent := by
  rcases mark_cases owner h k with ⟨-, heq⟩ | ⟨hk, heq⟩
  · rwa [heq]
  · rw [heq]
    -- The new entry has a number of its own.
    have hlt : ∀ k n, h.holds.lookup k = some n → n < h.entries.length := fun k n hkn => by
      obtain ⟨e, he, -⟩ := hc.fresh k n hkn
      exact (List.getElem?_eq_some_iff.1 he).1
    refine ⟨fun k' n hn => ?_, fun k₁ k₂ n h₁ h₂ => ?_, fun n e he => ?_⟩
    · rw [Table.lookup_insert_eq] at hn
      split at hn
      · obtain rfl := Option.some.inj hn
        exact ⟨⟨owner, false, 0⟩, by simp, rfl, rfl⟩
      · obtain ⟨e, he, hfresh⟩ := hc.fresh k' n hn
        exact ⟨e, by rw [List.getElem?_append_left (hlt k' n hn), he], hfresh⟩
    · rw [Table.lookup_insert_eq] at h₁ h₂
      split at h₁ <;> split at h₂
      · rename_i hk₁ hk₂
        rw [hk₁, hk₂]
      · obtain rfl := Option.some.inj h₁
        exact absurd (hlt k₂ _ h₂) (lt_irrefl _)
      · obtain rfl := Option.some.inj h₂
        exact absurd (hlt k₁ _ h₁) (lt_irrefl _)
      · exact hc.apart k₁ k₂ n h₁ h₂
    · rw [List.getElem?_append] at he
      split at he
      · rcases hc.settled n e he with hclosed | ⟨k', hk'⟩
        · exact .inl hclosed
        · refine .inr ⟨k', ?_⟩
          have hne : k' ≠ k := by
            rintro rfl
            rw [hk] at hk'
            cases hk'
          rw [AList.lookup_insert_ne hne, hk']
      · rename_i hge
        have hn : n = h.entries.length := by
          have := (List.getElem?_eq_some_iff.1 he).1
          simp only [List.length_singleton] at this
          omega
        exact .inr ⟨k, by rw [AList.lookup_insert, hn]⟩

/-- Clearing one key. -/
theorem clear_cases (h : Manager) (k : RoutingKey) :
    (h.holds.lookup k = none ∧ h.clear k = h) ∨
    ∃ n, h.holds.lookup k = some n ∧
      h.clear k = ⟨h.holds.erase k, h.entries.modify n Entry.close⟩ := by
  unfold Manager.clear
  rcases hk : h.holds.lookup k with - | n
  · exact .inl ⟨rfl, rfl⟩
  · exact .inr ⟨n, rfl, rfl⟩

theorem lookup_clear :
    (h.clear k).holds.lookup k' = if k' = k then none else h.holds.lookup k' := by
  rcases clear_cases h k with ⟨hk, heq⟩ | ⟨n, -, heq⟩
  · rw [heq]
    by_cases hkk : k' = k
    · rw [if_pos hkk, hkk, hk]
    · rw [if_neg hkk]
  · rw [heq, Table.lookup_erase_eq]

theorem Manager.Coherent.clear (hc : h.Coherent) : (h.clear k).Coherent := by
  rcases clear_cases h k with ⟨-, heq⟩ | ⟨n, hn, heq⟩
  · rwa [heq]
  · rw [heq]
    -- A key that is left keeps its entry, which is not the one closed.
    have hleft : ∀ k' m, (h.holds.erase k).lookup k' = some m →
        h.holds.lookup k' = some m ∧ n ≠ m := by
      intro k' m hm
      rw [Table.lookup_erase_eq] at hm
      obtain ⟨hne, hm⟩ := Option.ite_none_left_eq_some.1 hm
      exact ⟨hm, fun hnm => hne (hc.apart k' k m hm (hnm ▸ hn))⟩
    refine ⟨fun k' m hm => ?_, fun k₁ k₂ m h₁ h₂ => ?_, fun m e he => ?_⟩
    · obtain ⟨hm, hne⟩ := hleft k' m hm
      obtain ⟨e, he, hfresh⟩ := hc.fresh k' m hm
      exact ⟨e, (List.getElem?_modify_ne _ _ hne).trans he, hfresh⟩
    · exact hc.apart k₁ k₂ m (hleft k₁ m h₁).1 (hleft k₂ m h₂).1
    · obtain ⟨e', he', rfl⟩ := Pool.getElem?_modify_cases he
      split
      · rename_i hnm
        subst hnm
        obtain ⟨e, he, hfresh⟩ := hc.fresh k n hn
        obtain rfl := Option.some.inj (he.symm.trans he')
        exact .inl hfresh.close
      · rename_i hnm
        rcases hc.settled m e' he' with hclosed | ⟨k', hk'⟩
        · exact .inl hclosed
        · refine .inr ⟨k', ?_⟩
          have hne : k' ≠ k := by
            rintro rfl
            exact hnm (Option.some.inj (hn.symm.trans hk'))
          rw [AList.lookup_erase_ne hne, hk']

/-- Whose an entry is: one that was there, as it was or closed, or a new
one of the operation that marks. -/
theorem owner_of_mark (he : e ∈ (h.mark owner k).entries) : e ∈ h.entries ∨ e.owner = owner := by
  rcases mark_cases owner h k with ⟨-, heq⟩ | ⟨-, heq⟩
  · rw [heq] at he
    exact .inl he
  · rw [heq, List.mem_append, List.mem_singleton] at he
    rcases he with he | rfl
    · exact .inl he
    · exact .inr rfl

/-! ### Whole calls -/

theorem Manager.Coherent.markTransition (hc : h.Coherent) (keys : List RoutingKey) :
    (h.markTransition owner keys).Coherent := by
  induction keys generalizing h with
  | nil => exact hc
  | cons k keys ih => exact ih hc.mark

theorem Manager.Coherent.clearTransition (hc : h.Coherent) (keys : List RoutingKey) :
    (h.clearTransition keys).Coherent := by
  induction keys generalizing h with
  | nil => exact hc
  | cons k keys ih => exact ih hc.clear

/-- `MarkTransition` holds its keys. -/
theorem isSome_lookup_markTransition (keys : List RoutingKey) :
    ((h.markTransition owner keys).holds.lookup k).isSome ↔
      k ∈ keys ∨ (h.holds.lookup k).isSome := by
  induction keys generalizing h with
  | nil => simp [Manager.markTransition]
  | cons k' keys ih =>
    have hcons : h.markTransition owner (k' :: keys) =
        (h.mark owner k').markTransition owner keys := rfl
    rw [hcons, ih, isSome_lookup_mark, List.mem_cons]
    tauto

/-- `ClearTransition` takes its keys out. -/
theorem lookup_clearTransition (keys : List RoutingKey) :
    (h.clearTransition keys).holds.lookup k =
      if k ∈ keys then none else h.holds.lookup k := by
  induction keys generalizing h with
  | nil => simp [Manager.clearTransition]
  | cons k' keys ih =>
    have hcons : h.clearTransition (k' :: keys) = (h.clear k').clearTransition keys := rfl
    rw [hcons, ih, lookup_clear]
    by_cases hk : k ∈ keys <;> by_cases hkk : k = k' <;> simp [hk, hkk]

theorem owner_of_markTransition {keys : List RoutingKey}
    (he : e ∈ (h.markTransition owner keys).entries) : e ∈ h.entries ∨ e.owner = owner := by
  induction keys generalizing h with
  | nil => exact .inl he
  | cons k keys ih =>
    rcases ih (h := h.mark owner k) he with hmem | howner
    · exact owner_of_mark hmem
    · exact .inr howner

/-- Clearing makes no entry and changes none but to close it. -/
theorem owner_clearTransition (keys : List RoutingKey) :
    (h.clearTransition keys).entries.map Entry.owner = h.entries.map Entry.owner := by
  induction keys generalizing h with
  | nil => rfl
  | cons k keys ih =>
    have hcons : h.clearTransition (k :: keys) = (h.clear k).clearTransition keys := rfl
    rw [hcons, ih]
    rcases clear_cases h k with ⟨-, heq⟩ | ⟨n, -, heq⟩
    · rw [heq]
    · rw [heq]
      refine List.ext_getElem? fun m => ?_
      simp only [List.getElem?_map, List.getElem?_modify]
      rcases h.entries[m]? with - | e
      · rfl
      · by_cases hnm : n = m <;> simp [hnm]

theorem length_le_markTransition (keys : List RoutingKey) :
    h.entries.length ≤ (h.markTransition owner keys).entries.length := by
  induction keys generalizing h with
  | nil => exact le_rfl
  | cons k keys ih =>
    refine le_trans ?_ (ih (h := h.mark owner k))
    rcases mark_cases owner h k with ⟨-, heq⟩ | ⟨-, heq⟩
    · rw [heq]
    · rw [heq, List.length_append]
      exact Nat.le_add_right _ _

/-! ## Who owns the set -/

/-- `Lock` has returned true, `Unlock` has not been called. -/
def Phase.HasLock : Phase → Prop
  | .read | .mark _ | .work _ | .clear _ | .unlockMutex => True
  | _ => False

/-- The keys that are marked and not yet cleared. -/
def Phase.marked : Phase → List RoutingKey
  | .work keys | .clear keys => keys
  | _ => []

/-- `ClearTransition` has returned, or was never needed. -/
def Phase.Ended : Phase → Prop
  | .unlockMutex | .unlockDist | .returned => True
  | _ => False

theorem Phase.hasLock_of_mem_marked (hk : k ∈ ph.marked) : ph.HasLock := by
  cases ph <;> trivial

theorem Phase.Ended.marked (hended : ph.Ended) : ph.marked = [] := by
  cases ph <;> trivial

/-- Whoever has the lock has marked what is in the set, and the entries
that are not closed are its own. -/
structure Disciplined (s : System) : Prop where
  coherent : s.manager.Coherent
  mutex : ∀ (i : ℕ) (p : Operation), s.operations[i]? = some p → p.phase.HasLock → s.mutex = some i
  locked : ∀ i, s.mutex = some i → ∃ p, s.operations[i]? = some p ∧ p.phase.HasLock
  marked : ∀ (i : ℕ) (p : Operation), s.operations[i]? = some p → p.phase.HasLock → ∀ k,
    (s.manager.holds.lookup k).isSome ↔ k ∈ p.phase.marked
  free : s.mutex = none → ∀ k, s.manager.holds.lookup k = none
  owned : ∀ e ∈ s.manager.entries,
    e.owner < s.operations.length ∧ (e.Closed ∨ s.mutex = some e.owner)
  found : ∀ w ∈ s.waiters, ∀ n, w.found = some n → n < s.manager.entries.length

theorem disciplined_start (kinds : List Transition.Kind) (keys : List RoutingKey) :
    Disciplined (.start kinds keys) := by
  have hlock : ∀ (i : ℕ) (p : Operation), (System.start kinds keys).operations[i]? = some p →
      ¬ p.phase.HasLock := by
    intro i p hp
    obtain ⟨kind, -, rfl⟩ := List.mem_map.1 (List.mem_of_getElem? hp)
    exact id
  refine ⟨⟨fun k n hn => ?_, fun k k' n hn => ?_, fun n e he => ?_⟩,
    fun i p hp hh => absurd hh (hlock i p hp), fun i hi => ?_,
    fun i p hp hh => absurd hh (hlock i p hp), fun _ k => rfl, fun e he => ?_,
    fun w hw n hn => ?_⟩
  · exact absurd hn (by simp [System.start])
  · exact absurd hn (by simp [System.start])
  · exact absurd he (by simp [System.start])
  · cases hi
  · cases he
  · obtain ⟨k, -, rfl⟩ := List.mem_map.1 hw
    cases hn

/-- A lookup finds an entry of the list. -/
theorem Disciplined.wait {w : ℕ} {x x' : Waiter} {givesUp : Bool} (hd : Disciplined s)
    (hw : s.waiters[w]? = some x) (hstep : x.step s.manager givesUp = some x') :
    Disciplined { s with waiters := s.waiters.set w x' } := by
  refine ⟨hd.coherent, hd.mutex, hd.locked, hd.marked, hd.free, hd.owned, fun y hy n hn => ?_⟩
  rcases Pool.mem_or_eq_of_mem_set hy with hy | rfl
  · exact hd.found y hy n hn
  · cases x with
    | start k =>
      simp only [Waiter.step] at hstep
      split at hstep
      · obtain rfl := Option.some.inj hstep
        cases hn
      · rename_i m hm
        obtain rfl := Option.some.inj hstep
        obtain rfl := Option.some.inj hn
        obtain ⟨e, he, -⟩ := hd.coherent.fresh k m hm
        exact (List.getElem?_eq_some_iff.1 he).1
    | waiting m =>
      have hsame : y.found = some m := by
        simp only [Waiter.step] at hstep
        split at hstep
        · obtain rfl := Option.some.inj hstep
          rfl
        · split at hstep
          · obtain rfl := Option.some.inj hstep
            rfl
          · cases hstep
      obtain rfl := Option.some.inj (hsame.symm.trans hn)
      exact hd.found _ (List.mem_of_getElem? hw) m rfl
    | passed => cases hstep
    | released m => cases hstep
    | gaveUp m => cases hstep

/-- Only one operation has the lock. -/
theorem Disciplined.eq_of_hasLock (hd : Disciplined s) (hi : s.operations[i]? = some p)
    (hj : s.operations[j]? = some q) (hp : p.phase.HasLock) (hq : q.phase.HasLock) : i = j :=
  Option.some.inj ((hd.mutex i p hi hp).symm.trans (hd.mutex j q hj hq))

/-- A step that leaves the lock and the set alone. -/
theorem Disciplined.quiet (hd : Disciplined s) (hi : s.operations[i]? = some p)
    (hlock : ph.HasLock ↔ p.phase.HasLock) (hmarked : ph.marked = p.phase.marked) :
    Disciplined { s with operations := s.operations.set i { p with phase := ph } } := by
  refine ⟨hd.coherent, fun j q hj hq => ?_, fun j hj => ?_, fun j q hj hq => ?_, hd.free,
    fun e he => ⟨?_, (hd.owned e he).2⟩, hd.found⟩
  · rcases Pool.getElem?_set_cases hi hj with ⟨rfl, rfl⟩ | ⟨-, hj⟩
    · exact hd.mutex j p hi (hlock.1 hq)
    · exact hd.mutex j q hj hq
  · obtain ⟨q, hq, hqlock⟩ := hd.locked j hj
    by_cases hji : j = i
    · subst hji
      obtain rfl := Option.some.inj (hi.symm.trans hq)
      exact ⟨_, Pool.getElem?_set_self hi, hlock.2 hqlock⟩
    · exact ⟨q, by rw [Pool.getElem?_set_ne (Ne.symm hji), hq], hqlock⟩
  · rcases Pool.getElem?_set_cases hi hj with ⟨rfl, rfl⟩ | ⟨-, hj⟩
    · rw [hmarked]
      exact hd.marked j p hi (hlock.1 hq)
    · exact hd.marked j q hj hq
  · rw [List.length_set]
    exact (hd.owned e he).1

/-- The lock is taken: the set is empty. -/
theorem Disciplined.lockMutex (hd : Disciplined s) (hi : s.operations[i]? = some p)
    (hfree : s.mutex = none) :
    Disciplined { s with
      mutex := some i, operations := s.operations.set i { p with phase := .read } } := by
  have hnone : ∀ (j : ℕ) (q : Operation), s.operations[j]? = some q → ¬ q.phase.HasLock :=
      fun j q hj hq => by
    rw [hd.mutex j q hj hq] at hfree
    cases hfree
  refine ⟨hd.coherent, fun j q hj hq => ?_, fun j hj => ?_, fun j q hj hq => ?_,
    nofun, fun e he => ⟨?_, ?_⟩, hd.found⟩
  · rcases Pool.getElem?_set_cases hi hj with ⟨rfl, rfl⟩ | ⟨-, hj⟩
    · rfl
    · exact absurd hq (hnone j q hj)
  · obtain rfl := Option.some.inj hj
    exact ⟨_, Pool.getElem?_set_self hi, trivial⟩
  · rcases Pool.getElem?_set_cases hi hj with ⟨rfl, rfl⟩ | ⟨-, hj⟩
    · intro k
      rw [hd.free hfree k]
      exact ⟨fun hk => absurd hk Bool.false_ne_true, fun hk => absurd hk List.not_mem_nil⟩
    · exact absurd hq (hnone j q hj)
  · rw [List.length_set]
    exact (hd.owned e he).1
  · refine .inl ((hd.owned e he).2.resolve_right fun howner => ?_)
    rw [hfree] at howner
    cases howner

/-- The lock is given back: the set is empty again. -/
theorem Disciplined.unlockMutex (hd : Disciplined s) (hi : s.operations[i]? = some p)
    (hph : p.phase = .unlockMutex) :
    Disciplined { s with
      mutex := none, operations := s.operations.set i { p with phase := .unlockDist } } := by
  have hlock : p.phase.HasLock := by rw [hph]; trivial
  have hempty : ∀ k, s.manager.holds.lookup k = none := fun k => by
    rw [← Option.not_isSome_iff_eq_none, hd.marked i p hi hlock k, hph]
    exact List.not_mem_nil
  have hothers : ∀ (j : ℕ) (q : Operation),
      (s.operations.set i { p with phase := .unlockDist })[j]? = some q → ¬ q.phase.HasLock := by
    intro j q hj hq
    rcases Pool.getElem?_set_cases hi hj with ⟨-, rfl⟩ | ⟨hji, hj⟩
    · exact hq
    · exact hji (hd.eq_of_hasLock hj hi hq hlock)
  refine ⟨hd.coherent, fun j q hj hq => absurd hq (hothers j q hj), nofun,
    fun j q hj hq => absurd hq (hothers j q hj), fun _ => hempty, fun e he => ⟨?_, .inl ?_⟩,
    hd.found⟩
  · rw [List.length_set]
    exact (hd.owned e he).1
  · obtain ⟨n, hn⟩ := List.mem_iff_getElem?.1 he
    refine (hd.coherent.settled n e hn).resolve_right ?_
    rintro ⟨k, hk⟩
    rw [hempty k] at hk
    cases hk

/-- A call of the manager by the operation that has the lock. -/
theorem Disciplined.call (hd : Disciplined s) (hi : s.operations[i]? = some p)
    (hp : p.phase.HasLock) (hph : ph.HasLock) (hc : h'.Coherent)
    (hmarked : ∀ k, (h'.holds.lookup k).isSome ↔ k ∈ ph.marked)
    (howned : ∀ e ∈ h'.entries, e.owner < s.operations.length ∧ (e.Closed ∨ e.owner = i))
    (hlen : s.manager.entries.length ≤ h'.entries.length) :
    Disciplined { s with
      manager := h', operations := s.operations.set i { p with phase := ph } } := by
  have hmutex : s.mutex = some i := hd.mutex i p hi hp
  refine ⟨hc, fun j q hj hq => ?_, fun j hj => ?_, fun j q hj hq => ?_, fun hfree => ?_,
    fun e he => ⟨?_, ?_⟩, fun w hw n hn => (hd.found w hw n hn).trans_le hlen⟩
  · rcases Pool.getElem?_set_cases hi hj with ⟨rfl, rfl⟩ | ⟨-, hj⟩
    · exact hmutex
    · exact hd.mutex j q hj hq
  · obtain rfl := Option.some.inj (hmutex.symm.trans hj)
    exact ⟨_, Pool.getElem?_set_self hi, hph⟩
  · rcases Pool.getElem?_set_cases hi hj with ⟨rfl, rfl⟩ | ⟨hji, hj⟩
    · exact hmarked
    · exact absurd (hd.eq_of_hasLock hj hi hq hp) hji
  · rw [hmutex] at hfree
    cases hfree
  · rw [List.length_set]
    exact (howned e he).1
  · exact (howned e he).2.imp_right fun howner => by rw [howner]; exact hmutex

theorem Disciplined.mark {keys : List RoutingKey} (hd : Disciplined s)
    (hi : s.operations[i]? = some p) (hph : p.phase = .mark keys) :
    Disciplined { s with
      manager := s.manager.markTransition i keys
      operations := s.operations.set i { p with phase := .work keys } } := by
  have hlock : p.phase.HasLock := by rw [hph]; trivial
  refine hd.call hi hlock trivial (hd.coherent.markTransition keys) (fun k => ?_) (fun e he => ?_)
    (length_le_markTransition keys)
  · have hnone : ¬ (s.manager.holds.lookup k).isSome := by
      rw [hd.marked i p hi hlock k, hph]
      exact List.not_mem_nil
    rw [isSome_lookup_markTransition, or_iff_left hnone]
    rfl
  · rcases owner_of_markTransition he with hmem | howner
    · refine ⟨(hd.owned e hmem).1, (hd.owned e hmem).2.imp_right fun howner => ?_⟩
      exact Option.some.inj (howner.symm.trans (hd.mutex i p hi hlock))
    · exact ⟨howner ▸ (List.getElem?_eq_some_iff.1 hi).1, .inr howner⟩

theorem Disciplined.clear {keys : List RoutingKey} (hd : Disciplined s)
    (hi : s.operations[i]? = some p) (hph : p.phase = .clear keys) :
    Disciplined { s with
      manager := s.manager.clearTransition keys
      operations := s.operations.set i { p with phase := .unlockMutex } } := by
  have hlock : p.phase.HasLock := by rw [hph]; trivial
  have hc := hd.coherent.clearTransition keys
  have hempty : ∀ k, (s.manager.clearTransition keys).holds.lookup k = none := by
    intro k
    rw [lookup_clearTransition]
    split
    · rfl
    · rename_i hk
      rw [← Option.not_isSome_iff_eq_none, hd.marked i p hi hlock k, hph]
      exact hk
  have howners := owner_clearTransition (h := s.manager) keys
  refine hd.call hi hlock trivial hc (fun k => ?_) (fun e he => ⟨?_, .inl ?_⟩) ?_
  · rw [hempty k]
    exact ⟨fun hk => absurd hk Bool.false_ne_true, fun hk => absurd hk List.not_mem_nil⟩
  · have hmem : e.owner ∈ s.manager.entries.map Entry.owner :=
      howners ▸ List.mem_map_of_mem he
    obtain ⟨e', he', howner⟩ := List.mem_map.1 hmem
    exact howner ▸ (hd.owned e' he').1
  · obtain ⟨n, hn⟩ := List.mem_iff_getElem?.1 he
    refine (hc.settled n e hn).resolve_right ?_
    rintro ⟨k, hk⟩
    rw [hempty k] at hk
    cases hk
  · have hlen := congrArg List.length howners
    simp only [List.length_map] at hlen
    exact hlen.ge

/-- Where the answers of the lock and of the store take an operation: no
nearer to a mark. -/
theorem not_hasLock_failed (p : Operation) (ctxDone : Bool) :
    ¬ (p.failed ctxDone).HasLock ∧ (p.failed ctxDone).marked = [] := by
  obtain ⟨kind, phase⟩ := p
  cases kind with
  | rebalance => exact ⟨id, rfl⟩
  | drain => cases phase <;> cases ctxDone <;> exact ⟨id, rfl⟩

theorem hasLock_plan (p : Operation) (keys : Option (List RoutingKey)) :
    (p.plan keys).HasLock ∧ (p.plan keys).marked = [] := by
  obtain ⟨kind, phase⟩ := p
  rcases keys with - | - | ⟨k, keys⟩
  · exact ⟨trivial, rfl⟩
  · cases kind <;> exact ⟨trivial, rfl⟩
  · exact ⟨trivial, rfl⟩

/-- **A step of an operation keeps the discipline.** -/
theorem Disciplined.operation {a : Answer} {m' : Option ℕ} (hd : Disciplined s)
    (hi : s.operations[i]? = some p)
    (hstep : p.step i a s.manager s.mutex = some (ph, h', m')) :
    Disciplined { s with
      manager := h', mutex := m', operations := s.operations.set i { p with phase := ph } } := by
  unfold Operation.step at hstep
  -- While it tries, and once it has unlocked, it has nothing to do with the set.
  have htry : p.phase.HasLock = False → p.phase.marked = [] →
      some (if a.acquired then Phase.lockMutex else p.failed a.ctxDone, s.manager, s.mutex) =
        some (ph, h', m') →
      Disciplined { s with
        manager := h', mutex := m', operations := s.operations.set i { p with phase := ph } } := by
    intro hlock hmarked hstep
    simp only [Option.some.injEq, Prod.mk.injEq] at hstep
    obtain ⟨rfl, rfl, rfl⟩ := hstep
    refine hd.quiet hi ?_ ?_
    · rw [hlock]
      split
      · exact Iff.rfl
      · exact iff_of_false (not_hasLock_failed p _).1 id
    · rw [hmarked]
      split
      · rfl
      · exact (not_hasLock_failed p _).2
  cases hph : p.phase with
  | lock =>
    rw [hph] at hstep
    exact htry (by rw [hph]; rfl) (by rw [hph]; rfl) hstep
  | retry =>
    rw [hph] at hstep
    exact htry (by rw [hph]; rfl) (by rw [hph]; rfl) hstep
  | lockMutex =>
    rw [hph] at hstep
    obtain ⟨hfree, heq⟩ := Option.ite_none_left_eq_some.1 hstep
    simp only [Option.some.injEq, Prod.mk.injEq] at heq
    obtain ⟨rfl, rfl, rfl⟩ := heq
    exact hd.lockMutex hi (Option.not_isSome_iff_eq_none.1 hfree)
  | returned =>
    rw [hph] at hstep
    cases hstep
  | read =>
    simp only [hph, Option.some.injEq, Prod.mk.injEq] at hstep
    obtain ⟨rfl, rfl, rfl⟩ := hstep
    refine hd.quiet hi (iff_of_true (hasLock_plan p _).1 (by rw [hph]; trivial)) ?_
    rw [hph]
    exact (hasLock_plan p _).2
  | mark keys =>
    simp only [hph, Option.some.injEq, Prod.mk.injEq] at hstep
    obtain ⟨rfl, rfl, rfl⟩ := hstep
    exact hd.mark hi hph
  | work keys =>
    simp only [hph, Option.some.injEq, Prod.mk.injEq] at hstep
    obtain ⟨rfl, rfl, rfl⟩ := hstep
    cases keys with
    | nil => exact hd.quiet hi (by rw [hph]; exact Iff.rfl) (by rw [hph]; rfl)
    | cons k keys => exact hd.quiet hi (by rw [hph]; exact Iff.rfl) (by rw [hph]; rfl)
  | clear keys =>
    simp only [hph, Option.some.injEq, Prod.mk.injEq] at hstep
    obtain ⟨rfl, rfl, rfl⟩ := hstep
    exact hd.clear hi hph
  | unlockMutex =>
    simp only [hph, Option.some.injEq, Prod.mk.injEq] at hstep
    obtain ⟨rfl, rfl, rfl⟩ := hstep
    exact hd.unlockMutex hi hph
  | unlockDist =>
    simp only [hph, Option.some.injEq, Prod.mk.injEq] at hstep
    obtain ⟨rfl, rfl, rfl⟩ := hstep
    exact hd.quiet hi (by rw [hph]; exact Iff.rfl) (by rw [hph]; rfl)

theorem Disciplined.step {a : Action} (hd : Disciplined s) (hstep : step s a = some s') :
    Disciplined s' := by
  cases a with
  | operation i a =>
    obtain ⟨p, hi, hstep⟩ := Option.bind_eq_some_iff.1 hstep
    obtain ⟨⟨ph, h', m'⟩, hmove, rfl⟩ := Option.map_eq_some_iff.1 hstep
    exact hd.operation hi hmove
  | wait w givesUp =>
    obtain ⟨x, hw, hstep⟩ := Option.bind_eq_some_iff.1 hstep
    obtain ⟨x', hx', rfl⟩ := Option.map_eq_some_iff.1 hstep
    exact hd.wait hw hx'

/-- An entry is closed once the operation that made it has cleared. -/
theorem Disciplined.closed_of_ended (hd : Disciplined s) (hn : s.manager.entries[n]? = some e)
    (hp : s.operations[e.owner]? = some p) (hended : p.phase.Ended) : e.Closed := by
  refine (hd.coherent.settled n e hn).resolve_right ?_
  rintro ⟨k, hk⟩
  -- An entry that is still in the set is fresh, and so its operation's.
  obtain ⟨e', he', hfresh⟩ := hd.coherent.fresh k n hk
  obtain rfl := Option.some.inj (he'.symm.trans hn)
  have hmutex : s.mutex = some e'.owner := by
    refine (hd.owned e' (List.mem_of_getElem? hn)).2.resolve_left fun hclosed => ?_
    exact absurd (hfresh.1.symm.trans hclosed.1) Bool.false_ne_true
  obtain ⟨q, hq, hlock⟩ := hd.locked e'.owner hmutex
  obtain rfl := Option.some.inj (hq.symm.trans hp)
  have hmarked : k ∈ q.phase.marked := (hd.marked e'.owner q hq hlock k).1 (by rw [hk]; rfl)
  rw [hended.marked] at hmarked
  exact List.not_mem_nil hmarked

/-- **Hold discipline.** In every run of any number of drains, rebalances
and requests: the keys an operation has marked are held until it clears
them; no channel is closed twice; a request that found an entry has its
channel closed when the operation that made the entry ends; and nothing is
held while no operation has the lock. -/
theorem hold_discipline {kinds : List Transition.Kind} {keys : List RoutingKey}
    {schedule : List Action} (hrun : Run.exec step (.start kinds keys) schedule = some s) :
    (∀ p ∈ s.operations, ∀ k ∈ p.phase.marked, (s.manager.holds.lookup k).isSome) ∧
    (∀ e ∈ s.manager.entries, e.closes ≤ 1) ∧
    (∀ w ∈ s.waiters, ∀ n, w.found = some n → ∃ e p, s.manager.entries[n]? = some e ∧
      s.operations[e.owner]? = some p ∧ (p.phase.Ended → e.closes = 1)) ∧
    ((∀ p ∈ s.operations, ¬ p.phase.HasLock) → s.manager.holds = ∅) := by
  have hd : Disciplined s := Run.exec_invariant_of_forall (fun _ _ _ ht hst => ht.step hst)
    (disciplined_start kinds keys) hrun
  refine ⟨fun p hp k hk => ?_, fun e he => ?_, fun w hw n hn => ?_, fun hnone => ?_⟩
  · obtain ⟨i, hi⟩ := List.mem_iff_getElem?.1 hp
    exact (hd.marked i p hi (Phase.hasLock_of_mem_marked hk) k).2 hk
  · obtain ⟨n, hn⟩ := List.mem_iff_getElem?.1 he
    rcases hd.coherent.settled n e hn with hclosed | ⟨k, hk⟩
    · exact hclosed.2.le
    · obtain ⟨e', he', hfresh⟩ := hd.coherent.fresh k n hk
      obtain rfl := Option.some.inj (he'.symm.trans hn)
      exact hfresh.2.trans_le zero_le_one
  · have hlt := hd.found w hw n hn
    have hget : s.manager.entries[n]? = some s.manager.entries[n] := List.getElem?_eq_getElem hlt
    have howner := (hd.owned _ (List.getElem_mem hlt)).1
    refine ⟨_, _, hget, List.getElem?_eq_getElem howner, fun hended => ?_⟩
    exact (hd.closed_of_ended hget (List.getElem?_eq_getElem howner) hended).2
  · have hfree : s.mutex = none := by
      rcases hm : s.mutex with - | i
      · rfl
      · obtain ⟨p, hp, hlock⟩ := hd.locked i hm
        exact absurd hlock (hnone p (List.mem_of_getElem? hp))
    exact Table.eq_empty_of_lookup (hd.free hfree)

/-- A drain moves two accounts while a request for one of them waits, and a
rebalance gets the lock after it. -/
def drainThenRebalance : List Action :=
  [.operation 0 ⟨true, false, none⟩, .operation 0 ⟨true, false, none⟩,
    .operation 1 ⟨true, false, none⟩, .operation 0 ⟨true, false, some ["u", "v", "u"]⟩,
    .operation 0 ⟨true, false, none⟩, .wait 0 false, .operation 0 ⟨true, false, none⟩,
    .operation 0 ⟨true, false, none⟩, .wait 0 false, .operation 0 ⟨true, false, none⟩,
    .operation 1 ⟨true, false, none⟩, .operation 1 ⟨true, false, some ["u"]⟩,
    .operation 1 ⟨true, false, none⟩]

theorem hold_discipline_drainThenRebalance :
    ∃ s, Run.exec step (.start [.drain, .rebalance] ["u"]) drainThenRebalance = some s ∧
      s.waiters = [.released 0] ∧
      s.operations = [⟨.drain, .unlockDist⟩, ⟨.rebalance, .work ["u"]⟩] ∧
      (s.manager.holds.lookup "u").isSome ∧
      ∃ e p, s.manager.entries[0]? = some e ∧ s.operations[e.owner]? = some p ∧
        (p.phase.Ended → e.closes = 1) := by
  obtain ⟨s, hrun, hwaiters, hoperations⟩ : ∃ s,
      Run.exec step (.start [.drain, .rebalance] ["u"]) drainThenRebalance = some s ∧
        s.waiters = [.released 0] ∧
        s.operations = [⟨.drain, .unlockDist⟩, ⟨.rebalance, .work ["u"]⟩] := ⟨_, rfl, rfl, rfl⟩
  obtain ⟨hmarked, -, hfound, -⟩ := hold_discipline hrun
  refine ⟨s, hrun, hwaiters, hoperations, ?_, hfound (.released 0) (by rw [hwaiters]; simp) 0 rfl⟩
  exact hmarked ⟨.rebalance, .work ["u"]⟩ (by rw [hoperations]; simp) "u" List.mem_cons_self

end Hold

end StickyProxy
