import StickyProxy.Transition.Model.Lock
import StickyProxy.Common.Run
import StickyProxy.Common.Pool
/-!
# Who holds the transition lock

What one step of an operation can do to the locks, and from it the
invariant behind mutual exclusion: an operation in its critical section
has locked the mutex of its replica, and from its `TryLock` to its
`Unlock` the distributed lock is held for it, unless its key has expired.
On PostgreSQL the lock may be held for several operations of one replica
at once, for a session that has it may take it again; on Redis it is held
for one. The invariant asks that no operation sends its `DEL` after its
own key has expired.
-/

namespace StickyProxy

namespace Transition

variable {i j r : ℕ} {p q : Operation} {s s' : System} {d d' : Dist} {m m' : Table ℕ ℕ}
  {ph : Phase} {σ : Session} {l : Advisory}

/-! ## How far an operation is -/

/-- It has not acquired the distributed lock. -/
def Phase.Tries : Phase → Prop
  | .lock | .retry => True
  | _ => False

/-- It has acquired the distributed lock and not yet given it back. -/
def Phase.Holds : Phase → Prop
  | .lockMutex | .critical | .unlockMutex | .unlockDist => True
  | _ => False

/-- It has locked the mutex. -/
def Phase.HasMutex : Phase → Prop
  | .critical | .unlockMutex => True
  | _ => False

/-- An operation that did not get the lock does not hold it. -/
theorem Operation.failed_cases (p : Operation) :
    p.failed = .retry ∨ p.failed = .returned := by
  obtain ⟨kind, replica, ctxDone, phase, expired⟩ := p
  cases kind with
  | rebalance => exact Or.inr rfl
  | drain =>
    cases phase <;> cases ctxDone <;> first | exact Or.inl rfl | exact Or.inr rfl

/-! ## What a step does -/

/-- `TryLock` acquires the lock. -/
inductive Acquires (i r : ℕ) : Dist → Dist → Prop
  | single : Acquires i r .single .single
  | redis : Acquires i r (.redis none) (.redis (some i))
  /-- On a session of the replica, while no other has the lock. -/
  | postgres {l : Advisory} {σ : Session} : σ.replica = r →
      l.holder = none ∨ l.holder = some σ →
      Acquires i r (.postgres l) (.postgres (l.take i r σ))

/-- Every step an operation can take. -/
inductive Moves (i : ℕ) (p : Operation) (d : Dist) (m : Table ℕ ℕ) :
    Phase → Dist → Table ℕ ℕ → Prop
  | fail : p.phase.Tries → Moves i p d m p.failed d m
  | acquire {d' : Dist} : p.phase.Tries → Acquires i p.replica d d' → Moves i p d m .lockMutex d' m
  | lockMutex : p.phase = .lockMutex → m.lookup p.replica = none →
      Moves i p d m .critical d (m.insert p.replica i)
  | work : p.phase = .critical → Moves i p d m .unlockMutex d m
  | unlockMutex : p.phase = .unlockMutex → Moves i p d m .unlockDist d (m.erase p.replica)
  | unlockDist : p.phase = .unlockDist →
      Moves i p d m (unlockDist i p d).1 (unlockDist i p d).2 m
  | closeConn {l : Advisory} {q : ℕ} : p.phase = .closeConn → d = .postgres l →
      l.conn.lookup p.replica = some q →
      Moves i p d m .clearConn (.postgres { l with opened := l.opened.erase q }) m
  | clearConn {l : Advisory} : p.phase = .clearConn → d = .postgres l →
      Moves i p d m .returned (.postgres { l with conn := l.conn.erase p.replica }) m

/-- `TryLock` acquires the lock or leaves it alone. -/
theorem tryLock_cases {ok : Bool} (h : tryLock i p σ d = some (ok, d')) :
    (ok = false ∧ d' = d) ∨ (ok = true ∧ Acquires i p.replica d d') := by
  cases d with
  | single =>
    obtain ⟨rfl, rfl⟩ := Prod.mk.inj (Option.some.inj h)
    exact Or.inr ⟨rfl, .single⟩
  | redis key =>
    simp only [tryLock] at h
    split at h
    · obtain ⟨rfl, rfl⟩ := Prod.mk.inj (Option.some.inj h)
      exact Or.inl ⟨rfl, rfl⟩
    · rename_i hfree
      obtain ⟨rfl, rfl⟩ := Prod.mk.inj (Option.some.inj h)
      have hkey : key = none := by
        rw [← Option.not_isSome_iff_eq_none]
        exact fun hkey => hfree (Or.inr hkey)
      exact Or.inr ⟨rfl, hkey ▸ .redis⟩
  | postgres l =>
    simp only [tryLock] at h
    split at h
    · obtain ⟨rfl, rfl⟩ := Prod.mk.inj (Option.some.inj h)
      exact Or.inl ⟨rfl, rfl⟩
    · split at h
      · rename_i hidle
        split at h
        · rename_i hholder
          obtain ⟨rfl, rfl⟩ := Prod.mk.inj (Option.some.inj h)
          exact Or.inr ⟨rfl, .postgres hidle.1 hholder⟩
        · obtain ⟨rfl, rfl⟩ := Prod.mk.inj (Option.some.inj h)
          exact Or.inl ⟨rfl, rfl⟩
      · cases h

theorem moves_tryLock (htries : p.phase.Tries)
    (h : ((tryLock i p σ d).map fun t =>
      (if t.1 then Phase.lockMutex else p.failed, t.2, m)) = some (ph, d', m')) :
    Moves i p d m ph d' m' := by
  obtain ⟨⟨ok, d''⟩, htry, heq⟩ := Option.map_eq_some_iff.1 h
  simp only [Prod.mk.injEq] at heq
  obtain ⟨rfl, rfl, rfl⟩ := heq
  rcases tryLock_cases htry with ⟨rfl, rfl⟩ | ⟨rfl, hacq⟩
  · exact .fail htries
  · exact .acquire htries hacq

/-- **A step is one of the moves.** -/
theorem moves_of_step (h : p.step i σ d m = some (ph, d', m')) : Moves i p d m ph d' m' := by
  unfold Operation.step at h
  split at h
  · rename_i hph
    exact moves_tryLock (by rw [hph]; trivial) h
  · rename_i hph
    exact moves_tryLock (by rw [hph]; trivial) h
  · rename_i hph
    split at h
    · cases h
    · rename_i hfree
      simp only [Option.some.injEq, Prod.mk.injEq] at h
      obtain ⟨rfl, rfl, rfl⟩ := h
      exact .lockMutex hph (Option.not_isSome_iff_eq_none.1 hfree)
  · rename_i hph
    simp only [Option.some.injEq, Prod.mk.injEq] at h
    obtain ⟨rfl, rfl, rfl⟩ := h
    exact .work hph
  · rename_i hph
    simp only [Option.some.injEq, Prod.mk.injEq] at h
    obtain ⟨rfl, rfl, rfl⟩ := h
    exact .unlockMutex hph
  · rename_i hph
    simp only [Option.some.injEq, Prod.mk.injEq] at h
    obtain ⟨rfl, rfl, rfl⟩ := h
    exact .unlockDist hph
  · rename_i hph
    obtain ⟨d'', hclose, heq⟩ := Option.map_eq_some_iff.1 h
    simp only [Prod.mk.injEq] at heq
    obtain ⟨rfl, rfl, rfl⟩ := heq
    cases d with
    | single => cases hclose
    | redis key => cases hclose
    | postgres l =>
      obtain ⟨q, hq, rfl⟩ := Option.map_eq_some_iff.1 hclose
      exact .closeConn hph rfl hq
  · rename_i hph
    obtain ⟨d'', hclear, heq⟩ := Option.map_eq_some_iff.1 h
    simp only [Prod.mk.injEq] at heq
    obtain ⟨rfl, rfl, rfl⟩ := heq
    cases d with
    | single => cases hclear
    | redis key => cases hclear
    | postgres l =>
      obtain rfl := Option.some.inj hclear
      exact .clearConn hph rfl
  · cases h

/-- What a step of the system does. -/
inductive Steps (s : System) : Action → System → Prop
  | operation {i : ℕ} {p : Operation} {ph : Phase} {d : Dist} {m : Table ℕ ℕ} {σ : Session} :
      s.operations[i]? = some p → Moves i p s.dist s.mutex ph d m →
      Steps s (.operation i σ) ⟨d, m, s.operations.set i { p with phase := ph }⟩
  | cancel {i : ℕ} : Steps s (.cancel i) { s with
      operations := s.operations.modify i fun p => { p with ctxDone := true } }
  | expire {i : ℕ} : s.dist = .redis (some i) → Steps s .expire { s with
      dist := .redis none
      operations := s.operations.modify i fun p => { p with expired := true } }

theorem steps_of_step {a : Action} (h : step s a = some s') : Steps s a s' := by
  cases a with
  | operation i σ =>
    obtain ⟨p, hp, h⟩ := Option.bind_eq_some_iff.1 h
    obtain ⟨⟨ph, d, m⟩, hstep, rfl⟩ := Option.map_eq_some_iff.1 h
    exact .operation hp (moves_of_step hstep)
  | cancel i =>
    obtain rfl := Option.some.inj h
    exact .cancel
  | expire =>
    simp only [step, expire] at h
    split at h
    · rename_i i hd
      obtain rfl := Option.some.inj h
      exact .expire hd
    · cases h

/-! ## The distributed lock -/

/-- The distributed lock is held for an operation of a replica. Without
one there is nothing to hold. -/
def Dist.HeldFor (i r : ℕ) : Dist → Prop
  | .single => True
  | .redis key => key = some i
  | .postgres l => i ∈ l.takenFor ∧ ∃ σ, l.holder = some σ ∧ σ.replica = r

theorem heldFor_of_acquires (h : Acquires i r d d') : d'.HeldFor i r := by
  cases h with
  | single => trivial
  | redis => rfl
  | postgres hr _ => exact ⟨List.mem_cons_self, _, rfl, hr⟩

/-- Acquiring the lock takes it from nobody. -/
theorem Dist.HeldFor.of_acquires {r' : ℕ} (h : Acquires i r d d') (hj : d.HeldFor j r') :
    d'.HeldFor j r' := by
  cases h with
  | single => trivial
  | redis => cases hj
  | postgres hr hfree =>
    obtain ⟨hmem, τ, hτ, hr'⟩ := hj
    rcases hfree with hfree | hfree
    · rw [hfree] at hτ
      cases hτ
    · have hσ := Option.some.inj (hτ.symm.trans hfree)
      exact ⟨List.mem_cons_of_mem _ hmem, _, rfl, hσ ▸ hr'⟩

/-- Giving a session's lock back once leaves it to the others. -/
theorem heldFor_release (hne : j ≠ i) (hj : (Dist.postgres l).HeldFor j r) :
    (Dist.postgres (l.release i σ)).HeldFor j r := by
  unfold Advisory.release
  split
  · rename_i hσ
    have hmem : j ∈ l.takenFor.erase i := (List.mem_erase_of_ne hne).2 hj.1
    obtain ⟨-, τ, hτ, hr⟩ := hj
    refine ⟨hmem, τ, ?_, hr⟩
    rw [if_neg (List.ne_nil_of_mem hmem), ← hσ]
    exact hτ
  · exact hj

theorem heldFor_exec {c : ℕ} {ctxDone : Bool} (hne : j ≠ i)
    (hj : (Dist.postgres l).HeldFor j r) : (Dist.postgres (l.exec i c ctxDone)).HeldFor j r := by
  unfold Advisory.exec
  split
  · split
    · exact hj
    · exact heldFor_release hne hj
  · exact hj

theorem unlockDist_postgres_cases (i : ℕ) (p : Operation) (l : Advisory) :
    (l.conn.lookup p.replica = none ∧
        unlockDist i p (.postgres l) = (.returned, .postgres l)) ∨
      ∃ c, l.conn.lookup p.replica = some c ∧
        unlockDist i p (.postgres l) = (.closeConn, .postgres (l.exec i c p.ctxDone)) := by
  rcases hc : l.conn.lookup p.replica with - | c
  · exact Or.inl ⟨rfl, by simp only [unlockDist, hc]⟩
  · exact Or.inr ⟨c, rfl, by simp only [unlockDist, hc]⟩

/-- `Unlock` gives back the lock of its own operation only, if it has it. -/
theorem heldFor_unlockDist (hne : j ≠ i) (hown : ¬ p.ctxDone → d.HeldFor i p.replica)
    (hj : d.HeldFor j r) : (unlockDist i p d).2.HeldFor j r := by
  cases d with
  | single => trivial
  | redis key =>
    simp only [unlockDist]
    by_cases hctx : p.ctxDone
    · rw [if_pos hctx]
      exact hj
    · -- The key cannot be that of two operations.
      have hkey : some i = some j := (hown hctx).symm.trans hj
      exact absurd (Option.some.inj hkey).symm hne
  | postgres l =>
    rcases unlockDist_postgres_cases i p l with ⟨-, heq⟩ | ⟨c, -, heq⟩
    · rw [heq]
      exact hj
    · rw [heq]
      exact heldFor_exec hne hj

theorem unlockDist_phase (i : ℕ) (p : Operation) (d : Dist) :
    (unlockDist i p d).1 = .returned ∨ (unlockDist i p d).1 = .closeConn := by
  cases d with
  | single => exact Or.inl rfl
  | redis key => exact Or.inl rfl
  | postgres l =>
    rcases unlockDist_postgres_cases i p l with ⟨-, heq⟩ | ⟨c, -, heq⟩
    · exact Or.inl (by rw [heq])
    · exact Or.inr (by rw [heq])

/-- A step of an operation takes the lock from no other, if its own
`Unlock` finds it held for itself. -/
theorem Dist.HeldFor.moves (h : Moves i p d m ph d' m') (hne : j ≠ i)
    (hown : p.phase = .unlockDist → ¬ p.ctxDone → d.HeldFor i p.replica)
    (hj : d.HeldFor j r) : d'.HeldFor j r := by
  cases h with
  | fail _ => exact hj
  | acquire _ hacq => exact hj.of_acquires hacq
  | lockMutex _ _ => exact hj
  | work _ => exact hj
  | unlockMutex _ => exact hj
  | unlockDist hph => exact heldFor_unlockDist hne (hown hph) hj
  | closeConn _ hd _ =>
    subst hd
    exact hj
  | clearConn _ hd =>
    subst hd
    exact hj

/-- And keeps it for itself for as long as it holds it. -/
theorem heldFor_moves_self (h : Moves i p d m ph d' m') (hph : ph.Holds)
    (hself : p.phase.Holds → d.HeldFor i p.replica) : d'.HeldFor i p.replica := by
  cases h with
  | fail _ => rcases p.failed_cases with hf | hf <;> rw [hf] at hph <;> exact hph.elim
  | acquire _ hacq => exact heldFor_of_acquires hacq
  | lockMutex hp _ => exact hself (by rw [hp]; trivial)
  | work hp => exact hself (by rw [hp]; trivial)
  | unlockMutex hp => exact hself (by rw [hp]; trivial)
  | unlockDist _ =>
    rcases unlockDist_phase i p d with hf | hf <;> rw [hf] at hph <;> exact hph.elim
  | closeConn _ _ _ => exact hph.elim
  | clearConn _ _ => exact hph.elim

/-! ## The mutex -/

theorem lookup_mutex_moves (h : Moves i p d m ph d' m') (hne : p.replica ≠ r) :
    m'.lookup r = m.lookup r := by
  cases h with
  | lockMutex _ _ => rw [Table.lookup_insert_eq, if_neg (Ne.symm hne)]
  | unlockMutex _ => rw [Table.lookup_erase_eq, if_neg (Ne.symm hne)]
  | _ => rfl

/-- The mutex stays locked by another operation, of the same replica or
not. -/
theorem mutex_moves_other (h : Moves i p d m ph d' m') (hne : j ≠ i)
    (hself : p.phase.HasMutex → m.lookup p.replica = some i) (hj : m.lookup r = some j) :
    m'.lookup r = some j := by
  by_cases hr : p.replica = r
  · subst hr
    cases h with
    | lockMutex _ hfree =>
      rw [hfree] at hj
      cases hj
    | unlockMutex hph =>
      rw [hself (by rw [hph]; trivial)] at hj
      exact absurd (Option.some.inj hj).symm hne
    | _ => exact hj
  · rw [lookup_mutex_moves h hr]
    exact hj

theorem mutex_moves_self (h : Moves i p d m ph d' m') (hph : ph.HasMutex)
    (hself : p.phase.HasMutex → m.lookup p.replica = some i) : m'.lookup p.replica = some i := by
  cases h with
  | fail _ => rcases p.failed_cases with hf | hf <;> rw [hf] at hph <;> exact hph.elim
  | acquire _ _ => exact hph.elim
  | lockMutex _ _ => rw [Table.lookup_insert_eq, if_pos rfl]
  | work hp => exact hself (by rw [hp]; trivial)
  | unlockMutex _ => exact hph.elim
  | unlockDist _ =>
    rcases unlockDist_phase i p d with hf | hf <;> rw [hf] at hph <;> exact hph.elim
  | closeConn _ _ _ => exact hph.elim
  | clearConn _ _ => exact hph.elim

/-! ## The invariant -/

/-- Who is in the critical section has the mutex, and who holds the
distributed lock has it, as long as the key has not expired. -/
structure Owned (s : System) : Prop where
  mutex : ∀ i p, s.operations[i]? = some p → p.phase.HasMutex →
    s.mutex.lookup p.replica = some i
  dist : ∀ i p, s.operations[i]? = some p → p.phase.Holds → ¬ p.expired →
    s.dist.HeldFor i p.replica

/-- An operation sends its `DEL` before its key expires. -/
def InTime (s : System) : Action → Prop
  | .operation i _ => ∀ p ∈ s.operations[i]?, p.phase = .unlockDist → ¬ p.ctxDone → ¬ p.expired
  | _ => True

instance (s : System) : ∀ a : Action, Decidable (InTime s a)
  | .operation i _ => inferInstanceAs (Decidable (∀ p ∈ s.operations[i]?, _))
  | .cancel _ | .expire => isTrue trivial

theorem owned_start (locker : Locker) (operations : List (Kind × ℕ)) :
    Owned (System.start locker operations) := by
  have hlock : ∀ (i : ℕ) (p : Operation),
      (System.start locker operations).operations[i]? = some p → p.phase = .lock := by
    intro i p hp
    obtain ⟨o, -, rfl⟩ := List.mem_map.1 (List.mem_of_getElem? hp)
    rfl
  refine ⟨fun i p hp hph => ?_, fun i p hp hph _ => ?_⟩
  · rw [hlock i p hp] at hph
    exact hph.elim
  · rw [hlock i p hp] at hph
    exact hph.elim

theorem Owned.operation (h : Owned s) (hp : s.operations[i]? = some p)
    (hmove : Moves i p s.dist s.mutex ph d m)
    (htime : p.phase = .unlockDist → ¬ p.ctxDone → ¬ p.expired) :
    Owned ⟨d, m, s.operations.set i { p with phase := ph }⟩ := by
  have hown : p.phase = .unlockDist → ¬ p.ctxDone → s.dist.HeldFor i p.replica :=
    fun hph hctx => h.dist i p hp (by rw [hph]; trivial) (htime hph hctx)
  refine ⟨fun j q hq hph => ?_, fun j q hq hph hexp => ?_⟩
  · rcases Pool.getElem?_set_cases hp hq with ⟨rfl, rfl⟩ | ⟨hji, hq⟩
    · exact mutex_moves_self (p := p) hmove hph (h.mutex j p hp)
    · exact mutex_moves_other hmove hji (h.mutex i p hp) (h.mutex j q hq hph)
  · rcases Pool.getElem?_set_cases hp hq with ⟨rfl, rfl⟩ | ⟨hji, hq⟩
    · exact heldFor_moves_self (p := p) hmove hph fun hold => h.dist j p hp hold hexp
    · exact (h.dist j q hq hph hexp).moves hmove hji hown

/-- What an operation is marked with is no matter of the mutex. -/
theorem Owned.mutex_modify {f : Operation → Operation} {q : Operation} {i j : ℕ} (h : Owned s)
    (hq : (s.operations.modify i f)[j]? = some q) (hph : q.phase.HasMutex)
    (hphase : ∀ p, (f p).phase = p.phase) (hreplica : ∀ p, (f p).replica = p.replica) :
    s.mutex.lookup q.replica = some j := by
  obtain ⟨p, hp, rfl⟩ := Pool.getElem?_modify_cases hq
  have hsame : (if i = j then f p else p).phase = p.phase ∧
      (if i = j then f p else p).replica = p.replica := by
    split
    · exact ⟨hphase p, hreplica p⟩
    · exact ⟨rfl, rfl⟩
  rw [hsame.1] at hph
  rw [hsame.2]
  exact h.mutex j p hp hph

/-- **A step in time keeps everybody's locks.** -/
theorem Owned.step {a : Action} (h : Owned s) (htime : InTime s a) (hst : step s a = some s') :
    Owned s' := by
  cases steps_of_step hst with
  | operation hp hmove => exact h.operation hp hmove (htime _ hp)
  | cancel =>
    refine ⟨fun j q hq hph => ?_, fun j q hq hph hexp => ?_⟩
    · exact h.mutex_modify hq hph (fun _ => rfl) fun _ => rfl
    · obtain ⟨p, hp, rfl⟩ := Pool.getElem?_modify_cases hq
      split at hph
      · rw [if_pos ‹_›] at hexp ⊢
        exact h.dist j p hp hph hexp
      · rw [if_neg ‹_›] at hexp ⊢
        exact h.dist j p hp hph hexp
  | @expire i hd =>
    refine ⟨fun j q hq hph => ?_, fun j q hq hph hexp => ?_⟩
    · exact h.mutex_modify hq hph (fun _ => rfl) fun _ => rfl
    · -- Only the operation whose key it was could have held the lock.
      obtain ⟨p, hp, rfl⟩ := Pool.getElem?_modify_cases hq
      by_cases hij : i = j
      · rw [if_pos hij] at hexp
        exact absurd rfl hexp
      · rw [if_neg hij] at hph hexp
        have hkey := h.dist j p hp hph hexp
        rw [hd] at hkey
        exact absurd (Option.some.inj hkey) hij

end Transition

end StickyProxy
