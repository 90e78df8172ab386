import StickyProxy.Transition.Model.RoundTrips
import StickyProxy.Common.Run
import StickyProxy.Common.Pool
/-!
# The advisory lock and the field `conn`

The server lets the next operation have the lock as soon as the query of
`Unlock` is answered, and the locker's field is still to be closed and
cleared. If the next operation of the replica stores its connection before
that, the two steps that are left close and clear the wrong one, its own
`Unlock` finds nothing to unlock, and the lock stays with a session that
is back in the pool. As long as no operation stores its connection there
and then, the field holds the connection of whoever has the lock, every
`Unlock` gives back what its operation took, and the lock is free when
nobody has it.
-/

namespace StickyProxy

namespace Transition

namespace RoundTrips

variable {i j : ℕ} {p q : Caller} {σ τ : Session} {l l' : Advisory} {m m' : Table ℕ ℕ}
  {st : Stage} {s s' : System}

/-! ## What a step does -/

/-- Every step an operation can take. -/
inductive Moves (i : ℕ) (p : Caller) (l : Advisory) (m : Table ℕ ℕ) :
    Stage → Advisory → Table ℕ ℕ → Prop
  | connect {σ : Session} : p.stage = .connect → l.Idle σ →
      Moves i p l m .query { l with opened := l.opened.insert i σ } m
  | refused {σ : Session} : p.stage = .query → l.opened.lookup i = some σ →
      Moves i p l m p.failed { l with opened := l.opened.erase i } m
  | granted {σ : Session} : p.stage = .query → l.opened.lookup i = some σ →
      l.holder = none ∨ l.holder = some σ →
      Moves i p l m .store { l with holder := some σ, takenFor := i :: l.takenFor } m
  | store : p.stage = .store → Moves i p l m .lockMutex (store i p.replica l) m
  | lockMutex : p.stage = .lockMutex → Moves i p l m .critical l (m.insert p.replica i)
  | work : p.stage = .critical → Moves i p l m .unlockMutex l m
  | unlockMutex : p.stage = .unlockMutex → Moves i p l m .unlock l (m.erase p.replica)
  | unlock : p.stage = .unlock →
      Moves i p l m (unlock i p.replica l).1 (unlock i p.replica l).2 m
  | close {c : ℕ} : p.stage = .close → l.conn.lookup p.replica = some c →
      Moves i p l m .clear { l with opened := l.opened.erase c } m
  | clear : p.stage = .clear → Moves i p l m .returned (clear p.replica l) m

theorem moves_connect (hst : p.stage = .connect)
    (h : ((connect i p.replica σ l).map fun l => (Stage.query, l, m)) = some (st, l', m')) :
    Moves i p l m st l' m' := by
  obtain ⟨l₁, hl₁, heq⟩ := Option.map_eq_some_iff.1 h
  obtain ⟨hidle, heq₁⟩ := Option.ite_none_right_eq_some.1 hl₁
  obtain rfl := Option.some.inj heq₁
  simp only [Prod.mk.injEq] at heq
  obtain ⟨rfl, rfl, rfl⟩ := heq
  exact .connect hst hidle.2

theorem moves_query (hst : p.stage = .query)
    (h : ((query i l).map fun r => (if r.1 then Stage.store else p.failed, r.2, m)) =
      some (st, l', m')) :
    Moves i p l m st l' m' := by
  obtain ⟨r, hr, heq⟩ := Option.map_eq_some_iff.1 h
  obtain ⟨σ, hσ, rfl⟩ := Option.map_eq_some_iff.1 hr
  simp only [Prod.mk.injEq] at heq
  obtain ⟨rfl, rfl, rfl⟩ := heq
  split
  · rename_i hholder
    exact .granted hst hσ hholder
  · exact .refused hst hσ

/-- **A step is one of the moves.** -/
theorem moves_of_step (h : p.step i σ l m = some (st, l', m')) : Moves i p l m st l' m' := by
  unfold Caller.step at h
  cases hst : p.stage <;> simp only [hst] at h
  case connect => exact moves_connect hst h
  case query => exact moves_query hst h
  case lockMutex =>
    obtain ⟨-, heq⟩ := Option.ite_none_left_eq_some.1 h
    simp only [Option.some.injEq, Prod.mk.injEq] at heq
    obtain ⟨rfl, rfl, rfl⟩ := heq
    exact .lockMutex hst
  case close =>
    obtain ⟨l₁, hl₁, heq⟩ := Option.map_eq_some_iff.1 h
    obtain ⟨c, hc, rfl⟩ := Option.map_eq_some_iff.1 hl₁
    simp only [Prod.mk.injEq] at heq
    obtain ⟨rfl, rfl, rfl⟩ := heq
    exact .close hst hc
  case returned => cases h
  all_goals
    simp only [Option.some.injEq, Prod.mk.injEq] at h
    obtain ⟨rfl, rfl, rfl⟩ := h
  · exact .store hst
  · exact .work hst
  · exact .unlockMutex hst
  · exact .unlock hst
  · exact .clear hst

/-! ## Whose lock it is -/

/-- `TryLock` has been answered with true, `Unlock` not yet. -/
def Stage.Holds : Stage → Prop
  | .store | .lockMutex | .critical | .unlockMutex | .unlock => True
  | _ => False

/-- The connection has been stored, and the field is not yet cleared. -/
def Stage.Stored : Stage → Prop
  | .lockMutex | .critical | .unlockMutex | .unlock | .close | .clear => True
  | _ => False

/-- The connection is open. -/
def Stage.Opened : Stage → Prop
  | .query | .store | .lockMutex | .critical | .unlockMutex | .unlock | .close => True
  | _ => False

theorem Stage.Holds.opened (h : st.Holds) : st.Opened := by
  cases st <;> trivial

/-- An operation that has stored its connection has the lock, or has
unlocked and is closing. -/
theorem Stage.Stored.holds_or (h : st.Stored) : st.Holds ∨ st = .close ∨ st = .clear := by
  cases st <;> first | exact h.elim | exact .inl trivial | exact .inr (.inl rfl) |
    exact .inr (.inr rfl)

/-- What the lock and the locker record of an operation. -/
structure Recorded (l : Advisory) (i : ℕ) (p : Caller) : Prop where
  opened : p.stage.Opened → (l.opened.lookup i).isSome
  taken : p.stage.Holds → l.takenFor = [i] ∧ l.holder = l.opened.lookup i
  field : p.stage.Stored → l.conn.lookup p.replica = some i

/-- Each operation is on record, no two have the same session, and the
lock is free unless one of them has it. -/
structure Sound (s : System) : Prop where
  recorded : ∀ i p, s.callers[i]? = some p → Recorded s.lock i p
  apart : ∀ i j σ, s.lock.opened.lookup i = some σ → s.lock.opened.lookup j = some σ → i = j
  free : (∀ p ∈ s.callers, ¬ p.stage.Holds) → s.lock.takenFor = [] ∧ s.lock.holder = none

/-- No operation stores its connection while another of its replica is
between the query of its `Unlock` and the end of it. -/
def Undisturbed (s : System) (a : Action) : Prop :=
  ∀ p ∈ s.callers[a.1]?, p.stage = .store →
    ∀ q ∈ s.callers, q.replica = p.replica → q.stage ≠ .close ∧ q.stage ≠ .clear

instance (s : System) (a : Action) : Decidable (Undisturbed s a) :=
  inferInstanceAs (Decidable (∀ p ∈ s.callers[a.1]?, _ → ∀ q ∈ s.callers, _))

theorem sound_start (callers : List (Kind × ℕ)) : Sound (.start callers) := by
  have hconnect : ∀ (i : ℕ) (p : Caller), (System.start callers).callers[i]? = some p →
      p.stage = .connect := by
    intro i p hp
    obtain ⟨c, -, rfl⟩ := List.mem_map.1 (List.mem_of_getElem? hp)
    rfl
  refine ⟨fun i p hp => ?_, fun i j σ hi => ?_, fun _ => ⟨rfl, rfl⟩⟩
  · have hst := hconnect i p hp
    constructor <;> intro h <;> rw [hst] at h <;> exact h.elim
  · exact absurd hi (by simp [System.start, Advisory.free])

/-- At most one operation has the lock. -/
theorem Sound.eq_of_holds (h : Sound s) (hi : s.callers[i]? = some p) (hj : s.callers[j]? = some q)
    (hp : p.stage.Holds) (hq : q.stage.Holds) : i = j := by
  have heq := ((h.recorded i p hi).taken hp).1.symm.trans ((h.recorded j q hj).taken hq).1
  exact (List.cons.inj heq).1

/-- An operation that has the lock has its session hold it. -/
theorem Sound.holder (h : Sound s) (hi : s.callers[i]? = some p) (hp : p.stage.Holds) :
    ∃ σ, s.lock.opened.lookup i = some σ ∧ s.lock.holder = some σ := by
  obtain ⟨σ, hσ⟩ := Option.isSome_iff_exists.1 ((h.recorded i p hi).opened hp.opened)
  exact ⟨σ, hσ, ((h.recorded i p hi).taken hp).2.trans hσ⟩

/-- While the lock can be had, nobody has it. -/
theorem Sound.not_holds_of_granted (h : Sound s) (hi : s.callers[i]? = some p)
    (hst : p.stage = .query) (hσ : s.lock.opened.lookup i = some σ)
    (hfree : s.lock.holder = none ∨ s.lock.holder = some σ) (hq : q ∈ s.callers) :
    ¬ q.stage.Holds := by
  intro hholds
  obtain ⟨j, hj⟩ := List.mem_iff_getElem?.1 hq
  obtain ⟨τ, hτ, hholder⟩ := h.holder hj hholds
  have hστ : σ = τ := by
    rcases hfree with hnone | hsome
    · exact absurd (hholder.symm.trans hnone) (by simp)
    · exact Option.some.inj (hsome.symm.trans hholder)
  subst hστ
  obtain rfl := h.apart i j σ hσ hτ
  obtain rfl := Option.some.inj (hi.symm.trans hj)
  rw [hst] at hholds
  exact hholds

/-- **The query of `Unlock` gives the lock back.** -/
theorem Sound.unlock (h : Sound s) (hi : s.callers[i]? = some p) (hst : p.stage = .unlock) :
    unlock i p.replica s.lock = (.close, { s.lock with takenFor := [], holder := none }) := by
  have hholds : p.stage.Holds := by rw [hst]; trivial
  have hstored : p.stage.Stored := by rw [hst]; trivial
  obtain ⟨σ, hσ, hholder⟩ := h.holder hi hholds
  simp only [RoundTrips.unlock, (h.recorded i p hi).field hstored, Advisory.exec, hσ,
    Advisory.release, hholder, ((h.recorded i p hi).taken hholds).1]
  simp

/-- A step keeps the record when the mover is on record after it, every
other operation is as before, sessions stay apart and the lock is free
unless somebody has it. -/
theorem Sound.set (h : Sound s) (hi : s.callers[i]? = some p)
    (hself : Recorded l' i { p with stage := st })
    (hother : ∀ j q, j ≠ i → s.callers[j]? = some q → Recorded s.lock j q → Recorded l' j q)
    (hapart : ∀ i j σ, l'.opened.lookup i = some σ → l'.opened.lookup j = some σ → i = j)
    (hfree : ¬ st.Holds → (∀ j q, j ≠ i → s.callers[j]? = some q → ¬ q.stage.Holds) →
      l'.takenFor = [] ∧ l'.holder = none) :
    Sound ⟨l', m', s.callers.set i { p with stage := st }⟩ := by
  refine ⟨fun j q hj => ?_, hapart, fun hall => ?_⟩
  · rcases Pool.getElem?_set_cases hi hj with ⟨rfl, rfl⟩ | ⟨hji, hj⟩
    · exact hself
    · exact hother j q hji hj (h.recorded j q hj)
  · refine hfree (hall _ (Pool.self_mem_set hi)) fun j q hji hj => ?_
    exact hall q (List.mem_of_getElem? (by rw [Pool.getElem?_set_ne (Ne.symm hji), hj]))

/-- If the mover does not have the lock and no other operation does, it is
free. -/
theorem Sound.free_of_others (h : Sound s) (hi : s.callers[i]? = some p) (hp : ¬ p.stage.Holds)
    (hothers : ∀ j q, j ≠ i → s.callers[j]? = some q → ¬ q.stage.Holds) :
    s.lock.takenFor = [] ∧ s.lock.holder = none := by
  refine h.free fun q hq => ?_
  obtain ⟨j, hj⟩ := List.mem_iff_getElem?.1 hq
  by_cases hji : j = i
  · subst hji
    obtain rfl := Option.some.inj (hi.symm.trans hj)
    exact hp
  · exact hothers j q hji hj

/-- A step that leaves the lock alone. -/
theorem Sound.quiet (h : Sound s) (hi : s.callers[i]? = some p)
    (hsame : st.Opened = p.stage.Opened ∧ st.Holds = p.stage.Holds ∧ st.Stored = p.stage.Stored) :
    Sound ⟨s.lock, m', s.callers.set i { p with stage := st }⟩ := by
  obtain ⟨hopened, hholds, hstored⟩ := hsame
  have hrec := h.recorded i p hi
  refine h.set hi ⟨fun ho => hrec.opened (hopened ▸ ho), fun hh => hrec.taken (hholds ▸ hh),
    fun hf => hrec.field (hstored ▸ hf)⟩ (fun _ _ _ _ hq => hq) h.apart fun hst hothers => ?_
  exact h.free_of_others hi (hholds ▸ hst) hothers

/-- Taking a session out of its pool: nobody else has it. -/
theorem Sound.connect (h : Sound s) (hi : s.callers[i]? = some p) (hst : p.stage = .connect)
    (hidle : s.lock.Idle σ) :
    Sound ⟨{ s.lock with opened := s.lock.opened.insert i σ }, m',
      s.callers.set i { p with stage := .query }⟩ := by
  refine h.set hi ⟨fun _ => by simp, False.elim, False.elim⟩ (fun j q hji hj hq => ?_)
    (fun j k τ hj hk => ?_) fun _ hothers => h.free_of_others hi (by rw [hst]; exact id) hothers
  · have hlookup : (s.lock.opened.insert i σ).lookup j = s.lock.opened.lookup j :=
      AList.lookup_insert_ne hji
    exact ⟨fun ho => by rw [hlookup]; exact hq.opened ho,
      fun hh => by rw [hlookup]; exact hq.taken hh, hq.field⟩
  · have hfresh : ∀ j, s.lock.opened.lookup j ≠ some σ := fun j hj =>
      hidle (List.mem_map.2 ⟨(j, σ), Table.mem_pairs.2 hj, rfl⟩)
    rw [Table.lookup_insert_eq] at hj hk
    split at hj <;> split at hk
    · rename_i hji hki
      rw [hji, hki]
    · obtain rfl := Option.some.inj hj
      exact absurd hk (hfresh k)
    · obtain rfl := Option.some.inj hk
      exact absurd hj (hfresh j)
    · exact h.apart j k τ hj hk

/-- Closing the own connection, by an operation that does not have the
lock. -/
theorem Sound.disconnect (h : Sound s) (hi : s.callers[i]? = some p) (hp : ¬ p.stage.Holds)
    (hopened : ¬ st.Opened) (hstored : st.Stored → p.stage.Stored) :
    Sound ⟨{ s.lock with opened := s.lock.opened.erase i }, m',
      s.callers.set i { p with stage := st }⟩ := by
  refine h.set hi ⟨fun ho => absurd ho hopened, fun hh => absurd hh.opened hopened,
    fun hf => (h.recorded i p hi).field (hstored hf)⟩ (fun j q hji hj hq => ?_)
    (fun j k τ hj hk => ?_) fun _ hothers => h.free_of_others hi hp hothers
  · have hlookup : (s.lock.opened.erase i).lookup j = s.lock.opened.lookup j :=
      AList.lookup_erase_ne hji
    exact ⟨fun ho => by rw [hlookup]; exact hq.opened ho,
      fun hh => by rw [hlookup]; exact hq.taken hh, hq.field⟩
  · rw [Table.lookup_erase_eq] at hj hk
    obtain ⟨-, hj⟩ := Option.ite_none_left_eq_some.1 hj
    obtain ⟨-, hk⟩ := Option.ite_none_left_eq_some.1 hk
    exact h.apart j k τ hj hk

theorem Sound.granted (h : Sound s) (hi : s.callers[i]? = some p) (hst : p.stage = .query)
    (hσ : s.lock.opened.lookup i = some σ)
    (hholder : s.lock.holder = none ∨ s.lock.holder = some σ) :
    Sound ⟨{ s.lock with holder := some σ, takenFor := i :: s.lock.takenFor }, m',
      s.callers.set i { p with stage := .store }⟩ := by
  have hnobody : ∀ q ∈ s.callers, ¬ q.stage.Holds := fun q hq =>
    h.not_holds_of_granted hi hst hσ hholder hq
  refine h.set hi ⟨fun _ => by simp [hσ], fun _ => ⟨?_, hσ.symm⟩, False.elim⟩
    (fun j q hji hj hq => ⟨hq.opened, fun hh => ?_, hq.field⟩) h.apart
    fun hnot => absurd trivial hnot
  · rw [(h.free hnobody).1]
  · exact absurd hh (hnobody q (List.mem_of_getElem? hj))

/-- Storing the connection, while nobody of the replica is closing. -/
theorem Sound.store (h : Sound s) (hi : s.callers[i]? = some p) (hst : p.stage = .store)
    (hclosing : ∀ q ∈ s.callers, q.replica = p.replica → q.stage ≠ .close ∧ q.stage ≠ .clear) :
    Sound ⟨store i p.replica s.lock, m', s.callers.set i { p with stage := .lockMutex }⟩ := by
  have hrec := h.recorded i p hi
  have hholds : p.stage.Holds := by rw [hst]; trivial
  refine h.set hi ⟨fun _ => hrec.opened hholds.opened, fun _ => hrec.taken hholds,
    fun _ => by simp [RoundTrips.store]⟩
    (fun j q hji hj hq => ⟨hq.opened, hq.taken, fun hf => ?_⟩) h.apart
    fun hnot => absurd trivial hnot
  -- Another that has stored its connection is of another replica.
  have hr : q.replica ≠ p.replica := by
    intro hr
    obtain ⟨hclose, hclear⟩ := hclosing q (List.mem_of_getElem? hj) hr
    rcases hf.holds_or with hh | hh | hh
    · exact hji (h.eq_of_holds hj hi hh hholds)
    · exact hclose hh
    · exact hclear hh
  rw [RoundTrips.store, AList.lookup_insert_ne hr]
  exact hq.field hf

theorem Sound.give (h : Sound s) (hi : s.callers[i]? = some p) (hst : p.stage = .unlock) :
    Sound ⟨{ s.lock with takenFor := [], holder := none }, m',
      s.callers.set i { p with stage := .close }⟩ := by
  have hrec := h.recorded i p hi
  have hholds : p.stage.Holds := by rw [hst]; trivial
  refine h.set hi ⟨fun _ => hrec.opened hholds.opened, False.elim,
    fun _ => hrec.field (by rw [hst]; trivial)⟩
    (fun j q hji hj hq => ⟨hq.opened, fun hh => ?_, hq.field⟩) h.apart fun _ _ => ⟨rfl, rfl⟩
  exact absurd (h.eq_of_holds hj hi hh hholds) hji

theorem Sound.clear (h : Sound s) (hi : s.callers[i]? = some p) (hst : p.stage = .clear) :
    Sound ⟨clear p.replica s.lock, m', s.callers.set i { p with stage := .returned }⟩ := by
  refine h.set hi ⟨False.elim, False.elim, False.elim⟩
    (fun j q hji hj hq => ⟨hq.opened, hq.taken, fun hf => ?_⟩) h.apart
    fun _ hothers => h.free_of_others hi (by rw [hst]; exact id) hothers
  -- The field of the replica is the mover's.
  have hr : q.replica ≠ p.replica := by
    intro hr
    have hmine := (h.recorded i p hi).field (by rw [hst]; trivial)
    have hyours := hq.field hf
    rw [hr, hmine] at hyours
    exact hji (Option.some.inj hyours).symm
  rw [RoundTrips.clear, AList.lookup_erase_ne hr]
  exact hq.field hf

/-- **An undisturbed step keeps the record.** -/
theorem Sound.step {a : Action} (h : Sound s) (hok : Undisturbed s a)
    (hstep : step s a = some s') : Sound s' := by
  obtain ⟨i, σ⟩ := a
  obtain ⟨p, hi, hstep⟩ := Option.bind_eq_some_iff.1 hstep
  obtain ⟨⟨st, l', m'⟩, hmove, rfl⟩ := Option.map_eq_some_iff.1 hstep
  cases moves_of_step hmove with
  | connect hst hidle => exact h.connect hi hst hidle
  | refused hst _ =>
    refine h.disconnect hi (by rw [hst]; exact id) ?_ ?_
    all_goals unfold Caller.failed; cases p.kind <;> exact False.elim
  | granted hst hσ hholder => exact h.granted hi hst hσ hholder
  | store hst => exact h.store hi hst (hok p hi hst)
  | lockMutex hst => exact h.quiet hi (by rw [hst]; exact ⟨rfl, rfl, rfl⟩)
  | work hst => exact h.quiet hi (by rw [hst]; exact ⟨rfl, rfl, rfl⟩)
  | unlockMutex hst => exact h.quiet hi (by rw [hst]; exact ⟨rfl, rfl, rfl⟩)
  | unlock hst =>
    rw [h.unlock hi hst]
    exact h.give hi hst
  | @close c hst hc =>
    -- The connection in the field is the mover's own.
    have hmine := (h.recorded i p hi).field (by rw [hst]; trivial)
    obtain rfl := Option.some.inj (hmine.symm.trans hc)
    exact h.disconnect hi (by rw [hst]; exact id) id fun _ => by rw [hst]; trivial
  | clear hst => exact h.clear hi hst

/-! ## Whole runs -/

/-- **When every `Unlock` gives back what its operation took.** In a run in
which nobody stores a connection while another operation of the replica is
closing, the query of an `Unlock` finds the lock taken for its own
operation and leaves it free, and whenever every operation that acquired
the lock has unlocked, the lock is free. -/
theorem advisory_free_of_undisturbed {callers : List (Kind × ℕ)} {schedule : List Action}
    (hok : Run.Meets step Undisturbed (.start callers) schedule)
    (hrun : Run.exec step (.start callers) schedule = some s) :
    (∀ i p, s.callers[i]? = some p → p.stage = .unlock →
      s.lock.takenFor = [i] ∧ s.lock.holder = s.lock.opened.lookup i ∧
      ∀ σ, ∃ s', step s (i, σ) = some s' ∧ s'.lock.takenFor = [] ∧ s'.lock.holder = none) ∧
    ((∀ p ∈ s.callers, ¬ p.stage.Holds) → s.lock.holder = none) := by
  have h : Sound s := Run.exec_invariant (fun _ _ _ ht hok hst => ht.step hok hst)
    (sound_start callers) hok hrun
  refine ⟨fun i p hi hst => ?_, fun hall => (h.free hall).2⟩
  obtain ⟨htaken, hholder⟩ := (h.recorded i p hi).taken (by rw [hst]; trivial)
  refine ⟨htaken, hholder, fun σ => ?_⟩
  simp only [RoundTrips.step, hi, Option.bind_some, Caller.step, hst, Option.map_some,
    h.unlock hi hst]
  exact ⟨_, rfl, rfl, rfl⟩

/-- A drain and a rebalance of one replica, the rebalance first refused,
then the drain up to its `Unlock`. -/
def drainFirst : List Action :=
  [(0, ⟨0, 0⟩), (0, ⟨0, 0⟩), (1, ⟨0, 1⟩), (1, ⟨0, 1⟩)] ++ List.replicate 4 (0, ⟨0, 0⟩)

theorem advisory_free_of_undisturbed_drainFirst :
    ∃ s p s', Run.exec step (.start [(.drain, 0), (.rebalance, 0)]) drainFirst = some s ∧
      s.callers[0]? = some p ∧ p.stage = .unlock ∧ s.lock.takenFor = [0] ∧
      step s (0, ⟨0, 0⟩) = some s' ∧ s'.lock.holder = none := by
  obtain ⟨s, p, hrun, hp, hst⟩ : ∃ s p,
      Run.exec step (.start [(.drain, 0), (.rebalance, 0)]) drainFirst = some s ∧
        s.callers[0]? = some p ∧ p.stage = .unlock := ⟨_, _, rfl, rfl, rfl⟩
  obtain ⟨htaken, -, hunlock⟩ :=
    (advisory_free_of_undisturbed (by decide +kernel) hrun).1 0 p hp hst
  obtain ⟨s', hstep, -, hfree⟩ := hunlock ⟨0, 0⟩
  exact ⟨s, p, s', hrun, hp, hst, htaken, hstep, hfree⟩

/-- Two drains of one replica. The first has unlocked; the second takes the
lock on its own connection and stores it; the first closes and clears
that. -/
def overtaken : List Action :=
  List.replicate 7 (0, ⟨0, 0⟩) ++ List.replicate 3 (1, ⟨0, 1⟩) ++ List.replicate 2 (0, ⟨0, 0⟩) ++
    List.replicate 4 (1, ⟨0, 1⟩)

/-- **The lock leaks.** Both drains have returned from their `Unlock`, and a
session in the pool still has the lock. -/
theorem overtaken_keeps_lock :
    ∃ s, Run.exec step (.start [(.drain, 0), (.drain, 0)]) overtaken = some s ∧
      (∀ p ∈ s.callers, p.stage = .returned) ∧ s.lock.takenFor = [1] ∧
      s.lock.holder = some ⟨0, 1⟩ ∧ s.lock.Idle ⟨0, 1⟩ :=
  ⟨_, rfl, by decide +kernel, rfl, rfl, by decide +kernel⟩

end RoundTrips

end Transition

end StickyProxy
