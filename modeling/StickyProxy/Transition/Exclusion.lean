import StickyProxy.Transition.Holding
/-!
# Mutual exclusion, and who releases the lock

While the entry of the distributed lock does not expire, at most one
operation of all replicas is between its `Lock` and its `Unlock`; and
without a distributed lock at most one of each replica is.

On Redis the entry does expire, and its value says nothing about who set
it: `Unlock` deletes the key, whoever's it is. As long as every operation
deletes the key before its own has run out, the key deleted is its own,
and nobody else acquires the lock meanwhile. An operation that outlives
its key deletes the next holder's.
-/

namespace StickyProxy

namespace Transition

variable {i j : ℕ} {p q : Operation} {s s' : System} {d d' : Dist} {m m' : Table ℕ ℕ}
  {ph : Phase} {σ : Session}

/-! ## The locker stays -/

/-- The locker a lock belongs to. -/
def Dist.locker : Dist → Locker
  | .single => .single
  | .redis _ => .redis
  | .postgres _ => .postgres

theorem locker_free (locker : Locker) : locker.free.locker = locker := by
  cases locker <;> rfl

theorem locker_unlockDist (i : ℕ) (p : Operation) (d : Dist) :
    (unlockDist i p d).2.locker = d.locker := by
  cases d with
  | single => rfl
  | redis key => rfl
  | postgres l =>
    rcases unlockDist_postgres_cases i p l with ⟨-, heq⟩ | ⟨c, -, heq⟩
    · rw [heq]
    · rw [heq]
      rfl

theorem locker_moves (h : Moves i p d m ph d' m') : d'.locker = d.locker := by
  cases h with
  | acquire _ hacq => cases hacq <;> rfl
  | unlockDist _ => exact locker_unlockDist i p d
  | closeConn _ hd _ => rw [hd]; rfl
  | clearConn _ hd => rw [hd]; rfl
  | _ => rfl

theorem locker_step {a : Action} (h : step s a = some s') : s'.dist.locker = s.dist.locker := by
  cases steps_of_step h with
  | operation _ hmove => exact locker_moves hmove
  | cancel => rfl
  | expire hd => rw [hd]; rfl

theorem locker_run {locker : Locker} {operations : List (Kind × ℕ)} {schedule : List Action}
    (h : Run.exec step (System.start locker operations) schedule = some s) :
    s.dist.locker = locker := by
  refine Run.exec_invariant_of_forall (I := fun t => t.dist.locker = locker)
    (fun t a t' ht hst => (locker_step hst).trans ht) ?_ h
  exact locker_free locker

/-! ## Mutual exclusion -/

/-- No operation has lost its key. -/
def Unexpired (s : System) : Prop := ∀ p ∈ s.operations, ¬ p.expired

theorem inTime_of_unexpired (h : Unexpired s) : ∀ a, InTime s a
  | .operation _ _ => fun p hp _ _ => h p (List.mem_of_getElem? hp)
  | .cancel _ | .expire => trivial

theorem Unexpired.step {a : Action} (h : Unexpired s) (ha : a ≠ .expire)
    (hst : step s a = some s') : Unexpired s' := by
  cases steps_of_step hst with
  | @operation i p _ _ _ _ hp hmove =>
    intro q hq
    rcases Pool.mem_or_eq_of_mem_set hq with hq | rfl
    · exact h q hq
    · exact h p (List.mem_of_getElem? hp)
  | cancel =>
    intro q hq
    obtain ⟨j, hj⟩ := List.mem_iff_getElem?.1 hq
    obtain ⟨p, hp, rfl⟩ := Pool.getElem?_modify_cases hj
    have hexp := h p (List.mem_of_getElem? hp)
    split
    · exact hexp
    · exact hexp
  | expire _ => exact absurd rfl ha

/-- Without expiry everybody keeps the locks taken. -/
theorem owned_of_not_expire {locker : Locker} {operations : List (Kind × ℕ)}
    {schedule : List Action} (hexp : .expire ∉ schedule)
    (hrun : Run.exec step (System.start locker operations) schedule = some s) :
    Owned s ∧ Unexpired s := by
  have hok : Run.Meets step (fun _ a => a ≠ .expire) (System.start locker operations) schedule :=
    Run.meets_of_forall_mem (fun a ha _ => ne_of_mem_of_not_mem ha hexp) _
  refine Run.exec_invariant (I := fun t => Owned t ∧ Unexpired t) ?_ ⟨?_, ?_⟩ hok hrun
  · rintro t a t' ⟨howned, hunexp⟩ ha hst
    exact ⟨howned.step (inTime_of_unexpired hunexp a) hst, hunexp.step ha hst⟩
  · exact owned_start locker operations
  · intro p hp
    obtain ⟨o, -, rfl⟩ := List.mem_map.1 hp
    exact Bool.false_ne_true

/-- **Mutual exclusion.** Two operations in their critical sections are
one, if there is a distributed lock whose entry does not expire, or if
they are of one replica. -/
theorem critical_unique {locker : Locker} {operations : List (Kind × ℕ)}
    {schedule : List Action} (hexp : .expire ∉ schedule)
    (hrun : Run.exec step (System.start locker operations) schedule = some s)
    (hi : s.operations[i]? = some p) (hj : s.operations[j]? = some q)
    (hp : p.phase = .critical) (hq : q.phase = .critical) :
    (locker ≠ .single → i = j) ∧ (p.replica = q.replica → i = j) := by
  obtain ⟨howned, hunexp⟩ := owned_of_not_expire hexp hrun
  have hdi := howned.dist i p hi (by rw [hp]; trivial) (hunexp p (List.mem_of_getElem? hi))
  have hdj := howned.dist j q hj (by rw [hq]; trivial) (hunexp q (List.mem_of_getElem? hj))
  have hsame : p.replica = q.replica → i = j := by
    intro hr
    have hmi := howned.mutex i p hi (by rw [hp]; trivial)
    have hmj := howned.mutex j q hj (by rw [hq]; trivial)
    rw [hr] at hmi
    exact Option.some.inj (hmi.symm.trans hmj)
  refine ⟨fun hlocker => ?_, hsame⟩
  rw [← locker_run hrun] at hlocker
  rcases hd : s.dist with - | key | l
  · rw [hd] at hlocker
    exact absurd rfl hlocker
  · -- One key, set by one operation.
    rw [hd] at hdi hdj
    exact Option.some.inj (hdi.symm.trans hdj)
  · -- One session, of one replica, and there the mutex decides.
    rw [hd] at hdi hdj
    obtain ⟨-, σ, hσ, hr⟩ := hdi
    obtain ⟨-, τ, hτ, hr'⟩ := hdj
    have hστ := Option.some.inj (hσ.symm.trans hτ)
    exact hsame (by rw [← hr, hστ, hr'])

/-- A session of the first replica. -/
def firstSession : Session := ⟨0, 0⟩

/-- A drain acquires the lock; a rebalance of another replica does not. -/
theorem critical_unique_drainFirst :
    ∃ s p, Run.exec step (System.start .redis [(.drain, 0), (.rebalance, 1)])
        [.operation 0 firstSession, .operation 1 firstSession, .operation 0 firstSession] =
          some s ∧
      s.operations[0]? = some p ∧ p.phase = .critical ∧
      ∀ j q, s.operations[j]? = some q → q.phase = .critical → 0 = j := by
  obtain ⟨s, p, hrun, hp, hcrit⟩ : ∃ s p,
      Run.exec step (System.start .redis [(.drain, 0), (.rebalance, 1)])
        [.operation 0 firstSession, .operation 1 firstSession, .operation 0 firstSession] =
          some s ∧
      s.operations[0]? = some p ∧ p.phase = .critical := ⟨_, _, rfl, rfl, rfl⟩
  refine ⟨s, p, hrun, hp, hcrit, fun j q hj hq => ?_⟩
  exact (critical_unique (by decide) hrun hp hj hcrit hq).1 (by decide)

/-! ## Only the holder releases -/

/-- The step of an operation is a `TryLock` that succeeds. -/
def TakesLock (s : System) (i : ℕ) (s' : System) : Prop :=
  ∃ p p', s.operations[i]? = some p ∧ s'.operations[i]? = some p' ∧
    p.phase.Tries ∧ p'.phase = .lockMutex

/-- An operation whose `TryLock` succeeds found the lock as `Acquires`
says. -/
theorem acquires_of_takesLock (hst : step s (.operation i σ) = some s') (h : TakesLock s i s') :
    ∃ p, s.operations[i]? = some p ∧ Acquires i p.replica s.dist s'.dist := by
  obtain ⟨p, p', hp, hp', htries, hlock⟩ := h
  cases steps_of_step hst with
  | @operation _ p₀ ph d m _ hp₀ hmove =>
    obtain rfl := Option.some.inj (hp₀.symm.trans hp)
    rw [Pool.getElem?_set_self hp₀] at hp'
    obtain rfl := Option.some.inj hp'
    obtain rfl : ph = .lockMutex := hlock
    refine ⟨p₀, hp₀, ?_⟩
    generalize hlm : Phase.lockMutex = ph' at hmove
    cases hmove with
    | fail _ => rcases p₀.failed_cases with hf | hf <;> rw [hf] at hlm <;> cases hlm
    | acquire _ hacq => exact hacq
    | lockMutex _ _ => cases hlm
    | work _ => cases hlm
    | unlockMutex _ => cases hlm
    | unlockDist _ =>
      rcases unlockDist_phase i p₀ s.dist with hf | hf <;> rw [hf] at hlm <;> cases hlm
    | closeConn _ _ _ => cases hlm
    | clearConn _ _ => cases hlm

/-- A step that empties the Redis key is the `DEL` of an operation that
holds the lock. -/
theorem unlockDist_of_emptied (hst : step s (.operation i σ) = some s')
    (hp : s.operations[i]? = some p) (hkey : s.dist = .redis (some j))
    (hkey' : s'.dist = .redis none) : p.phase = .unlockDist ∧ ¬ p.ctxDone := by
  cases steps_of_step hst with
  | @operation _ p₀ ph d m _ hp₀ hmove =>
    obtain rfl := Option.some.inj (hp₀.symm.trans hp)
    obtain rfl : d = .redis none := hkey'
    rw [hkey] at hmove
    generalize hd : Dist.redis none = d' at hmove
    cases hmove with
    | unlockDist hph =>
      refine ⟨hph, fun hctx => ?_⟩
      simp only [unlockDist, if_pos hctx] at hd
      cases hd
    | acquire _ hacq => cases hacq
    | closeConn _ hpg _ => cases hpg
    | clearConn _ hpg => cases hpg
    | _ => cases hd

/-- **Only the holder releases, in time.** In a run in which no operation
sends its `DEL` after its key has expired, the key a step removes was set
by the replica that removes it, and while an operation that has acquired
the lock has neither unlocked nor seen its key expire no `TryLock` of
another succeeds. -/
theorem released_by_holder_of_inTime {operations : List (Kind × ℕ)} {schedule : List Action}
    (hok : Run.Meets step InTime (System.start .redis operations) schedule)
    (hrun : Run.exec step (System.start .redis operations) schedule = some s) :
    (∀ i j p q σ s', InTime s (.operation i σ) → s.operations[i]? = some p →
      s.operations[j]? = some q → s.dist = .redis (some j) →
      step s (.operation i σ) = some s' → s'.dist = .redis none → p.replica = q.replica) ∧
    ∀ (j : ℕ) (q : Operation), s.operations[j]? = some q → q.phase.Holds → ¬ q.expired →
      ∀ i σ s', step s (.operation i σ) = some s' → ¬ TakesLock s i s' := by
  have howned : Owned s := Run.exec_invariant (I := Owned)
    (fun t a t' ht hin hst => ht.step hin hst) (owned_start _ _) hok hrun
  refine ⟨fun i j p q σ s' hin hi hj hkey hst hkey' => ?_,
    fun j q hj hq hexp i σ s' hst htakes => ?_⟩
  · obtain ⟨hph, hctx⟩ := unlockDist_of_emptied hst hi hkey hkey'
    have hheld := howned.dist i p hi (by rw [hph]; trivial) (hin p hi hph hctx)
    rw [hkey] at hheld
    obtain rfl := Option.some.inj hheld
    rw [Option.some.inj (hi.symm.trans hj)]
  · have hheld := howned.dist j q hj hq hexp
    have hlocker := locker_run hrun
    obtain ⟨p, -, hacq⟩ := acquires_of_takesLock hst htakes
    generalize s.dist = d at hheld hlocker hacq
    generalize s'.dist = d' at hacq
    cases hacq with
    | single => cases hlocker
    | redis => cases hheld
    | postgres _ _ => cases hlocker

/-- The key of a drain expires while it works, and a second replica acquires
the lock. A third tries in vain, and both come to their unlock, the first
with its context done. -/
def lateDrain : List Action :=
  [.operation 0 firstSession, .operation 0 firstSession, .expire,
    .operation 1 firstSession, .operation 1 firstSession, .operation 2 firstSession,
    .cancel 0, .operation 0 firstSession, .operation 0 firstSession,
    .operation 1 firstSession, .operation 1 firstSession]

/-- Only the second deletes a key, its own; and until it does the third tries
in vain. -/
theorem released_by_holder_of_inTime_lateDrain :
    ∃ s s' p q, Run.exec step (System.start .redis [(.drain, 0), (.drain, 1), (.drain, 2)])
        lateDrain = some s ∧
      s.operations[0]? = some p ∧ p.phase = .unlockDist ∧ p.expired ∧
      s.operations[1]? = some q ∧ q.phase = .unlockDist ∧ s.dist = .redis (some 1) ∧
      step s (.operation 1 firstSession) = some s' ∧ s'.dist = .redis none ∧
      (∀ i p σ t, InTime s (.operation i σ) → s.operations[i]? = some p →
        step s (.operation i σ) = some t → t.dist = .redis none → p.replica = 1) ∧
      ∀ i σ t, step s (.operation i σ) = some t → ¬ TakesLock s i t := by
  obtain ⟨s, s', p, q, hrun, hp, hpph, hpexp, hq, hqph, hqexp, hrep, hkey, hst, hkey'⟩ :
      ∃ s s' p q, Run.exec step (System.start .redis [(.drain, 0), (.drain, 1), (.drain, 2)])
        lateDrain = some s ∧
      s.operations[0]? = some p ∧ p.phase = .unlockDist ∧ p.expired ∧
      s.operations[1]? = some q ∧ q.phase = .unlockDist ∧ ¬ q.expired ∧ q.replica = 1 ∧
      s.dist = .redis (some 1) ∧ step s (.operation 1 firstSession) = some s' ∧
      s'.dist = .redis none :=
    ⟨_, _, _, _, rfl, rfl, rfl, rfl, rfl, rfl, Bool.false_ne_true, rfl, rfl, rfl, rfl⟩
  obtain ⟨hreleased, hexcluded⟩ := released_by_holder_of_inTime (by decide +kernel) hrun
  refine ⟨s, s', p, q, hrun, hp, hpph, hpexp, hq, hqph, hkey, hst, hkey',
    fun i p' σ t hin hi ht hnone => ?_, hexcluded 1 q hq (by rw [hqph]; trivial) hqexp⟩
  exact (hreleased i 1 p' q σ t hin hi hq hkey ht hnone).trans hrep

/-- The key of a drain expires, a second replica acquires the lock, and the
first deletes the second's key: a third acquires the lock while the second
works. -/
theorem late_unlock_frees_other :
    ∃ s s' s'' q, Run.exec step (System.start .redis [(.drain, 0), (.drain, 1), (.drain, 2)])
        [.operation 0 firstSession, .operation 0 firstSession, .expire,
          .operation 1 firstSession, .operation 1 firstSession,
          .operation 0 firstSession, .operation 0 firstSession] = some s ∧
      s.dist = .redis (some 1) ∧
      step s (.operation 0 firstSession) = some s' ∧ s'.dist = .redis none ∧
      s'.operations[1]? = some q ∧ q.phase = .critical ∧ ¬ q.expired ∧
      step s' (.operation 2 firstSession) = some s'' ∧ TakesLock s' 2 s'' :=
  ⟨_, _, _, _, rfl, rfl, rfl, rfl, rfl, rfl, Bool.false_ne_true, rfl, _, _, rfl, rfl, trivial, rfl⟩

end Transition

end StickyProxy
