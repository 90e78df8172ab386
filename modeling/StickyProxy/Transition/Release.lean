import StickyProxy.Transition.Holding
/-!
# Giving the lock back

`Unlock` makes its call with the context of the operation that ends. Once
that context is done, by a timeout or a cancellation, the call does not
reach the server: the Redis key stays until it expires, and the PostgreSQL
session goes back to its pool with the lock. The field `conn` of the
PostgreSQL locker is a second way to lose the lock: an operation that has
unlocked closes and clears whatever connection the field holds by then,
and the next operation of the replica may have put its own there.

An operation whose `Unlock` finds its context alive and an open connection
in the field gives back what it took.
-/

namespace StickyProxy

namespace Transition

variable {i j : ℕ} {p q : Operation} {s s' : System} {d d' : Dist} {m m' : Table ℕ ℕ}
  {ph : Phase} {σ : Session} {l : Advisory}

/-- The distributed lock is held on behalf of an operation. -/
def Dist.TakenFor (i : ℕ) : Dist → Prop
  | .single => False
  | .redis key => key = some i
  | .postgres l => i ∈ l.takenFor

/-- It has given the lock back, as far as it goes, or never had it. -/
def Phase.Over : Phase → Prop
  | .closeConn | .clearConn | .returned => True
  | _ => False

/-- The locker's field holds a connection that is open. -/
def Dist.Connected (r : ℕ) : Dist → Prop
  | .postgres l => ((l.conn.lookup r).bind fun c => l.opened.lookup c).isSome
  | _ => True

instance (r : ℕ) : ∀ d : Dist, Decidable (d.Connected r)
  | .postgres _ => inferInstanceAs (Decidable (_ = true))
  | .single | .redis _ => isTrue trivial

/-- The `Unlock` of operation `i` reaches the server: its context is not
done, and on PostgreSQL it finds an open connection. -/
def Served (i : ℕ) (s : System) : Action → Prop
  | .operation j _ => j = i → ∀ p ∈ s.operations[i]?, p.phase = .unlockDist →
      ¬ p.ctxDone ∧ s.dist.Connected p.replica
  | _ => True

instance (i : ℕ) (s : System) : ∀ a : Action, Decidable (Served i s a)
  | .operation j _ => inferInstanceAs (Decidable (j = i → ∀ p ∈ s.operations[i]?, _))
  | .cancel _ | .expire => isTrue trivial

/-! ## What a step takes and gives back -/

/-- A step takes the lock for its own operation only. -/
theorem takenFor_of_moves (h : Moves i p d m ph d' m') (hj : d'.TakenFor j) :
    d.TakenFor j ∨ (j = i ∧ ph = .lockMutex) := by
  cases h with
  | acquire _ hacq =>
    cases hacq with
    | single => exact hj.elim
    | redis => exact Or.inr ⟨(Option.some.inj hj).symm, rfl⟩
    | postgres _ _ =>
      rcases List.mem_cons.1 hj with rfl | hj
      · exact Or.inr ⟨rfl, rfl⟩
      · exact Or.inl hj
  | unlockDist _ =>
    refine Or.inl ?_
    cases d with
    | single => exact hj.elim
    | redis key =>
      simp only [unlockDist, Dist.TakenFor] at hj
      split at hj
      · exact hj
      · cases hj
    | postgres l =>
      rcases unlockDist_postgres_cases i p l with ⟨-, heq⟩ | ⟨c, -, heq⟩
      · rwa [heq] at hj
      · rw [heq] at hj
        simp only [Dist.TakenFor, Advisory.exec, Advisory.release] at hj
        split at hj
        · split at hj
          · exact hj
          · split at hj
            · exact List.mem_of_mem_erase hj
            · exact hj
        · exact hj
  | closeConn _ hd _ =>
    subst hd
    exact Or.inl hj
  | clearConn _ hd =>
    subst hd
    exact Or.inl hj
  | _ => exact Or.inl hj

/-- The lock is taken once for each operation, and the connection in the
field of the replica that has it, while open, is on the session that has
it. -/
structure Advisory.Coherent (l : Advisory) : Prop where
  nodup : l.takenFor.Nodup
  conn : ∀ c σ τ, l.holder = some τ → l.conn.lookup τ.replica = some c →
    l.opened.lookup c = some σ → σ = τ

def Dist.Coherent : Dist → Prop
  | .postgres l => l.Coherent
  | _ => True

theorem coherent_take (h : l.Coherent) (hi : i ∉ l.takenFor) :
    (l.take i σ.replica σ).Coherent := by
  refine ⟨List.nodup_cons.2 ⟨hi, h.nodup⟩, fun c τ τ' hholder hconn hopened => ?_⟩
  obtain rfl := Option.some.inj hholder
  simp only [Advisory.take, Table.lookup_insert_eq, if_pos] at hconn hopened
  obtain rfl := Option.some.inj hconn
  rw [if_pos rfl] at hopened
  exact (Option.some.inj hopened).symm

theorem coherent_release (h : l.Coherent) : (l.release i σ).Coherent := by
  unfold Advisory.release
  split
  · rename_i hσ
    refine ⟨h.nodup.erase i, fun c τ τ' hholder hconn hopened => ?_⟩
    -- The holder is unchanged, or there is none any more.
    dsimp only at hholder
    split at hholder
    · cases hholder
    · exact h.conn c τ τ' (hσ.trans hholder) hconn hopened
  · exact h

theorem coherent_exec {c : ℕ} {ctxDone : Bool} (h : l.Coherent) :
    (l.exec i c ctxDone).Coherent := by
  unfold Advisory.exec
  split
  · split
    · exact h
    · exact coherent_release h
  · exact h

theorem Dist.Coherent.moves (h : d.Coherent) (hmove : Moves i p d m ph d' m')
    (htries : p.phase.Tries → ¬ d.TakenFor i) : d'.Coherent := by
  cases hmove with
  | acquire hph hacq =>
    cases hacq with
    | single => trivial
    | redis => trivial
    | @postgres l σ hr _ =>
      rw [← hr]
      exact coherent_take h (htries hph)
  | unlockDist _ =>
    cases d with
    | single => trivial
    | redis key => trivial
    | postgres l =>
      rcases unlockDist_postgres_cases i p l with ⟨-, heq⟩ | ⟨c, -, heq⟩
      · rw [heq]
        exact h
      · rw [heq]
        exact coherent_exec h
  | @closeConn l c _ hd _ =>
    subst hd
    refine ⟨h.nodup, fun c' τ τ' hholder hconn hopened => ?_⟩
    rw [Table.lookup_erase_eq] at hopened
    split at hopened
    · cases hopened
    · exact h.conn c' τ τ' hholder hconn hopened
  | clearConn _ hd =>
    subst hd
    refine ⟨h.nodup, fun c' τ τ' hholder hconn hopened => ?_⟩
    rw [Table.lookup_erase_eq] at hconn
    split at hconn
    · cases hconn
    · exact h.conn c' τ τ' hholder hconn hopened
  | _ => exact h

/-- **An `Unlock` that is served gives the lock back.** -/
theorem not_takenFor_unlockDist (hcoh : d.Coherent)
    (hheld : ∀ l, d = .postgres l → d.HeldFor i p.replica) (hctx : ¬ p.ctxDone)
    (hconn : d.Connected p.replica) : ¬ (unlockDist i p d).2.TakenFor i := by
  cases d with
  | single => exact id
  | redis key =>
    simp only [unlockDist, if_neg hctx]
    intro h
    cases h
  | postgres l =>
    obtain ⟨τ, hτ⟩ := Option.isSome_iff_exists.1 hconn
    obtain ⟨c, hc, hopened⟩ := Option.bind_eq_some_iff.1 hτ
    obtain ⟨-, σ, hσ, hr⟩ := hheld l rfl
    -- The connection is on the session the lock was taken on.
    obtain rfl : τ = σ := hcoh.conn c τ σ hσ (by rw [hr]; exact hc) hopened
    simp only [unlockDist, hc, Advisory.exec, hopened, if_neg hctx, Advisory.release, if_pos hσ]
    exact hcoh.nodup.not_mem_erase

/-! ## Runs -/

/-- What is known of the lock at any time: whoever is still trying does not
have it, who holds it on PostgreSQL does, and operation `i` gives it
back. -/
structure Accounted (i : ℕ) (s : System) : Prop where
  coherent : s.dist.Coherent
  tries : ∀ j p, s.operations[j]? = some p → p.phase.Tries → ¬ s.dist.TakenFor j
  held : ∀ l, s.dist = .postgres l → ∀ j p, s.operations[j]? = some p → p.phase.Holds →
    s.dist.HeldFor j p.replica
  released : ∀ p, s.operations[i]? = some p → p.phase.Over → ¬ s.dist.TakenFor i

theorem accounted_start (i : ℕ) (locker : Locker) (operations : List (Kind × ℕ)) :
    Accounted i (System.start locker operations) := by
  have hlock : ∀ (j : ℕ) (p : Operation),
      (System.start locker operations).operations[j]? = some p → p.phase = .lock := by
    intro j p hp
    obtain ⟨o, -, rfl⟩ := List.mem_map.1 (List.mem_of_getElem? hp)
    rfl
  have hfree : ∀ j, ¬ (System.start locker operations).dist.TakenFor j := by
    intro j hj
    cases locker with
    | single => exact hj
    | redis => cases hj
    | postgres => exact List.not_mem_nil hj
  refine ⟨?_, fun j _ _ _ => hfree j, fun l _ j p hp hph => ?_, fun _ _ _ => hfree i⟩
  · cases locker with
    | postgres => exact ⟨List.nodup_nil, fun _ _ _ h => nomatch h⟩
    | _ => trivial
  · rw [hlock j p hp] at hph
    exact hph.elim

/-- The lock that was not PostgreSQL's is not afterwards. -/
theorem postgres_of_moves (h : Moves i p d m ph d' m') {l' : Advisory} (hd' : d' = .postgres l') :
    ∃ l, d = .postgres l := by
  cases h with
  | acquire _ hacq =>
    cases hacq with
    | postgres _ _ => exact ⟨_, rfl⟩
    | _ => cases hd'
  | unlockDist _ =>
    cases d with
    | postgres l => exact ⟨l, rfl⟩
    | _ => cases hd'
  | closeConn _ hd _ => exact ⟨_, hd⟩
  | clearConn _ hd => exact ⟨_, hd⟩
  | _ => exact ⟨l', hd'⟩

/-- An operation that is over was over, or has just failed to get the lock,
or has just unlocked. -/
theorem over_of_moves (h : Moves i p d m ph d' m') (hph : ph.Over) :
    (p.phase.Tries ∨ p.phase.Over) ∨
      (p.phase = .unlockDist ∧ d' = (unlockDist i p d).2) := by
  cases h with
  | fail htries => exact Or.inl (Or.inl htries)
  | unlockDist hp => exact Or.inr ⟨hp, rfl⟩
  | closeConn hp _ _ => exact Or.inl (Or.inr (by rw [hp]; trivial))
  | clearConn hp _ => exact Or.inl (Or.inr (by rw [hp]; trivial))
  | _ => exact hph.elim

theorem tries_of_moves (h : Moves i p d m ph d' m') (hph : ph.Tries) :
    p.phase.Tries ∧ ph ≠ .lockMutex := by
  cases h with
  | fail htries =>
    refine ⟨htries, fun heq => ?_⟩
    rw [heq] at hph
    exact hph
  | unlockDist _ =>
    rcases unlockDist_phase i p d with hf | hf <;> rw [hf] at hph <;> exact hph.elim
  | _ => exact hph.elim

theorem Accounted.operation {k : ℕ} (h : Accounted i s) (hp : s.operations[k]? = some p)
    (hmove : Moves k p s.dist s.mutex ph d m)
    (hserved : k = i → p.phase = .unlockDist → ¬ p.ctxDone ∧ s.dist.Connected p.replica) :
    Accounted i ⟨d, m, s.operations.set k { p with phase := ph }⟩ := by
  refine ⟨h.coherent.moves hmove (h.tries k p hp), fun j q hq hph htaken => ?_,
    fun l hd j q hq hph => ?_, fun q hq hph htaken => ?_⟩
  · rcases Pool.getElem?_set_cases hp hq with ⟨rfl, rfl⟩ | ⟨hjk, hq⟩
    · obtain ⟨htries, hne⟩ := tries_of_moves hmove hph
      rcases takenFor_of_moves hmove htaken with hold | ⟨-, hlm⟩
      · exact h.tries j p hp htries hold
      · exact hne hlm
    · rcases takenFor_of_moves hmove htaken with hold | ⟨hjk', -⟩
      · exact h.tries j q hq hph hold
      · exact hjk hjk'
  · obtain ⟨l₀, hl₀⟩ := postgres_of_moves hmove hd
    rcases Pool.getElem?_set_cases hp hq with ⟨rfl, rfl⟩ | ⟨hjk, hq⟩
    · exact heldFor_moves_self (p := p) hmove hph (h.held l₀ hl₀ j p hp)
    · refine (h.held l₀ hl₀ j q hq hph).moves hmove hjk fun hk _ => ?_
      exact h.held l₀ hl₀ k p hp (by rw [hk]; trivial)
  · rcases Pool.getElem?_set_cases hp hq with ⟨rfl, rfl⟩ | ⟨hik, hq⟩
    · rcases over_of_moves hmove hph with hold | ⟨hunlock, rfl⟩
      · have hne : ph ≠ .lockMutex := by
          rintro rfl
          exact hph
        have htaken' := (takenFor_of_moves hmove htaken).resolve_right fun hr => hne hr.2
        exact hold.elim (fun ht => h.tries i p hp ht htaken') fun ho => h.released p hp ho htaken'
      · obtain ⟨hctx, hconn⟩ := hserved rfl hunlock
        exact not_takenFor_unlockDist h.coherent
          (fun l hl => h.held l hl i p hp (by rw [hunlock]; trivial)) hctx hconn htaken
    · rcases takenFor_of_moves hmove htaken with hold | ⟨hik', -⟩
      · exact h.released q hq hph hold
      · exact hik hik'

/-- A flag of an operation says nothing about its phase. -/
theorem phase_of_modify {f : Operation → Operation} {k : ℕ} {operations : List Operation}
    (hq : (operations.modify k f)[j]? = some q) (hf : ∀ p, (f p).phase = p.phase)
    (hr : ∀ p, (f p).replica = p.replica) :
    ∃ p, operations[j]? = some p ∧ q.phase = p.phase ∧ q.replica = p.replica := by
  obtain ⟨p, hp, rfl⟩ := Pool.getElem?_modify_cases hq
  refine ⟨p, hp, ?_⟩
  split
  · exact ⟨hf p, hr p⟩
  · exact ⟨rfl, rfl⟩

theorem Accounted.step {a : Action} (h : Accounted i s) (hserved : Served i s a)
    (hst : step s a = some s') : Accounted i s' := by
  cases steps_of_step hst with
  | operation hp hmove =>
    exact h.operation hp hmove fun hki hph => hserved hki _ (hki ▸ hp) hph
  | cancel =>
    refine ⟨h.coherent, fun j q hq hph => ?_, fun l hd j q hq hph => ?_, fun q hq hph => ?_⟩
    all_goals
      obtain ⟨p, hp, hphase, hr⟩ := phase_of_modify hq (fun _ => rfl) (fun _ => rfl)
      rw [hphase] at hph
    · exact h.tries j p hp hph
    · rw [hr]
      exact h.held l hd j p hp hph
    · exact h.released p hp hph
  | expire hd =>
    refine ⟨trivial, fun j q hq hph hj => ?_, fun l hd' => ?_, fun q hq hph hj => ?_⟩
    · cases hj
    · cases hd'
    · cases hj

/-- **What is unlocked is given back.** In a run in which the `Unlock` of
operation `i` reaches the server, the distributed lock is not held on its
behalf once it has returned, whatever the others do. -/
theorem not_takenFor_of_served {locker : Locker} {operations : List (Kind × ℕ)}
    {schedule : List Action}
    (hok : Run.Meets step (Served i) (System.start locker operations) schedule)
    (hrun : Run.exec step (System.start locker operations) schedule = some s)
    (hi : s.operations[i]? = some p) (hret : p.phase = .returned) : ¬ s.dist.TakenFor i := by
  have h : Accounted i s := Run.exec_invariant (I := Accounted i)
    (fun t a t' ht hserved hst => ht.step hserved hst) (accounted_start i _ _) hok hrun
  exact h.released p hi (by rw [hret]; trivial)

/-- The steps of a drain from its `TryLock` to its return, on PostgreSQL. -/
def drainSteps : List Action := List.replicate 7 (.operation 0 ⟨0, 0⟩)

/-- A drain that ends normally. -/
theorem not_takenFor_of_served_oneDrain :
    ∃ s p, Run.exec step (System.start .postgres [(.drain, 0)]) drainSteps = some s ∧
      s.operations[0]? = some p ∧ p.phase = .returned ∧ ¬ s.dist.TakenFor 0 := by
  obtain ⟨s, p, hrun, hp, hret⟩ : ∃ s p,
      Run.exec step (System.start .postgres [(.drain, 0)]) drainSteps = some s ∧
        s.operations[0]? = some p ∧ p.phase = .returned := ⟨_, _, rfl, rfl, rfl⟩
  exact ⟨s, p, hrun, hp, hret, not_takenFor_of_served (by decide +kernel) hrun hp hret⟩

/-- A drain that is cancelled in its critical section returns and leaves
the lock behind, on Redis as on PostgreSQL. -/
theorem cancelled_drain_keeps_lock :
    (∃ s p, Run.exec step (System.start .redis [(.drain, 0)])
        [.operation 0 ⟨0, 0⟩, .operation 0 ⟨0, 0⟩, .cancel 0, .operation 0 ⟨0, 0⟩,
          .operation 0 ⟨0, 0⟩, .operation 0 ⟨0, 0⟩] = some s ∧
      s.operations[0]? = some p ∧ p.phase = .returned ∧ s.dist.TakenFor 0) ∧
    ∃ s p, Run.exec step (System.start .postgres [(.drain, 0)])
        [.operation 0 ⟨0, 0⟩, .operation 0 ⟨0, 0⟩, .cancel 0, .operation 0 ⟨0, 0⟩,
          .operation 0 ⟨0, 0⟩, .operation 0 ⟨0, 0⟩, .operation 0 ⟨0, 0⟩,
          .operation 0 ⟨0, 0⟩] = some s ∧
      s.operations[0]? = some p ∧ p.phase = .returned ∧ s.dist.TakenFor 0 :=
  ⟨⟨_, _, rfl, rfl, rfl, rfl⟩, _, _, rfl, rfl, rfl, List.mem_cons_self⟩

/-- The race for the field `conn`, with no context done: the first drain
of a replica has unlocked, the second puts its connection into the field,
and the first closes and clears it. -/
example : ∃ s p, Run.exec step (System.start .postgres [(.drain, 0), (.drain, 0)])
      ([.operation 0 ⟨0, 0⟩, .operation 0 ⟨0, 0⟩, .operation 0 ⟨0, 0⟩, .operation 0 ⟨0, 0⟩,
        .operation 0 ⟨0, 0⟩, .operation 1 ⟨0, 1⟩, .operation 0 ⟨0, 0⟩, .operation 0 ⟨0, 0⟩] ++
        List.replicate 4 (.operation 1 ⟨0, 0⟩)) = some s ∧
    s.operations[1]? = some p ∧ p.phase = .returned ∧ ¬ p.ctxDone ∧ s.dist.TakenFor 1 :=
  ⟨_, _, rfl, rfl, rfl, Bool.false_ne_true, List.mem_cons_self⟩

end Transition

end StickyProxy
