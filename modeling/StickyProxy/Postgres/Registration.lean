import StickyProxy.Postgres.Sequential
import StickyProxy.Postgres.Rebuild
import Mathlib.Data.Fintype.EquivFin
/-!
# PostgreSQL — registering a backend

`AddBackend` sets the backend healthy and inserts its count row in two
statements that are no transaction. When the second one fails the backend
is healthy and has no count row, unless it had one before, and the join
`AssignLeastLoaded` chooses from leaves it out. Where an `AddBackend` is
broken off only over a backend that has its row, every healthy backend has
one, under every interleaving of the calls.
-/

namespace StickyProxy

namespace Postgres

variable {d d' : Database} {b c : Backend} {s s' : System} {a : Action}

/-! ## One call -/

theorem same_upsertBackend_iff : (upsertBackend b d).Same d ↔ d.Healthy b := by
  constructor
  · intro hsame
    rw [Database.Healthy, ← hsame.backends b]
    exact AList.lookup_insert _
  · intro hb
    refine ⟨fun c => ?_, fun _ => rfl, fun _ => rfl⟩
    rw [upsertBackend, Table.lookup_insert_eq]
    split
    · rename_i heq
      rw [heq, show d.backends.lookup b = some true from hb]
    · rfl

theorem same_insertCount_iff : (insertCount b d).Same d ↔ d.Counted b := by
  constructor
  · intro hsame
    rw [Database.Counted, ← hsame.counts b]
    exact counted_insertCount b d
  · intro hb
    have hcount : (d.counts.lookup b).isSome := hb
    rw [insertCount, if_pos hcount]
    exact .refl d

/-- Either statement leaves what the other reads. -/
theorem same_addBackend_iff :
    (insertCount b (upsertBackend b d)).Same d ↔ d.Healthy b ∧ d.Counted b := by
  rw [← same_upsertBackend_iff, ← same_insertCount_iff]
  constructor
  · intro hsame
    exact ⟨⟨hsame.backends, fun _ => rfl, fun _ => rfl⟩, fun _ => rfl, fun _ => rfl, hsame.counts⟩
  · rintro ⟨hup, hins⟩
    exact ⟨hup.backends, fun _ => rfl, hins.counts⟩

/-- What the statements that took effect wrote was there. -/
def Idle (first second : Reply) (b : Backend) (d : Database) : Prop :=
  (first ≠ .failed → d.Healthy b) ∧ (first = .done → second ≠ .failed → d.Counted b)

/-- **When a call leaves the tables alone.** -/
theorem same_addBackendReplies_iff (first second : Reply) (b : Backend) (d : Database) :
    (addBackendReplies first second b d).2.Same d ↔ Idle first second b d := by
  cases first with
  | failed => exact iff_of_true (.refl d) ⟨fun h => absurd rfl h, fun h => nomatch h⟩
  | lost =>
    refine same_upsertBackend_iff.trans ⟨fun hb => ⟨fun _ => hb, fun h => nomatch h⟩, fun h => ?_⟩
    exact h.1 (by decide)
  | done =>
    cases second with
    | failed =>
      refine same_upsertBackend_iff.trans
        ⟨fun hb => ⟨fun _ => hb, fun _ h => absurd rfl h⟩, fun h => ?_⟩
      exact h.1 (by decide)
    | lost =>
      refine same_addBackend_iff.trans ⟨fun hb => ⟨fun _ => hb.1, fun _ _ => hb.2⟩, fun h => ?_⟩
      exact ⟨h.1 (by decide), h.2 rfl (by decide)⟩
    | done =>
      refine same_addBackend_iff.trans ⟨fun hb => ⟨fun _ => hb.1, fun _ _ => hb.2⟩, fun h => ?_⟩
      exact ⟨h.1 (by decide), h.2 rfl (by decide)⟩

/-! ## Who can be chosen -/

/-- The backends removed, one after the other. -/
def removeBackends (removed : List Backend) (d : Database) : Database :=
  removed.foldl (fun d c => removeBackend c d) d

theorem mem_joined_removeBackend :
    c ∈ (removeBackend b d).joined ↔ c ∈ d.joined ∧ c ≠ b := by
  rw [Database.mem_joined, Database.mem_joined, healthy_removeBackend, counts_removeBackend,
    and_assoc]

theorem mem_joined_removeBackends (removed : List Backend) :
    c ∈ (removeBackends removed d).joined ↔ c ∈ d.joined ∧ c ∉ removed := by
  induction removed generalizing d with
  | nil => simp [removeBackends]
  | cons b removed ih =>
    rw [show removeBackends (b :: removed) d = removeBackends removed (removeBackend b d) from rfl,
      ih, mem_joined_removeBackend, List.mem_cons, not_or, and_assoc]

theorem assignments_removeBackends (removed : List Backend) :
    (removeBackends removed d).assignments = d.assignments := by
  induction removed generalizing d with
  | nil => rfl
  | cons b removed ih => exact (ih (d := removeBackend b d)).trans assignments_removeBackend

/-- `AssignLeastLoaded` gives the backend a new key, once others have been
removed. -/
def Database.Choosable (d : Database) (b : Backend) : Prop :=
  ∃ removed rows now k, Enumerates rows (removeBackends removed d).joined ∧
    d.assignments.lookup k = none ∧
    (assignLeastLoaded rows now k (removeBackends removed d)).1.map (·.backend) = some b

/-- **Who can be chosen**: the backends of the join. -/
theorem choosable_iff_mem_joined : d.Choosable b ↔ b ∈ d.joined := by
  constructor
  · rintro ⟨removed, rows, now, k, hrows, hk, hb⟩
    rw [assignLeastLoaded] at hb
    rcases hleast : leastLoaded rows (removeBackends removed d) with - | c
    · rw [hleast] at hb
      cases hb
    · simp only [hleast, assignments_removeBackends, hk, Option.map_some, freshRow,
        Option.some.injEq] at hb
      subst hb
      have hmem : c ∈ (removeBackends removed d).joined :=
        hrows.mem.1 (Table.least_eq_some.1 hleast).1
      exact ((mem_joined_removeBackends removed).1 hmem).1
  · intro hb
    obtain ⟨k, hk⟩ := Infinite.exists_notMem_finset d.assignments.keys.toFinset
    have hnone : d.assignments.lookup k = none :=
      AList.lookup_eq_none.2 fun hmem => hk (List.mem_toFinset.2 (AList.mem_keys.1 hmem))
    -- Once the others are removed the join has one row.
    have hrows : Enumerates [b] (removeBackends (d.joined.erase b).toList d).joined := by
      refine ⟨List.nodup_singleton b, Finset.ext fun c => ?_⟩
      rw [mem_joined_removeBackends, Finset.mem_toList, Finset.mem_erase, List.mem_toFinset,
        List.mem_singleton]
      constructor
      · rintro rfl
        exact ⟨hb, fun h => h.1 rfl⟩
      · rintro ⟨hc, hnot⟩
        by_contra hne
        exact hnot ⟨hne, hc⟩
    refine ⟨(d.joined.erase b).toList, [b], 0, k, hrows, hnone, ?_⟩
    have hleast : leastLoaded [b] (removeBackends (d.joined.erase b).toList d) = some b := rfl
    simp only [assignLeastLoaded, hleast, assignments_removeBackends, hnone, Option.map_some,
      freshRow]

/-! ## Whole runs -/

/-- Every healthy backend has a count row, or an `AddBackend` that has still
to insert it. -/
def System.Registered (s : System) : Prop :=
  ∀ b, s.database.Healthy b → s.database.Counted b ∨ Session.insertCount b ∈ s.sessions

/-- An `AddBackend` that breaks off leaves no healthy backend without a
count row behind, or leaves it to another one. -/
def Session.Harmless (d : Database) (others : List Session) : Session → Choice → Prop
  | .insertCount b, .rollback =>
    d.Healthy b → d.Counted b ∨ Session.insertCount b ∈ others
  | _, _ => True

/-- The session that moves does not. -/
def System.Harmless (s : System) (a : Action) : Prop :=
  ∀ ss ∈ s.sessions[a.session]?,
    ss.Harmless s.database (s.sessions.eraseIdx a.session) a.choice

theorem harmless_of_not_breaksOff {ss : Session} {others : List Session} {ch : Choice}
    (h : ¬ ss.BreaksOff ch) : ss.Harmless d others ch := by
  revert h
  cases ss <;> cases ch <;> simp [Session.BreaksOff, Session.Harmless]

/-- What breaks off no `AddBackend` keeps the rows. -/
theorem System.Registered.steps {i : ℕ} {ss ss' : Session} {others : List Session} {ch : Choice}
    {eff : Effect} {added : Finset Backend} (h : s.Registered) (hss : s.sessions[i]? = some ss)
    (hst : ss.Steps s.database others ch ss' eff) (hbreaks : ¬ ss.BreaksOff ch) :
    System.Registered ⟨eff.apply s.database, s.sessions.set i ss', added⟩ := by
  have hcovered : System.Covered s.database.Counted ⟨s.database, s.sessions, ∅⟩ := by
    intro b hb
    rcases h b hb with hcounted | hpending
    · exact .inl hcounted
    · exact .inr (.inr hpending)
  intro b hb
  rcases hcovered.steps hss hst hbreaks b hb with hcounted | hadded | hpending
  · exact .inl (counted_apply eff hcounted)
  · have hempty : ∀ b ∈ (∅ : Finset Backend), s.database.Counted b :=
      fun b hb => absurd hb (Finset.notMem_empty b)
    exact .inl (counted_added hempty eff b hadded)
  · exact .inr hpending

/-- **Which steps keep every healthy backend registered**: those that break
off no `AddBackend`, and those that do so harmlessly. -/
theorem registered_step_iff (h : s.Registered) (hstep : s.step a = some s') :
    s'.Registered ↔ s.Harmless a := by
  obtain ⟨ss, ss', eff, hss, hnext, rfl⟩ := step_eq_some hstep
  have hst := steps_of_next hnext
  by_cases hbreaks : ss.BreaksOff a.choice
  · obtain ⟨b, rfl, hc⟩ := breaksOff_iff.1 hbreaks
    rw [hc] at hst
    cases hst
    have hother : ∀ c, Session.insertCount c ∈ s.sessions.set a.session .closed ↔
        Session.insertCount c ∈ s.sessions.eraseIdx a.session := by
      intro c
      rw [Pool.mem_set_iff hss]
      exact or_iff_right fun heq => nomatch heq
    have hharm : s.Harmless a ↔ (s.database.Healthy b → s.database.Counted b ∨
        Session.insertCount b ∈ s.sessions.eraseIdx a.session) := by
      simp [System.Harmless, hss, hc, Session.Harmless]
    rw [hharm]
    constructor
    · intro hreg hb
      exact (hreg b hb).imp_right (hother b).1
    · intro hspared c hcb
      by_cases heq : c = b
      · subst heq
        exact (hspared hcb).imp_right (hother c).2
      · refine (h c hcb).imp_right fun hmem => ?_
        exact Pool.mem_set_of_mem_of_ne hmem hss fun hne => heq (Session.insertCount.inj hne)
  · refine iff_of_true (h.steps hss hst hbreaks) fun tt htt => ?_
    obtain rfl := Option.some.inj (hss.symm.trans htt)
    exact harmless_of_not_breaksOff hbreaks

/-- **When registration is all or nothing.** A call that returns an error
leaves the tables as they were exactly if what it has written was there
already. And along a run from tables in which every healthy backend has a
count row, every one that no `AddBackend` is at work on has its row and can
be chosen, exactly if the run breaks off no `AddBackend` over a healthy
backend without one. -/
theorem registration_iff_harmless (d : Database) :
    (∀ (first second : Reply) (b : Backend), (addBackendReplies first second b d).1 = false →
      ((addBackendReplies first second b d).2.Same d ↔ Idle first second b d)) ∧
    ((∀ b, d.Healthy b → d.Counted b) → ∀ (ops : List Op) (sched : List Action) (s : System),
      Run.exec System.step (.start d ops) sched = some s →
      ((∀ n t, Run.exec System.step (.start d ops) (sched.take n) = some t →
          ∀ b, t.database.Healthy b → Session.insertCount b ∉ t.sessions →
            t.database.Counted b ∧ t.database.Choosable b) ↔
        Run.Meets System.step System.Harmless (.start d ops) sched)) := by
  refine ⟨fun first second b _ => same_addBackendReplies_iff first second b d,
    fun hd ops sched s hrun => ?_⟩
  have hstart : (System.start d ops).Registered := fun b hb => .inl (hd b hb)
  rw [← Run.forall_take_iff_meets (fun _ _ _ h hst => registered_step_iff h hst) hstart hrun]
  refine forall_congr' fun n => forall_congr' fun t => imp_congr_right fun _ => ?_
  constructor
  · intro hall b hb
    by_cases hpending : Session.insertCount b ∈ t.sessions
    · exact .inr hpending
    · exact .inl (hall b hb hpending).1
  · intro hreg b hb hpending
    have hcounted : t.database.Counted b := (hreg b hb).resolve_right hpending
    exact ⟨hcounted, choosable_iff_mem_joined.2 (Database.mem_joined.2 ⟨hcounted, hb⟩)⟩

theorem insertCount_notMem_closed (b : Backend) : Session.insertCount b ∉ [Session.closed] := by
  simp

/-- A backend with its row is added again, and the call breaks off. -/
theorem registration_iff_harmless_readded :
    ∃ t, Run.exec System.step (.start (addBackend "b1" .empty) [.addBackend "b1"])
        [⟨0, .proceed⟩, ⟨0, .rollback⟩] = some t ∧ t.database.Choosable "b1" := by
  have hd : ∀ b, (addBackend "b1" .empty).Healthy b → (addBackend "b1" .empty).Counted b := by
    intro b hb
    rcases (healthy_addBackend b).1 hb with rfl | hb
    · rfl
    · exact absurd hb (by simp [Database.Healthy, Database.empty])
  have hmeets : Run.Meets System.step System.Harmless
      (.start (addBackend "b1" .empty) [.addBackend "b1"]) [⟨0, .proceed⟩, ⟨0, .rollback⟩] := by
    refine Run.meets_cons rfl (fun ss hss => ?_) (Run.meets_cons rfl (fun ss hss => ?_) trivial)
    · obtain rfl := Option.some.inj hss
      trivial
    · obtain rfl := Option.some.inj hss
      exact fun _ => .inl rfl
  exact ⟨_, rfl, (((registration_iff_harmless (addBackend "b1" .empty)).2 hd _ _ _ rfl).2 hmeets
    2 _ rfl "b1" rfl (insertCount_notMem_closed "b1")).2⟩

/-- **A backend that is healthy and cannot be chosen**: the count row was
not inserted, and the call returned an error. -/
theorem broken_off_registration :
    (¬ ∀ (first second : Reply) (b : Backend) (d : Database),
      (addBackendReplies first second b d).1 = false →
        (addBackendReplies first second b d).2.Same d) ∧
    ¬ ∀ (ops : List Op) (sched : List Action) (s : System),
      Run.exec System.step (.start .empty ops) sched = some s →
      ∀ b, s.database.Healthy b → Session.insertCount b ∉ s.sessions →
        s.database.Counted b ∧ s.database.Choosable b := by
  constructor
  · intro h
    have hsame := h .done .failed "b1" .empty rfl
    exact absurd (hsame.backends "b1") (by decide)
  · intro h
    have hrow := (h [.addBackend "b1"] [⟨0, .proceed⟩, ⟨0, .rollback⟩] _ rfl "b1" rfl
      (insertCount_notMem_closed "b1")).1
    exact absurd hrow Bool.false_ne_true

end Postgres

end StickyProxy
