import StickyProxy.Drain.Model.Manager
import StickyProxy.Common.Run
import StickyProxy.Common.Pool
/-!
# When `StartDrain` takes effect

A backend has an entry exactly while it has a goroutine that has not
ended, and the entry names that goroutine; in particular it has no other.
A call of `StartDrain` that finds no entry starts a goroutine. One that
finds an entry leaves the drain to the goroutine that made it, and that
goroutine may have been cancelled long before: `CancelDrain` does not take
the entry out.
-/

namespace StickyProxy

namespace DrainManager

variable {d d' : DrainManager} {b : Backend} {i j : ℕ} {t : Turn} {g : DrainGoroutine}

/-! ## The steps of a goroutine -/

/-- The step is the removal of the backend: `MemoryStore` carries it out at
the call, the others once it was issued. -/
def removes (d : DrainManager) (g : DrainGoroutine) (t : Turn) : Bool :=
  t = .next ∧ (g.phase = .removeBackend ∧ d.ignoresCtx ∨ g.phase = .removing)

/-- What a step of a goroutine needs and what it leaves. -/
inductive Moves (d : DrainManager) (g : DrainGoroutine) (t : Turn) : DrainPhase → Store → Prop
  | on {q : DrainPhase} (hphase : g.phase ≠ .unmark ∧ g.phase ≠ .ended) (hq : q ≠ .ended)
      (h : d.removes g t = false) : Moves d g t q d.store
  | delete {us : List RoutingKey} (hphase : g.phase = .bulkDelete us) :
      Moves d g t (.invalidate us) (d.store.bulkDeleteAssignments us)
  | remove (h : d.removes g t) : Moves d g t .unlock (d.store.removeBackend g.backend)
  | unmark (hphase : g.phase = .unmark) : Moves d g t .ended d.store

theorem moves_phaseStep {p : DrainPhase × Store} (h : d.phaseStep g t = some p) :
    Moves d g t p.1 p.2 := by
  revert h
  fun_cases phaseStep d g t <;> rintro ⟨⟩
  case case11 us hphase =>
    dsimp only
    split
    · exact .delete hphase
    · exact .on (by simp [hphase]) (by simp) (by simp [removes, hphase])
  case case15 hphase hctx => exact .remove (by simp [removes, hphase, hctx])
  case case17 hphase => exact .remove (by simp [removes, hphase])
  case case22 hphase => exact .unmark hphase
  all_goals
    refine .on (by simp [*]) ?_ (by simp [removes, *])
    first
      | simp; done
      | dsimp only; split <;> simp

/-- A goroutine ends with the deletion of the entry, and takes no step
after it. -/
theorem Moves.ended_iff {q : DrainPhase} {store : Store} (h : Moves d g t q store) :
    g.phase ≠ .ended ∧ (q = .ended ↔ g.phase = .unmark) := by
  cases h with
  | on hphase hq _ => exact ⟨hphase.2, iff_of_false hq hphase.1⟩
  | delete hphase => simp [hphase]
  | remove h =>
    rw [removes, decide_eq_true_eq] at h
    rcases h with ⟨-, ⟨hphase, -⟩ | hphase⟩ <;> simp [hphase]
  | unmark hphase => simp [hphase]

/-! ## The entries of the map -/

/-- The map has an entry for each goroutine that has not ended, and no
other. -/
structure Marked (d : DrainManager) : Prop where
  entry : ∀ b i, d.draining.lookup b = some i →
    ∃ g, d.goroutines[i]? = some g ∧ g.backend = b ∧ g.phase ≠ .ended
  running : ∀ i g, d.goroutines[i]? = some g → g.phase ≠ .ended →
    d.draining.lookup g.backend = some i

/-- The backends of the goroutines. -/
def backends (d : DrainManager) : List Backend := d.goroutines.map (·.backend)

theorem getElem?_backends : d.backends[i]? = (d.goroutines[i]?).map (·.backend) :=
  List.getElem?_map

/-- The backend of the goroutine a call of `StartDrain` starts. -/
def starts (d : DrainManager) (b : Backend) : Option Backend :=
  if d.draining.lookup b = none then some b else none

theorem backends_startDrain : (d.startDrain b).backends = d.backends ++ (d.starts b).toList := by
  unfold startDrain starts
  rcases d.draining.lookup b with - | i
  · simp [backends]
  · simp

theorem Marked.startDrain (h : d.Marked) (b : Backend) : (d.startDrain b).Marked := by
  unfold DrainManager.startDrain
  rcases hb : d.draining.lookup b with - | i
  · -- The new goroutine is behind all others, and the first for its backend.
    constructor
    · intro c i hc
      rw [Table.lookup_insert_eq] at hc
      split at hc
      · rename_i hcb
        obtain rfl := Option.some.inj hc
        exact ⟨{ backend := b }, by simp, hcb.symm, by simp⟩
      · obtain ⟨g, hg, hgc⟩ := h.entry c i hc
        have hi : i < d.goroutines.length := (List.getElem?_eq_some_iff.1 hg).1
        exact ⟨g, by rw [List.getElem?_append_left hi, hg], hgc⟩
    · intro i g hg hphase
      rw [Table.lookup_insert_eq]
      rcases Nat.lt_or_ge i d.goroutines.length with hi | hi
      · rw [List.getElem?_append_left hi] at hg
        have hlook := h.running i g hg hphase
        rw [if_neg (fun hgb => by rw [hgb, hb] at hlook; cases hlook), hlook]
      · rw [List.getElem?_append_right hi, List.getElem?_singleton,
          Option.ite_none_right_eq_some] at hg
        obtain ⟨hi0, hg⟩ := hg
        obtain rfl := Option.some.inj hg
        rw [if_pos rfl, show i = d.goroutines.length by omega]
  · exact h

/-- A goroutine that goes on leaves the map as it should be. -/
theorem Marked.set {g' : DrainGoroutine} (h : d.Marked) (hg : d.goroutines[i]? = some g)
    (hgoroutines : d'.goroutines = d.goroutines.set i g') (hdraining : d'.draining = d.draining)
    (hb : g'.backend = g.backend) (hphase : g'.phase = .ended ↔ g.phase = .ended) :
    d'.Marked := by
  constructor
  · intro c j hc
    rw [hdraining] at hc
    obtain ⟨x, hx, hxc, hxphase⟩ := h.entry c j hc
    rw [hgoroutines]
    by_cases hij : i = j
    · subst hij
      obtain rfl := Option.some.inj (hg.symm.trans hx)
      exact ⟨g', Pool.getElem?_set_self hg, hb.trans hxc, fun he => hxphase (hphase.1 he)⟩
    · exact ⟨x, by rw [Pool.getElem?_set_ne hij, hx], hxc, hxphase⟩
  · intro j x hx hxphase
    rw [hdraining]
    rw [hgoroutines] at hx
    by_cases hij : i = j
    · subst hij
      rw [Pool.getElem?_set_self hg] at hx
      obtain rfl := Option.some.inj hx
      rw [hb]
      exact h.running i g hg fun he => hxphase (hphase.2 he)
    · rw [Pool.getElem?_set_ne hij] at hx
      exact h.running j x hx hxphase

/-- One that deletes its entry deletes no other. -/
theorem Marked.unmark {g' : DrainGoroutine} (h : d.Marked) (hg : d.goroutines[i]? = some g)
    (hgoroutines : d'.goroutines = d.goroutines.set i g')
    (hdraining : d'.draining = d.draining.erase g.backend) (hphase : g.phase ≠ .ended)
    (hphase' : g'.phase = .ended) : d'.Marked := by
  have hown := h.running i g hg hphase
  constructor
  · intro c j hc
    rw [hdraining, Table.lookup_erase_eq] at hc
    split at hc
    · cases hc
    · rename_i hcb
      obtain ⟨x, hx, hxc, hxphase⟩ := h.entry c j hc
      have hij : i ≠ j := by
        rintro rfl
        obtain rfl := Option.some.inj (hg.symm.trans hx)
        exact hcb hxc.symm
      exact ⟨x, by rw [hgoroutines, Pool.getElem?_set_ne hij, hx], hxc, hxphase⟩
  · intro j x hx hxphase
    rw [hgoroutines] at hx
    have hij : i ≠ j := by
      rintro rfl
      rw [Pool.getElem?_set_self hg] at hx
      obtain rfl := Option.some.inj hx
      exact hxphase hphase'
    rw [Pool.getElem?_set_ne hij] at hx
    have hlook := h.running j x hx hxphase
    rw [hdraining, Table.lookup_erase_eq, if_neg fun hxb => ?_, hlook]
    -- An entry has one goroutine.
    rw [hxb, hown] at hlook
    exact hij (Option.some.inj hlook)

/-- A step of a goroutine, with what it needs. -/
theorem turn_cases (h : d.turn i t = some d') :
    ∃ g q store, d.goroutines[i]? = some g ∧ Moves d g t q store ∧ d' = { d with
      store
      draining := if g.phase = .unmark then d.draining.erase g.backend else d.draining
      goroutines := d.goroutines.set i { g with phase := q }
      sent := if t = .giveUp then d.sent ++ [g.backend] else d.sent } := by
  obtain ⟨g, hg, h⟩ := Option.bind_eq_some_iff.1 h
  obtain ⟨p, hp, rfl⟩ := Option.map_eq_some_iff.1 h
  exact ⟨g, p.1, p.2, hg, moves_phaseStep hp, rfl⟩

theorem Marked.turn (h : d.Marked) (hst : d.turn i t = some d') : d'.Marked := by
  obtain ⟨g, q, store, hg, hmoves, rfl⟩ := turn_cases hst
  obtain ⟨hphase, hended⟩ := hmoves.ended_iff
  by_cases hunmark : g.phase = .unmark
  · exact h.unmark hg rfl (if_pos hunmark) hphase (hended.2 hunmark)
  · exact h.set hg rfl (if_neg hunmark) rfl (iff_of_false (fun hq => hunmark (hended.1 hq)) hphase)

theorem backends_turn (hst : d.turn i t = some d') : d'.backends = d.backends := by
  obtain ⟨g, q, store, hg, -, rfl⟩ := turn_cases hst
  exact Pool.map_set_of_eq _ hg rfl

theorem Marked.cancel (h : d.Marked) (i : ℕ) : (d.cancel i).Marked := by
  unfold DrainManager.cancel
  rcases hg : d.goroutines[i]? with - | g
  · exact h
  · exact h.set hg rfl rfl rfl Iff.rfl

theorem backends_cancel : (d.cancel i).backends = d.backends := by
  unfold DrainManager.cancel
  rcases hg : d.goroutines[i]? with - | g
  · rfl
  · exact Pool.map_set_of_eq _ hg rfl

theorem Marked.land (h : d.Marked) (hst : d.land j = some d') : d'.Marked := by
  obtain ⟨-, -, rfl⟩ := Option.map_eq_some_iff.1 hst
  exact ⟨h.entry, h.running⟩

theorem backends_land (hst : d.land j = some d') : d'.backends = d.backends := by
  obtain ⟨-, -, rfl⟩ := Option.map_eq_some_iff.1 hst
  rfl

end DrainManager

namespace Drain

variable {s s' t : Callers} {a : CallerAction} {b : Backend} {i : ℕ}

/-! ## Runs -/

/-- The map is as it should be, and whatever was cancelled was started. -/
structure Callers.Sound (s : Callers) : Prop where
  marked : s.manager.Marked
  cancels : ∀ c ∈ s.cancels, c.target < s.manager.backends.length
  returned : ∀ i ∈ s.returned, i < s.manager.backends.length

theorem Callers.Fresh.sound (h : s.Fresh) : s.Sound where
  marked := by
    constructor
    · intro b i hb
      rw [h.draining] at hb
      cases hb
    · intro i g hg
      rw [h.goroutines] at hg
      cases hg
  cancels := by simp [h.cancels]
  returned := by simp [h.returned]

/-- The goroutine a step starts. -/
def Callers.starts (s : Callers) : CallerAction → Option Backend
  | .startDrain b => s.manager.starts b
  | _ => none

theorem backends_callerStep (hst : callerStep s a = some s') :
    s'.manager.backends = s.manager.backends ++ (s.starts a).toList := by
  cases a with
  | startDrain b =>
    obtain rfl := Option.some.inj hst
    exact DrainManager.backends_startDrain
  | cancelDrain b =>
    rcases hb : s.manager.draining.lookup b with - | i <;>
      simp only [callerStep, hb, Option.some.injEq] at hst <;> subst hst <;>
      exact (List.append_nil _).symm
  | cancel j =>
    obtain ⟨c, -, hst⟩ := Option.bind_eq_some_iff.1 hst
    rw [Option.ite_none_left_eq_some, Option.some.injEq] at hst
    obtain ⟨-, rfl⟩ := hst
    exact DrainManager.backends_cancel.trans (List.append_nil _).symm
  | returns j =>
    obtain ⟨c, -, hst⟩ := Option.bind_eq_some_iff.1 hst
    rw [Option.ite_none_right_eq_some, Option.some.injEq] at hst
    obtain ⟨-, rfl⟩ := hst
    exact (List.append_nil _).symm
  | turn i t =>
    obtain ⟨d, hd, rfl⟩ := Option.map_eq_some_iff.1 hst
    exact (DrainManager.backends_turn hd).trans (List.append_nil _).symm
  | timeout i =>
    obtain rfl := Option.some.inj hst
    exact DrainManager.backends_cancel.trans (List.append_nil _).symm
  | land j =>
    obtain ⟨d, hd, rfl⟩ := Option.map_eq_some_iff.1 hst
    exact (DrainManager.backends_land hd).trans (List.append_nil _).symm

/-- Goroutines stay in their places. -/
theorem length_backends_le (hst : callerStep s a = some s') :
    s.manager.backends.length ≤ s'.manager.backends.length := by
  rw [backends_callerStep hst, List.length_append]
  exact Nat.le_add_right _ _

theorem Callers.Sound.step (h : s.Sound) (hst : callerStep s a = some s') : s'.Sound := by
  have hle := length_backends_le hst
  have hcancels : ∀ c ∈ s.cancels, c.target < s'.manager.backends.length :=
    fun c hc => (h.cancels c hc).trans_le hle
  have hreturned : ∀ i ∈ s.returned, i < s'.manager.backends.length :=
    fun i hi => (h.returned i hi).trans_le hle
  cases a with
  | startDrain b =>
    obtain rfl := Option.some.inj hst
    exact ⟨h.marked.startDrain b, hcancels, hreturned⟩
  | cancelDrain b =>
    rcases hb : s.manager.draining.lookup b with - | i <;>
      simp only [callerStep, hb, Option.some.injEq] at hst <;> subst hst
    · exact h
    · refine ⟨h.marked, fun c hc => ?_, hreturned⟩
      rcases List.mem_append.1 hc with hc | hc
      · exact hcancels c hc
      · obtain rfl := List.mem_singleton.1 hc
        obtain ⟨g, hg, -⟩ := h.marked.entry b i hb
        rw [DrainManager.backends, List.length_map]
        exact (List.getElem?_eq_some_iff.1 hg).1
  | cancel j =>
    obtain ⟨c, hc, hst⟩ := Option.bind_eq_some_iff.1 hst
    rw [Option.ite_none_left_eq_some, Option.some.injEq] at hst
    obtain ⟨-, rfl⟩ := hst
    refine ⟨h.marked.cancel _, fun x hx => ?_, hreturned⟩
    rcases Pool.mem_or_eq_of_mem_set hx with hx | rfl
    · exact hcancels x hx
    · exact hcancels c (List.mem_of_getElem? hc)
  | returns j =>
    obtain ⟨c, hc, hst⟩ := Option.bind_eq_some_iff.1 hst
    rw [Option.ite_none_right_eq_some, Option.some.injEq] at hst
    obtain ⟨-, rfl⟩ := hst
    exact ⟨h.marked, fun x hx => hcancels x (List.mem_of_mem_eraseIdx hx),
      List.forall_mem_cons.2 ⟨hcancels c (List.mem_of_getElem? hc), hreturned⟩⟩
  | turn i t =>
    obtain ⟨d, hd, rfl⟩ := Option.map_eq_some_iff.1 hst
    exact ⟨h.marked.turn hd, hcancels, hreturned⟩
  | timeout i =>
    obtain rfl := Option.some.inj hst
    exact ⟨h.marked.cancel i, hcancels, hreturned⟩
  | land j =>
    obtain ⟨d, hd, rfl⟩ := Option.map_eq_some_iff.1 hst
    exact ⟨h.marked.land hd, hcancels, hreturned⟩

/-- **The map after any interleaving.** -/
theorem sound_exec {schedule : List CallerAction} (h : s.Sound)
    (hrun : Run.exec callerStep s schedule = some s') : s'.Sound :=
  Run.exec_invariant_of_forall (fun _ _ _ h hst => Callers.Sound.step h hst) h hrun

theorem backends_append_of_exec {schedule : List CallerAction}
    (hrun : Run.exec callerStep s schedule = some s') :
    s.manager.backends <+: s'.manager.backends := by
  refine Run.exec_invariant_of_forall (I := fun t => s.manager.backends <+: t.manager.backends)
    (fun t a t' h hst => h.trans ?_) (List.prefix_refl _) hrun
  rw [backends_callerStep hst]
  exact List.prefix_append _ _

/-- A goroutine is where it was. -/
theorem getElem?_backends_of_exec {schedule : List CallerAction}
    (hrun : Run.exec callerStep s schedule = some s') (hi : s.manager.backends[i]? = some b) :
    s'.manager.backends[i]? = some b := by
  obtain ⟨rest, hrest⟩ := backends_append_of_exec hrun
  rw [← hrest, List.getElem?_append_left (List.getElem?_eq_some_iff.1 hi).1, hi]

/-- A call of `StartDrain` of the schedule finds no entry. -/
def StartsAnew (b : Backend) (s : Callers) (schedule : List CallerAction) : Prop :=
  ∃ before after t, schedule = before ++ .startDrain b :: after ∧
    Run.exec callerStep s before = some t ∧ t.manager.draining.lookup b = none

/-- A goroutine that is new was started by such a call. -/
theorem startsAnew_of_new {schedule : List CallerAction}
    (hrun : Run.exec callerStep s schedule = some s') (hi : s.manager.backends.length ≤ i)
    (hb : s'.manager.backends[i]? = some b) : StartsAnew b s schedule := by
  induction schedule generalizing s with
  | nil =>
    rw [Run.exec_nil, Option.some.injEq] at hrun
    subst hrun
    exact absurd (List.getElem?_eq_some_iff.1 hb).1 (by omega)
  | cons a schedule ih =>
    obtain ⟨t, hst, hrest⟩ := Run.exec_cons_eq_some.1 hrun
    rcases Nat.lt_or_ge i t.manager.backends.length with hlt | hge
    · -- The goroutine is the one this step starts.
      have hlen := backends_callerStep hst
      have hbt : t.manager.backends[i]? = some b := by
        obtain ⟨rest, hp⟩ := backends_append_of_exec hrest
        rw [← hp, List.getElem?_append_left hlt] at hb
        exact hb
      rw [hlen, List.getElem?_append_right hi] at hbt
      have hstarts : s.starts a = some b := by
        rcases hc : s.starts a with - | c
        · simp [hc] at hbt
        · rw [hc] at hbt
          have hmem : b ∈ (some c).toList := List.mem_of_getElem? hbt
          rw [Option.mem_toList.1 hmem]
      cases a with
      | startDrain c =>
        simp only [Callers.starts, DrainManager.starts, Option.ite_none_right_eq_some,
          Option.some.injEq] at hstarts
        obtain ⟨hnone, rfl⟩ := hstarts
        exact ⟨[], schedule, s, rfl, rfl, hnone⟩
      | cancelDrain _ | cancel _ | returns _ | turn _ _ | timeout _ | land _ => cases hstarts
    · obtain ⟨before, after, u, rfl, hu, hnone⟩ := ih hrest hge
      exact ⟨a :: before, after, u, rfl, Run.exec_cons_eq_some.2 ⟨t, hst, hu⟩, hnone⟩

/-- And such a call starts one. -/
theorem new_of_startsAnew {schedule : List CallerAction}
    (hrun : Run.exec callerStep s schedule = some s') (h : StartsAnew b s schedule) :
    ∃ i, s.manager.backends.length ≤ i ∧ s'.manager.backends[i]? = some b := by
  obtain ⟨before, after, t, rfl, ht, hnone⟩ := h
  obtain ⟨t', ht', hrun⟩ := Run.exec_append_eq_some.1 hrun
  obtain rfl := Option.some.inj (ht.symm.trans ht')
  obtain ⟨u, hu, hrun⟩ := Run.exec_cons_eq_some.1 hrun
  refine ⟨t.manager.backends.length, (backends_append_of_exec ht).length_le,
    getElem?_backends_of_exec hrun ?_⟩
  rw [backends_callerStep hu, List.getElem?_append_right le_rfl]
  simp [Callers.starts, DrainManager.starts, hnone]

/-- **When `StartDrain` takes effect.** In any interleaving of calls of
`StartDrain` and `CancelDrain` and of the steps of the goroutines, there is
a goroutine for the backend that runs at or after a given call and that no
`CancelDrain` has cancelled that returned before it, exactly if the call
finds the entry of such a goroutine, or it or a later call finds no
entry. -/
theorem takesEffect_iff {s₀ : Callers} {before after : List CallerAction} (hfresh : s₀.Fresh)
    (hbefore : Run.exec callerStep s₀ before = some s)
    (hafter : Run.exec callerStep s (.startDrain b :: after) = some s') :
    TakesEffect b s s' ↔
      (∃ i, s.manager.draining.lookup b = some i ∧ i ∉ s.returned) ∨
        StartsAnew b s (.startDrain b :: after) := by
  have hsound : s.Sound := sound_exec hfresh.sound hbefore
  constructor
  · rintro ⟨i, g', hg', rfl, hreturned, hrunning⟩
    have hb : s'.manager.backends[i]? = some g'.backend := by
      rw [DrainManager.getElem?_backends, hg']
      rfl
    rcases hg : s.manager.goroutines[i]? with - | g
    · refine Or.inr (startsAnew_of_new hafter ?_ hb)
      rw [DrainManager.backends, List.length_map]
      exact List.getElem?_eq_none_iff.1 hg
    · have hgb : s.manager.backends[i]? = some g.backend := by
        rw [DrainManager.getElem?_backends, hg]
        rfl
      have hsame : g.backend = g'.backend :=
        Option.some.inj ((getElem?_backends_of_exec hafter hgb).symm.trans hb)
      have hentry := hsound.marked.running i g hg (hrunning g hg)
      exact Or.inl ⟨i, hsame ▸ hentry, hreturned⟩
  · rintro (⟨i, hentry, hreturned⟩ | hanew)
    · obtain ⟨g, hg, rfl, hphase⟩ := hsound.marked.entry b i hentry
      have hgb : s.manager.backends[i]? = some g.backend := by
        rw [DrainManager.getElem?_backends, hg]
        rfl
      have hb := getElem?_backends_of_exec hafter hgb
      rw [DrainManager.getElem?_backends, Option.map_eq_some_iff] at hb
      obtain ⟨g', hg', hsame⟩ := hb
      refine ⟨i, g', hg', hsame, hreturned, fun x hx => ?_⟩
      obtain rfl := Option.some.inj (hg.symm.trans hx)
      exact hphase
    · obtain ⟨i, hi, hb⟩ := new_of_startsAnew hafter hanew
      rw [DrainManager.getElem?_backends, Option.map_eq_some_iff] at hb
      obtain ⟨g', hg', rfl⟩ := hb
      refine ⟨i, g', hg', rfl, fun hmem => absurd (hsound.returned i hmem) (by omega),
        fun g hg => ?_⟩
      have hlt := (List.getElem?_eq_some_iff.1 hg).1
      rw [DrainManager.backends, List.length_map] at hi
      omega

/-! ## Start, cancel, start -/

/-- A manager in hash mode with one backend, before any call. -/
def beforeCalls : Callers :=
  { manager := { routingMode := .hash, redis := false, store := .memory {"b1"} } }

theorem fresh_beforeCalls : beforeCalls.Fresh := ⟨rfl, rfl, rfl, rfl⟩

/-- A drain is started, and cancelled by a call that returns. -/
def startedAndCancelled : List CallerAction :=
  [.startDrain "b1", .cancelDrain "b1", .cancel 0, .returns 0]

/-- Its goroutine, which waits for the lock, gives up. -/
def abandons : List CallerAction :=
  [.turn 0 .fail, .turn 0 .fail, .turn 0 .next, .turn 0 .next]

theorem takesEffect_afterAbandoned :
    ∃ s s', Run.exec callerStep beforeCalls (startedAndCancelled ++ abandons) = some s ∧
      Run.exec callerStep s [.startDrain "b1"] = some s' ∧ TakesEffect "b1" s s' := by
  obtain ⟨s, hbefore, hnone⟩ : ∃ s,
      Run.exec callerStep beforeCalls (startedAndCancelled ++ abandons) = some s ∧
        s.manager.draining.lookup "b1" = none := ⟨_, rfl, by decide⟩
  exact ⟨s, _, hbefore, rfl, (takesEffect_iff fresh_beforeCalls hbefore rfl).2
    (Or.inr ⟨[], [], s, rfl, rfl, hnone⟩)⟩

/-- **A start after a cancel may be in vain.** The second `StartDrain` finds
the entry of the cancelled goroutine, which gives up, and no other is
started. -/
theorem restart_is_in_vain :
    ∃ s s', Run.exec callerStep beforeCalls startedAndCancelled = some s ∧
      Run.exec callerStep s (.startDrain "b1" :: abandons) = some s' ∧
      (∀ g ∈ s'.manager.goroutines, g.phase = .ended) ∧ ¬ TakesEffect "b1" s s' := by
  refine ⟨_, _, rfl, rfl, by decide, ?_⟩
  rintro ⟨i, g', hg', -, hreturned, -⟩
  -- There is one goroutine, and it was cancelled.
  have hi := (List.getElem?_eq_some_iff.1 hg').1
  exact hreturned (List.mem_singleton.2 (Nat.lt_one_iff.1 hi))

end Drain

end StickyProxy
