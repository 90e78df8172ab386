import StickyProxy.Health.Model.Checker
/-!
# What a round does to the table of states

The merge and the prune as lookups, and the three things `recordResult`
can do: leave the verdict on a backend as it is, lift it and add the
backend, or drop it and have the backend removed. A backend without a
state counts as healthy (`HealthChecker.state`), so the merge changes no
verdict and the prune makes every backend it forgets healthy again.
-/

namespace StickyProxy

namespace HealthChecker

open Health

variable {hc hc' : HealthChecker} {b c : Backend} {backends : List Backend}

/-! ## The merge and the prune -/

theorem lookup_foldl_merge (backends : List Backend) (t : Table Backend BackendHealth)
    (b : Backend) :
    (backends.foldl (fun t b => if (t.lookup b).isSome then t else t.insert b fresh) t).lookup b =
      (t.lookup b).or (if b ∈ backends then some fresh else none) := by
  induction backends generalizing t with
  | nil => simp
  | cons c rest ih =>
    rw [List.foldl_cons, ih]
    by_cases hc : (t.lookup c).isSome
    · rw [if_pos hc]
      by_cases hbc : b = c
      · obtain ⟨st, hst⟩ := Option.isSome_iff_exists.1 (hbc ▸ hc)
        simp [hst]
      · simp [hbc]
    · rw [if_neg hc, Table.lookup_insert_eq]
      by_cases hbc : b = c
      · have hnone : t.lookup b = none := Option.not_isSome_iff_eq_none.1 (hbc ▸ hc)
        rw [if_pos hbc, hnone, Option.none_or, Option.some_or, if_pos (by simp [hbc])]
      · simp [hbc]

theorem lookup_merge (backends : List Backend) (hc : HealthChecker) (b : Backend) :
    (hc.merge backends).states.lookup b =
      (hc.states.lookup b).or (if b ∈ backends then some fresh else none) :=
  lookup_foldl_merge backends hc.states b

theorem lookup_prune (backends : List Backend) (hc : HealthChecker) (b : Backend) :
    (hc.prune backends).states.lookup b =
      (hc.states.lookup b).filter fun st => b ∈ backends ∨ st.healthy := by
  rw [prune, Table.lookup_eraseAll]
  have hmem : b ∈ ((Table.pairs hc.states).filter fun p =>
      p.1 ∉ backends ∧ p.2.healthy = false).map Prod.fst ↔
      ∃ st, hc.states.lookup b = some st ∧ b ∉ backends ∧ st.healthy = false := by
    simp only [List.mem_map, List.mem_filter, decide_eq_true_eq, Prod.exists, Table.mem_pairs,
      exists_and_right, exists_eq_right]
  rcases hlook : hc.states.lookup b with - | st
  · simp
  · by_cases hst : b ∈ backends ∨ st.healthy
    · rw [if_neg (by rw [hmem, hlook]; grind), Option.filter_some, if_pos (decide_eq_true hst)]
    · rw [if_pos (by rw [hmem, hlook]; grind), Option.filter_some,
        if_neg (by rw [decide_eq_true_eq]; exact hst)]

/-- **The merge changes no verdict.** A backend it adds counted as healthy
before. -/
theorem state_merge : (hc.merge backends).state b = hc.state b := by
  simp only [state, lookup_merge]
  cases hc.states.lookup b with
  | none => by_cases hb : b ∈ backends <;> simp [hb]
  | some st => simp

/-- **The prune forgets a verdict**, so that the backend counts as healthy
from then on. -/
theorem state_prune :
    (hc.prune backends).state b =
      if b ∉ backends ∧ (hc.state b).healthy = false then fresh else hc.state b := by
  rcases hlook : hc.states.lookup b with - | st
  · simp [state, lookup_prune, hlook]
  · by_cases hb : b ∈ backends <;> cases hst : st.healthy <;>
      simp [state, lookup_prune, hlook, hb, hst, Option.filter_some]

/-! ## A probe -/

theorem state_insert (st : BackendHealth) :
    ({ hc with states := hc.states.insert b st } : HealthChecker).state c =
      if c = b then st else hc.state c := by
  simp only [state, Table.lookup_insert_eq]
  by_cases hcb : c = b <;> simp [hcb]

/-- What `recordResult` can do, beside the call it leaves to be made. -/
inductive Records (hc : HealthChecker) (b : Backend) (success : Bool) :
    Option Call → HealthChecker → Prop
  | keep {st : BackendHealth} (hst : st.healthy = (hc.state b).healthy)
      (hfew : success = false → (hc.state b).healthy →
        (hc.state b).consecutiveFails + 1 < hc.unhealthyThreshold)
      (hfails : st.consecutiveFails =
        if success then 0 else (hc.state b).consecutiveFails + 1) :
      Records hc b success none { hc with states := hc.states.insert b st }
  | up {st : BackendHealth} (hdown : (hc.state b).healthy = false) (hst : st.healthy = true) :
      Records hc b success (some (.addBackend b)) { hc with states := hc.states.insert b st }
  | down {st : BackendHealth} (hup : (hc.state b).healthy = true) (hst : st.healthy = false)
      (hfailed : success = false)
      (hmany : hc.unhealthyThreshold ≤ (hc.state b).consecutiveFails + 1)
      (hfails : st.consecutiveFails = (hc.state b).consecutiveFails + 1) :
      Records hc b success (some (if hc.drainOnUnhealthy then .startDrain b else .removeBackend b))
        { hc with states := hc.states.insert b st }

theorem records_recordResult (hc : HealthChecker) (b : Backend) (success : Bool) :
    Records hc b success (hc.recordResult b success).1 (hc.recordResult b success).2 := by
  cases success with
  | true =>
    by_cases hup : (hc.state b).healthy = false ∧
        hc.healthyThreshold ≤ (hc.state b).consecutiveSuccesses + 1
    · simp only [recordResult, if_true, if_pos hup]
      exact .up hup.1 rfl
    · simp only [recordResult, if_true, if_neg hup]
      exact .keep rfl (fun h => by cases h) rfl
  | false =>
    by_cases hdown : (hc.state b).healthy ∧
        hc.unhealthyThreshold ≤ (hc.state b).consecutiveFails + 1
    · simp only [recordResult, Bool.false_eq_true, if_false, if_pos hdown]
      exact .down hdown.1 rfl rfl hdown.2 rfl
    · simp only [recordResult, Bool.false_eq_true, if_false, if_neg hdown]
      exact .keep rfl (fun _ hst => lt_of_not_ge fun hle => hdown ⟨hst, hle⟩) rfl

/-! ## The healthy backends -/

theorem mem_getHealthyBackends :
    b ∈ hc.getHealthyBackends ↔ ∃ st, hc.states.lookup b = some st ∧ st.healthy = true := by
  simp only [getHealthyBackends, mem_sortStrings, List.mem_map, List.mem_filter, Prod.exists,
    Table.mem_pairs, exists_and_right, exists_eq_right]

end HealthChecker

/-! ## The steps of a round -/

namespace Health

/-- The backends left to probe. -/
def Phase.todo : Phase → List Backend
  | .probing todo _ => todo
  | _ => []

/-- The calls left to make. -/
def Phase.calls : Phase → List Call
  | .probing _ calls => calls
  | _ => []

/-- The list a round has read and not used yet. -/
def Phase.held : Phase → List Backend
  | .fetched backends | .collected backends => backends
  | _ => []

/-- What a step needs and what it leaves. -/
inductive Steps : System → Action → System → Prop
  | activeBackends {store hc order} (horder : Enumerates order store.active) :
      Steps ⟨store, hc, .idle⟩ (.activeBackends order) ⟨store, hc, .fetched order⟩
  | merge {store hc order backends}
      (horder : Enumerates order (hc.merge backends).states.keys.toFinset) :
      Steps ⟨store, hc, .fetched backends⟩ (.merge order)
        ⟨store, (hc.merge backends).prune backends, .probing order []⟩
  | probe {store hc todo calls b success call hc'} (hb : b ∈ todo)
      (hrec : hc.Records b success call hc') :
      Steps ⟨store, hc, .probing todo calls⟩ (.probe b success)
        ⟨store, hc', .probing (todo.erase b) (calls ++ call.toList)⟩
  | call {store hc todo calls i c} (hi : calls[i]? = some c) :
      Steps ⟨store, hc, .probing todo calls⟩ (.call i)
        ⟨c.run store, hc, .probing todo (calls.eraseIdx i)⟩
  | fail {store hc todo calls i c} (hi : calls[i]? = some c) :
      Steps ⟨store, hc, .probing todo calls⟩ (.fail i)
        ⟨store, hc, .probing todo (calls.eraseIdx i)⟩
  | cancel {store hc todo calls} :
      Steps ⟨store, hc, .probing todo calls⟩ .cancel ⟨store, hc, .probing [] calls⟩
  | getHealthyBackends {store hc} :
      Steps ⟨store, hc, .probing [] []⟩ .getHealthyBackends
        ⟨store, hc, .collected hc.getHealthyBackends⟩
  | skip {store hc} :
      Steps ⟨store, hc, .probing [] []⟩ .getHealthyBackends ⟨store, hc, .idle⟩
  | trigger {store hc currentHealthy} :
      Steps ⟨store, hc, .collected currentHealthy⟩ .trigger
        ⟨store, { hc with previousBackends := currentHealthy }, .idle⟩
  | addBackend {store hc phase b} :
      Steps ⟨store, hc, phase⟩ (.addBackend b) ⟨store.addBackend b, hc, phase⟩
  | removeBackend {store hc phase b} :
      Steps ⟨store, hc, phase⟩ (.removeBackend b) ⟨store.removeBackend b, hc, phase⟩

theorem steps_of_step {s s' : System} {a : Action} (h : step s a = some s') : Steps s a s' := by
  obtain ⟨store, hc, phase⟩ := s
  cases a with
  | activeBackends order =>
    cases phase <;>
      simp only [step, reduceCtorEq, Option.ite_none_right_eq_some, Option.some.injEq] at h
    obtain ⟨horder, rfl⟩ := h
    exact .activeBackends horder
  | merge order =>
    cases phase <;>
      simp only [step, reduceCtorEq, Option.ite_none_right_eq_some, Option.some.injEq] at h
    obtain ⟨horder, rfl⟩ := h
    exact .merge horder
  | probe b success =>
    cases phase <;>
      simp only [step, reduceCtorEq, Option.ite_none_right_eq_some, Option.some.injEq] at h
    obtain ⟨hb, rfl⟩ := h
    exact .probe hb (hc.records_recordResult b success)
  | call i =>
    cases phase <;> simp only [step, reduceCtorEq, Option.map_eq_some_iff] at h
    obtain ⟨c, hi, rfl⟩ := h
    exact .call hi
  | fail i =>
    cases phase <;> simp only [step, reduceCtorEq, Option.map_eq_some_iff] at h
    obtain ⟨c, hi, rfl⟩ := h
    exact .fail hi
  | cancel =>
    cases phase <;> simp only [step, reduceCtorEq, Option.some.injEq] at h
    subst h
    exact .cancel
  | getHealthyBackends =>
    rcases phase with _ | _ | ⟨_ | _, _ | _⟩ | _ <;>
      simp only [step, reduceCtorEq, Option.some.injEq] at h
    subst h
    split
    · exact .getHealthyBackends
    · exact .skip
  | trigger =>
    cases phase <;> simp only [step, reduceCtorEq, Option.some.injEq] at h
    subst h
    exact .trigger
  | addBackend b =>
    cases h
    exact .addBackend
  | removeBackend b =>
    cases h
    exact .removeBackend

end Health

end StickyProxy
