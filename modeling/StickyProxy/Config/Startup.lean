import StickyProxy.Config.Model.Startup
import StickyProxy.Config.Loading
/-!
# What comes of an environment

`New` relies on what `Load` has checked: with a configuration that `Load`
returns, the nil `*Redis` is never asked for its client, and the notifier, the
lock and the assignments are all in the same database. `Load` does not look
at the sign of an interval, though, and a ticker with an interval that is not
positive takes the process down, as does a library that panics when it is
called with what `Load` has let through.
-/

namespace StickyProxy.Configuration

open Fallible

variable {lib : Library} {w : World} {env : Env} {cfg : Config} {p : Parts}

/-- **The parts of a proxy fit together.** -/
structure Parts.Wired (p : Parts) : Prop where
  redis : p.redis = true ↔ p.store = .redis
  /-- Replicas tell each other of changes where they share the assignments. -/
  notifier : p.notifier = if p.store = .memory then none else some p.store
  /-- And they exclude each other there. -/
  distLocker : p.distLocker = p.notifier
  /-- The table of assignments is never asked for of the store that has none. -/
  table : p.routingMode = .assignment → p.store ≠ .memory
  discovery : p.discovery.isSome → p.routingMode = .assignment
  rebalancer : p.rebalancer.isSome → p.routingMode = .assignment
  source : ∀ interval, p.discovery = some (.redis, interval) → p.redis = true
  tickers : ∀ d ∈ p.tickers, 0 < d
  transport : 0 < p.transport.maxConnsPerHost ∧ 0 < p.transport.maxIdleConnsPerHost ∧
    1000 ≤ p.transport.maxIdleConns ∧ 0 < p.transport.idleConnTimeout

/-- The tickers that are configured. -/
theorem tickers_any (cfg : Config) : (assemble cfg).tickers.any (· ≤ 0) = true ↔
    (cfg.poisonPillAction = .quarantine ∧ cfg.poisonPillWindow ≤ 0) ∨
    (cfg.accountsDiscovery ≠ .disabled ∧ cfg.accountsRefreshInterval ≤ 0) ∨
    (cfg.backendDiscovery = .dns ∧ cfg.backendDiscoveryInterval ≤ 0) := by
  have hfixed : [2 * minute, minute, minute, 10 * second].any (· ≤ 0) = false := by decide
  simp only [Parts.tickers, List.any_append, hfixed, Bool.false_or, Bool.or_eq_true, or_assoc]
  refine or_congr ?_ (or_congr ?_ ?_)
  · by_cases haction : cfg.poisonPillAction = .quarantine <;> simp [assemble, haction]
  · by_cases hdiscovery : cfg.accountsDiscovery = .disabled <;> simp [assemble, hdiscovery]
  · cases hbackends : cfg.backendDiscovery <;> simp [assemble, hbackends]

/-! ## The libraries -/

/-- The constructors that `New` comes to, in their order, if none is in the
way. -/
def World.openings (w : World) (cfg : Config) : List Opening :=
  (match cfg.assignmentStore with
    | .memory => []
    | .postgres => [w.postgresStore cfg]
    | .redis => [w.redis cfg]) ++
  (if cfg.accountsDiscovery = .postgres then [w.postgresSource cfg] else []) ++
  if cfg.backendDiscovery = .kubernetes then [w.kubernetes cfg] else []

/-- The first that does not succeed. -/
def firstFault : List Opening → Opening
  | [] => .ok
  | .ok :: rest => firstFault rest
  | fault :: _ => fault

theorem opened_firstFault_append (l l' : List Opening) : opened (firstFault (l ++ l')) =
    opened (firstFault l) >>= fun _ => opened (firstFault l') := by
  induction l with
  | nil => rfl
  | cons o l ih =>
    cases o with
    | ok => exact ih
    | failed cause | panicked => rfl

theorem opened_firstFault_singleton (o : Opening) : opened (firstFault [o]) = opened o := by
  cases o <;> rfl

/-- **`New` ends as the libraries do.** The client of a nil `*Redis` is never
asked for. -/
theorem new_eq (hcfg : cfg.Consistent) : new w cfg =
    opened (firstFault (w.openings cfg)) >>= fun _ => .ok (assemble cfg) := by
  have hstore : openStore w cfg = opened (firstFault (match cfg.assignmentStore with
      | .memory => []
      | .postgres => [w.postgresStore cfg]
      | .redis => [w.redis cfg])) := by
    cases hs : cfg.assignmentStore with
    | memory => simp only [openStore, hs, firstFault, opened]
    | postgres | redis => simp only [openStore, hs, opened_firstFault_singleton]
  have hsource : openSource w cfg (cfg.assignmentStore = .redis) = opened (firstFault
      (if cfg.accountsDiscovery = .postgres then [w.postgresSource cfg] else [])) := by
    cases hd : cfg.accountsDiscovery with
    | redis =>
      have hredis : cfg.assignmentStore = .redis := hcfg.redis hd
      simp [openSource, hd, hredis, firstFault, opened]
    | postgres => simp only [openSource, hd, if_pos, opened_firstFault_singleton]
    | http | disabled => simp [openSource, hd, firstFault, opened]
  have hbackends : openBackendDiscovery w cfg = opened (firstFault
      (if cfg.backendDiscovery = .kubernetes then [w.kubernetes cfg] else [])) := by
    cases hd : cfg.backendDiscovery with
    | kubernetes => simp only [openBackendDiscovery, hd, if_pos, opened_firstFault_singleton]
    | dns | disabled => simp [openBackendDiscovery, hd, firstFault, opened]
  rw [new, hstore, hsource, hbackends, World.openings, opened_firstFault_append,
    opened_firstFault_append]
  simp only [bind_assoc]
  rfl

/-- The limits of the transport are positive, whatever is configured. -/
theorem transport_pos (maxConns maxIdle : ℤ) (idleTimeout : Duration) :
    let t := newTransport maxConns maxIdle idleTimeout
    0 < t.maxConnsPerHost ∧ 0 < t.maxIdleConnsPerHost ∧ 1000 ≤ t.maxIdleConns ∧
      0 < t.idleConnTimeout := by
  unfold newTransport
  dsimp only
  refine ⟨?_, ?_, ?_, ?_⟩
  · split_ifs <;> omega
  · split_ifs <;> omega
  · split_ifs <;> omega
  · split_ifs with hle
    · decide
    · exact not_le.1 hle

theorem wired_assemble (hcfg : cfg.Consistent)
    (htickers : (assemble cfg).tickers.any (· ≤ 0) = false) : (assemble cfg).Wired := by
  refine ⟨decide_eq_true_iff, ?_, ?_, fun hmode hstore => ?_, fun h => ?_, fun h => ?_,
    fun interval h => ?_, fun d hd => ?_, ?_⟩
  · cases hstore : cfg.assignmentStore <;> simp [assemble, hstore]
  · cases hstore : cfg.assignmentStore <;> simp [assemble, hstore]
  · have hhash := hcfg.memory hstore
    rw [show cfg.routingMode = .assignment from hmode] at hhash
    cases hhash
  · refine hcfg.accounts fun hdisabled => ?_
    simp [assemble, hdisabled] at h
  · refine hcfg.rebalance fun hnone => ?_
    simp [assemble, hnone] at h
  · refine decide_eq_true (hcfg.redis ?_)
    simp only [assemble] at h
    split_ifs at h
    exact congrArg Prod.fst (Option.some.inj h)
  · exact not_le.1 fun hle => by simpa [hle] using List.any_eq_false.1 htickers d hd
  · exact transport_pos ..

/-- **When startup panics.** The configuration loads, and the first library
that does not succeed panics, or all succeed and an interval is not positive;
there is no other way. And a proxy that serves is wired as the rest relies
on. -/
theorem launch_panicked_iff (lib : Library) (w : World) (env : Env) :
    (launch lib w env = .panicked ↔ ∃ cfg, load lib env = .ok cfg ∧
      (firstFault (w.openings cfg) = .panicked ∨ firstFault (w.openings cfg) = .ok ∧
        ((cfg.poisonPillAction = .quarantine ∧ cfg.poisonPillWindow ≤ 0) ∨
        (cfg.accountsDiscovery ≠ .disabled ∧ cfg.accountsRefreshInterval ≤ 0) ∨
        (cfg.backendDiscovery = .dns ∧ cfg.backendDiscoveryInterval ≤ 0)))) ∧
    ∀ p, launch lib w env = .serving p → p.Wired := by
  cases hload : load lib env with
  | error e => simp [launch, hload]
  | ok cfg =>
    have hcfg := consistent_of_load hload
    have hnew := new_eq (w := w) hcfg
    simp only [Except.ok.injEq, exists_eq_left', ← tickers_any]
    cases hfault : firstFault (w.openings cfg) with
    | failed cause =>
      have hlaunch : launch lib w env = .exited cause := by
        simp only [launch, hload, hnew, hfault]
        rfl
      simp [hlaunch]
    | panicked =>
      have hlaunch : launch lib w env = .panicked := by
        simp only [launch, hload, hnew, hfault]
        rfl
      simp [hlaunch]
    | ok =>
      have hlaunch : launch lib w env =
          if (assemble cfg).tickers.any (· ≤ 0) then .panicked else .serving (assemble cfg) := by
        simp only [launch, hload, hnew, hfault]
        rfl
      rw [hlaunch]
      cases htickers : (assemble cfg).tickers.any (· ≤ 0) with
      | true => simp
      | false =>
        refine ⟨by simp, fun p hp => ?_⟩
        obtain rfl : assemble cfg = p := by simpa using hp
        exact wired_assemble hcfg htickers

end StickyProxy.Configuration
