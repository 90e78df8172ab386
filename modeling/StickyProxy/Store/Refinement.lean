import StickyProxy.Store.Spec
import StickyProxy.Redis.Effects
import StickyProxy.Postgres.Effects
import StickyProxy.Common.Simulation
/-!
# The stores refine the ledger

A keyspace or a database stands for the ledger its reads show, as long
as its counters are right and its values decode. Each call of a store is
then a step of the ledger with the same answer. Two calls are not, on
PostgreSQL: `AssignLeastLoaded` of a key that has a row answers with it
though its backend is unhealthy, and `AddBackend` of a backend that
assignments already name starts its count row at zero. On Redis a bulk
delete takes a key that it is given twice off the counts twice.
`Regular` leaves out these calls and no others.
-/

namespace StickyProxy

variable {L : Ledger} {k : RoutingKey} {b : Backend} {now : Time}

/-- The load of a backend, read off a table that stands for the
assignments. -/
theorem load_eq_total {V : Type*} {t : Table RoutingKey V} {w : V → ℤ}
    (h : ∀ k, (L.assigned k).elim 0 (Ledger.loadOn b) = (t.lookup k).elim 0 w) :
    L.load b = t.total fun _ v => w v := by
  rw [Table.total_eq_finsum, Ledger.load]
  exact finsum_congr h

/-! ## Redis -/

namespace Redis

variable {r r' : Keyspace} {members : List Backend}

/-- The keyspace stands for the ledger. -/
structure Represents (r : Keyspace) (L : Ledger) : Prop where
  assigned : ∀ k, L.assigned k = getAssignment k r
  active : ∀ b, b ∈ L.active ↔ b ∈ r.active
  decodes : r.Decodes
  balanced : r.Balanced

theorem represents_empty : Represents .empty .empty :=
  ⟨fun _ => rfl, fun b => by simp [Ledger.empty, Keyspace.empty], decodes_empty, fun _ => rfl⟩

theorem Represents.load_eq (h : Represents r L) (b : Backend) : L.load b = r.counts.value b := by
  rw [h.balanced b]
  refine load_eq_total fun k => ?_
  rw [h.assigned, getAssignment]
  rcases r.assignments.lookup k with - | v
  · rfl
  · rw [Option.bind_some, Option.elim_some, Value.weightOn]
    rcases unmarshalAssignment v with - | a
    · rfl
    · rfl

theorem Represents.active_eq_empty (h : Represents r L) (hr : r.active = ∅) : L.active = ∅ :=
  Set.eq_empty_of_forall_notMem fun b hb => by
    rw [h.active, hr] at hb
    exact absurd hb (Finset.notMem_empty b)

/-- `AssignViaTable` is a step of the ledger. -/
theorem Represents.assigns {answer : Option Assignment} (h : Represents r L)
    (ha : Assigns members k now r answer r') (hdec : r'.Decodes) (hbal : r'.Balanced) :
    ∃ L', Ledger.Step L (.assignLeastLoaded k answer) L' ∧ Represents r' L' := by
  cases ha with
  | keep hk hb => exact ⟨L, .keep ((h.assigned k).trans hk) ((h.active _).2 hb), h⟩
  | corrupt hv hnone =>
    have := h.decodes k _ hv
    rw [hnone] at this
    cases this
  | refuse hempty hact hget =>
    have hL := h.active_eq_empty hempty
    refine ⟨⟨fun k' => getAssignment k' r', L.active⟩,
      .refuse hL hL (fun k' hk' => ?_) (Or.inr ?_), ⟨fun _ => rfl, fun b => ?_, hdec, hbal⟩⟩
    · exact (hget k').trans ((if_neg hk').trans (h.assigned k').symm)
    · exact (hget k).trans (if_pos rfl)
    · rw [hact]
      exact h.active b
  | @assign _ b hstale _ hb hleast hact hget =>
    have hleast' : L.Least b := by
      refine ⟨(h.active _).2 hb, fun c hc => ?_⟩
      rw [h.load_eq, h.load_eq]
      exact hleast c ((h.active c).1 hc)
    refine ⟨_, .assign (fun a hk hb' => ?_) hleast', ⟨fun k' => ?_, fun b => ?_, hdec, hbal⟩⟩
    · exact hstale a ((h.assigned k).symm.trans hk) ((h.active _).1 hb')
    · dsimp only
      rw [hget, Function.update_apply, h.assigned]
      rfl
    · rw [hact]
      exact h.active b

/-- Every call is a step of the ledger. -/
theorem Represents.step {op : Store.Op} {e : Store.Event} {s' : Store} (h : Represents r L)
    (hreg : ∀ keys, op = .bulkDeleteAssignments keys → keys.Nodup)
    (hstep : Store.step (.redis r) op = some (e, s')) :
    ∃ r' L', s' = .redis r' ∧ Ledger.Step L e L' ∧ Represents r' L' := by
  cases op with
  | addBackend b =>
    obtain ⟨rfl, rfl⟩ := Prod.mk.inj (Option.some.inj hstep)
    refine ⟨_, _, rfl, .addBackend, ⟨h.assigned, fun c => ?_, h.decodes, h.balanced⟩⟩
    rw [Set.mem_insert_iff, h.active]
    exact Finset.mem_insert.symm
  | removeBackend b =>
    obtain ⟨rfl, rfl⟩ := Prod.mk.inj (Option.some.inj hstep)
    refine ⟨_, _, rfl, .removeBackend, ⟨h.assigned, fun c => ?_, h.decodes, h.balanced⟩⟩
    rw [Set.mem_sdiff, Set.mem_singleton_iff, h.active, and_comm]
    exact Finset.mem_erase.symm
  | assignLeastLoaded order now k =>
    obtain ⟨horder, heq⟩ := Option.ite_none_right_eq_some.1 hstep
    obtain ⟨rfl, rfl⟩ := Prod.mk.inj (Option.some.inj heq)
    obtain ⟨L', hL', hrep⟩ := h.assigns (assigns_assignViaTable k now horder)
      (decodes_assignViaTable h.decodes)
      (balanced_iff_drift.2 fun b => drift_assignViaTable.trans (balanced_iff_drift.1 h.balanced b))
    exact ⟨_, L', rfl, hL', hrep⟩
  | bulkAssign now entries =>
    obtain ⟨rfl, rfl⟩ := Prod.mk.inj (Option.some.inj hstep)
    refine ⟨_, _, rfl, .bulkAssign now fun k => ?_, ⟨fun k => ?_, h.active,
      decodes_bulkAssign h.decodes entries, balanced_iff_drift.2 fun b =>
        (drift_bulkAssign entries).trans (balanced_iff_drift.1 h.balanced b)⟩⟩
    · rw [h.assigned, getAssignment_isSome h.decodes]
      exact lookup_bulkAssign_answer entries k
    · dsimp only
      rw [h.assigned]
      exact (getAssignment_bulkAssign h.decodes entries k).symm
  | bulkDeleteAssignments keys =>
    obtain ⟨rfl, rfl⟩ := Prod.mk.inj (Option.some.inj hstep)
    refine ⟨_, _, rfl, .bulkDeleteAssignments, ⟨fun k => ?_, h.active,
      decodes_bulkDeleteAssignments h.decodes keys, balanced_iff_drift.2 fun b =>
        (drift_bulkDeleteAssignments (hreg keys rfl)).trans
          (balanced_iff_drift.1 h.balanced b)⟩⟩
    dsimp only
    rw [h.assigned]
    exact (getAssignment_bulkDeleteAssignments keys k).symm
  | getAllAssignments =>
    obtain ⟨rfl, rfl⟩ := Prod.mk.inj (Option.some.inj hstep)
    refine ⟨r, L, rfl, .getAllAssignments fun k => ?_, h⟩
    rw [h.assigned]
    exact lookup_getAllAssignments r k
  | activeBackends order =>
    obtain ⟨horder, heq⟩ := Option.ite_none_right_eq_some.1 hstep
    obtain ⟨rfl, rfl⟩ := Prod.mk.inj (Option.some.inj heq)
    exact ⟨r, L, rfl, .activeBackends horder.1 fun b => horder.mem.trans (h.active b).symm, h⟩

end Redis

/-! ## PostgreSQL -/

namespace Postgres

variable {d d' : Database} {rows : List Backend}

/-- The database stands for the ledger. -/
structure Represents (d : Database) (L : Ledger) : Prop where
  assigned : ∀ k, L.assigned k = d.assignments.lookup k
  active : ∀ b, b ∈ L.active ↔ d.Healthy b
  balanced : d.Balanced
  counted : ∀ b, d.Healthy b → d.Counted b
  weighted : d.Weighted

theorem represents_empty : Represents .empty .empty where
  assigned _ := rfl
  active b := by simp [Ledger.empty, Database.Healthy, Database.empty]
  balanced := consistent_empty.counts
  counted b h := by simp [Database.Healthy, Database.empty] at h
  weighted k a h := by simp [Database.empty] at h

theorem Represents.load_eq (h : Represents d L) (b : Backend) : L.load b = d.weightOn b := by
  refine load_eq_total fun k => ?_
  rw [h.assigned]
  rcases hk : d.assignments.lookup k with - | a
  · rfl
  · rw [Option.elim_some, Option.elim_some, Ledger.loadOn, rowWeight,
      Assignment.effectiveWeight_of_pos (h.weighted k a hk)]

theorem Represents.mem_joined (h : Represents d L) : b ∈ d.joined ↔ b ∈ L.active := by
  rw [Database.mem_joined, h.active]
  exact ⟨fun hb => hb.2, fun hb => ⟨h.counted b hb, hb⟩⟩

/-- `AssignLeastLoaded` is a step of the ledger, when the row of the key is
not on an unhealthy backend while some backend is healthy. -/
theorem Represents.assigns {answer : Option Assignment} (h : Represents d L)
    (ha : Assigns rows k now d answer d')
    (hreg : ∀ a, d.assignments.lookup k = some a → d.joined.Nonempty → d.Healthy a.backend) :
    ∃ L', Ledger.Step L (.assignLeastLoaded k answer) L' ∧ Represents d' L' := by
  cases ha with
  | keep hk hne =>
    -- The store does not look at the backend of the row; the condition does.
    exact ⟨L, .keep ((h.assigned k).trans hk) ((h.active _).2 (hreg _ hk hne)), h⟩
  | refuse hempty =>
    have hL : L.active = ∅ := Set.eq_empty_of_forall_notMem fun b hb => by
      rw [← h.mem_joined, hempty] at hb
      exact absurd hb (Finset.notMem_empty b)
    exact ⟨L, .refuse hL hL (fun _ _ => rfl) (Or.inl rfl), h⟩
  | @assign b hk _ hb hleast =>
    have hleast' : L.Least b := by
      refine ⟨h.mem_joined.1 hb, fun c hc => ?_⟩
      have hc' := h.mem_joined.2 hc
      rw [h.load_eq, h.load_eq, ← h.balanced.value_eq (counted_of_mem_joined hb),
        ← h.balanced.value_eq (counted_of_mem_joined hc')]
      exact hleast c hc'
    refine ⟨_, .assign (fun a ha => ?_) hleast', ⟨fun k' => ?_, h.active,
      balanced_assign h.balanced hk, fun c hc => ?_, weighted_assign h.weighted⟩⟩
    · rw [h.assigned, hk] at ha
      cases ha
    · dsimp only
      rw [Function.update_apply, h.assigned, Table.lookup_insert_eq]
      rfl
    · rw [Database.Counted, Table.lookup_adjust, Option.isSome_map]
      exact h.counted c hc

/-- Every call is a step of the ledger, the two exceptions apart. -/
theorem Represents.step {op : Store.Op} {e : Store.Event} {s' : Store} (h : Represents d L)
    (hassign : ∀ order now k, op = .assignLeastLoaded order now k →
      ∀ a, d.assignments.lookup k = some a → d.joined.Nonempty → d.Healthy a.backend)
    (hadd : ∀ b, op = .addBackend b →
      d.Counted b ∨ ∀ k a, d.assignments.lookup k = some a → a.backend ≠ b)
    (hstep : Store.step (.postgres d) op = some (e, s')) :
    ∃ d' L', s' = .postgres d' ∧ Ledger.Step L e L' ∧ Represents d' L' := by
  cases op with
  | addBackend b =>
    obtain ⟨rfl, rfl⟩ := Prod.mk.inj (Option.some.inj hstep)
    refine ⟨_, _, rfl, .addBackend, ⟨h.assigned, fun c => ?_,
      balanced_addBackend h.balanced (hadd b rfl), fun c hc => ?_, h.weighted⟩⟩
    · rw [Set.mem_insert_iff, h.active, healthy_addBackend]
    · -- The second statement of the call makes the count row, if there was none.
      rcases (healthy_addBackend c).1 hc with rfl | hc
      · exact counted_insertCount c _
      · exact (grows_insertCount b (upsertBackend b d)).counted (h.counted c hc)
  | removeBackend b =>
    obtain ⟨rfl, rfl⟩ := Prod.mk.inj (Option.some.inj hstep)
    refine ⟨_, _, rfl, .removeBackend, ⟨fun k => ?_, fun c => ?_,
      balanced_removeBackend h.balanced, fun c hc => ?_, fun k a ha => ?_⟩⟩
    · rw [assignments_removeBackend]
      exact h.assigned k
    · rw [Set.mem_sdiff, Set.mem_singleton_iff, h.active, healthy_removeBackend]
    · exact (grows_removeBackend b d).counted (h.counted c ((healthy_removeBackend c).1 hc).1)
    · rw [assignments_removeBackend] at ha
      exact h.weighted k a ha
  | assignLeastLoaded order now k =>
    obtain ⟨horder, heq⟩ := Option.ite_none_right_eq_some.1 hstep
    obtain ⟨rfl, rfl⟩ := Prod.mk.inj (Option.some.inj heq)
    obtain ⟨L', hL', hrep⟩ := h.assigns (assigns_assignLeastLoaded k now horder)
      (hassign order now k rfl)
    exact ⟨_, L', rfl, hL', hrep⟩
  | bulkAssign now entries =>
    obtain ⟨rfl, rfl⟩ := Prod.mk.inj (Option.some.inj hstep)
    refine ⟨_, _, rfl, .bulkAssign now fun k => ?_, ⟨fun k => ?_, h.active,
      balanced_bulkAssign h.balanced entries, fun c hc => ?_,
      weighted_bulkAssign h.weighted entries⟩⟩
    · rw [h.assigned]
      exact lookup_bulkAssign_answer entries k
    · dsimp only
      rw [h.assigned]
      exact (lookup_bulkAssign entries k).symm
    · simp only [Database.Counted, Table.lookup_adjustAll, Option.isSome_map]
      exact h.counted c hc
  | bulkDeleteAssignments keys =>
    obtain ⟨rfl, rfl⟩ := Prod.mk.inj (Option.some.inj hstep)
    refine ⟨_, _, rfl, .bulkDeleteAssignments, ⟨fun k => ?_, h.active,
      balanced_bulkDeleteAssignments h.balanced keys, fun c hc => ?_,
      weighted_bulkDeleteAssignments h.weighted keys⟩⟩
    · dsimp only
      rw [h.assigned]
      exact (lookup_bulkDeleteAssignments keys k).symm
    · rw [Database.Counted, bulkDeleteAssignments, Table.lookup_adjustAll, Option.isSome_map]
      exact h.counted c hc
  | getAllAssignments =>
    obtain ⟨rfl, rfl⟩ := Prod.mk.inj (Option.some.inj hstep)
    exact ⟨d, L, rfl, .getAllAssignments fun k => (h.assigned k).symm, h⟩
  | activeBackends order =>
    obtain ⟨horder, heq⟩ := Option.ite_none_right_eq_some.1 hstep
    obtain ⟨rfl, rfl⟩ := Prod.mk.inj (Option.some.inj heq)
    refine ⟨d, L, rfl, .activeBackends horder.1 fun b => horder.mem.trans ?_, h⟩
    rw [h.active, Store.active, List.mem_toFinset, mem_activeBackends]

end Postgres

/-! ## Histories -/

namespace Store

/-- The call is not one of those a store answers in its own way. -/
def Regular : Store → Op → Prop
  | .redis _, .bulkDeleteAssignments keys => keys.Nodup
  | .postgres d, .assignLeastLoaded _ _ k =>
    ∀ a ∈ d.assignments.lookup k, d.Healthy a.backend ∨ Postgres.activeBackends d = []
  | .postgres d, .addBackend b =>
    (d.counts.lookup b).isSome ∨ ∀ p ∈ d.assignments.pairs, p.2.backend ≠ b
  | _, _ => True

instance : ∀ (s : Store) (op : Op), Decidable (s.Regular op)
  | .redis _, .bulkDeleteAssignments keys => inferInstanceAs (Decidable keys.Nodup)
  | .postgres d, .assignLeastLoaded _ _ k =>
    inferInstanceAs (Decidable (∀ a ∈ d.assignments.lookup k, _))
  | .postgres _, .addBackend _ => inferInstanceAs (Decidable (_ ∨ _))
  | .redis _, .addBackend _ | .redis _, .removeBackend _ | .redis _, .assignLeastLoaded _ _ _
  | .redis _, .bulkAssign _ _ | .redis _, .getAllAssignments | .redis _, .activeBackends _
  | .postgres _, .removeBackend _ | .postgres _, .bulkAssign _ _
  | .postgres _, .bulkDeleteAssignments _ | .postgres _, .getAllAssignments
  | .postgres _, .activeBackends _ | .memory _, _ => isTrue trivial

/-- The store stands for the ledger. -/
def Represents : Store → Ledger → Prop
  | .redis r, L => Redis.Represents r L
  | .postgres d, L => Postgres.Represents d L
  | .memory _, _ => False

theorem Represents.mem_active {s : Store} (h : s.Represents L) : b ∈ L.active ↔ b ∈ s.active := by
  cases s with
  | redis r => exact Redis.Represents.active h b
  | postgres d =>
    rw [active, List.mem_toFinset, Postgres.mem_activeBackends]
    exact Postgres.Represents.active h b
  | memory backends => exact h.elim

/-- **A regular call is a step of the ledger** with the same answer. -/
theorem Represents.step {s s' : Store} {op : Op} {e : Event} (h : s.Represents L)
    (hreg : s.Regular op) (hstep : s.step op = some (e, s')) :
    ∃ L', Ledger.Step L e L' ∧ s'.Represents L' := by
  cases s with
  | redis r =>
    obtain ⟨r', L', rfl, hL', hrep⟩ := Redis.Represents.step h
      (by rintro keys rfl; exact hreg) hstep
    exact ⟨L', hL', hrep⟩
  | postgres d =>
    have hassign : ∀ order now k, op = .assignLeastLoaded order now k →
        ∀ a, d.assignments.lookup k = some a → d.joined.Nonempty → d.Healthy a.backend := by
      rintro order now k rfl a ha ⟨c, hc⟩
      -- A joined row is healthy, so some backend is active.
      refine (hreg a ha).resolve_right fun hnil => ?_
      have hmem := Postgres.mem_activeBackends.2 (Postgres.Database.mem_joined.1 hc).2
      rw [hnil] at hmem
      cases hmem
    have hadd : ∀ b, op = .addBackend b →
        d.Counted b ∨ ∀ k a, d.assignments.lookup k = some a → a.backend ≠ b := by
      rintro b rfl
      exact hreg.imp_right fun hne k a ha => hne (k, a) (Table.mem_pairs.2 ha)
    obtain ⟨d', L', rfl, hL', hrep⟩ := Postgres.Represents.step h hassign hadd hstep
    exact ⟨L', hL', hrep⟩
  | memory backends => exact h.elim

/-- A key assigned, its backend removed after the key is deleted, and the
key asked for again. -/
def removalHistory : List Op :=
  [.addBackend "b1", .assignLeastLoaded ["b1"] 1 "u", .addBackend "b2",
    .bulkDeleteAssignments ["u"], .removeBackend "b1", .activeBackends ["b2"]]

/-- A key whose backend is removed, asked for again. -/
def staleHistory : List Op :=
  [.addBackend "b1", .assignLeastLoaded ["b1"] 1 "u", .addBackend "b2", .removeBackend "b1",
    .assignLeastLoaded ["b2"] 2 "u"]

end Store

end StickyProxy
