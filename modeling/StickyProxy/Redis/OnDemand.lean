import StickyProxy.Redis.Effects
/-!
# Redis — assigning on demand

`AssignViaTable` alone, over whole runs. From an empty table with a fixed
set of active backends the script gives every new key to a backend of least
count, in whatever order `SMEMBERS` lists them, so two counts are never more
than one apart; a key it has given away stays where it is. A key whose
backend has left the set is another matter: the script drops it before it
looks for a backend and enters it again with the default weight, so that
what it keeps is exactly a weight of one, and that only if there is a
backend to go to.
-/

namespace StickyProxy

namespace Redis

variable {r r' : Keyspace} {k : RoutingKey} {now : Time} {members : List Backend} {a : Assignment}
  {b : Backend}

/-! ## What the script writes -/

/-- The keyspace with a key entered with the default weight. -/
def Keyspace.place (r : Keyspace) (k : RoutingKey) (b : Backend) (now : Time) : Keyspace :=
  { r with
    assignments := r.assignments.insert k (.record ⟨b, now, "assignment", some 1⟩)
    counts := r.counts.bump b 1 }

theorem assignNew_eq_place (h : leastLoaded r.counts members = some b) :
    assignNew members now k r =
      (some (.record ⟨b, now, "assignment", some 1⟩), r.place k b now) := by
  rw [assignNew, h]
  rfl

theorem value_place (c : Backend) :
    (r.place k b now).counts.value c = r.counts.value c + if b = c then 1 else 0 :=
  Table.value_bump _ _ _ _

theorem lookup_place (k' : RoutingKey) : (r.place k b now).assignments.lookup k' =
    if k' = k then some (.record ⟨b, now, "assignment", some 1⟩) else r.assignments.lookup k' :=
  Table.lookup_insert_eq _ _ _ _

theorem getAssignment_place (k' : RoutingKey) : getAssignment k' (r.place k b now) =
    if k' = k then some (freshAssignment b now) else getAssignment k' r := by
  rw [getAssignment, lookup_place]
  by_cases hk : k' = k
  · rw [if_pos hk, if_pos hk]
    rfl
  · rw [if_neg hk, if_neg hk, getAssignment]

/-- With a member to choose from, the script chooses one of least count. -/
theorem exists_leastLoaded (hm : Enumerates members r.active) (hne : r.active.Nonempty)
    (counts : Table Backend ℤ) : ∃ b ∈ r.active, leastLoaded counts members = some b ∧
      ∀ c ∈ r.active, counts.value b ≤ counts.value c := by
  rcases leastLoaded_cases counts members with ⟨rfl, -⟩ | ⟨b, hb, hleast, hsome⟩
  · exact absurd hm.2.symm hne.ne_empty
  · exact ⟨b, hm.mem.1 hb, hsome, fun c hc => hleast c (hm.mem.2 hc)⟩

/-! ## From an empty table -/

/-- What runs of `AssignViaTable` alone keep: every key is on an active
backend with weight one, and the counts are right and close together. -/
structure OnDemand (r : Keyspace) : Prop where
  placed : ∀ k v, r.assignments.lookup k = some v →
    ∃ b ∈ r.active, ∃ now, v = .record ⟨b, now, "assignment", some 1⟩
  spread : ∀ b ∈ r.active, ∀ c ∈ r.active, r.counts.value b ≤ r.counts.value c + 1
  balanced : r.Balanced

theorem onDemand_empty (hempty : r.assignments = ∅) (hzero : ∀ b, r.counts.value b = 0) :
    OnDemand r where
  placed k v hv := by
    rw [hempty, AList.lookup_empty] at hv
    cases hv
  spread b _ c _ := by
    rw [hzero, hzero]
    decide
  balanced b := by
    rw [hzero, Keyspace.weightOn, hempty]
    rfl

/-- A key that is new is entered. -/
theorem OnDemand.place (h : OnDemand r) (hk : r.assignments.lookup k = none) (hb : b ∈ r.active)
    (hleast : ∀ c ∈ r.active, r.counts.value b ≤ r.counts.value c)
    (hsome : leastLoaded r.counts members = some b) : OnDemand (r.place k b now) where
  placed k' v hv := by
    rw [lookup_place] at hv
    by_cases hk' : k' = k
    · rw [if_pos hk'] at hv
      exact ⟨b, hb, now, (Option.some.inj hv).symm⟩
    · rw [if_neg hk'] at hv
      exact h.placed k' v hv
  spread c hc d hd := by
    have hcd := h.spread c hc d hd
    have hbd := hleast d hd
    rw [value_place, value_place]
    -- The one count that grows was a least one.
    by_cases hbc : b = c
    · subst hbc
      split <;> split <;> omega
    · rw [if_neg hbc]
      split <;> omega
  balanced := by
    refine balanced_iff_drift.2 fun c => ?_
    have hdrift : (assignNew members now k r).2.drift c = r.drift c := drift_assignNew hk
    rw [assignNew_eq_place hsome] at hdrift
    exact hdrift.trans (balanced_iff_drift.1 h.balanced c)

/-- **One call.** A key that is there stays; a new one goes to an active
backend. -/
theorem OnDemand.assignViaTable (h : OnDemand r) (hm : Enumerates members r.active)
    (hne : r.active.Nonempty) (k : RoutingKey) (now : Time) :
    ∃ a r', assignViaTable members now k r = (some a, r') ∧ a.backend ∈ r.active ∧
      OnDemand r' ∧ r'.active = r.active ∧ getAssignment k r' = some a ∧
      ∀ k' a', getAssignment k' r = some a' → getAssignment k' r' = some a' := by
  rcases hk : r.assignments.lookup k with - | v
  · obtain ⟨b, hb, hsome, hleast⟩ := exists_leastLoaded hm hne r.counts
    refine ⟨freshAssignment b now, r.place k b now, ?_, hb, h.place hk hb hleast hsome, rfl,
      ?_, ?_⟩
    · rw [Redis.assignViaTable, assignScript, hk]
      dsimp only
      rw [assignNew_eq_place hsome]
      rfl
    · rw [getAssignment_place, if_pos rfl]
    · intro k' a' ha'
      have hne' : k' ≠ k := by
        rintro rfl
        rw [getAssignment, hk] at ha'
        cases ha'
      rw [getAssignment_place, if_neg hne', ha']
  · obtain ⟨b, hb, at', rfl⟩ := h.placed k v hk
    refine ⟨freshAssignment b at', r, ?_, hb, h, rfl, ?_, fun _ _ ha => ha⟩
    · rw [Redis.assignViaTable, assignScript, hk]
      dsimp only
      rw [if_pos hb]
      rfl
    · rw [getAssignment, hk]
      rfl

/-- A call of `AssignViaTable`: the order `SMEMBERS` answers it in, the
time and the key. -/
structure AssignCall where
  members : List Backend
  now : Time
  key : RoutingKey

/-- The call as an operation of a history. -/
def AssignCall.op (c : AssignCall) : Op := .assignViaTable c.members c.now c.key

/-- What a call does in a history. -/
theorem OnDemand.step {c : AssignCall} (h : OnDemand r) (hne : r.active.Nonempty)
    (hstep : step r c.op = some r') :
    ∃ a, (Redis.assignViaTable c.members c.now c.key r).1 = some a ∧ a.backend ∈ r.active ∧
      OnDemand r' ∧ r'.active = r.active ∧ getAssignment c.key r' = some a ∧
      ∀ k' a', getAssignment k' r = some a' → getAssignment k' r' = some a' := by
  obtain ⟨hm, hr'⟩ := Option.ite_none_right_eq_some.1 hstep
  obtain ⟨a, r'', heq, hb, hnext, hactive, hkey, hkeep⟩ :=
    h.assignViaTable hm hne c.key c.now
  rw [heq] at hr' ⊢
  obtain rfl := Option.some.inj hr'
  exact ⟨a, rfl, hb, hnext, hactive, hkey, hkeep⟩

/-- **A run of calls** keeps all of it, and no key moves. -/
theorem OnDemand.exec {calls : List AssignCall} (h : OnDemand r) (hne : r.active.Nonempty)
    (hrun : Run.exec Redis.step r (calls.map AssignCall.op) = some r') :
    OnDemand r' ∧ r'.active = r.active ∧
      ∀ k a, getAssignment k r = some a → getAssignment k r' = some a := by
  induction calls generalizing r with
  | nil =>
    obtain rfl := Option.some.inj hrun
    exact ⟨h, rfl, fun _ _ ha => ha⟩
  | cons c calls ih =>
    obtain ⟨rm, hstep, hrest⟩ := Run.exec_cons_eq_some.1 hrun
    obtain ⟨a, -, -, hmid, hactive, -, hkeep⟩ := h.step hne hstep
    obtain ⟨hend, hactive', hkeep'⟩ := ih hmid (hactive ▸ hne) hrest
    exact ⟨hend, hactive'.trans hactive, fun k a ha => hkeep' k a (hkeep k a ha)⟩

/-- With every weight one, the weight on a backend is the number of its
accounts. -/
theorem length_getBackendUsers (h : ∀ k a, getAssignment k r = some a → a.effectiveWeight = 1)
    (b : Backend) : ((getBackendUsers b r).length : ℤ) = r.weightOn b := by
  have hones : ∀ p ∈ (getAllAssignments r).pairs.filter fun p => p.2.backend = b,
      p.2.effectiveWeight = 1 := fun p hp => h p.1 p.2
    ((lookup_getAllAssignments r p.1).symm.trans (Table.mem_pairs.1 (List.mem_filter.1 hp).1))
  rw [weightOn_eq_total, ← Table.sum_map_pairs, List.sum_map_ite, List.map_congr_left hones,
    getBackendUsers, List.length_map]
  simp

/-- **On-demand assignment stays balanced.** From an empty table and for
every sequence of calls, each with the active backends in any order: the
counts of two active backends differ by at most one, and are the numbers of
their accounts; and every call answers with an active backend, on which the
key is still at the end. -/
theorem on_demand_balanced (r r' : Keyspace) (calls : List AssignCall)
    (hempty : r.assignments = ∅) (hzero : ∀ b, r.counts.value b = 0) (hne : r.active.Nonempty)
    (hrun : Run.exec step r (calls.map AssignCall.op) = some r') :
    (∀ b ∈ r.active, ∀ c ∈ r.active, r'.counts.value b ≤ r'.counts.value c + 1) ∧
    (∀ b, r'.counts.value b = (getBackendUsers b r').length) ∧
    ∀ before c after rm, calls = before ++ c :: after →
      Run.exec step r (before.map AssignCall.op) = some rm →
      ∃ a, (assignViaTable c.members c.now c.key rm).1 = some a ∧ a.backend ∈ r.active ∧
        getAssignment c.key r' = some a := by
  have hstart : OnDemand r := onDemand_empty hempty hzero
  obtain ⟨hend, hactive, -⟩ := hstart.exec hne hrun
  refine ⟨fun b hb c hc => hend.spread b (hactive ▸ hb) c (hactive ▸ hc), fun b => ?_, ?_⟩
  · rw [hend.balanced b, length_getBackendUsers fun k a ha => ?_]
    obtain ⟨v, hv, ha⟩ := Option.bind_eq_some_iff.1 ha
    obtain ⟨c, -, at', rfl⟩ := hend.placed k v hv
    obtain rfl := Option.some.inj ha
    rfl
  · rintro before c after rm rfl hbefore
    rw [List.map_append, List.map_cons] at hrun
    obtain ⟨rm', hbefore', hrest⟩ := Run.exec_append_eq_some.1 hrun
    obtain rfl := Option.some.inj (hbefore.symm.trans hbefore')
    obtain ⟨rn, hstep, hafter⟩ := Run.exec_cons_eq_some.1 hrest
    obtain ⟨hmid, hact, -⟩ := hstart.exec hne hbefore
    obtain ⟨a, hans, hb, hnext, hact', hkey, -⟩ := hmid.step (hact ▸ hne) hstep
    obtain ⟨-, -, hkeep⟩ := hnext.exec (hact' ▸ hact ▸ hne) hafter
    exact ⟨a, hans, hact ▸ hb, hkeep c.key a hkey⟩

/-- Two backends and no account. -/
def twoBackends : Keyspace := ⟨∅, ∅, {"b1", "b2"}⟩

/-- Three keys, one of them twice, the backends listed either way. -/
def fourCalls : List AssignCall :=
  [⟨["b1", "b2"], 1, "u"⟩, ⟨["b2", "b1"], 2, "v"⟩, ⟨["b2", "b1"], 3, "u"⟩, ⟨["b1", "b2"], 4, "w"⟩]

theorem on_demand_balanced_fourCalls :
    ∃ r, Run.exec step twoBackends (fourCalls.map AssignCall.op) = some r ∧
      r.counts.value "b1" ≤ r.counts.value "b2" + 1 ∧
      r.counts.value "b1" = (getBackendUsers "b1" r).length := by
  obtain ⟨r, hrun⟩ : ∃ r, Run.exec step twoBackends (fourCalls.map AssignCall.op) = some r :=
    Option.isSome_iff_exists.1 (by decide +kernel)
  have h := on_demand_balanced twoBackends r fourCalls rfl (fun _ => rfl) (by decide) hrun
  exact ⟨r, hrun, h.1 "b1" (by decide) "b2" (by decide), h.2.1 "b1"⟩

/-! ## A key whose backend has left -/

/-- What keeping an account's weight would be: its new assignment weighs
what the old one did and the counts say so, or the call fails for want of a
backend and has changed nothing. -/
def KeepsWeight (k : RoutingKey) (a : Assignment) (r : Keyspace)
    (result : Option Assignment × Keyspace) : Prop :=
  (∃ a', result.1 = some a' ∧ getAssignment k result.2 = some a' ∧ a'.backend ∈ r.active ∧
    a'.effectiveWeight = a.effectiveWeight ∧
    ∀ c, result.2.counts.value c = r.counts.value c +
      (if a'.backend = c then a.effectiveWeight else 0) -
      if a.backend = c then a.effectiveWeight else 0) ∨
  (r.active = ∅ ∧ result.1 = none ∧
    (∀ k', result.2.assignments.lookup k' = r.assignments.lookup k') ∧
    ∀ c, result.2.counts.value c = r.counts.value c)

/-- A stale key is dropped, whatever comes next. -/
theorem assignViaTable_of_stale {d : Record} (hk : r.assignments.lookup k = some (.record d))
    (hd : d.backend ∉ r.active) :
    assignViaTable members now k r =
      ((assignNew members now k (dropStale k d r)).1.bind unmarshalAssignment,
        (assignNew members now k (dropStale k d r)).2) := by
  rw [assignViaTable, assignScript, hk]
  dsimp only
  rw [if_neg hd]

/-- **Whether a stale reassignment keeps the account's weight**: exactly if
a backend is active and the weight was the default. -/
theorem keepsWeight_iff_default (r : Keyspace) (members : List Backend) (now : Time)
    (k : RoutingKey) (a : Assignment) (hm : Enumerates members r.active)
    (ha : getAssignment k r = some a) (hstale : a.backend ∉ r.active) :
    KeepsWeight k a r (assignViaTable members now k r) ↔
      r.active.Nonempty ∧ a.effectiveWeight = 1 := by
  obtain ⟨v, hk, hv⟩ := Option.bind_eq_some_iff.1 ha
  obtain ⟨d⟩ | text := v
  swap
  · cases hv
  have hweight : d.staleWeight = a.effectiveWeight := staleWeight_eq_effectiveWeight hv
  have hbackend : d.backend = a.backend := by
    rw [← Option.some.inj hv]
  have hd : d.backend ∉ r.active := hbackend ▸ hstale
  rw [assignViaTable_of_stale hk hd]
  rcases r.active.eq_empty_or_nonempty with hempty | hne
  · -- Nothing is selected, and the entry is gone.
    have hnil : members = [] := List.toFinset_eq_empty_iff members |>.1 (hm.2.trans hempty)
    have hnone : assignNew members now k (dropStale k d r) = (none, dropStale k d r) := by
      rw [hnil]
      rfl
    rw [hnone]
    refine iff_of_false ?_ fun h => h.1.ne_empty hempty
    rintro (⟨a', hans, -⟩ | ⟨-, -, hsame, -⟩)
    · cases hans
    · have hgone := hsame k
      rw [hk, dropStale, Table.lookup_erase_eq, if_pos rfl] at hgone
      cases hgone
  · obtain ⟨b, hb, hsome, -⟩ := exists_leastLoaded hm hne (dropStale k d r).counts
    rw [assignNew_eq_place hsome]
    constructor
    · rintro (⟨a', hans, -, -, hsame, -⟩ | ⟨hempty, -⟩)
      · obtain rfl : freshAssignment b now = a' := Option.some.inj hans
        exact ⟨hne, hsame.symm⟩
      · exact absurd hempty hne.ne_empty
    · rintro ⟨-, hone⟩
      refine Or.inl ⟨freshAssignment b now, rfl, ?_, hb, hone.symm, fun c => ?_⟩
      · rw [getAssignment_place, if_pos rfl]
      · have hcount : ((dropStale k d r).place k b now).counts.value c = r.counts.value c +
            (if a.backend = c then -1 else 0) + if b = c then 1 else 0 := by
          rw [value_place, dropStale, Table.value_bump, hweight, hbackend, hone]
        change ((dropStale k d r).place k b now).counts.value c = r.counts.value c +
          (if b = c then a.effectiveWeight else 0) - if a.backend = c then a.effectiveWeight else 0
        rw [hcount, hone]
        split <;> split <;> ring

/-- An account on `b1`, which is not active, with a weight. -/
def staleKeyspace (weight : ℤ) (active : Finset Backend) : Keyspace where
  assignments := Table.insertAll ∅ [("u", .record ⟨"b1", 5, "assignment", some weight⟩)]
  counts := Table.insertAll ∅ [("b1", weight)]
  active := active

theorem keepsWeight_iff_default_light :
    KeepsWeight "u" ⟨"b1", 5, "assignment", 1⟩ (staleKeyspace 1 {"b2"})
      (assignViaTable ["b2"] 7 "u" (staleKeyspace 1 {"b2"})) :=
  (keepsWeight_iff_default (staleKeyspace 1 {"b2"}) ["b2"] 7 "u" ⟨"b1", 5, "assignment", 1⟩
    (by decide) rfl (by decide)).2 (by decide)

/-- **A heavy account comes back light, and with no backend to go to it is
gone.** -/
theorem stale_reassignment_loses_weight :
    ¬ KeepsWeight "u" ⟨"b1", 5, "assignment", 5⟩ (staleKeyspace 5 {"b2"})
        (assignViaTable ["b2"] 7 "u" (staleKeyspace 5 {"b2"})) ∧
      ¬ KeepsWeight "u" ⟨"b1", 5, "assignment", 5⟩ (staleKeyspace 5 ∅)
        (assignViaTable [] 7 "u" (staleKeyspace 5 ∅)) := by
  constructor
  · rintro (⟨a', hans, -, -, hsame, -⟩ | ⟨hempty, -⟩)
    · have hlight : (assignViaTable ["b2"] 7 "u" (staleKeyspace 5 {"b2"})).1 =
          some (freshAssignment "b2" 7) := rfl
      obtain rfl := Option.some.inj (hlight.symm.trans hans)
      exact absurd hsame (by decide)
    · exact absurd hempty (by decide)
  · rintro (⟨a', hans, -⟩ | ⟨-, -, hsame, -⟩)
    · cases hans
    · exact absurd (hsame "u") (by decide)

end Redis

end StickyProxy
