import StickyProxy.Redis.Model.Calls
import StickyProxy.Redis.Accounting
import StickyProxy.Common.Pool
/-!
# Redis — weight accounting under interleaving

What a call has set or deleted and not yet counted is its pending
weight. Counts, assignments and pending weight stay in step through
every command but three: an `HDEL` takes off the counts what its call
read, not what it deletes, and the `DEL` and the `HSET`s of a recount
write totals that were read earlier. `Undisturbed` is what the other
calls must not do for these three to do no harm: touch a key between its
`HGET` and its `HDEL`, or a count between the `HGETALL` of a recount and
the write of that count. Runs that meet it lose no update.
-/

namespace StickyProxy

namespace Redis

variable {s s' : System} {r : Keyspace} {c c' : Call} {b : Backend} {i : ℕ}

/-- The weight a call has put into the hash, or taken out of it, and has
yet to count. -/
def Call.pending (b : Backend) : Call → ℤ
  | .hsetnx _ _ counts => counts.value b
  | .hincrby todo => Table.sumAt todo b
  | _ => 0

/-- The recount is still to write a total for the backend. -/
def Call.Rewrites (b : Backend) : Call → Prop
  | .hset todo => b ∈ todo.map Prod.fst
  | _ => False

/-- The pending weight of all calls. -/
def System.pending (s : System) (b : Backend) : ℤ := (s.calls.map (Call.pending b)).sum

/-- The call is between a write of the hash and the last `HINCRBY` for it. -/
def Call.uncounted : Call → Bool
  | .hsetnx _ _ counts => !counts.pairs.isEmpty
  | .hincrby todo => !todo.isEmpty
  | _ => false

/-- The call is a recount that has read the hash and is still to write the
count of the backend, or to delete it. -/
def Call.owes (b : Backend) : Call → Bool
  | .del _ => true
  | .hset todo => b ∈ todo.map Prod.fst
  | _ => false

def System.Owed (s : System) (b : Backend) : Prop := ∃ c ∈ s.calls, c.owes b = true

/-- What the step of a call must not disturb. The keys a delete has read are
distinct and still hold what it read. A recount sends its `HGETALL` when
every other call has counted what it has written; and from then on no
`HINCRBY` and no script changes a count the recount has still to write. -/
def System.Undisturbed (s : System) (client : ℕ) : Prop :=
  match s.calls[client]? with
  | some (.hdel read) => (read.map Prod.fst).Nodup ∧ ∀ p ∈ read, Holds s.keyspace p.1 p.2
  | some .reconcileAssignmentCounts => ∀ c ∈ s.calls, c.uncounted = false
  | some (.hincrby ((b, _) :: _)) => ¬ s.Owed b
  | some (.assignViaTable members now k) => ∀ b, s.Owed b →
      (assignScript members now k s.keyspace).2.counts.value b = s.keyspace.counts.value b
  | _ => True

/-- Every count, with the weight pending on it, is what the assignments
weigh, unless a recount is about to write it. -/
def System.Tracked (s : System) : Prop :=
  ∀ b, s.keyspace.drift b + s.pending b = 0 ∨ ∃ c ∈ s.calls, c.Rewrites b

/-- What a step of the pool is: a step of one of its calls. -/
theorem step_eq_some (h : s.step i = some s') :
    ∃ c c' r', s.calls[i]? = some c ∧ c.step s.keyspace = some (c', r') ∧
      s' = ⟨r', s.calls.set i c'⟩ := by
  obtain ⟨c, hc, h⟩ := Option.bind_eq_some_iff.1 h
  obtain ⟨⟨c', r'⟩, hstep, rfl⟩ := Option.map_eq_some_iff.1 h
  exact ⟨c, c', r', hc, hstep, rfl⟩

/-- The pending weight moves by that of the call that moved. -/
theorem pending_set (hc : s.calls[i]? = some c) (r' : Keyspace) :
    System.pending ⟨r', s.calls.set i c'⟩ b = s.pending b - c.pending b + c'.pending b :=
  Pool.sum_map_set _ hc

/-- A step that keeps a call's own account, and that no recount takes,
keeps the pool tracked. -/
theorem tracked_of_account (h : s.Tracked) (hc : s.calls[i]? = some c) {r' : Keyspace}
    (hacc : ∀ b, r'.drift b + c'.pending b = s.keyspace.drift b + c.pending b)
    (hrw : ∀ b, c.Rewrites b → c'.Rewrites b) : System.Tracked ⟨r', s.calls.set i c'⟩ := by
  intro b
  rcases h b with hb | ⟨c₀, hc₀, hrw₀⟩
  · left
    rw [pending_set hc]
    have := hacc b
    change r'.drift b + _ = 0
    omega
  · -- The recount that owes the backend a total is this call, which still owes it, or another.
    right
    by_cases heq : c₀ = c
    · exact ⟨c', Pool.self_mem_set hc, hrw b (heq ▸ hrw₀)⟩
    · exact ⟨c₀, Pool.mem_set_of_mem_of_ne hc₀ hc heq, hrw₀⟩

/-! ## The account of each command -/

theorem account_hsetnx {now : Time} {k : RoutingKey} {e : BulkAssignEntry}
    {counts : Table Backend ℤ} (hk : r.assignments.lookup k = none) :
    Keyspace.drift { r with assignments := r.assignments.insert k (bulkValue now e) } b +
        (counts.bump e.backend e.storedWeight).value b =
      r.drift b + counts.value b := by
  simp only [Keyspace.drift, Keyspace.weightOn, Table.total_insert, Table.share_of_lookup_none hk,
    weightOn_bulkValue, Table.value_bump]
  ring

theorem account_hincrby {n : ℤ} {b' : Backend} {todo : List (Backend × ℤ)} :
    Keyspace.drift { r with counts := r.counts.bump b' n } b + Table.sumAt todo b =
      r.drift b + Table.sumAt ((b', n) :: todo) b := by
  simp only [Keyspace.drift, Keyspace.weightOn, Table.value_bump, Table.sumAt_cons]
  ring

/-- An `HDEL` of keys that hold what was read leaves the decrements
pending. -/
theorem account_hdel {read : List (RoutingKey × Assignment)}
    (hnodup : (read.map Prod.fst).Nodup) (hread : ∀ p ∈ read, Holds r p.1 p.2) :
    Keyspace.drift { r with assignments := r.assignments.eraseAll (read.map Prod.fst) } b +
        Table.sumAt (decrements read) b = r.drift b := by
  have h := total_eraseAll_read (b := b) hnodup hread
  simp only [Keyspace.drift, Keyspace.weightOn] at h ⊢
  rw [h]
  ring

/-! ## What a recount has read

The totals of a recount are what the assignments weigh less what is
pending: so they are when they are read, with nothing pending, and what
others set or delete afterwards is pending until they count it. -/

/-- What the assignments to the backend weigh, but for what is pending. -/
def System.net (s : System) (b : Backend) : ℤ := s.keyspace.weightOn b - s.pending b

/-- The totals the call has still to write are up to date. -/
def Call.UpToDate (s : System) : Call → Prop
  | .del totals => ∀ b, totals.value b = s.net b
  | .hset todo => ∀ p ∈ todo, p.2 = s.net p.1
  | _ => True

def System.UpToDate (s : System) : Prop := ∀ c ∈ s.calls, c.UpToDate s

theorem Call.UpToDate.of_net (h : c.UpToDate s) (hnet : ∀ b, c.owes b = true → s'.net b = s.net b) :
    c.UpToDate s' := by
  cases c with
  | del totals =>
    intro b
    rw [hnet b rfl]
    exact h b
  | hset todo =>
    intro p hp
    rw [hnet p.1 (decide_eq_true (List.mem_map_of_mem hp))]
    exact h p hp
  | _ => exact trivial

theorem upToDate_of_net (h : s.UpToDate) {r' : Keyspace}
    (hnet : ∀ b, s.Owed b → System.net ⟨r', s.calls.set i c'⟩ b = s.net b)
    (hnew : c'.UpToDate ⟨r', s.calls.set i c'⟩) :
    System.UpToDate ⟨r', s.calls.set i c'⟩ := by
  intro c₀ hc₀
  rcases Pool.mem_or_eq_of_mem_set hc₀ with hold | rfl
  · exact (h c₀ hold).of_net fun b hb => hnet b ⟨c₀, hold, hb⟩
  · exact hnew

/-- A step that keeps a call's own account moves the net weight of a backend
by as much as its count. -/
theorem net_of_account (hc : s.calls[i]? = some c) {r' : Keyspace}
    (hacc : r'.drift b + c'.pending b = s.keyspace.drift b + c.pending b) :
    System.net ⟨r', s.calls.set i c'⟩ b =
      s.net b + (r'.counts.value b - s.keyspace.counts.value b) := by
  have hpending : System.pending ⟨r', s.calls.set i c'⟩ b =
      s.pending b - c.pending b + c'.pending b := pending_set hc r'
  simp only [Keyspace.drift] at hacc
  rw [System.net, hpending, System.net]
  dsimp only
  linarith

/-- **A step of another call leaves the totals up to date** if it leaves the
counts alone that are still to be written. -/
theorem upToDate_of_account (h : s.UpToDate) (hc : s.calls[i]? = some c) {r' : Keyspace}
    (hacc : ∀ b, r'.drift b + c'.pending b = s.keyspace.drift b + c.pending b)
    (hcounts : ∀ b, s.Owed b → r'.counts.value b = s.keyspace.counts.value b)
    (hnew : c'.UpToDate ⟨r', s.calls.set i c'⟩) :
    System.UpToDate ⟨r', s.calls.set i c'⟩ := by
  refine upToDate_of_net h (fun b hb => ?_) hnew
  rw [net_of_account hc (hacc b), hcounts b hb, sub_self, add_zero]

/-- A call that has counted what it has written has nothing pending. -/
theorem pending_of_counted (h : c.uncounted = false) : c.pending b = 0 := by
  cases c with
  | hsetnx now todo counts =>
    have hnil : counts.pairs = [] := by simpa [Call.uncounted] using h
    rw [Call.pending, ← Table.sumAt_pairs, hnil]
    rfl
  | hincrby todo =>
    have hnil : todo = [] := by simpa [Call.uncounted] using h
    rw [hnil]
    rfl
  | _ => rfl

/-- **The `HGETALL`**: with nothing pending the totals are the weights. -/
theorem upToDate_hgetall (h : s.UpToDate) (hc : s.calls[i]? = some .reconcileAssignmentCounts)
    (hcounted : ∀ c ∈ s.calls, c.uncounted = false) :
    System.UpToDate ⟨s.keyspace, s.calls.set i (.del (recount s.keyspace))⟩ := by
  have hpending : ∀ b, s.pending b = 0 := by
    intro b
    refine List.sum_eq_zero fun x hx => ?_
    obtain ⟨c, hc, rfl⟩ := List.mem_map.1 hx
    exact pending_of_counted (hcounted c hc)
  have hnet : ∀ b, System.net ⟨s.keyspace, s.calls.set i (.del (recount s.keyspace))⟩ b =
      s.net b := by
    intro b
    have hacc : s.keyspace.drift b + (Call.del (recount s.keyspace)).pending b =
        s.keyspace.drift b + Call.reconcileAssignmentCounts.pending b := rfl
    rw [net_of_account hc hacc, sub_self, add_zero]
  refine upToDate_of_net h (fun b _ => hnet b) fun b => ?_
  rw [hnet, value_recount, System.net, hpending, sub_zero]

/-! ## The two commands of a recount -/

theorem net_of_counts (hc : s.calls[i]? = some c) {counts : Table Backend ℤ}
    (hpending : c'.pending b = c.pending b) :
    System.net ⟨{ s.keyspace with counts }, s.calls.set i c'⟩ b = s.net b := by
  rw [System.net, pending_set hc, hpending, sub_add_cancel]
  rfl

/-- The `DEL`: the backends of the recount are about to be written, and
no other has weight that is not pending. -/
theorem tracked_del {totals : Table Backend ℤ} (hc : s.calls[i]? = some (.del totals))
    (htotals : ∀ b, totals.value b = s.net b) :
    System.Tracked ⟨{ s.keyspace with counts := ∅ }, s.calls.set i (.hset totals.pairs)⟩ := by
  intro b
  rcases hb : totals.lookup b with - | n
  · -- No total was read for the backend: all it weighs has come since and is pending.
    left
    have hnet := htotals b
    rw [Table.value, hb, Option.getD_none, System.net] at hnet
    rw [pending_set hc]
    simp only [Keyspace.drift, Call.pending, Table.value_empty]
    simp only [Keyspace.weightOn] at hnet ⊢
    omega
  · right
    refine ⟨_, Pool.self_mem_set hc, ?_⟩
    exact List.mem_map.2 ⟨(b, n), Table.mem_pairs.2 hb, rfl⟩

/-- An `HSET`: the backend written is in step again, the others stand as
they did. -/
theorem tracked_hset {b' : Backend} {n : ℤ} {todo : List (Backend × ℤ)} (h : s.Tracked)
    (hc : s.calls[i]? = some (.hset ((b', n) :: todo))) (hn : n = s.net b') :
    System.Tracked ⟨{ s.keyspace with counts := s.keyspace.counts.insert b' n },
      s.calls.set i (.hset todo)⟩ := by
  intro b
  by_cases hb : b = b'
  · left
    subst hb
    rw [System.net] at hn
    rw [pending_set hc]
    simp only [Keyspace.drift, Keyspace.weightOn, Call.pending, Table.value_insert, if_pos]
    simp only [Keyspace.weightOn] at hn
    omega
  · rcases h b with hb0 | ⟨c₀, hc₀, hrw₀⟩
    · left
      rw [pending_set hc]
      simp only [Keyspace.drift, Keyspace.weightOn, Call.pending, Table.value_insert,
        if_neg hb] at hb0 ⊢
      omega
    · right
      by_cases heq : c₀ = .hset ((b', n) :: todo)
      · refine ⟨_, Pool.self_mem_set hc, ?_⟩
        rw [heq] at hrw₀
        exact (List.mem_cons.1 hrw₀).resolve_left hb
      · exact ⟨c₀, Pool.mem_set_of_mem_of_ne hc₀ hc heq, hrw₀⟩

/-- The counts are tracked, and the totals read are up to date. -/
structure System.Sound (s : System) : Prop where
  tracked : s.Tracked
  upToDate : s.UpToDate

/-- A step that keeps a call's own account, that no recount takes, and that
leaves the counts alone that are still to be written. -/
theorem sound_of_account (h : s.Sound) (hc : s.calls[i]? = some c) {r' : Keyspace}
    (hacc : ∀ b, r'.drift b + c'.pending b = s.keyspace.drift b + c.pending b)
    (hrw : ∀ b, c.Rewrites b → c'.Rewrites b)
    (hcounts : ∀ b, s.Owed b → r'.counts.value b = s.keyspace.counts.value b)
    (hnew : c'.UpToDate ⟨r', s.calls.set i c'⟩) :
    System.Sound ⟨r', s.calls.set i c'⟩ :=
  ⟨tracked_of_account h.tracked hc hacc hrw, upToDate_of_account h.upToDate hc hacc hcounts hnew⟩

/-- **An undisturbed step keeps the pool sound.** -/
theorem sound_step (h : s.Sound) (hcur : s.Undisturbed i) (hstep : s.step i = some s') :
    s'.Sound := by
  obtain ⟨c, c', r', hc, hcs, rfl⟩ := step_eq_some hstep
  have hmem : c ∈ s.calls := List.mem_of_getElem? hc
  cases c with
  | addBackend b =>
    obtain ⟨rfl, rfl⟩ := Prod.mk.inj (Option.some.inj hcs)
    exact sound_of_account h hc (fun _ => rfl) (fun _ hrw => hrw) (fun _ _ => rfl) trivial
  | removeBackend b =>
    obtain ⟨rfl, rfl⟩ := Prod.mk.inj (Option.some.inj hcs)
    exact sound_of_account h hc (fun _ => rfl) (fun _ hrw => hrw) (fun _ _ => rfl) trivial
  | assignViaTable members now k =>
    obtain ⟨-, hcs⟩ := Option.ite_none_right_eq_some.1 hcs
    obtain ⟨rfl, rfl⟩ := Prod.mk.inj (Option.some.inj hcs)
    simp only [System.Undisturbed, hc] at hcur
    exact sound_of_account h hc (fun b => by rw [drift_assignScript]; rfl) (fun _ hrw => hrw)
      hcur trivial
  | deleteAssignment k =>
    simp only [Call.step] at hcs
    rcases ha : getAssignment k s.keyspace with - | a
    all_goals
      rw [ha] at hcs
      obtain ⟨rfl, rfl⟩ := Prod.mk.inj (Option.some.inj hcs)
      exact sound_of_account h hc (fun _ => rfl) (fun _ hrw => hrw) (fun _ _ => rfl) trivial
  | hsetnx now todo counts =>
    rcases todo with - | ⟨⟨k, e⟩, todo⟩
    · obtain ⟨rfl, rfl⟩ := Prod.mk.inj (Option.some.inj hcs)
      refine sound_of_account h hc (fun b => ?_) (fun _ hrw => hrw) (fun _ _ => rfl) trivial
      simp only [Call.pending, Table.sumAt_pairs]
    · simp only [Call.step] at hcs
      split at hcs
      · obtain ⟨rfl, rfl⟩ := Prod.mk.inj (Option.some.inj hcs)
        exact sound_of_account h hc (fun _ => rfl) (fun _ hrw => hrw) (fun _ _ => rfl) trivial
      · rename_i hk
        obtain ⟨rfl, rfl⟩ := Prod.mk.inj (Option.some.inj hcs)
        rw [Option.not_isSome_iff_eq_none] at hk
        exact sound_of_account h hc (fun b => account_hsetnx hk) (fun _ hrw => hrw)
          (fun _ _ => rfl) trivial
  | hget todo read =>
    cases todo <;>
    · obtain ⟨rfl, rfl⟩ := Prod.mk.inj (Option.some.inj hcs)
      exact sound_of_account h hc (fun _ => rfl) (fun _ hrw => hrw) (fun _ _ => rfl) trivial
  | hdel read =>
    obtain ⟨rfl, rfl⟩ := Prod.mk.inj (Option.some.inj hcs)
    -- The keys still hold what was read, so what is deleted is what will be counted.
    simp only [System.Undisturbed, hc] at hcur
    refine sound_of_account h hc (fun b => ?_) (fun _ hrw => hrw) (fun _ _ => rfl) trivial
    exact (account_hdel hcur.1 hcur.2).trans (add_zero _).symm
  | hincrby todo =>
    rcases todo with - | ⟨⟨b, n⟩, todo⟩
    · obtain ⟨rfl, rfl⟩ := Prod.mk.inj (Option.some.inj hcs)
      exact sound_of_account h hc (fun _ => rfl) (fun _ hrw => hrw) (fun _ _ => rfl) trivial
    · obtain ⟨rfl, rfl⟩ := Prod.mk.inj (Option.some.inj hcs)
      simp only [System.Undisturbed, hc] at hcur
      refine sound_of_account h hc (fun _ => account_hincrby) (fun _ hrw => hrw)
        (fun b' hb' => ?_) trivial
      -- The count is one that no recount has still to write.
      have hne : b ≠ b' := fun hbb => hcur (hbb ▸ hb')
      rw [Table.value_bump, if_neg hne, add_zero]
  | reconcileAssignmentCounts =>
    obtain ⟨rfl, rfl⟩ := Prod.mk.inj (Option.some.inj hcs)
    simp only [System.Undisturbed, hc] at hcur
    exact ⟨tracked_of_account h.tracked hc (fun _ => rfl) fun _ hrw => hrw,
      upToDate_hgetall h.upToDate hc hcur⟩
  | del totals =>
    obtain ⟨rfl, rfl⟩ := Prod.mk.inj (Option.some.inj hcs)
    have htotals : ∀ b, totals.value b = s.net b := h.upToDate _ hmem
    have hnet : ∀ b, System.net ⟨{ s.keyspace with counts := ∅ },
        s.calls.set i (.hset totals.pairs)⟩ b = s.net b := fun b => net_of_counts hc rfl
    refine ⟨tracked_del hc htotals, upToDate_of_net h.upToDate (fun b _ => hnet b) fun p hp => ?_⟩
    rw [hnet, ← htotals, Table.value, Table.mem_pairs.1 hp, Option.getD_some]
  | hset todo =>
    have htotals : ∀ p ∈ todo, p.2 = s.net p.1 := h.upToDate _ hmem
    rcases todo with - | ⟨⟨b, n⟩, todo⟩
    · obtain ⟨rfl, rfl⟩ := Prod.mk.inj (Option.some.inj hcs)
      exact sound_of_account h hc (fun _ => rfl) (fun _ hrw => absurd hrw List.not_mem_nil)
        (fun _ _ => rfl) trivial
    · obtain ⟨rfl, rfl⟩ := Prod.mk.inj (Option.some.inj hcs)
      have hnet : ∀ b', System.net ⟨{ s.keyspace with counts := s.keyspace.counts.insert b n },
          s.calls.set i (.hset todo)⟩ b' = s.net b' := fun b' => net_of_counts hc rfl
      refine ⟨tracked_hset h.tracked hc (htotals _ List.mem_cons_self),
        upToDate_of_net h.upToDate (fun b _ => hnet b) fun p hp => ?_⟩
      rw [hnet]
      exact htotals p (List.mem_cons_of_mem _ hp)
  | returned => cases hcs

/-! ## Whole runs -/

theorem pending_start (op : Op) : (Call.start op).pending b = 0 := by
  cases op <;> rfl

/-- Calls about to start have counted everything. -/
theorem tracked_start (hr : r.Balanced) (ops : List Op) : (System.start r ops).Tracked := by
  intro b
  left
  have hp : (System.start r ops).pending b = 0 := by
    simp only [System.pending, System.start, List.map_map]
    refine List.sum_eq_zero fun x hx => ?_
    obtain ⟨op, -, rfl⟩ := List.mem_map.1 hx
    exact pending_start op
  rw [hp, add_zero]
  exact balanced_iff_drift.1 hr b

/-- Calls that have all returned have nothing pending. -/
theorem balanced_of_returned (h : s.Tracked) (hret : s.Returned) : s.keyspace.Balanced := by
  refine balanced_iff_drift.2 fun b => ?_
  have hp : s.pending b = 0 := by
    refine List.sum_eq_zero fun x hx => ?_
    obtain ⟨c, hc, rfl⟩ := List.mem_map.1 hx
    rw [hret c hc]
    rfl
  rcases h b with hb | ⟨c, hc, hrw⟩
  · omega
  · rw [hret c hc] at hrw
    exact absurd hrw id

theorem sound_start (hr : r.Balanced) (ops : List Op) : (System.start r ops).Sound := by
  refine ⟨tracked_start hr ops, fun c hc => ?_⟩
  obtain ⟨op, -, rfl⟩ := List.mem_map.1 hc
  cases op <;> exact trivial

/-- One account on one backend. -/
def oneAccount : Keyspace :=
  ⟨Table.insertAll ∅ [("u", bulkValue 1 ⟨"b1", 1⟩)], Table.bump ∅ "b1" 1, {"b1"}⟩

theorem balanced_oneAccount : oneAccount.Balanced := by
  have h : Run.exec step .empty [.addBackend "b1",
      .bulkAssign 1 (Table.insertAll ∅ [("u", ⟨"b1", 1⟩)])] = some oneAccount := rfl
  exact balanced_of_exec h

/-- A recount, a bulk assignment, a bulk delete and a script. -/
def recountAndWrites : List Op :=
  [.reconcileAssignmentCounts, .bulkAssign 2 (Table.insertAll ∅ [("v", ⟨"b1", 2⟩)]),
    .bulkDeleteAssignments ["u"], .assignViaTable ["b1"] 3 "w"]

/-- The recount has read the hash when `v` is set and `u` deleted; both are
counted after it has written the count, and so is `w`. -/
def aroundRecount : List ℕ := [0, 1, 2, 2, 2, 0, 0, 1, 1, 3, 2, 0, 1, 2]

/-- What the four calls leave. -/
def recounted : System :=
  ⟨⟨Table.insertAll ∅ [("v", bulkValue 2 ⟨"b1", 2⟩), ("w", bulkValue 3 ⟨"b1", 1⟩)],
    Table.insertAll ∅ [("b1", 3)], {"b1"}⟩, [.returned, .returned, .returned, .returned]⟩

/-- Run alone from `r`, the call returns and leaves `r'`. -/
def Call.Leaves (c : Call) (r r' : Keyspace) : Prop :=
  ∃ sched, Run.exec System.step ⟨r, [c]⟩ sched = some ⟨r', [.returned]⟩

theorem leaves_returned : Call.Leaves .returned r r := ⟨[], rfl⟩

theorem leaves_step {r₁ r' : Keyspace} (hstep : c.step r = some (c', r₁)) (h : c'.Leaves r₁ r') :
    c.Leaves r r' := by
  obtain ⟨sched, hsched⟩ := h
  refine ⟨0 :: sched, Run.exec_cons_eq_some.2 ⟨⟨r₁, [c']⟩, ?_, hsched⟩⟩
  simp [System.step, hstep]

theorem leaves_hincrby (todo : List (Backend × ℤ)) (r : Keyspace) :
    (Call.hincrby todo).Leaves r { r with counts := r.counts.bumpAll todo } := by
  induction todo generalizing r with
  | nil => exact leaves_step rfl leaves_returned
  | cons e todo ih => exact leaves_step rfl (ih { r with counts := r.counts.bump e.1 e.2 })

theorem leaves_hset (todo : List (Backend × ℤ)) (r : Keyspace) :
    (Call.hset todo).Leaves r { r with counts := r.counts.insertAll todo } := by
  induction todo generalizing r with
  | nil => exact leaves_step rfl leaves_returned
  | cons e todo ih => exact leaves_step rfl (ih { r with counts := r.counts.insert e.1 e.2 })

theorem leaves_hdel (read : List (RoutingKey × Assignment)) (r : Keyspace) :
    (Call.hdel read).Leaves r { r with
      assignments := r.assignments.eraseAll (read.map Prod.fst)
      counts := r.counts.bumpAll (decrements read) } :=
  leaves_step rfl (leaves_hincrby _ _)

theorem leaves_hget (todo : List RoutingKey) (read : List (RoutingKey × Assignment))
    (r : Keyspace) :
    (Call.hget todo read).Leaves r { r with
      assignments := r.assignments.eraseAll ((read ++ readAll todo r).map Prod.fst)
      counts := r.counts.bumpAll (decrements (read ++ readAll todo r)) } := by
  induction todo generalizing read with
  | nil =>
    have h : read ++ readAll [] r = read := List.append_nil read
    rw [h]
    exact leaves_step rfl (leaves_hdel read r)
  | cons k todo ih =>
    rw [readAll_cons, ← List.append_assoc]
    exact leaves_step rfl (ih _)

theorem leaves_hsetnx (now : Time) (todo : List (RoutingKey × BulkAssignEntry))
    (counts : Table Backend ℤ) (r : Keyspace) :
    (Call.hsetnx now todo counts).Leaves r { r with
      assignments := (hsetnxAll now todo r.assignments).2
      counts := r.counts.bumpAll (counts.bumpAll ((hsetnxAll now todo r.assignments).1.map
        fun p => (p.2.backend, p.2.storedWeight))).pairs } := by
  induction todo generalizing counts r with
  | nil => exact leaves_step rfl (leaves_hincrby _ r)
  | cons p todo ih =>
    obtain ⟨k, e⟩ := p
    unfold hsetnxAll
    by_cases hk : (r.assignments.lookup k).isSome
    · rw [Table.insertNew_cons_of_isSome hk]
      exact leaves_step (by simp only [Call.step, if_pos hk]) (ih counts r)
    · rw [Table.insertNew_cons_of_eq_none (Option.not_isSome_iff_eq_none.1 hk)]
      exact leaves_step (by simp only [Call.step, if_neg hk])
        (ih (counts.bump e.backend e.storedWeight)
          { r with assignments := r.assignments.insert k (bulkValue now e) })

/-- **A call alone is its operation.** -/
theorem leaves_operation {op : Op} {r' : Keyspace} (h : step r op = some r') :
    (Call.start op).Leaves r r' := by
  cases op with
  | addBackend b =>
    obtain rfl := Option.some.inj h
    exact leaves_step rfl leaves_returned
  | removeBackend b =>
    obtain rfl := Option.some.inj h
    exact leaves_step rfl leaves_returned
  | assignViaTable members now k =>
    obtain ⟨hm, hr'⟩ := Option.ite_none_right_eq_some.1 h
    obtain rfl := Option.some.inj hr'
    exact leaves_step (by simp only [Call.start, Call.step, if_pos hm]; rfl) leaves_returned
  | deleteAssignment k =>
    obtain rfl := Option.some.inj h
    unfold deleteAssignment
    rcases ha : getAssignment k r with - | a
    · exact leaves_step (by simp only [Call.start, Call.step, ha]) leaves_returned
    · have hget : (Call.deleteAssignment k).step r = some (.hdel [(k, a)], r) := by
        simp only [Call.step, ha]
      have h := leaves_hdel [(k, a)] r
      rw [decrements_singleton] at h
      exact leaves_step hget h
  | bulkAssign now entries =>
    obtain rfl := Option.some.inj h
    exact leaves_hsetnx now entries.pairs ∅ r
  | bulkDeleteAssignments keys =>
    obtain ⟨-, hr'⟩ := Option.ite_none_right_eq_some.1 h
    obtain rfl := Option.some.inj hr'
    exact leaves_hget keys [] r
  | reconcileAssignmentCounts =>
    obtain rfl := Option.some.inj h
    exact leaves_step rfl (leaves_step rfl (leaves_hset _ _))

/-- The delete of an account reads it, deletes it and takes its weight off. -/
theorem leaves_operation_oneAccount :
    ∃ sched, Run.exec System.step ⟨oneAccount, [.start (.bulkDeleteAssignments ["u", "x"])]⟩ sched =
      some ⟨⟨∅, Table.insertAll ∅ [("b1", 0)], {"b1"}⟩, [.returned]⟩ :=
  leaves_operation rfl

end Redis

end StickyProxy
