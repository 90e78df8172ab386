import Mathlib.Algebra.Order.Ring.Int
import Mathlib.Data.Finset.Dedup
import Mathlib.Data.Int.CardIntervalMod
/-!
# Assignments

The record behind every sticky mapping: which backend a routing key is
on, since when, by whom, and with what weight. The table stores of the
proxy keep it in two shapes, a JSON text in a Redis hash and a row in
PostgreSQL; what the JSON text says is `Value`, and `marshalAssignment`
and `unmarshalAssignment` go between it and the Go struct.
-/

namespace StickyProxy

/-- A backend's URL. -/
abbrev Backend := String

/-- The routing key of an account, taken from its token. -/
abbrev RoutingKey := String

/-- Nanoseconds since the zero value of Go's `time.Time`. -/
abbrev Time := ℤ

/-- The list is a reply that may be given for a set of backends: every one
of them once, in any order. -/
def Enumerates (order : List Backend) (s : Finset Backend) : Prop :=
  order.Nodup ∧ order.toFinset = s

instance (order : List Backend) (s : Finset Backend) : Decidable (Enumerates order s) :=
  inferInstanceAs (Decidable (_ ∧ _))

theorem Enumerates.mem {order : List Backend} {s : Finset Backend} (h : Enumerates order s)
    {b : Backend} : b ∈ order ↔ b ∈ s := by
  rw [← h.2, List.mem_toFinset]

/-- Go's `Assignment`. -/
structure Assignment where
  backend : Backend
  assignedAt : Time
  source : String
  weight : ℤ
  deriving DecidableEq, Repr

/-- Go's `BulkAssignEntry`. -/
structure BulkAssignEntry where
  backend : Backend
  weight : ℤ
  deriving DecidableEq, Repr

/-- `EffectiveWeight`: the weight, defaulting to one. -/
def Assignment.effectiveWeight (a : Assignment) : ℤ := if a.weight ≤ 0 then 1 else a.weight

/-- What `BulkAssign` of either store makes of an entry's weight. -/
def BulkAssignEntry.storedWeight (e : BulkAssignEntry) : ℤ := if e.weight ≤ 0 then 1 else e.weight

theorem Assignment.one_le_effectiveWeight (a : Assignment) : 1 ≤ a.effectiveWeight := by
  unfold effectiveWeight
  split <;> omega

theorem BulkAssignEntry.one_le_storedWeight (e : BulkAssignEntry) : 1 ≤ e.storedWeight := by
  unfold storedWeight
  split <;> omega

theorem Assignment.effectiveWeight_of_pos {a : Assignment} (h : 1 ≤ a.weight) :
    a.effectiveWeight = a.weight := if_neg (by omega)

/-! ## Going round the backends -/

/-- Accounts with their weights go to the backends in turn, account `i` to
`backends[i%len(backends)]`; without a backend none goes anywhere. -/
def roundRobin (backends : List Backend) (accounts : List (RoutingKey × ℤ)) :
    List (RoutingKey × BulkAssignEntry) :=
  accounts.zipIdx.filterMap fun p =>
    (backends[p.2 % backends.length]?).map fun b => (p.1.1, ⟨b, p.1.2⟩)

theorem of_mem_roundRobin {backends : List Backend} {accounts : List (RoutingKey × ℤ)}
    {k : RoutingKey} {e : BulkAssignEntry} (h : (k, e) ∈ roundRobin backends accounts) :
    (k, e.weight) ∈ accounts ∧ e.backend ∈ backends := by
  obtain ⟨⟨⟨k', w⟩, i⟩, hmem, hentry⟩ := List.mem_filterMap.1 h
  obtain ⟨b, hb, heq⟩ := Option.map_eq_some_iff.1 hentry
  simp only [Prod.mk.injEq] at heq
  obtain ⟨rfl, rfl⟩ := heq
  exact ⟨List.fst_mem_of_mem_zipIdx hmem, List.mem_of_getElem? hb⟩

/-- With a backend to go to, every account goes to one. -/
theorem mem_map_fst_roundRobin {backends : List Backend} {accounts : List (RoutingKey × ℤ)}
    {k : RoutingKey} :
    k ∈ (roundRobin backends accounts).map Prod.fst ↔
      k ∈ accounts.map Prod.fst ∧ backends ≠ [] := by
  constructor
  · intro h
    obtain ⟨⟨k', e⟩, hmem, rfl⟩ := List.mem_map.1 h
    obtain ⟨hk, hb⟩ := of_mem_roundRobin hmem
    exact ⟨List.mem_map.2 ⟨_, hk, rfl⟩, List.ne_nil_of_mem hb⟩
  · rintro ⟨hk, hbackends⟩
    obtain ⟨⟨k', w⟩, hmem, rfl⟩ := List.mem_map.1 hk
    obtain ⟨i, hi⟩ := List.mem_iff_getElem?.1 hmem
    have hlt : i % backends.length < backends.length :=
      Nat.mod_lt _ (List.length_pos_iff.2 hbackends)
    refine List.mem_map.2 ⟨(k', ⟨backends[i % backends.length], w⟩),
      List.mem_filterMap.2 ⟨((k', w), i), List.mem_zipIdx_iff_getElem?.2 hi, ?_⟩, rfl⟩
    rw [List.getElem?_eq_getElem hlt]
    rfl

/-- One account more goes to the backend whose turn it is. -/
theorem roundRobin_append_singleton {backends : List Backend} {accounts : List (RoutingKey × ℤ)}
    {b : Backend} (hb : backends[accounts.length % backends.length]? = some b)
    (p : RoutingKey × ℤ) :
    roundRobin backends (accounts ++ [p]) =
      roundRobin backends accounts ++ [(p.1, ⟨b, p.2⟩)] := by
  simp [roundRobin, List.zipIdx_append, hb]

theorem exists_turn {backends : List Backend} (h : backends ≠ []) (i : ℕ) :
    ∃ b, backends[i % backends.length]? = some b :=
  ⟨_, List.getElem?_eq_getElem (Nat.mod_lt i (List.length_pos_iff.2 h))⟩

/-- With a backend to go to, the accounts come out as they came in. -/
theorem map_fst_roundRobin {backends : List Backend} (h : backends ≠ [])
    (accounts : List (RoutingKey × ℤ)) :
    (roundRobin backends accounts).map Prod.fst = accounts.map Prod.fst := by
  induction accounts using List.reverseRecOn with
  | nil => rfl
  | append_singleton accounts p ih =>
    obtain ⟨b, hb⟩ := exists_turn h accounts.length
    rw [roundRobin_append_singleton hb, List.map_append, List.map_append, ih]
    rfl

/-- How many accounts a backend gets. -/
theorem countP_roundRobin {backends : List Backend} (h : backends ≠ []) (b : Backend)
    (accounts : List (RoutingKey × ℤ)) :
    (roundRobin backends accounts).countP (fun p => p.2.backend = b) =
      Nat.count (fun i => backends[i % backends.length]? = some b) accounts.length := by
  induction accounts using List.reverseRecOn with
  | nil => rfl
  | append_singleton accounts p ih =>
    obtain ⟨c, hc⟩ := exists_turn h accounts.length
    rw [roundRobin_append_singleton hc, List.countP_append, ih, List.length_append,
      List.length_singleton, Nat.count_succ, hc]
    simp [List.countP_singleton]

/-- The turns of a backend are those of its place in the list. -/
theorem count_turns {backends : List Backend} (hnodup : backends.Nodup) {b : Backend}
    (hb : b ∈ backends) (m : ℕ) :
    Nat.count (fun i => backends[i % backends.length]? = some b) m =
      m / backends.length + if backends.idxOf b < m % backends.length then 1 else 0 := by
  have hplace : backends.idxOf b < backends.length := List.idxOf_lt_length_iff.2 hb
  have hturn : ∀ i, backends[i % backends.length]? = some b ↔
      i ≡ backends.idxOf b [MOD backends.length] := by
    intro i
    have hlt : i % backends.length < backends.length :=
      Nat.mod_lt i (Nat.zero_lt_of_lt hplace)
    rw [List.getElem?_eq_getElem hlt, Option.some.injEq, Nat.ModEq, Nat.mod_eq_of_lt hplace]
    constructor
    · intro heq
      rw [← heq, hnodup.idxOf_getElem]
    · intro heq
      simp only [heq, List.getElem_idxOf]
  have hcount := Nat.count_modEq_card m (Nat.zero_lt_of_lt hplace) (backends.idxOf b)
  rw [Nat.mod_eq_of_lt hplace] at hcount
  simpa only [hturn] using hcount

/-- **Going round spreads the accounts evenly**: two backends get numbers
that differ by at most one. -/
theorem countP_roundRobin_le {backends : List Backend} (hnodup : backends.Nodup) {b c : Backend}
    (hb : b ∈ backends) (hc : c ∈ backends) (accounts : List (RoutingKey × ℤ)) :
    (roundRobin backends accounts).countP (fun p => p.2.backend = b) ≤
      (roundRobin backends accounts).countP (fun p => p.2.backend = c) + 1 := by
  have hne : backends ≠ [] := List.ne_nil_of_mem hb
  rw [countP_roundRobin hne, countP_roundRobin hne, count_turns hnodup hb, count_turns hnodup hc]
  split <;> split <;> omega

/-! ## What the stores keep -/

/-- The JSON object of an assignment. The weight field is marked
`omitempty`, so it may be missing. -/
structure Record where
  backend : Backend
  assignedAt : Time
  source : String
  weight : Option ℤ
  deriving DecidableEq, Repr

/-- A field value of the `assignments` hash: the JSON object of an
assignment, or a text that does not decode. -/
inductive Value where
  | record (r : Record)
  | malformed (text : String)
  deriving DecidableEq, Repr

/-- `json.Marshal` of an assignment: a zero weight is omitted. -/
def marshalAssignment (a : Assignment) : Value :=
  .record ⟨a.backend, a.assignedAt, a.source, if a.weight = 0 then none else some a.weight⟩

/-- `unmarshalAssignment`: a missing weight is the zero value. -/
def unmarshalAssignment : Value → Option Assignment
  | .record r => some ⟨r.backend, r.assignedAt, r.source, r.weight.getD 0⟩
  | .malformed _ => none

/-- **Decoding undoes encoding**, the omitted weight included. -/
@[simp] theorem unmarshalAssignment_marshalAssignment (a : Assignment) :
    unmarshalAssignment (marshalAssignment a) = some a := by
  obtain ⟨b, t, s, w⟩ := a
  by_cases h : w = 0 <;> simp [marshalAssignment, unmarshalAssignment, h]

/-- The weight `assign.lua` takes off the count of a stale assignment:
`data.weight or 1`, and one again when that is not positive. -/
def Record.staleWeight (r : Record) : ℤ :=
  let w := r.weight.getD 1
  if w ≤ 0 then 1 else w

/-- **The script and the Go code default the weight alike.** -/
theorem staleWeight_eq_effectiveWeight {r : Record} {a : Assignment}
    (h : unmarshalAssignment (.record r) = some a) : r.staleWeight = a.effectiveWeight := by
  obtain ⟨b, t, s, w⟩ := r
  simp only [unmarshalAssignment, Option.some.injEq] at h
  subst h
  cases w <;> simp [Record.staleWeight, Assignment.effectiveWeight]

/-- What a stored value adds to the load of backend `b`: the effective
weight of an assignment to it. A text that does not decode adds nothing. -/
def Value.weightOn (b : Backend) (v : Value) : ℤ :=
  match unmarshalAssignment v with
  | some a => if a.backend = b then a.effectiveWeight else 0
  | none => 0

theorem Value.weightOn_of_unmarshal {v : Value} {a : Assignment}
    (h : unmarshalAssignment v = some a) (b : Backend) :
    v.weightOn b = if a.backend = b then a.effectiveWeight else 0 := by
  rw [weightOn, h]

end StickyProxy
