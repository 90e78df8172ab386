import StickyProxy.Store.Model.Interface
import StickyProxy.Redis.Effects
import StickyProxy.Postgres.Effects
/-!
# What the calls of a store do

The effects of the two table stores under the one interface: which keys
a call touches, what they read back, and which backends
`AssignLeastLoaded` may answer with when the store lists its candidates
in an order of its own.
-/

namespace StickyProxy

namespace Store

variable {s : Store} {k k' : RoutingKey} {b c : Backend} {now : Time} {order : List Backend}

theorem mem_getBackendUsers :
    k ∈ s.getBackendUsers b ↔ ∃ a, s.getAssignment k = some a ∧ a.backend = b := by
  cases s with
  | redis r => exact Redis.mem_getBackendUsers
  | postgres d => exact Postgres.mem_getBackendUsers
  | memory backends => simp [getBackendUsers, getAssignment]

theorem getAssignment_bulkDeleteAssignments (keys : List RoutingKey) (k : RoutingKey) :
    (s.bulkDeleteAssignments keys).getAssignment k =
      if k ∈ keys then none else s.getAssignment k := by
  cases s with
  | redis r => exact Redis.getAssignment_bulkDeleteAssignments keys k
  | postgres d => exact Postgres.lookup_bulkDeleteAssignments keys k
  | memory backends => simp [bulkDeleteAssignments, getAssignment]

theorem getAssignment_of_bulkDeleteAssignments {keys : List RoutingKey} {a : Assignment}
    (h : (s.bulkDeleteAssignments keys).getAssignment k = some a) : s.getAssignment k = some a := by
  rw [getAssignment_bulkDeleteAssignments] at h
  split at h
  · cases h
  · exact h

theorem active_bulkDeleteAssignments (keys : List RoutingKey) :
    (s.bulkDeleteAssignments keys).active = s.active := by
  cases s <;> rfl

theorem getAssignment_addBackend (k : RoutingKey) :
    (s.addBackend b).getAssignment k = s.getAssignment k := by
  cases s <;> rfl

theorem getAssignment_removeBackend (k : RoutingKey) :
    (s.removeBackend b).getAssignment k = s.getAssignment k := by
  cases s with
  | redis r => rfl
  | postgres d =>
    simp only [getAssignment, removeBackend, Postgres.getAssignment,
      Postgres.assignments_removeBackend]
  | memory backends => rfl

theorem mem_active_postgres {d : Postgres.Database} :
    b ∈ (Store.postgres d).active ↔ d.Healthy b := by
  rw [active, List.mem_toFinset, Postgres.mem_activeBackends]

theorem mem_active_removeBackend : c ∈ (s.removeBackend b).active ↔ c ∈ s.active ∧ c ≠ b := by
  cases s with
  | redis r => exact Finset.mem_erase.trans and_comm
  | postgres d =>
    rw [removeBackend, mem_active_postgres, mem_active_postgres, Postgres.healthy_removeBackend]
  | memory backends => exact Finset.mem_erase.trans and_comm

theorem mem_active_addBackend : c ∈ (s.addBackend b).active ↔ c = b ∨ c ∈ s.active := by
  cases s with
  | redis r => exact Finset.mem_insert
  | postgres d =>
    rw [addBackend, mem_active_postgres, mem_active_postgres, Postgres.healthy_addBackend]
  | memory backends => exact Finset.mem_insert

/-! ## The bulk operations -/

theorem lookup_getAllAssignments (s : Store) (k : RoutingKey) :
    s.getAllAssignments.lookup k = s.getAssignment k := by
  cases s with
  | redis r => exact Redis.lookup_getAllAssignments r k
  | postgres d => rfl
  | memory backends => rfl

/-- There is something under the key that a bulk assign does not touch: a
value, decodable or not, or a row. The memory store assigns nothing. -/
def Occupied (k : RoutingKey) : Store → Prop
  | .redis r => (r.assignments.lookup k).isSome
  | .postgres d => (d.assignments.lookup k).isSome
  | .memory _ => True

theorem occupied_of_getAssignment {a : Assignment} (h : s.getAssignment k = some a) :
    s.Occupied k := by
  cases s with
  | redis r =>
    obtain ⟨v, hv, -⟩ := Option.bind_eq_some_iff.1 h
    exact Option.isSome_of_eq_some hv
  | postgres d => exact Option.isSome_of_eq_some h
  | memory backends => trivial

theorem getAssignment_of_not_occupied (h : ¬ s.Occupied k) : s.getAssignment k = none := by
  rw [Option.eq_none_iff_forall_ne_some]
  exact fun a ha => h (occupied_of_getAssignment ha)

/-- A key the delete has read is free afterwards. -/
theorem not_occupied_bulkDeleteAssignments {keys : List RoutingKey} {a : Assignment}
    (hk : k ∈ keys) (ha : s.getAssignment k = some a) :
    ¬ (s.bulkDeleteAssignments keys).Occupied k := by
  cases s with
  | redis r =>
    have hread : k ∈ (Redis.readAll keys r).map Prod.fst :=
      Redis.mem_map_fst_readAll.2 ⟨hk, Option.isSome_of_eq_some ha⟩
    simp only [bulkDeleteAssignments, Occupied, Redis.bulkDeleteAssignments, Table.lookup_eraseAll,
      if_pos hread]
    exact Bool.false_ne_true
  | postgres d =>
    simp only [bulkDeleteAssignments, Occupied, Postgres.lookup_bulkDeleteAssignments, if_pos hk]
    exact Bool.false_ne_true
  | memory backends => cases ha

/-- A delete fills no key. -/
theorem occupied_of_bulkDeleteAssignments {keys : List RoutingKey}
    (h : (s.bulkDeleteAssignments keys).Occupied k) : s.Occupied k := by
  cases s with
  | redis r =>
    simp only [bulkDeleteAssignments, Occupied, Redis.bulkDeleteAssignments,
      Table.lookup_eraseAll] at h
    split at h
    · cases h
    · exact h
  | postgres d =>
    simp only [bulkDeleteAssignments, Occupied, Postgres.lookup_bulkDeleteAssignments] at h
    split at h
    · cases h
    · exact h
  | memory backends => trivial

/-- The store holds a table of assignments: what is under a key is one. A
text that does not decode is none, and the memory store has no table. -/
def Tabled (s : Store) : Prop := ∀ k, s.Occupied k → ∃ a, s.getAssignment k = some a

/-- A bulk assign leaves what is there. -/
theorem getAssignment_bulkAssign_of_occupied (h : s.Occupied k)
    (entries : Table RoutingKey BulkAssignEntry) :
    (s.bulkAssign now entries).2.getAssignment k = s.getAssignment k := by
  cases s with
  | redis r =>
    have hlook : (Redis.bulkAssign now entries r).2.assignments.lookup k =
        (r.assignments.lookup k).or ((entries.lookup k).map (Redis.bulkValue now)) :=
      Table.lookup_insertNew_pairs _ _ k
    obtain ⟨v, hv⟩ := Option.isSome_iff_exists.1 h
    simp only [bulkAssign, getAssignment, Redis.getAssignment, hlook, hv, Option.some_or]
  | postgres d =>
    obtain ⟨a, ha⟩ := Option.isSome_iff_exists.1 h
    simp only [bulkAssign, getAssignment, Postgres.getAssignment, Postgres.lookup_bulkAssign, ha,
      Option.some_or]
  | memory backends => rfl

/-- And assigns the keys that are free. -/
theorem getAssignment_bulkAssign_of_not_occupied (h : ¬ s.Occupied k)
    (entries : Table RoutingKey BulkAssignEntry) :
    (s.bulkAssign now entries).2.getAssignment k =
      (entries.lookup k).map fun e => ⟨e.backend, now, "assignment", e.storedWeight⟩ := by
  cases s with
  | redis r =>
    have hnone : r.assignments.lookup k = none := Option.not_isSome_iff_eq_none.1 h
    have hlook : (Redis.bulkAssign now entries r).2.assignments.lookup k =
        (r.assignments.lookup k).or ((entries.lookup k).map (Redis.bulkValue now)) :=
      Table.lookup_insertNew_pairs _ _ k
    simp only [bulkAssign, getAssignment, Redis.getAssignment, hlook, hnone, Option.none_or]
    rcases entries.lookup k with - | e
    · rfl
    · exact Redis.unmarshalAssignment_bulkValue e
  | postgres d =>
    have hnone : d.assignments.lookup k = none := Option.not_isSome_iff_eq_none.1 h
    simp only [bulkAssign, getAssignment, Postgres.getAssignment, Postgres.lookup_bulkAssign,
      hnone, Option.none_or]
    rfl
  | memory backends => exact absurd trivial h

/-- The answer names the keys assigned. -/
theorem lookup_bulkAssign_of_not_occupied (h : ¬ s.Occupied k)
    (entries : Table RoutingKey BulkAssignEntry) :
    (s.bulkAssign now entries).1.lookup k = (entries.lookup k).map (·.backend) := by
  cases s with
  | redis r => exact (Redis.lookup_bulkAssign_answer entries k).trans (if_neg h)
  | postgres d => exact (Postgres.lookup_bulkAssign_answer entries k).trans (if_neg h)
  | memory backends => exact absurd trivial h

theorem lookup_bulkAssign_of_eq_none {entries : Table RoutingKey BulkAssignEntry}
    (h : entries.lookup k = none) : (s.bulkAssign now entries).1.lookup k = none := by
  cases s with
  | redis r =>
    refine (Redis.lookup_bulkAssign_answer entries k).trans ?_
    rw [h]
    exact ite_self _
  | postgres d =>
    refine (Postgres.lookup_bulkAssign_answer entries k).trans ?_
    rw [h]
    exact ite_self _
  | memory backends => rfl

theorem getAssignment_bulkAssign_of_eq_none {entries : Table RoutingKey BulkAssignEntry}
    (h : entries.lookup k = none) :
    (s.bulkAssign now entries).2.getAssignment k = s.getAssignment k := by
  by_cases hocc : s.Occupied k
  · exact getAssignment_bulkAssign_of_occupied hocc entries
  · rw [getAssignment_bulkAssign_of_not_occupied hocc, h, getAssignment_of_not_occupied hocc]
    rfl

/-- What a bulk assign leaves was there, or is in its answer. -/
theorem stored_or_assigned {entries : Table RoutingKey BulkAssignEntry} {a : Assignment}
    (ha : (s.bulkAssign now entries).2.getAssignment k = some a) :
    s.getAssignment k = some a ∨ (s.bulkAssign now entries).1.lookup k = some a.backend := by
  by_cases hocc : s.Occupied k
  · rw [getAssignment_bulkAssign_of_occupied hocc] at ha
    exact Or.inl ha
  · rw [getAssignment_bulkAssign_of_not_occupied hocc] at ha
    obtain ⟨e, he, rfl⟩ := Option.map_eq_some_iff.1 ha
    rw [lookup_bulkAssign_of_not_occupied hocc, he]
    exact Or.inr rfl

theorem active_bulkAssign (entries : Table RoutingKey BulkAssignEntry) :
    (s.bulkAssign now entries).2.active = s.active := by
  cases s <;> rfl

/-! ## `AssignLeastLoaded` -/

/-- What a call may answer and leave, over either table store. -/
inductive Assigns (order : List Backend) (k : RoutingKey) (now : Time) :
    Store → Option Assignment → Store → Prop
  | redis {r r' : Redis.Keyspace} {answer : Option Assignment} :
      Redis.Assigns order k now r answer r' → Assigns order k now (.redis r) answer (.redis r')
  | postgres {d d' : Postgres.Database} {answer : Option Assignment} :
      Postgres.Assigns order k now d answer d' →
      Assigns order k now (.postgres d) answer (.postgres d')
  | memory {backends : Finset Backend} :
      Assigns order k now (.memory backends) none (.memory backends)

theorem assigns_assignLeastLoaded (h : Enumerates order s.candidates) {answer : Option Assignment}
    {s' : Store} (hcall : s.assignLeastLoaded order now k = (answer, s')) :
    s.Assigns order k now answer s' := by
  cases s with
  | redis r =>
    obtain ⟨rfl, rfl⟩ := Prod.mk.inj hcall
    exact .redis (Redis.assigns_assignViaTable k now h)
  | postgres d =>
    obtain ⟨rfl, rfl⟩ := Prod.mk.inj hcall
    exact .postgres (Postgres.assigns_assignLeastLoaded k now h)
  | memory backends =>
    obtain ⟨rfl, rfl⟩ := Prod.mk.inj hcall
    exact .memory

/-- The answer alone, with whatever store comes with it. -/
theorem exists_assigns_of_answer (h : Enumerates order s.candidates) {answer : Option Assignment}
    (ha : (s.assignLeastLoaded order now k).1 = answer) :
    ∃ s', s.assignLeastLoaded order now k = (answer, s') ∧ s.Assigns order k now answer s' := by
  have hcall : s.assignLeastLoaded order now k = (answer, (s.assignLeastLoaded order now k).2) :=
    Prod.ext ha rfl
  exact ⟨_, hcall, assigns_assignLeastLoaded h hcall⟩

/-- The call touches the one key, which is left with what was answered. -/
structure Placed (s : Store) (k : RoutingKey) (answer : Option Assignment) (s' : Store) :
    Prop where
  active : s'.active = s.active
  others : ∀ k' ≠ k, s'.getAssignment k' = s.getAssignment k'
  answered : ∀ a, answer = some a → s'.getAssignment k = some a ∧
    (s.getAssignment k = some a ∨ a.backend ∈ s.active)
  kept : ∀ a, s.getAssignment k = some a → a.backend ∈ s.active → s'.getAssignment k = some a

theorem placed_self {answer : Option Assignment}
    (h : ∀ a, answer = some a → s.getAssignment k = some a) : Placed s k answer s :=
  ⟨rfl, fun _ _ => rfl, fun a ha => ⟨h a ha, Or.inl (h a ha)⟩, fun _ ha _ => ha⟩

theorem placed_assignLeastLoaded (k : RoutingKey) (now : Time)
    (h : Enumerates order s.candidates) :
    Placed s k (s.assignLeastLoaded order now k).1 (s.assignLeastLoaded order now k).2 := by
  rcases hcall : s.assignLeastLoaded order now k with ⟨answer, s'⟩
  cases assigns_assignLeastLoaded h hcall with
  | @redis r _ _ hassigns =>
    cases hassigns with
    | keep hk hb =>
      refine placed_self fun a ha => ?_
      rw [← ha]
      exact hk
    | corrupt hv hnone => exact placed_self fun a ha => nomatch ha
    | refuse hempty hact hget =>
      refine ⟨hact, fun k' hk' => (hget k').trans (if_neg hk'), fun a ha => ?_, fun a _ ha => ?_⟩
      · cases ha
      · rw [show (Store.redis r).active = ∅ from hempty] at ha
        exact absurd ha (Finset.notMem_empty _)
    | assign hstale hsel hb hleast hact hget =>
      refine ⟨hact, fun k' hk' => (hget k').trans (if_neg hk'), fun a ha => ?_, fun a ha hact => ?_⟩
      · obtain rfl := Option.some.inj ha
        exact ⟨(hget k).trans (if_pos rfl), Or.inr hb⟩
      · exact absurd hact (hstale a ha)
  | @postgres d _ _ hassigns =>
    cases hassigns with
    | keep hk hne =>
      refine placed_self fun a ha => ?_
      rw [← ha]
      exact hk
    | refuse hempty => exact placed_self fun a ha => nomatch ha
    | assign hk hsel hb hleast =>
      refine ⟨rfl, fun k' hk' => ?_, fun a ha => ?_, fun a ha _ => ?_⟩
      · simp only [getAssignment, Postgres.getAssignment, Table.lookup_insert_eq, if_neg hk']
      · obtain rfl := Option.some.inj ha
        refine ⟨?_, Or.inr (mem_active_postgres.2 (Postgres.Database.mem_joined.1 hb).2)⟩
        simp only [getAssignment, Postgres.getAssignment, Table.lookup_insert_eq, if_pos]
      · rw [show (Store.postgres d).getAssignment k = none from hk] at ha
        cases ha
  | memory => exact placed_self fun a ha => nomatch ha

/-- What a call leaves was there, or is its answer. -/
theorem stored_or_answer {a : Assignment} (h : Enumerates order s.candidates)
    (ha : (s.assignLeastLoaded order now k).2.getAssignment k' = some a) :
    s.getAssignment k' = some a ∨ k' = k ∧ (s.assignLeastLoaded order now k).1 = some a := by
  have hplaced := placed_assignLeastLoaded k now h
  by_cases hk : k' = k
  · subst hk
    rcases hans : (s.assignLeastLoaded order now k').1 with - | x
    · -- A call that fails assigns nothing, but the script may have dropped a stale assignment.
      obtain ⟨s', hcall, hassigns⟩ := exists_assigns_of_answer h hans
      rw [hcall] at ha
      refine Or.inl ?_
      cases hassigns with
      | redis hassigns =>
        cases hassigns with
        | corrupt _ _ => exact ha
        | refuse _ _ hget =>
          have hnone := (hget k').trans (if_pos rfl)
          exact absurd (hnone.symm.trans ha) (Option.some_ne_none a).symm
      | postgres hassigns =>
        cases hassigns with
        | refuse _ => exact ha
      | memory => exact ha
    · rw [(hplaced.answered x hans).1] at ha
      exact Or.inr ⟨rfl, ha⟩
  · rw [hplaced.others k' hk] at ha
    exact Or.inl ha

/-- `AssignLeastLoaded` leaves an assignment as it is: the script asks that
its backend is active, the SQL asks nothing. -/
def Keeps (a : Assignment) : Store → Prop
  | .redis r => a.backend ∈ r.active
  | .postgres _ => True
  | .memory _ => False

instance (a : Assignment) : ∀ s : Store, Decidable (s.Keeps a)
  | .redis r => inferInstanceAs (Decidable (a.backend ∈ r.active))
  | .postgres _ => isTrue trivial
  | .memory _ => isFalse id

/-- An assignment that is kept is the answer, and nothing changes. -/
theorem assignLeastLoaded_of_keeps {a : Assignment} (h : Enumerates order s.candidates)
    (ha : s.getAssignment k = some a) (hkeeps : s.Keeps a) :
    (s.assignLeastLoaded order now k).2 = s ∧
      ∀ a', (s.assignLeastLoaded order now k).1 = some a' → a' = a := by
  rcases hcall : s.assignLeastLoaded order now k with ⟨answer, s'⟩
  cases assigns_assignLeastLoaded h hcall with
  | redis hassigns =>
    cases hassigns with
    | keep hk _ => exact ⟨rfl, fun a' ha' => Option.some.inj (ha'.symm.trans (hk.symm.trans ha))⟩
    | corrupt hv hnone => exact ⟨rfl, fun a' ha' => nomatch ha'⟩
    | refuse hempty _ _ =>
      rw [Keeps, hempty] at hkeeps
      exact absurd hkeeps (Finset.notMem_empty _)
    | assign hstale _ _ _ _ _ => exact absurd hkeeps (hstale a ha)
  | @postgres d _ _ hassigns =>
    cases hassigns with
    | keep hk _ => exact ⟨rfl, fun a' ha' => Option.some.inj (ha'.symm.trans (hk.symm.trans ha))⟩
    | refuse _ => exact ⟨rfl, fun a' ha' => nomatch ha'⟩
    | assign hk _ _ _ =>
      rw [show (Store.postgres d).getAssignment k = none from hk] at ha
      cases ha
  | memory => exact hkeeps.elim

/-- Which assignments are kept does not depend on the table. -/
theorem keeps_assignLeastLoaded (h : Enumerates order s.candidates) (k : RoutingKey) (now : Time)
    (a : Assignment) : (s.assignLeastLoaded order now k).2.Keeps a ↔ s.Keeps a := by
  have hactive := (placed_assignLeastLoaded k now h).active
  cases s with
  | redis r => exact iff_of_eq (congrArg (a.backend ∈ ·) hactive)
  | postgres d => exact Iff.rfl
  | memory backends => exact Iff.rfl

/-- What is answered is stored, and kept from then on. -/
theorem keeps_of_answer {a : Assignment} (h : Enumerates order s.candidates)
    (ha : (s.assignLeastLoaded order now k).1 = some a) : s.Keeps a := by
  obtain ⟨s', -, hassigns⟩ := exists_assigns_of_answer h ha
  cases hassigns with
  | redis hassigns =>
    rcases hassigns.answer_cases with ⟨-, hb⟩ | ⟨-, -, hb, -⟩
    · exact hb
    · exact hb
  | postgres _ => trivial

/-- The key has the assignment, and keeps it. -/
def Stays (s : Store) (k : RoutingKey) (a : Assignment) : Prop :=
  s.getAssignment k = some a ∧ s.Keeps a

/-- It does so through every call for any key. -/
theorem Stays.call {a x : Assignment} {s' : Store} (h : s.Stays k a)
    (horder : Enumerates order s.candidates)
    (hans : s.assignLeastLoaded order now k' = (some x, s')) : s'.Stays k a := by
  have hs' : (s.assignLeastLoaded order now k').2 = s' := by rw [hans]
  subst hs'
  refine ⟨?_, (keeps_assignLeastLoaded horder k' now a).2 h.2⟩
  by_cases hk : k = k'
  · subst hk
    rw [(assignLeastLoaded_of_keeps horder h.1 h.2).1]
    exact h.1
  · rw [(placed_assignLeastLoaded k' now horder).others k hk]
    exact h.1

/-- What is answered stays. -/
theorem stays_of_answer {a : Assignment} {s' : Store} (horder : Enumerates order s.candidates)
    (hans : s.assignLeastLoaded order now k = (some a, s')) : s'.Stays k a := by
  have hanswer : (s.assignLeastLoaded order now k).1 = some a := by rw [hans]
  have hs' : (s.assignLeastLoaded order now k).2 = s' := by rw [hans]
  subst hs'
  exact ⟨((placed_assignLeastLoaded k now horder).answered a hanswer).1,
    (keeps_assignLeastLoaded horder k now a).2 (keeps_of_answer horder hanswer)⟩

/-- The store has the key on the backend, and keeps it there. -/
def Settled (s : Store) (k : RoutingKey) (b : Backend) : Prop :=
  ∃ a, s.Stays k a ∧ a.backend = b

theorem Settled.unique (h : s.Settled k b) (h' : s.Settled k c) : b = c := by
  obtain ⟨a, ⟨ha, -⟩, rfl⟩ := h
  obtain ⟨a', ⟨ha', -⟩, rfl⟩ := h'
  rw [Option.some.inj (ha.symm.trans ha')]

theorem Settled.call {x : Assignment} {s' : Store} (h : s.Settled k b)
    (horder : Enumerates order s.candidates)
    (hans : s.assignLeastLoaded order now k' = (some x, s')) : s'.Settled k b := by
  obtain ⟨a, ha, rfl⟩ := h
  exact ⟨a, ha.call horder hans, rfl⟩

theorem settled_of_answer {a : Assignment} {s' : Store} (horder : Enumerates order s.candidates)
    (hans : s.assignLeastLoaded order now k = (some a, s')) : s'.Settled k a.backend :=
  ⟨a, stays_of_answer horder hans, rfl⟩

/-- Only the backend decides whether an assignment is kept, and the bulk
operations do not change that. -/
theorem keeps_congr {a a' : Assignment} (h : a.backend = a'.backend) : s.Keeps a ↔ s.Keeps a' := by
  cases s with
  | redis r => rw [Keeps, Keeps, h]
  | postgres d => exact Iff.rfl
  | memory backends => exact Iff.rfl

theorem keeps_bulkDeleteAssignments (keys : List RoutingKey) (a : Assignment) :
    (s.bulkDeleteAssignments keys).Keeps a ↔ s.Keeps a := by
  cases s <;> exact Iff.rfl

theorem keeps_bulkAssign (entries : Table RoutingKey BulkAssignEntry) (a : Assignment) :
    (s.bulkAssign now entries).2.Keeps a ↔ s.Keeps a := by
  cases s <;> exact Iff.rfl

/-- An assignment to an active backend is kept. -/
theorem keeps_of_mem_active {a : Assignment} (ha : s.getAssignment k = some a)
    (hactive : a.backend ∈ s.active) : s.Keeps a := by
  cases s with
  | redis r => exact hactive
  | postgres d => trivial
  | memory backends => cases ha

/-- A call leaves the other keys free that were free. -/
theorem occupied_assignLeastLoaded_of_ne (now : Time) (horder : Enumerates order s.candidates)
    (h : k' ≠ k) :
    (s.assignLeastLoaded order now k).2.Occupied k' ↔ s.Occupied k' := by
  cases s with
  | redis r => rw [assignLeastLoaded, Occupied, Redis.lookup_assignViaTable_of_ne h, Occupied]
  | postgres d =>
    have hothers := (placed_assignLeastLoaded k now horder).others k' h
    exact iff_of_eq (congrArg (Option.isSome · = true) hothers)
  | memory backends => exact Iff.rfl

/-- What is answered was stored, or is new and of weight one. -/
theorem stored_or_fresh_of_answer {a : Assignment} (h : Enumerates order s.candidates)
    (ha : (s.assignLeastLoaded order now k).1 = some a) :
    s.getAssignment k = some a ∨ a.effectiveWeight = 1 := by
  obtain ⟨s', -, hassigns⟩ := exists_assigns_of_answer h ha
  cases hassigns with
  | redis hassigns =>
    cases hassigns with
    | keep hk _ => exact Or.inl hk
    | assign _ _ _ _ _ _ => exact Or.inr rfl
  | postgres hassigns =>
    cases hassigns with
    | keep hk _ => exact Or.inl hk
    | assign _ _ _ _ => exact Or.inr rfl

/-- `AssignLeastLoaded` succeeds for every key: there is a backend to
choose, and the hash has no value that does not decode. -/
def Ready : Store → Prop
  | .redis r => r.Decodes ∧ r.active.Nonempty
  | .postgres d => d.joined.Nonempty
  | .memory _ => False

theorem isSome_answer_of_ready (k : RoutingKey) (now : Time) (hready : s.Ready)
    (h : Enumerates order s.candidates) : ((s.assignLeastLoaded order now k).1).isSome := by
  rcases hcall : s.assignLeastLoaded order now k with ⟨answer, s'⟩
  cases assigns_assignLeastLoaded h hcall with
  | redis hassigns =>
    cases hassigns with
    | keep _ _ => rfl
    | corrupt hv hnone =>
      have hdecodes := hready.1 _ _ hv
      rw [hnone] at hdecodes
      cases hdecodes
    | refuse hempty _ _ => exact absurd hempty hready.2.ne_empty
    | assign _ _ _ _ _ _ => rfl
  | postgres hassigns =>
    cases hassigns with
    | keep _ _ => rfl
    | refuse hempty => exact absurd hempty (Finset.Nonempty.ne_empty hready)
    | assign _ _ _ _ => rfl
  | memory => exact hready.elim

/-- The backends `AssignLeastLoaded` may answer with for a key: that of its
assignment, where the store keeps to it, and otherwise any of the lightest
candidates. -/
def Chooses (k : RoutingKey) (b : Backend) : Store → Prop
  | .redis r =>
    (∃ a, Redis.getAssignment k r = some a ∧ a.backend ∈ r.active ∧ a.backend = b) ∨
      ((∀ a, Redis.getAssignment k r = some a → a.backend ∉ r.active) ∧
        b ∈ r.active ∧ ∀ c ∈ r.active, r.counts.value b ≤ r.counts.value c)
  | .postgres d =>
    (∃ a, d.assignments.lookup k = some a ∧ a.backend = b) ∨
      (d.assignments.lookup k = none ∧
        b ∈ d.joined ∧ ∀ c ∈ d.joined, d.counts.value b ≤ d.counts.value c)
  | .memory _ => False

/-- A set can be listed with a given member first. -/
theorem exists_enumerates_cons {t : Finset Backend} (hb : b ∈ t) :
    ∃ rest, Enumerates (b :: rest) t := by
  refine ⟨(t.erase b).toList, ?_, ?_⟩
  · exact List.nodup_cons.2 ⟨by simp, Finset.nodup_toList _⟩
  · rw [List.toFinset_cons, Finset.toList_toFinset, Finset.insert_erase hb]

/-- Listed first, a lightest member is the one selected. -/
theorem least_cons_of_le {counts : Table Backend ℤ} {rest : List Backend}
    (h : ∀ c ∈ b :: rest, counts.value b ≤ counts.value c) :
    counts.least (b :: rest) = some b := by
  refine Table.least_eq_some.2 ⟨List.mem_cons_self, h, fun c _ _ => ?_⟩
  rw [List.idxOf_cons_self]
  exact Nat.zero_le _

/-- What is answered may be chosen. -/
theorem chooses_of_assignLeastLoaded {a : Assignment} (h : Enumerates order s.candidates)
    (ha : (s.assignLeastLoaded order now k).1 = some a) : s.Chooses k a.backend := by
  obtain ⟨s', -, hassigns⟩ := exists_assigns_of_answer h ha
  cases hassigns with
  | redis hassigns =>
    rcases hassigns.answer_cases with ⟨hk, hb⟩ | ⟨hstale, -, hb, hleast⟩
    · exact Or.inl ⟨a, hk, hb, rfl⟩
    · exact Or.inr ⟨hstale, hb, hleast⟩
  | postgres hassigns =>
    rcases hassigns.answer_cases with hk | ⟨hk, -, hb, hleast⟩
    · exact Or.inl ⟨a, hk, rfl⟩
    · exact Or.inr ⟨hk, hb, hleast⟩

/-- And what may be chosen is answered for some order of the candidates,
as long as the call succeeds. -/
theorem exists_order_of_chooses (hb : s.Chooses k b)
    (hsome : ∀ order, Enumerates order s.candidates →
      ((s.assignLeastLoaded order now k).1).isSome) :
    ∃ order a, Enumerates order s.candidates ∧ (s.assignLeastLoaded order now k).1 = some a ∧
      a.backend = b := by
  -- The candidates in an order that has the backend first, if it is one.
  obtain ⟨order, horder, hfirst⟩ : ∃ order, Enumerates order s.candidates ∧
      ∀ counts : Table Backend ℤ, b ∈ s.candidates →
        (∀ c ∈ s.candidates, counts.value b ≤ counts.value c) →
        counts.least order = some b := by
    by_cases hmem : b ∈ s.candidates
    · obtain ⟨rest, horder⟩ := exists_enumerates_cons hmem
      exact ⟨_, horder, fun counts _ hle => least_cons_of_le fun c hc => hle c (horder.mem.1 hc)⟩
    · exact ⟨s.candidates.toList, ⟨Finset.nodup_toList _, Finset.toList_toFinset _⟩,
        fun _ h _ => absurd h hmem⟩
  obtain ⟨a, ha⟩ := Option.isSome_iff_exists.1 (hsome order horder)
  refine ⟨order, a, horder, ha, ?_⟩
  obtain ⟨s', -, hassigns⟩ := exists_assigns_of_answer horder ha
  cases hassigns with
  | redis hassigns =>
    rcases hassigns.answer_cases with ⟨hk, hact⟩ | ⟨hstale, hsel, -, -⟩
    · rcases hb with ⟨a', hk', -, rfl⟩ | ⟨hstale, -, -⟩
      · rw [Option.some.inj (hk.symm.trans hk')]
      · exact absurd hact (hstale a hk)
    · rcases hb with ⟨a', hk', hact', -⟩ | ⟨-, hmem, hleast⟩
      · exact absurd hact' (hstale a' hk')
      · exact Option.some.inj (hsel.symm.trans (hfirst _ hmem hleast))
  | postgres hassigns =>
    rcases hassigns.answer_cases with hk | ⟨hk, hsel, -, -⟩
    · rcases hb with ⟨a', hk', rfl⟩ | ⟨hk', -, -⟩
      · rw [Option.some.inj (hk.symm.trans hk')]
      · rw [hk'] at hk
        cases hk
    · rcases hb with ⟨a', hk', -⟩ | ⟨-, hmem, hleast⟩
      · rw [hk'] at hk
        cases hk
      · exact Option.some.inj (hsel.symm.trans (hfirst _ hmem hleast))

end Store

end StickyProxy
