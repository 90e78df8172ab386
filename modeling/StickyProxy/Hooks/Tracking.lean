import StickyProxy.Hooks.Model.Delivery
import StickyProxy.Common.Follower
import StickyProxy.Common.Pool
import StickyProxy.Common.Run
import StickyProxy.Proxy.Traffic
import StickyProxy.Store.Effects
/-!
# What the backends take for their own

The backends follow the table by their hooks. A hook says what was true
when it was sent, and the backend applies it when it arrives; nothing
orders an assign hook of a request after the unassign hook of a drain.
Three things go wrong, and nothing else does: an assign hook is received
when the assignment is gone or its end has been announced, a stale
assignment is replaced by the store without an unassign hook, or a bulk
delete takes an assignment away from a backend that was not told.
-/

namespace StickyProxy

namespace Hooks

open Traffic

variable {b c : Backend} {u k : RoutingKey} {log : List (Backend × Message)} {holdMgr : Bool}

/-! ## What a message changes -/

theorem owned_append (m : Backend × Message) :
    owned b (log ++ [m]) = if m.1 = b then m.2.apply (owned b log) else owned b log := by
  by_cases h : m.1 = b
  · simp [owned, received, h]
  · simp [owned, received, h]

theorem mem_owned_unassign {users : List RoutingKey} :
    u ∈ owned b (log ++ [(c, .unassign users)]) ↔ u ∈ owned b log ∧ ¬ (c = b ∧ u ∈ users) := by
  rw [owned_append]
  by_cases h : c = b
  · simp [h, Message.apply]
  · simp [h]

theorem mem_owned_assign {users : List RoutingKey} :
    u ∈ owned b (log ++ [(c, .assign users)]) ↔ u ∈ owned b log ∨ c = b ∧ u ∈ users := by
  rw [owned_append]
  by_cases h : c = b
  · simp [h, Message.apply]
  · simp [h]

/-! ## What a call of the store changes -/

section Stored

variable {store store' : Store} {keys : List RoutingKey} {now : Time}

theorem stored_congr (h : ∀ u, store'.getAssignment u = store.getAssignment u) :
    Stored store' b u ↔ Stored store b u := by
  rw [Stored, Stored, h]

theorem stored_bulkDeleteAssignments :
    Stored (store.bulkDeleteAssignments keys) b u ↔ Stored store b u ∧ u ∉ keys := by
  rw [Stored, Store.getAssignment_bulkDeleteAssignments]
  by_cases hu : u ∈ keys
  · simp [hu]
  · simp [hu, Stored]

/-- What was there is still there, when the call keeps what it finds. -/
theorem stored_assignLeastLoaded_of_stored {order : List Backend}
    (horder : Enumerates order store.candidates)
    (hkeeps : ∀ a ∈ store.getAssignment k, store.Keeps a) (h : Stored store b u) :
    Stored (store.assignLeastLoaded order now k).2 b u := by
  obtain ⟨a, ha, rfl⟩ := h
  by_cases hu : u = k
  · subst hu
    rw [(Store.assignLeastLoaded_of_keeps horder ha (hkeeps a ha)).1]
    exact ⟨a, ha, rfl⟩
  · exact ⟨a, ((Store.placed_assignLeastLoaded k now horder).others u hu).trans ha, rfl⟩

end Stored

/-! ## What the operations have on their way -/

/-- The pairs an operation has sent the unassign hooks of and is going to
delete. -/
def Operation.told : Operation → List (Backend × RoutingKey)
  | .drainDelete b users => users.map fun u => (b, u)
  | .rebalanceUnassign _ told _ | .rebalanceDelete _ told => Table.ungroup told
  | _ => []

/-- The pairs it is going to send the assign hooks of. -/
def Operation.owes : Operation → List (Backend × RoutingKey)
  | .rebalanceInvalidate _ assigned _ => assigned.pairs.map fun e => (e.2, e.1)
  | .rebalanceAssign _ todo => Table.ungroup todo
  | _ => []

/-- The pairs some operation is about to delete, their backends told. -/
def System.leaving (s : System) : List (Backend × RoutingKey) :=
  s.operations.flatMap fun p => p.2.told

/-- The pairs an assign hook is under way for, or will be. -/
def System.due (s : System) : List (Backend × RoutingKey) :=
  s.hooks ++ s.requests.flatMap (fun p => asyncHook p.2) ++ s.operations.flatMap fun p => p.2.owes

/-- An assign hook is news: the assignment is there, and its end has not
been announced. -/
def News (s : System) (b : Backend) (u : RoutingKey) : Prop :=
  Stored s.store b u ∧ (b, u) ∉ s.leaving

instance (s : System) (b : Backend) (u : RoutingKey) : Decidable (News s b u) :=
  inferInstanceAs (Decidable (_ ∧ _))

/-! ## The condition -/

/-- A request does not have a stale assignment replaced. -/
def Replaces (store : Store) : RequestStep → Prop
  | .assign k => ∃ a ∈ store.getAssignment k, ¬ store.Keeps a
  | _ => False

instance (store : Store) : ∀ q : RequestStep, Decidable (Replaces store q)
  | .assign k => inferInstanceAs (Decidable (∃ a ∈ store.getAssignment k, ¬ store.Keeps a))
  | .start _ | .wait _ | .held _ | .get _ | .check _ _ | .unfit _ | .set _ _ | .forwarded _ _
  | .refused _ => isFalse id

/-- An operation sends assign hooks that are news, and deletes no
assignment whose backend it has not told. -/
def Operation.Orderly (s : System) : Operation → Prop
  | .drainDelete b users => ∀ u ∈ users, ∀ a ∈ s.store.getAssignment u, a.backend = b
  | .rebalanceDelete p told => ∀ k ∈ Rebalance.routingKeys p.moves,
      ∀ a ∈ s.store.getAssignment k, (a.backend, k) ∈ Table.ungroup told
  | .rebalanceAssign _ (g :: _) => ∀ u ∈ g.2, News s g.1 u
  | _ => True

instance (s : System) : ∀ op : Operation, Decidable (op.Orderly s)
  | .drainDelete b users =>
    inferInstanceAs (Decidable (∀ u ∈ users, ∀ a ∈ s.store.getAssignment u, a.backend = b))
  | .rebalanceDelete p told => inferInstanceAs (Decidable (∀ k ∈ Rebalance.routingKeys p.moves,
      ∀ a ∈ s.store.getAssignment k, (a.backend, k) ∈ Table.ungroup told))
  | .rebalanceAssign _ (g :: _) => inferInstanceAs (Decidable (∀ u ∈ g.2, News s g.1 u))
  | .rebalanceAssign _ [] | .drain _ | .getBackendUsers _ | .drainMark _ _ | .drainUnassign _ _
  | .drainInvalidate _ _ _ | .drainRemove _ _ | .drainClear _ | .rebalance _
  | .getAllAssignments _ | .rebalanceMark _ | .rebalanceUnassign _ _ _ | .bulkAssign _
  | .rebalanceInvalidate _ _ _ | .rebalanceClear _ | .finished => isTrue trivial

/-- The step is none of those that go wrong. -/
def Orderly (s : System) : Action → Prop
  | .request i _ => ∀ p ∈ s.requests[i]?, ¬ Replaces s.store p.2
  | .operation i _ => ∀ p ∈ s.operations[i]?, p.2.Orderly s
  | .deliver n => ∀ h ∈ s.hooks[n]?, News s h.1 h.2
  | _ => True

instance (s : System) : ∀ act : Action, Decidable (Orderly s act)
  | .request i _ => inferInstanceAs (Decidable (∀ p ∈ s.requests[i]?, ¬ Replaces s.store p.2))
  | .operation i _ => inferInstanceAs (Decidable (∀ p ∈ s.operations[i]?, p.2.Orderly s))
  | .deliver n => inferInstanceAs (Decidable (∀ h ∈ s.hooks[n]?, News s h.1 h.2))
  | .notify _ _ | .cleanup _ _ | .addBackend _ | .removeBackend _ => isTrue trivial

/-! ## What an operation can do -/

/-- The operation is about to delete the keys. -/
inductive Operation.Deletes : Operation → List RoutingKey → Prop
  | drain (b : Backend) (users : List RoutingKey) : Deletes (.drainDelete b users) users
  | rebalance (p : Plan) (told : List (Backend × List RoutingKey)) :
      Deletes (.rebalanceDelete p told) (Rebalance.routingKeys p.moves)

/-- A rebalance tells the backends of keys it is going to delete. -/
def Operation.Formed : Operation → Prop
  | .rebalanceUnassign p told todo =>
    ∀ x ∈ Table.ungroup told ++ Table.ungroup todo, x.2 ∈ Rebalance.routingKeys p.moves
  | .rebalanceDelete p told => ∀ x ∈ Table.ungroup told, x.2 ∈ Rebalance.routingKeys p.moves
  | _ => True

variable {t : Turn} {sh sh' : Shared} {op op' : Operation} {keys : List RoutingKey} {s s' : System}
  {act : Action}

/-- Every step an operation can take. -/
inductive Acts (now : Time) (sh : Shared) (op op' : Operation) : Shared → Prop
  /-- It reads, marks, invalidates or removes a backend. -/
  | quiet {store : Store} {f : Frontend} :
      (∀ u, store.getAssignment u = sh.store.getAssignment u) → op'.told = op.told →
      (∀ x ∈ op.owes, x ∈ op'.owes) → Acts now sh op op' ⟨store, f, sh.log⟩
  /-- It sends an unassign hook. -/
  | unassign {c : Backend} {users : List RoutingKey} : op.owes = [] →
      (∀ x, x ∈ op'.told ↔ x ∈ op.told ∨ c = x.1 ∧ x.2 ∈ users) →
      Acts now sh op op' ⟨sh.store, sh.frontend, sh.log ++ [(c, .unassign users)]⟩
  /-- It deletes. -/
  | delete {keys : List RoutingKey} : op.owes = [] → op.Deletes keys → op'.told = [] →
      Acts now sh op op' ⟨sh.store.bulkDeleteAssignments keys, sh.frontend, sh.log⟩
  /-- It assigns. -/
  | assign {entries : Table RoutingKey BulkAssignEntry} : op.owes = [] → op'.told = op.told →
      (∀ u b, (sh.store.bulkAssign now entries).1.lookup u = some b → (b, u) ∈ op'.owes) →
      Acts now sh op op' ⟨(sh.store.bulkAssign now entries).2, sh.frontend, sh.log⟩
  /-- It sends an assign hook. -/
  | announce {p : Plan} {g : Backend × List RoutingKey} {todo : List (Backend × List RoutingKey)} :
      op = .rebalanceAssign p (g :: todo) → op' = .rebalanceAssign p todo →
      Acts now sh op op' ⟨sh.store, sh.frontend, sh.log ++ [(g.1, .assign g.2)]⟩

theorem mem_ungroup_singleton {g : Backend × List RoutingKey} {x : Backend × RoutingKey} :
    x ∈ Table.ungroup [g] ↔ g.1 = x.1 ∧ x.2 ∈ g.2 := by
  obtain ⟨b, u⟩ := x
  simp [Table.ungroup, and_comm, eq_comm]

theorem mem_ungroup_append {g g' : List (Backend × List RoutingKey)} {x : Backend × RoutingKey} :
    x ∈ Table.ungroup (g ++ g') ↔ x ∈ Table.ungroup g ∨ x ∈ Table.ungroup g' := by
  simp only [Table.ungroup, List.flatMap_append, List.mem_append]

/-- The groups of a grouping, in any order, are the pairs grouped. -/
theorem mem_ungroup_of_perm {groups : List (Backend × List RoutingKey)}
    {l : List (Backend × RoutingKey)} {x : Backend × RoutingKey}
    (h : groups.Perm (Table.groupBy l).pairs) : x ∈ Table.ungroup groups ↔ x ∈ l :=
  ((h.flatMap_right _).trans (Table.ungroup_groupBy l)).mem_iff

/-- A step that touches nothing the backends follow. -/
theorem acts_still {now : Time} {f : Frontend} (howes : op.owes = []) (htold : op'.told = op.told) :
    Acts now sh op op' ⟨sh.store, f, sh.log⟩ :=
  .quiet (fun _ => rfl) htold fun _ hx => absurd (howes ▸ hx) List.not_mem_nil

/-- **A step of an operation is one of these.** -/
theorem acts_of_operationStep (h : operationStep holdMgr t sh op = some (op', sh')) :
    Acts t.now sh op op' sh' := by
  revert h
  fun_cases operationStep holdMgr t sh op <;> rintro ⟨⟩
  -- The first steps of a drain and a rebalance choose between two that have told nobody.
  case case1 | case2 | case10 | case11 =>
    refine acts_still rfl ?_
    split <;> rfl
  case case4 b users =>
    refine .unassign rfl fun x => ?_
    obtain ⟨c, u⟩ := x
    simp [Operation.told, and_comm]
  case case5 b users => exact .delete rfl (.drain b users) rfl
  case case8 b users => exact .quiet (fun u => Store.getAssignment_removeBackend u) rfl fun _ h => h
  case case15 p told g todo =>
    refine .unassign rfl fun x => ?_
    simp only [Operation.told, mem_ungroup_append, mem_ungroup_singleton]
  case case16 p told => exact .delete rfl (.rebalance p told) rfl
  case case17 p assigned store hassign =>
    obtain ⟨rfl, rfl⟩ : (sh.store.bulkAssign t.now _).1 = assigned ∧
        (sh.store.bulkAssign t.now _).2 = store := Prod.mk.inj hassign
    refine .assign rfl rfl fun u b hu => ?_
    exact List.mem_map.2 ⟨(u, b), Table.mem_pairs.2 hu, rfl⟩
  case case18 p assigned hperm =>
    exact .quiet (fun _ => rfl) rfl fun x hx => (mem_ungroup_of_perm hperm).2 hx
  case case20 p assigned k todo => exact .quiet (fun _ => rfl) rfl fun _ h => h
  case case22 p g todo => exact .announce rfl rfl
  all_goals exact acts_still rfl rfl

theorem formed_of_operationStep (h : operationStep holdMgr t sh op = some (op', sh'))
    (hop : op.Formed) : op'.Formed := by
  revert h
  fun_cases operationStep holdMgr t sh op <;> rintro ⟨⟩
  case case1 | case2 | case10 | case11 => split <;> trivial
  case case12 p hperm =>
    intro x hx
    have hx : x ∈ p.moves.map fun m => (m.fromBackend, m.routingKey) :=
      (mem_ungroup_of_perm hperm).1 hx
    obtain ⟨m, hm, rfl⟩ := List.mem_map.1 hx
    exact List.mem_map_of_mem hm
  case case14 p told => exact fun x hx => hop x (List.mem_append_left _ hx)
  case case15 p told g todo =>
    intro x hx
    refine hop x ?_
    rw [List.mem_append, mem_ungroup_append] at hx
    rw [List.mem_append, ← List.singleton_append, mem_ungroup_append, ← or_assoc]
    exact hx
  all_goals trivial

/-- The keys of what it has told are among those it deletes. -/
theorem Operation.Deletes.mem_of_told (h : op.Deletes keys) (hop : op.Formed)
    {x : Backend × RoutingKey} (hx : x ∈ op.told) : x.2 ∈ keys := by
  cases h with
  | drain b users =>
    obtain ⟨u, hu, rfl⟩ := List.mem_map.1 hx
    exact hu
  | rebalance p told => exact hop x hx

/-- An orderly delete takes away only what was told. -/
theorem Operation.Deletes.mem_told (h : op.Deletes keys) (hop : op.Orderly s) (hu : u ∈ keys)
    (hs : Stored s.store b u) : (b, u) ∈ op.told := by
  obtain ⟨a, ha, rfl⟩ := hs
  cases h with
  | drain c users =>
    obtain rfl := hop u hu a ha
    exact List.mem_map_of_mem hu
  | rebalance p told => exact hop u hu a ha

/-! ## The backends as followers -/

/-- The store is followed by the logs. -/
def System.follower (s : System) : Follower (Backend × RoutingKey) where
  table := {x | Stored s.store x.1 x.2}
  known := {x | x.2 ∈ owned x.1 s.log}
  leaving := {x | x ∈ s.leaving}
  due := {x | x ∈ s.due}

theorem mem_due {x : Backend × RoutingKey} :
    x ∈ s.due ↔ x ∈ s.hooks ∨ x ∈ s.requests.flatMap (fun p => asyncHook p.2) ∨
      x ∈ s.operations.flatMap fun p => p.2.owes := by
  simp only [System.due, List.mem_append, or_assoc]

section Operation

variable {i r : ℕ} {p : ℕ × Operation} {f : Frontend} {fs : List Frontend} {now : Time}
  {x : Backend × RoutingKey}

/-- The system after a step of one operation. -/
def System.setOperation (s : System) (i : ℕ) (p : ℕ × Operation) (fs : List Frontend)
    (sh : Shared) : System :=
  { s with store := sh.store, frontends := fs, operations := s.operations.set i p, log := sh.log }

theorem mem_leaving_setOperation (hp : s.operations[i]? = some p) :
    x ∈ (s.setOperation i (r, op') fs sh).leaving ↔
      x ∈ op'.told ∨ x ∈ (s.operations.eraseIdx i).flatMap fun p => p.2.told :=
  Pool.mem_flatMap_set hp

theorem mem_leaving_iff (hp : s.operations[i]? = some p) :
    x ∈ s.leaving ↔ x ∈ p.2.told ∨ x ∈ (s.operations.eraseIdx i).flatMap fun p => p.2.told :=
  Pool.mem_flatMap_of_getElem? hp

/-- What is due stays due, but for what the operation owed. -/
theorem due_setOperation_or (hp : s.operations[i]? = some p) (hx : x ∈ s.due) :
    x ∈ (s.setOperation i (r, op') fs sh).due ∨ x ∈ p.2.owes := by
  rw [mem_due] at hx
  rw [mem_due]
  rcases hx with hx | hx | hx
  · exact Or.inl (Or.inl hx)
  · exact Or.inl (Or.inr (Or.inl hx))
  · rcases (Pool.mem_flatMap_of_getElem? hp).1 hx with hx | hx
    · exact Or.inr hx
    · exact Or.inl (Or.inr (Or.inr ((Pool.mem_flatMap_set hp).2 (Or.inr hx))))

theorem due_setOperation_of_owes (hp : s.operations[i]? = some p) (hx : x ∈ op'.owes) :
    x ∈ (s.setOperation i (r, op') fs sh).due :=
  mem_due.2 (Or.inr (Or.inr ((Pool.mem_flatMap_set hp).2 (Or.inl hx))))

theorem due_setOperation (hp : s.operations[i]? = some p) (howes : ∀ x ∈ p.2.owes, x ∈ op'.owes)
    (hx : x ∈ s.due) : x ∈ (s.setOperation i (r, op') fs sh).due :=
  (due_setOperation_or hp hx).elim id fun hx => due_setOperation_of_owes hp (howes x hx)

theorem leaving_setOperation_of_told (hp : s.operations[i]? = some p)
    (htold : op'.told = p.2.told) :
    (s.setOperation i (r, op') fs sh).follower.leaving = s.follower.leaving := by
  ext x
  exact (mem_leaving_setOperation hp).trans (htold ▸ (mem_leaving_iff hp).symm)

/-- **A step of an operation is one of the follower's.** -/
theorem follower_setOperation (hp : s.operations[i]? = some p) (hformed : p.2.Formed)
    (hok : p.2.Orderly s) (hacts : Acts now ⟨s.store, f, s.log⟩ p.2 op' sh) :
    Follower.Step s.follower (s.setOperation i (r, op') fs sh).follower := by
  have hnil : p.2.owes = [] → ∀ x ∈ p.2.owes, x ∈ op'.owes := fun h _ hx =>
    absurd (h ▸ hx) List.not_mem_nil
  cases hacts with
  | quiet hstore htold howes =>
    exact .enter (fun x hx => (stored_congr hstore).2 hx)
      (fun x hx => Or.inl ((stored_congr hstore).1 hx)) rfl
      (leaving_setOperation_of_told hp htold) fun x hx => due_setOperation hp howes hx
  | unassign howes htold =>
    rename_i c users
    refine .retract {x | c = x.1 ∧ x.2 ∈ users} rfl ?_ ?_
      fun x hx => due_setOperation hp (hnil howes) hx
    · ext x
      exact mem_owned_unassign
    · ext x
      refine (mem_leaving_setOperation hp).trans ?_
      rw [htold]
      exact or_right_comm.trans (or_congr_left (mem_leaving_iff hp).symm)
  | delete howes hdel htold =>
    rename_i keys
    refine .remove {x | x.2 ∈ keys} ?_ ?_ rfl ?_ ?_ fun x hx => due_setOperation hp (hnil howes) hx
    · rintro ⟨b, u⟩ ⟨hs, hu⟩
      exact (mem_leaving_iff hp).2 (Or.inl (hdel.mem_told hok hu hs))
    · ext x
      exact stored_bulkDeleteAssignments
    · rintro x ⟨hx, hnot⟩
      rcases (mem_leaving_iff hp).1 hx with hx | hx
      · exact absurd (hdel.mem_of_told hformed hx) hnot
      · exact (mem_leaving_setOperation hp).2 (Or.inr hx)
    · intro x hx
      rcases (mem_leaving_setOperation hp).1 hx with hx | hx
      · exact absurd (htold ▸ hx) List.not_mem_nil
      · exact (mem_leaving_iff hp).2 (Or.inr hx)
  | assign howes htold hassigned =>
    refine .enter ?_ ?_ rfl (leaving_setOperation_of_told hp htold)
      fun x hx => due_setOperation hp (hnil howes) hx
    · rintro ⟨b, u⟩ ⟨a, ha, rfl⟩
      have hocc := Store.occupied_of_getAssignment ha
      exact ⟨a, (Store.getAssignment_bulkAssign_of_occupied hocc _).trans ha, rfl⟩
    · rintro ⟨b, u⟩ ⟨a, ha, rfl⟩
      rcases Store.stored_or_assigned ha with ha | hnew
      · exact Or.inl ⟨a, ha, rfl⟩
      · exact Or.inr (due_setOperation_of_owes hp (hassigned u _ hnew))
  | announce hop hop' =>
    rename_i pl g todo
    rw [hop] at hok
    refine .announce {x | g.1 = x.1 ∧ x.2 ∈ g.2} ?_ rfl ?_ ?_ fun x hx => ?_
    · rintro ⟨b, u⟩ ⟨rfl, hu⟩
      exact hok u hu
    · ext x
      exact mem_owned_assign
    · exact leaving_setOperation_of_told hp (by rw [hop, hop']; rfl)
    · rcases due_setOperation_or hp hx with hx | hx
      · exact Or.inl hx
      · rw [hop, Operation.owes, ← List.singleton_append, mem_ungroup_append,
          mem_ungroup_singleton] at hx
        rcases hx with hx | hx
        · exact Or.inr hx
        · exact Or.inl (due_setOperation_of_owes hp (by rw [hop']; exact hx))

end Operation

/-! ## Requests -/

section Request

variable {i r : ℕ} {p : ℕ × RequestStep} {q : RequestStep} {f f' : Frontend} {fs : List Frontend}
  {store : Store} {ch : Choice} {x : Backend × RoutingKey}

/-- The system after a step of one request. -/
def System.setRequest (s : System) (i : ℕ) (p q : ℕ × RequestStep) (fs : List Frontend)
    (store : Store) : System :=
  { s with
    store := store, frontends := fs, requests := s.requests.set i q
    hooks := s.hooks ++ asyncHook p.2 }

/-- What a request is about to announce is under way then. -/
theorem due_setRequest (hp : s.requests[i]? = some p) (hx : x ∈ s.due) :
    x ∈ (s.setRequest i p (r, q) fs store).due := by
  rw [mem_due] at hx
  rw [mem_due]
  rcases hx with hx | hx | hx
  · exact Or.inl (List.mem_append_left _ hx)
  · rcases (Pool.mem_flatMap_of_getElem? hp).1 hx with hx | hx
    · exact Or.inl (List.mem_append_right _ hx)
    · exact Or.inr (Or.inl ((Pool.mem_flatMap_set hp).2 (Or.inr hx)))
  · exact Or.inr (Or.inr hx)

/-- **A step of a request is one of the follower's.** -/
theorem follower_setRequest (hp : s.requests[i]? = some p) (hok : ¬ Replaces s.store p.2)
    (htakes : Takes ch s.store f p.2 q store f') :
    Follower.Step s.follower (s.setRequest i p (r, q) fs store).follower := by
  have hdue : s.follower.due ⊆ (s.setRequest i p (r, q) fs store).follower.due :=
    fun x hx => due_setRequest hp hx
  cases htakes with
  | pass _ _ _ _ => exact .enter (fun x hx => hx) (fun x hx => Or.inl hx) rfl rfl hdue
  | set _ => exact .enter (fun x hx => hx) (fun x hx => Or.inl hx) rfl rfl hdue
  | assign hq horder hcall =>
    rename_i k a
    rw [hq] at hok
    refine .enter ?_ ?_ rfl rfl hdue
    · have hstore := congrArg Prod.snd hcall
      intro x hx
      refine (congrArg (Stored · x.1 x.2) hstore).mp ?_
      exact stored_assignLeastLoaded_of_stored horder
        (fun a ha => by_contra fun hnot => hok ⟨a, ha, hnot⟩) hx
    · rintro ⟨b, u⟩ ⟨a', ha', rfl⟩
      rw [show store = (s.store.assignLeastLoaded ch.order ch.now k).2 by rw [hcall]] at ha'
      rcases Store.stored_or_answer horder ha' with ha' | ⟨rfl, hans⟩
      · exact Or.inl ⟨a', ha', rfl⟩
      · rw [hcall] at hans
        obtain rfl := Option.some.inj hans
        exact Or.inr (mem_due.2 (Or.inr (Or.inl
          ((Pool.mem_flatMap_set hp).2 (Or.inl List.mem_cons_self)))))

end Request

/-! ## The system -/

/-- A step that leaves every assignment where it is. -/
theorem follower_setStore {store : Store} {fs : List Frontend}
    (h : ∀ u, store.getAssignment u = s.store.getAssignment u) :
    Follower.Step s.follower { s with store := store, frontends := fs : System }.follower :=
  .enter (fun _ hx => (stored_congr h).2 hx) (fun _ hx => Or.inl ((stored_congr h).1 hx)) rfl rfl
    fun _ hx => hx

/-- A step of an operation takes place at its replica. -/
theorem operation_eq_some {i : ℕ} {t : Turn} (h : step holdMgr s (.operation i t) = some s') :
    ∃ p f op' sh, s.operations[i]? = some p ∧
      operationStep holdMgr t ⟨s.store, f, s.log⟩ p.2 = some (op', sh) ∧
      s' = { s with
        store := sh.store
        frontends := s.frontends.set p.1 sh.frontend
        operations := s.operations.set i (p.1, op')
        log := sh.log } := by
  obtain ⟨p, hp, h⟩ := Option.bind_eq_some_iff.1 h
  obtain ⟨f, -, h⟩ := Option.bind_eq_some_iff.1 h
  obtain ⟨⟨op', sh⟩, hop, rfl⟩ := Option.map_eq_some_iff.1 h
  exact ⟨p, f, op', sh, hp, hop, rfl⟩

/-- **An orderly step is one of the follower's.** -/
theorem follower_step (hformed : ∀ p ∈ s.operations, p.2.Formed) (hok : Orderly s act)
    (h : step holdMgr s act = some s') : Follower.Step s.follower s'.follower := by
  cases act with
  | request i ch =>
    obtain ⟨p, hp, h⟩ := Option.bind_eq_some_iff.1 h
    obtain ⟨f, -, h⟩ := Option.bind_eq_some_iff.1 h
    obtain ⟨⟨q, store, f'⟩, hreq, rfl⟩ := Option.map_eq_some_iff.1 h
    exact follower_setRequest hp (hok p hp) (takes_of_requestStep hreq)
  | operation i t =>
    obtain ⟨p, f, op', sh, hp, hop, rfl⟩ := operation_eq_some h
    exact follower_setOperation hp (hformed p (List.mem_of_getElem? hp)) (hok p hp)
      (acts_of_operationStep hop)
  | deliver n =>
    obtain ⟨⟨c, v⟩, hn, rfl⟩ := Option.map_eq_some_iff.1 h
    refine .announce {x | c = x.1 ∧ x.2 ∈ [v]} ?_ rfl ?_ rfl fun x hx => ?_
    · rintro ⟨b, u⟩ ⟨rfl, hu⟩
      obtain rfl := List.mem_singleton.1 hu
      exact hok _ hn
    · ext x
      exact mem_owned_assign
    · rcases mem_due.1 hx with hx | hx
      · rcases Pool.eq_or_mem_eraseIdx_of_mem hx hn with rfl | hx
        · exact Or.inr ⟨rfl, List.mem_singleton_self _⟩
        · exact Or.inl (mem_due.2 (Or.inl hx))
      · exact Or.inl (mem_due.2 (Or.inr hx))
  | notify r b =>
    obtain rfl := Option.some.inj h
    exact follower_setStore (fun _ => rfl)
  | cleanup r now =>
    obtain rfl := Option.some.inj h
    exact follower_setStore (fun _ => rfl)
  | addBackend b =>
    obtain rfl := Option.some.inj h
    exact follower_setStore Store.getAssignment_addBackend
  | removeBackend b =>
    obtain rfl := Option.some.inj h
    exact follower_setStore Store.getAssignment_removeBackend

theorem formed_step (hformed : ∀ p ∈ s.operations, p.2.Formed) (h : step holdMgr s act = some s') :
    ∀ p ∈ s'.operations, p.2.Formed := by
  cases act with
  | request i ch =>
    obtain ⟨p, hp, h⟩ := Option.bind_eq_some_iff.1 h
    obtain ⟨f, -, h⟩ := Option.bind_eq_some_iff.1 h
    obtain ⟨t, -, rfl⟩ := Option.map_eq_some_iff.1 h
    exact hformed
  | operation i t =>
    obtain ⟨p, f, op', sh, hp, hop, rfl⟩ := operation_eq_some h
    intro q hq
    rcases Pool.mem_or_eq_of_mem_set hq with hq | rfl
    · exact hformed q hq
    · exact formed_of_operationStep hop (hformed p (List.mem_of_getElem? hp))
  | deliver n =>
    obtain ⟨x, -, rfl⟩ := Option.map_eq_some_iff.1 h
    exact hformed
  | notify r b | cleanup r now | addBackend b | removeBackend b =>
    obtain rfl := Option.some.inj h
    exact hformed

/-- What every orderly run keeps. -/
structure Kept (s : System) : Prop where
  formed : ∀ p ∈ s.operations, p.2.Formed
  informed : s.follower.Informed

theorem Kept.step (h : Kept s) (hok : Orderly s act) (hst : step holdMgr s act = some s') :
    Kept s' :=
  ⟨formed_step h.formed hst, h.informed.step (follower_step h.formed hok hst)⟩

/-- An operation that has not begun has told nobody. -/
theorem Operation.Starts.told (h : op.Starts) : op.told = [] ∧ op.Formed := by
  cases op with
  | drain b => exact ⟨rfl, trivial⟩
  | rebalance activeBackends => exact ⟨rfl, trivial⟩
  | _ => exact h.elim

theorem System.Fresh.kept (h : s.Fresh) : Kept s := by
  refine ⟨fun p hp => (h.operations p hp).told.2, Follower.informed_of_known_eq ?_ ?_⟩
  · ext x
    exact h.tracked x.1 x.2
  · refine Set.eq_empty_of_forall_notMem fun x hx => ?_
    obtain ⟨p, hp, hx⟩ := List.mem_flatMap.1 hx
    rw [(h.operations p hp).told.1] at hx
    cases hx

theorem System.Finished.due (h : s.Finished) : s.follower.due = ∅ := by
  refine Set.eq_empty_of_forall_notMem fun x hx => ?_
  rcases mem_due.1 hx with hx | hx | hx
  · rw [h.hooks] at hx
    cases hx
  · obtain ⟨⟨r, q⟩, hp, hx⟩ := List.mem_flatMap.1 hx
    have hq : q.Finished := h.requests _ hp
    cases q with
    | set k b => exact hq
    | _ => cases hx
  · obtain ⟨p, hp, hx⟩ := List.mem_flatMap.1 hx
    rw [h.operations p hp] at hx
    cases hx

theorem System.Finished.leaving (h : s.Finished) : s.follower.leaving = ∅ := by
  refine Set.eq_empty_of_forall_notMem fun x hx => ?_
  obtain ⟨p, hp, hx⟩ := List.mem_flatMap.1 hx
  rw [h.operations p hp] at hx
  cases hx

/-- **The hooks track the table along an orderly run.** Once everything has
finished and every hook is delivered, each backend takes for its own
exactly the users the store has on it. -/
theorem tracked_of_orderly (holdMgr : Bool) (s s' : System) (acts : List Action) (hs : s.Fresh)
    (hrun : Run.exec (step holdMgr) s acts = some s')
    (hok : Run.Meets (step holdMgr) Orderly s acts) (hend : s'.Finished) : Tracked s' := by
  have hkept : Kept s' :=
    Run.exec_invariant (fun _ _ _ h hok hst => h.step hok hst) hs.kept hok hrun
  intro b u
  exact Set.ext_iff.1 (hkept.informed.known_eq hend.due hend.leaving) (b, u)

/-- A request, a rebalance and a drain, before a store that knows one
backend. -/
def oneBackend : System where
  store := .redis ⟨∅, ∅, {"b1"}⟩
  frontends := [⟨⟨60, ∅⟩, ∅⟩]
  requests := [(0, .start "u")]
  operations := [(0, .rebalance ["b2"]), (0, .drain "b1")]
  hooks := []
  log := []

theorem fresh_oneBackend : oneBackend.Fresh where
  requests := fun p hp => ⟨"u", by rw [List.mem_singleton.1 hp]⟩
  operations := by
    intro p hp
    rcases List.mem_pair.1 hp with rfl | rfl <;> trivial
  hooks := rfl
  tracked := fun _ _ => by simp [oneBackend, owned, received, Stored, Store.getAssignment,
    Redis.getAssignment]

/-- The request from its start to its answer. -/
def served : List Action := List.replicate 5 (.request 0 ⟨60, ["b1"], true⟩)

/-- Steps of an operation; the strategy is the least-loaded one. -/
def turns (n i : ℕ) (groups : List (Backend × List RoutingKey)) : List Action :=
  List.replicate n (.operation i
    ⟨true, 60, fun t active => LeastLoaded.computeMoves active t.pairs ["b1"], groups⟩)

/-- The hook arrives at once; then the backend is replaced by another, the
account is moved to it, and the drain finds nothing. -/
def heardAtOnce : List Action :=
  served ++ [.deliver 0, .addBackend "b2", .removeBackend "b1"] ++ turns 2 0 [] ++
    turns 1 0 [("b1", ["u"])] ++ turns 5 0 [] ++ turns 1 0 [("b2", ["u"])] ++ turns 3 0 [] ++
    turns 4 1 []

theorem tracked_heardAtOnce :
    ∃ s, Run.exec (step true) oneBackend heardAtOnce = some s ∧ s.Finished ∧ Tracked s ∧
      owned "b2" s.log = {"u"} := by
  obtain ⟨s, hrun, hend, howned⟩ : ∃ s, Run.exec (step true) oneBackend heardAtOnce = some s ∧
      s.Finished ∧ owned "b2" s.log = {"u"} := by
    refine ⟨_, rfl, ⟨fun p hp => ?_, fun p hp => ?_, rfl⟩, by decide +kernel⟩
    · rw [List.mem_singleton.1 hp]
      trivial
    · rcases List.mem_pair.1 hp with rfl | rfl <;> rfl
  exact ⟨s, hrun, hend, tracked_of_orderly true oneBackend s heardAtOnce fresh_oneBackend hrun
    (by decide +kernel) hend, howned⟩

/-- The hook is under way while the drain tells the backend, deletes the
assignment and ends, and then it arrives. -/
def heardLate : List Action := served ++ turns 9 1 [] ++ turns 2 0 [] ++ [.deliver 0]

/-- The backend has the account for its own, and the store does not have
it at all. -/
theorem heardLate_is_believed :
    oneBackend.Fresh ∧
      ∃ s, Run.exec (step true) oneBackend heardLate = some s ∧ s.Finished ∧
        received "b1" s.log = [.unassign ["u"], .assign ["u"]] ∧ owned "b1" s.log = {"u"} ∧
        s.store.getAssignment "u" = none := by
  refine ⟨fresh_oneBackend, _, rfl, ⟨fun p hp => ?_, fun p hp => ?_, rfl⟩, rfl, by decide +kernel,
    rfl⟩
  · rw [List.mem_singleton.1 hp]
    trivial
  · rcases List.mem_pair.1 hp with rfl | rfl <;> rfl

end Hooks

end StickyProxy
