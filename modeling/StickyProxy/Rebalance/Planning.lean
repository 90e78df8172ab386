import StickyProxy.Rebalance.Model.LeastLoaded
import Mathlib.Algebra.Order.BigOperators.Group.List
/-!
# What is planned is what the moves lead to

`planned` is kept beside the moves while they are computed. `Sound` says
what it stands for: the weight every backend has once the moves so far are
applied to the table. A move keeps the total weight, so the load of the
active backends together is bounded by what is not left elsewhere, and one
of them has no more than the average of that.
-/

namespace StickyProxy

namespace LeastLoaded

variable {t : Table RoutingKey Assignment} {activeBackends donors : List Backend}
  {users : List (RoutingKey × Assignment)} {a : Assignment} {b backend : Backend}
  {u : RoutingKey} {m : Move} {plan : Plan}

/-! ## Tables under moves -/

/-- The table with one account moved. -/
def applyMove (t : Table RoutingKey Assignment) (m : Move) : Table RoutingKey Assignment :=
  match t.lookup m.routingKey with
  | some a => t.insert m.routingKey { a with backend := m.toBackend }
  | none => t

/-- The table with the moves applied one after the other. -/
def applyMoves (t : Table RoutingKey Assignment) (moves : List Move) :
    Table RoutingKey Assignment :=
  moves.foldl applyMove t

/-- The weight on a backend. -/
def load (t : Table RoutingKey Assignment) (b : Backend) : ℤ :=
  Table.total (fun _ a => if a.backend = b then a.effectiveWeight else 0) t

/-- The weight of all accounts. -/
def totalWeight (t : Table RoutingKey Assignment) : ℤ :=
  Table.total (fun _ a => a.effectiveWeight) t

theorem applyMove_of_lookup (h : t.lookup m.routingKey = some a) :
    applyMove t m = t.insert m.routingKey { a with backend := m.toBackend } := by
  rw [applyMove, h]

theorem applyMoves_append (moves : List Move) (m : Move) :
    applyMoves t (moves ++ [m]) = applyMove (applyMoves t moves) m := by
  rw [applyMoves, List.foldl_append]
  rfl

/-- An account that no move names stays as it is. -/
theorem lookup_applyMoves {moves : List Move} (h : ∀ m ∈ moves, m.routingKey ≠ u) :
    (applyMoves t moves).lookup u = t.lookup u := by
  induction moves generalizing t with
  | nil => rfl
  | cons m moves ih =>
    obtain ⟨hm, hmoves⟩ := List.forall_mem_cons.1 h
    refine Eq.trans (ih hmoves) ?_
    rcases hlook : t.lookup m.routingKey with - | a
    · rw [applyMove, hlook]
    · rw [applyMove_of_lookup hlook, Table.lookup_insert_eq, if_neg (Ne.symm hm)]

/-- An account that one move names goes where that one takes it. -/
theorem lookup_applyMoves_of_mem {moves : List Move}
    (hnodup : (moves.map fun m => m.routingKey).Nodup) (hm : m ∈ moves)
    (ha : t.lookup m.routingKey = some a) :
    (applyMoves t moves).lookup m.routingKey = some { a with backend := m.toBackend } := by
  induction moves generalizing t with
  | nil => exact absurd hm List.not_mem_nil
  | cons m' moves ih =>
    rw [List.map_cons, List.nodup_cons] at hnodup
    rcases List.mem_cons.1 hm with rfl | hm
    · -- No later move names the account again.
      have hlater : ∀ m' ∈ moves, m'.routingKey ≠ m.routingKey := fun m' hm' heq =>
        hnodup.1 (heq ▸ List.mem_map_of_mem hm')
      refine (lookup_applyMoves hlater).trans ?_
      rw [applyMove_of_lookup ha, Table.lookup_insert_eq, if_pos rfl]
    · have hne : m'.routingKey ≠ m.routingKey := fun heq =>
        hnodup.1 (heq ▸ List.mem_map_of_mem hm)
      have hother : ∀ m'' ∈ [m'], m''.routingKey ≠ m.routingKey := List.forall_mem_singleton.2 hne
      exact ih hnodup.2 hm ((lookup_applyMoves hother).trans ha)

/-- A move takes the weight of its account from one backend to another. -/
theorem load_applyMove (h : t.lookup m.routingKey = some a) :
    load (applyMove t m) b = load t b + (if m.toBackend = b then a.effectiveWeight else 0) +
      if a.backend = b then -a.effectiveWeight else 0 := by
  rw [applyMove_of_lookup h, load, Table.total_insert, Table.share_of_lookup h]
  change load t b - _ + _ = _
  by_cases ha : a.backend = b <;> by_cases hm : m.toBackend = b <;>
    simp only [ha, hm, if_true, if_false, Assignment.effectiveWeight] <;> ring

theorem totalWeight_applyMove : totalWeight (applyMove t m) = totalWeight t := by
  rcases hlook : t.lookup m.routingKey with - | a
  · rw [applyMove, hlook]
  · rw [applyMove_of_lookup hlook, totalWeight, Table.total_insert, Table.share_of_lookup hlook]
    exact sub_add_cancel _ _

/-- **Moves keep the total weight.** -/
theorem totalWeight_applyMoves (moves : List Move) :
    totalWeight (applyMoves t moves) = totalWeight t := by
  induction moves generalizing t with
  | nil => rfl
  | cons m moves ih => exact ih.trans totalWeight_applyMove

/-! ## The average -/

/-- The weight on the active backends together. -/
theorem sum_load_eq_total (hnodup : activeBackends.Nodup) :
    (activeBackends.map (load t)).sum = Table.total
      (fun _ a => if a.backend ∈ activeBackends then a.effectiveWeight else 0) t := by
  induction activeBackends with
  | nil => simp [Table.total]
  | cons c rest ih =>
    obtain ⟨hc, hrest⟩ := List.nodup_cons.1 hnodup
    rw [List.map_cons, List.sum_cons, ih hrest, load, ← Table.total_add]
    congr 1
    funext k a
    by_cases hac : a.backend = c
    · simp [hac, hc]
    · simp [hac]

/-- What is on another backend is not on the active ones. -/
theorem sum_load_le (hnodup : activeBackends.Nodup) (hu : t.lookup u = some a)
    (hout : a.backend ∉ activeBackends) :
    (activeBackends.map (load t)).sum ≤ totalWeight t - a.effectiveWeight := by
  have hle : Table.total
      (fun _ a => if a.backend ∈ activeBackends then a.effectiveWeight else 0) (t.erase u) ≤
      totalWeight (t.erase u) := Table.total_mono fun k v _ => by
    have := v.one_le_effectiveWeight
    split <;> omega
  rw [totalWeight, Table.total_erase, Table.total_erase, Table.share_of_lookup hu,
    Table.share_of_lookup hu, if_neg hout, sub_zero] at hle
  rw [sum_load_eq_total hnodup]
  exact hle

/-- **One active backend has at most the average** of what is not left on
another backend. -/
theorem exists_load_le (hne : activeBackends ≠ []) (hnodup : activeBackends.Nodup)
    (hu : t.lookup u = some a) (hout : a.backend ∉ activeBackends) :
    ∃ b ∈ activeBackends,
      load t b ≤ (totalWeight t - a.effectiveWeight) / activeBackends.length := by
  -- If all had more, they would together have more than is there.
  by_contra hall
  push Not at hall
  have hpos : (0 : ℤ) < activeBackends.length :=
    Int.natCast_pos.2 (List.length_pos_iff.2 hne)
  have hsum := List.card_nsmul_le_sum (activeBackends.map (load t))
    ((totalWeight t - a.effectiveWeight) / activeBackends.length + 1) fun x hx => by
      obtain ⟨b, hb, rfl⟩ := List.mem_map.1 hx
      exact hall b hb
  rw [List.length_map, nsmul_eq_mul] at hsum
  have hlt := Int.lt_mul_ediv_self_add hpos (x := totalWeight t - a.effectiveWeight)
  have hle := sum_load_le hnodup hu hout
  rw [mul_add, mul_one] at hsum
  omega

/-! ## The weights to start from -/

theorem value_insertAll_zero (l : List Backend) (t : Table Backend ℤ) (h : t.value b = 0) :
    (Table.insertAll t (l.map fun b => (b, 0))).value b = 0 := by
  induction l generalizing t with
  | nil => exact h
  | cons c l ih =>
    refine ih _ ?_
    rw [Table.value_insert]
    split
    · rfl
    · exact h

theorem total_insertAll_zero (l : List Backend) (t : Table Backend ℤ) (h : ∀ b, t.value b = 0) :
    Table.total (fun _ w => w) (Table.insertAll t (l.map fun b => (b, 0))) =
      Table.total (fun _ w => w) t := by
  induction l generalizing t with
  | nil => rfl
  | cons c l ih =>
    have hbump : t.insert c 0 = t.bump c 0 := by rw [Table.bump, h c, zero_add]
    have hzero : ∀ b, (t.bump c 0).value b = 0 := fun b => by
      rw [Table.value_bump, h b]
      simp
    rw [List.map_cons, Table.insertAll_cons, hbump, ih _ hzero, Table.total_bump, add_zero]

theorem value_weights (h : users.Perm (Table.pairs t)) (b : Backend) :
    (weights activeBackends users).value b = load t b := by
  rw [weights, Table.value_bumpAll, value_insertAll_zero _ _ (Table.value_empty b), zero_add]
  have hperm := (h.map fun u => (u.2.backend, u.2.effectiveWeight)).map
    fun e => if e.1 = b then e.2 else 0
  exact hperm.sum_eq.trans
    (Table.sumAt_map_pairs (fun _ (a : Assignment) => (a.backend, a.effectiveWeight)) t b)

/-- The total the ideal is an average of is the weight of the whole table,
inactive backends included. -/
theorem total_weights (h : users.Perm (Table.pairs t)) :
    Table.total (fun _ w => w) (weights activeBackends users) = totalWeight t := by
  have hempty : Table.total (fun _ w => w) (∅ : Table Backend ℤ) = 0 := rfl
  rw [weights, Table.total_bumpAll, total_insertAll_zero _ _ Table.value_empty, hempty, zero_add,
    List.map_map]
  have hperm := h.map fun u => u.2.effectiveWeight
  exact hperm.sum_eq.trans (Table.sum_map_pairs (fun _ (a : Assignment) => a.effectiveWeight) t)

/-! ## The target -/

/-- Some active backend is below the ideal and can take the weight. -/
def HasRoom (activeBackends : List Backend) (ideal : ℤ) (planned : Table Backend ℤ) (w : ℤ) :
    Prop :=
  ∃ b ∈ activeBackends, planned.value b < ideal ∧ planned.value b + w ≤ ideal + 1

/-- The loop over the active backends, from any candidate it has so far. -/
theorem foldl_target (ideal w : ℤ) (planned : Table Backend ℤ) (l : List Backend)
    (best : Backend × ℤ) :
    let r := l.foldl (fun best b =>
      if planned.value b < best.2 ∧ planned.value b + w ≤ ideal + 1 then (b, planned.value b)
      else best) best
    (r = best ∧ ∀ b ∈ l, ¬ (planned.value b < best.2 ∧ planned.value b + w ≤ ideal + 1)) ∨
      (r.1 ∈ l ∧ planned.value r.1 < best.2 ∧ planned.value r.1 + w ≤ ideal + 1) := by
  induction l generalizing best with
  | nil => exact Or.inl ⟨rfl, List.forall_mem_nil _⟩
  | cons c l ih =>
    dsimp only at ih ⊢
    rw [List.foldl_cons]
    by_cases hc : planned.value c < best.2 ∧ planned.value c + w ≤ ideal + 1
    · -- A better candidate: the rest of the loop keeps it or finds a better one still.
      rw [if_pos hc]
      refine Or.inr ?_
      rcases ih (c, planned.value c) with ⟨heq, -⟩ | ⟨hmem, hlt, hfits⟩
      · rw [heq]
        exact ⟨List.mem_cons_self, hc⟩
      · exact ⟨List.mem_cons_of_mem c hmem, hlt.trans hc.1, hfits⟩
    · rw [if_neg hc]
      rcases ih best with ⟨heq, hnone⟩ | ⟨hmem, hr⟩
      · exact Or.inl ⟨heq, List.forall_mem_cons.2 ⟨hc, hnone⟩⟩
      · exact Or.inr ⟨List.mem_cons_of_mem c hmem, hr⟩

/-- **The target is an active backend**, if one has room. -/
theorem target_mem {ideal w : ℤ} {planned : Table Backend ℤ}
    (h : HasRoom activeBackends ideal planned w) :
    target activeBackends ideal planned w ∈ activeBackends := by
  obtain ⟨b, hb, hroom⟩ := h
  rcases foldl_target ideal w planned activeBackends ("", ideal) with ⟨-, hnone⟩ | ⟨hmem, -⟩
  · exact absurd hroom (hnone b hb)
  · exact hmem

/-- **A target with a name** is active, below the ideal, and can take the
weight. -/
theorem target_spec {ideal w : ℤ} {planned : Table Backend ℤ}
    (h : target activeBackends ideal planned w ≠ "") :
    target activeBackends ideal planned w ∈ activeBackends ∧
      planned.value (target activeBackends ideal planned w) < ideal ∧
      planned.value (target activeBackends ideal planned w) + w ≤ ideal + 1 := by
  rcases foldl_target ideal w planned activeBackends ("", ideal) with ⟨heq, -⟩ | hroom
  · exact absurd (congrArg Prod.fst heq) h
  · exact hroom

/-! ## One offer after the other -/

/-- The plan with one more move. -/
def Plan.move (plan : Plan) (m : Move) (w : ℤ) : Plan where
  planned := (plan.planned.bump m.toBackend w).bump m.fromBackend (-w)
  moves := plan.moves ++ [m]

theorem Plan.value_move (w : ℤ) : (plan.move m w).planned.value b =
    plan.planned.value b + (if m.toBackend = b then w else 0) +
      if m.fromBackend = b then -w else 0 := by
  rw [Plan.move, Table.value_bump, Table.value_bump]

/-- **What one offer does**: nothing once enough has moved or without a
target, else the account moves there. -/
theorem offer_cases (activeBackends : List Backend) (ideal excess : ℤ) (backend : Backend)
    (st : ℤ × Plan) (p : RoutingKey × Assignment) :
    (offer activeBackends ideal excess backend st p = st ∧
      (excess ≤ st.1 ∨ target activeBackends ideal st.2.planned p.2.effectiveWeight = "")) ∨
    (st.1 < excess ∧ target activeBackends ideal st.2.planned p.2.effectiveWeight ≠ "" ∧
      offer activeBackends ideal excess backend st p = (st.1 + p.2.effectiveWeight,
        st.2.move ⟨p.1, backend, target activeBackends ideal st.2.planned p.2.effectiveWeight⟩
          p.2.effectiveWeight)) := by
  by_cases henough : excess ≤ st.1
  · exact Or.inl ⟨if_pos henough, Or.inl henough⟩
  by_cases htarget : target activeBackends ideal st.2.planned p.2.effectiveWeight = ""
  · refine Or.inl ⟨?_, Or.inr htarget⟩
    rw [offer, if_neg henough]
    exact if_pos htarget
  · refine Or.inr ⟨not_le.1 henough, htarget, ?_⟩
    rw [offer, if_neg henough]
    exact if_neg htarget

/-- **The rule for a turn.** What one offer of an account not offered
before keeps, with the accounts offered, holds once a backend has offered
its users. -/
theorem foldl_offer_invariant {ideal excess : ℤ} {I : Set RoutingKey → ℤ × Plan → Prop}
    (hstep : ∀ offered st p, I offered st → t.lookup p.1 = some p.2 → p.2.backend = backend →
      p.1 ∉ offered →
      I (insert p.1 offered) (offer activeBackends ideal excess backend st p))
    {us : List (RoutingKey × Assignment)} :
    ∀ {offered : Set RoutingKey} {st : ℤ × Plan}, I offered st → (us.map Prod.fst).Nodup →
      (∀ p ∈ us, t.lookup p.1 = some p.2 ∧ p.2.backend = backend) →
      (∀ p ∈ us, p.1 ∉ offered) →
      I (offered ∪ {u | u ∈ us.map Prod.fst})
        (us.foldl (offer activeBackends ideal excess backend) st) := by
  induction us with
  | nil =>
    intro offered st h _ _ _
    have hnone : offered ∪ {u | u ∈ List.map Prod.fst ([] : List (RoutingKey × Assignment))} =
        offered := by simp
    exact hnone.symm ▸ h
  | cons p us ih =>
    intro offered st h hnodup hus hnew
    obtain ⟨⟨hp, hpb⟩, hus⟩ := List.forall_mem_cons.1 hus
    obtain ⟨hpnew, hnew⟩ := List.forall_mem_cons.1 hnew
    rw [List.map_cons, List.nodup_cons] at hnodup
    have hinsert : offered ∪ {u | u ∈ List.map Prod.fst (p :: us)} =
        insert p.1 offered ∪ {u | u ∈ us.map Prod.fst} := by
      ext u
      simp only [List.map_cons, List.mem_cons, Set.mem_union, Set.mem_ofPred_eq, Set.mem_insert_iff]
      tauto
    rw [hinsert, List.foldl_cons]
    refine ih (hstep offered st p h hp hpb hpnew) hnodup.2 hus fun q hq => ?_
    rintro (heq | hmem)
    · exact hnodup.1 (heq ▸ List.mem_map_of_mem hq)
    · exact hnew q hq hmem

/-- What is planned is what the moves so far lead to, and they name only
accounts that have been offered. -/
structure Sound (t : Table RoutingKey Assignment) (offered : Set RoutingKey) (plan : Plan) :
    Prop where
  planned : ∀ b, plan.planned.value b = load (applyMoves t plan.moves) b
  offered : ∀ m ∈ plan.moves, m.routingKey ∈ offered

theorem Sound.mono {offered offered' : Set RoutingKey} (h : Sound t offered plan)
    (hsub : offered ⊆ offered') : Sound t offered' plan :=
  ⟨h.planned, fun m hm => hsub (h.offered m hm)⟩

/-- An account not offered yet is where it was. -/
theorem Sound.lookup {offered : Set RoutingKey} (h : Sound t offered plan) (hu : u ∉ offered) :
    (applyMoves t plan.moves).lookup u = t.lookup u :=
  lookup_applyMoves fun m hm heq => hu (heq ▸ h.offered m hm)

theorem sound_weights (h : users.Perm (Table.pairs t)) :
    Sound t ∅ ⟨weights activeBackends users, []⟩ :=
  ⟨value_weights h, List.forall_mem_nil _⟩

theorem Sound.move {offered : Set RoutingKey} (h : Sound t offered plan)
    (hu : t.lookup u = some a) (hnew : u ∉ offered) :
    Sound t (insert u offered) (plan.move ⟨u, a.backend, b⟩ a.effectiveWeight) := by
  have hlook := (h.lookup hnew).trans hu
  refine ⟨fun c => ?_, fun m hm => ?_⟩
  · rw [Plan.value_move, Plan.move, applyMoves_append, load_applyMove hlook, h.planned c]
  · rcases List.mem_append.1 hm with hold | hone
    · exact Set.mem_insert_of_mem u (h.offered m hold)
    · rw [List.mem_singleton.1 hone]
      exact Set.mem_insert u offered

theorem Sound.offer {offered : Set RoutingKey} {ideal excess moved : ℤ} (h : Sound t offered plan)
    (hu : t.lookup u = some a) (hnew : u ∉ offered) :
    Sound t (insert u offered)
      (offer activeBackends ideal excess a.backend (moved, plan) (u, a)).2 := by
  rcases offer_cases activeBackends ideal excess a.backend (moved, plan) (u, a) with
    ⟨heq, -⟩ | ⟨-, -, heq⟩
  · rw [heq]
    exact h.mono (Set.subset_insert u offered)
  · rw [heq]
    exact h.move hu hnew

/-- **The plan stays sound while a backend offers its users.** -/
theorem Sound.foldl_offer {ideal excess : ℤ} {us : List (RoutingKey × Assignment)} :
    ∀ {offered : Set RoutingKey} {st : ℤ × Plan}, Sound t offered st.2 →
      (us.map Prod.fst).Nodup → (∀ p ∈ us, t.lookup p.1 = some p.2 ∧ p.2.backend = backend) →
      (∀ p ∈ us, p.1 ∉ offered) →
      Sound t (offered ∪ {u | u ∈ us.map Prod.fst})
        (us.foldl (LeastLoaded.offer activeBackends ideal excess backend) st).2 :=
  foldl_offer_invariant (I := fun offered st => Sound t offered st.2)
    fun _ _ _ h hp hpb hnew => hpb ▸ h.offer hp hnew

/-! ## One donor after the other -/

/-- The accounts on one of the backends. -/
def usersOn (t : Table RoutingKey Assignment) (backends : List Backend) : Set RoutingKey :=
  {u | ∃ a, t.lookup u = some a ∧ a.backend ∈ backends}

theorem mem_backendUsers {p : RoutingKey × Assignment} (h : users.Perm (Table.pairs t)) :
    p ∈ backendUsers users backend ↔ t.lookup p.1 = some p.2 ∧ p.2.backend = backend := by
  rw [backendUsers, List.mem_filter, h.mem_iff, decide_eq_true_eq, Table.mem_pairs]

theorem nodup_backendUsers (h : users.Perm (Table.pairs t)) :
    ((backendUsers users backend).map Prod.fst).Nodup :=
  ((h.map Prod.fst).nodup_iff.2 (Table.nodup_fst_pairs t)).sublist
    (List.filter_sublist.map Prod.fst)

/-- The accounts of one backend more. -/
theorem usersOn_append (hperm : users.Perm (Table.pairs t)) (done : List Backend) :
    usersOn t (done ++ [backend]) =
      usersOn t done ∪ {u | u ∈ (backendUsers users backend).map Prod.fst} := by
  ext u
  constructor
  · rintro ⟨a, ha, hmem⟩
    rcases List.mem_append.1 hmem with hdone | hlast
    · exact Or.inl ⟨a, ha, hdone⟩
    · exact Or.inr (List.mem_map.2
        ⟨(u, a), (mem_backendUsers hperm).2 ⟨ha, List.mem_singleton.1 hlast⟩, rfl⟩)
  · rintro (⟨a, ha, hdone⟩ | hmem)
    · exact ⟨a, ha, List.mem_append_left _ hdone⟩
    · obtain ⟨p, hp, rfl⟩ := List.mem_map.1 hmem
      obtain ⟨hp, hb⟩ := (mem_backendUsers hperm).1 hp
      exact ⟨p.2, hp, List.mem_append_right _ (List.mem_singleton.2 hb)⟩

/-- The rule for a turn, when the backend comes after others. -/
theorem turn_invariant (hperm : users.Perm (Table.pairs t)) {done : List Backend}
    (hnew : backend ∉ done) {ideal excess : ℤ} {I : Set RoutingKey → ℤ × Plan → Prop}
    (hstep : ∀ offered st p, I offered st → t.lookup p.1 = some p.2 → p.2.backend = backend →
      p.1 ∉ offered →
      I (insert p.1 offered) (offer activeBackends ideal excess backend st p))
    (h : I (usersOn t done) (0, plan)) :
    I (usersOn t (done ++ [backend]))
      ((backendUsers users backend).foldl (offer activeBackends ideal excess backend)
        (0, plan)) := by
  have hus : ∀ p ∈ backendUsers users backend, t.lookup p.1 = some p.2 ∧ p.2.backend = backend :=
    fun p hp => (mem_backendUsers hperm).1 hp
  rw [usersOn_append hperm]
  refine foldl_offer_invariant hstep h (nodup_backendUsers hperm) hus fun p hp => ?_
  rintro ⟨a, ha, hdone⟩
  obtain ⟨hp, hb⟩ := hus p hp
  obtain rfl : p.2 = a := Option.some.inj (hp.symm.trans ha)
  exact hnew (hb ▸ hdone)

theorem Sound.donate (hperm : users.Perm (Table.pairs t)) {done : List Backend}
    (h : Sound t (usersOn t done) plan) (hnew : backend ∉ done) :
    Sound t (usersOn t (done ++ [backend])) (donate activeBackends users plan backend) := by
  unfold LeastLoaded.donate
  split
  · exact turn_invariant hperm hnew (I := fun offered st => Sound t offered st.2)
      (fun _ _ _ hs hp hpb hnew => hpb ▸ hs.offer hp hnew) h
  · exact h.mono fun u ⟨a, hu, ha⟩ => ⟨a, hu, List.mem_append_left _ ha⟩

/-- **The rule for the donors.** What a donor's turn keeps, with the donors
that have had theirs, holds of the plan. -/
theorem planAfter_invariant {I : List Backend → Plan → Prop}
    (hstart : I [] ⟨weights activeBackends users, []⟩)
    (hstep : ∀ done backend plan, backend ∉ done → I done plan →
      I (done ++ [backend]) (donate activeBackends users plan backend))
    (hnodup : donors.Nodup) : I donors (planAfter activeBackends users donors) := by
  induction donors using List.reverseRecOn with
  | nil => exact hstart
  | append_singleton done backend ih =>
    rw [planAfter, List.foldl_append]
    have hparts := List.nodup_append.1 hnodup
    exact hstep done backend _ (fun hmem =>
      hparts.2.2 backend hmem backend (List.mem_singleton.2 rfl) rfl) (ih hparts.1)

/-- **The plan is sound after every donor.** -/
theorem sound_planAfter (hperm : users.Perm (Table.pairs t)) (hnodup : donors.Nodup) :
    Sound t (usersOn t donors) (planAfter activeBackends users donors) :=
  planAfter_invariant (I := fun done plan => Sound t (usersOn t done) plan)
    ((sound_weights hperm).mono (Set.empty_subset _))
    (fun _ _ _ hnew h => h.donate hperm hnew) hnodup

end LeastLoaded

end StickyProxy
