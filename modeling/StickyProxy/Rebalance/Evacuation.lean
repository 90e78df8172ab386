import StickyProxy.Rebalance.Planning
import Mathlib.Data.List.TakeWhile
/-!
# Leaving a backend that is gone

The accounts of a backend that is not active are all offered to the active
ones: the loop breaks only once the whole weight of the backend has moved,
which cannot be while an account is left. An account offered is moved if
an active backend is below the ideal and can take it within the ideal and
one; else it stays where it is, as too heavy for any target. That there is
room can be read off the totals: some active backend has no more than the
average of what the others weigh.
-/

namespace StickyProxy

namespace LeastLoaded

variable {t : Table RoutingKey Assignment} {activeBackends donors : List Backend}
  {users : List (RoutingKey × Assignment)} {a : Assignment} {backend : Backend}
  {u : RoutingKey} {ideal excess : ℤ}

/-! ## The turn of an account -/

/-- What has been moved off a backend that is not active, and what is
planned, when the turn of one of its accounts comes. -/
def turn (activeBackends : List Backend) (users : List (RoutingKey × Assignment))
    (donors : List Backend) (backend : Backend) (u : RoutingKey) : ℤ × Plan :=
  ((backendUsers users backend).takeWhile fun p => p.1 ≠ u).foldl
    (offer activeBackends (LeastLoaded.ideal activeBackends users)
      ((weights activeBackends users).value backend) backend)
    (0, planAfter activeBackends users (donors.takeWhile fun d => d ≠ backend))

/-- The average of what the other accounts weigh is below the ideal, and
leaves room for the account. -/
def RoomOnAverage (activeBackends : List Backend) (users : List (RoutingKey × Assignment))
    (t : Table RoutingKey Assignment) (w : ℤ) : Prop :=
  let average := (totalWeight t - w) / activeBackends.length
  average < LeastLoaded.ideal activeBackends users ∧
    average + w ≤ LeastLoaded.ideal activeBackends users + 1

instance (activeBackends : List Backend) (users : List (RoutingKey × Assignment))
    (t : Table RoutingKey Assignment) (w : ℤ) :
    Decidable (RoomOnAverage activeBackends users t w) :=
  inferInstanceAs (Decidable (_ ∧ _))

theorem exists_eq_takeWhile_append {α : Type*} {p : α → Bool} {x : α} {l : List α} (hx : x ∈ l)
    (hp : p x = false) (honly : ∀ y ∈ l, p y = false → y = x) :
    ∃ rest, l = l.takeWhile p ++ x :: rest := by
  induction l with
  | nil => cases hx
  | cons y l ih =>
    rcases hy : p y with - | -
    · obtain rfl := honly y List.mem_cons_self hy
      exact ⟨l, by rw [List.takeWhile_cons_of_neg (by simp [hy]), List.nil_append]⟩
    · have hne : x ≠ y := fun heq => Bool.false_ne_true (hp.symm.trans (heq ▸ hy))
      obtain ⟨rest, hrest⟩ := ih ((List.mem_cons.1 hx).resolve_left hne)
        fun z hz => honly z (List.mem_cons_of_mem y hz)
      exact ⟨rest, by rw [List.takeWhile_cons_of_pos hy, List.cons_append, ← hrest]⟩

/-! ## Moves are not taken back -/

theorem moves_offer_subset (st : ℤ × Plan) (p : RoutingKey × Assignment) :
    st.2.moves ⊆ (offer activeBackends ideal excess backend st p).2.moves := by
  unfold offer
  dsimp only
  split
  · exact List.Subset.refl _
  split
  · exact List.Subset.refl _
  · exact List.subset_append_left _ _

theorem moves_foldl_offer_subset (us : List (RoutingKey × Assignment)) (st : ℤ × Plan) :
    st.2.moves ⊆ (us.foldl (offer activeBackends ideal excess backend) st).2.moves := by
  induction us generalizing st with
  | nil => exact List.Subset.refl _
  | cons p us ih => exact List.Subset.trans (moves_offer_subset st p) (ih _)

theorem moves_donate_subset (plan : Plan) :
    plan.moves ⊆ (donate activeBackends users plan backend).moves := by
  unfold donate
  split
  · exact moves_foldl_offer_subset _ (0, plan)
  · exact List.Subset.refl _

theorem moves_foldl_donate_subset (ds : List Backend) (plan : Plan) :
    plan.moves ⊆ (ds.foldl (donate activeBackends users) plan).moves := by
  induction ds generalizing plan with
  | nil => exact List.Subset.refl _
  | cons d ds ih => exact List.Subset.trans (moves_donate_subset plan) (ih _)

/-! ## The loop does not break early -/

/-- A backend sheds no more than the weight of the users it has offered. -/
theorem foldl_offer_fst_le (us : List (RoutingKey × Assignment)) (st : ℤ × Plan) :
    (us.foldl (offer activeBackends ideal excess backend) st).1 ≤
      st.1 + (us.map fun p => p.2.effectiveWeight).sum := by
  induction us generalizing st with
  | nil => simp
  | cons p us ih =>
    have hw := p.2.one_le_effectiveWeight
    have hstep : (offer activeBackends ideal excess backend st p).1 ≤
        st.1 + p.2.effectiveWeight := by
      unfold offer
      dsimp only
      split
      · omega
      split
      · omega
      · exact le_rfl
    refine (ih _).trans ?_
    rw [List.map_cons, List.sum_cons]
    omega

/-- The weight of a backend is that of its users. -/
theorem load_eq_sum_backendUsers (hperm : users.Perm (Table.pairs t)) :
    load t backend = ((backendUsers users backend).map fun p => p.2.effectiveWeight).sum := by
  rw [load, ← Table.sum_map_pairs, ← (hperm.map _).sum_eq, List.sum_map_ite, backendUsers]
  simp

/-- The accounts of a backend, from the turn of one of them on. -/
theorem exists_backendUsers_eq (hperm : users.Perm (Table.pairs t)) (hu : t.lookup u = some a) :
    ∃ rest, backendUsers users a.backend =
      ((backendUsers users a.backend).takeWhile fun p => p.1 ≠ u) ++ (u, a) :: rest := by
  refine exists_eq_takeWhile_append ((mem_backendUsers hperm).2 ⟨hu, rfl⟩) (by simp) ?_
  rintro ⟨v, c⟩ hmem hv
  obtain rfl : v = u := by simpa using hv
  have hc : t.lookup v = some c := ((mem_backendUsers hperm).1 hmem).1
  rw [Option.some.inj (hc.symm.trans hu)]

/-- When the turn of an account comes, its backend has something left to
shed. -/
theorem turn_fst_lt (hperm : users.Perm (Table.pairs t)) (hu : t.lookup u = some a) :
    (turn activeBackends users donors a.backend u).1 <
      (weights activeBackends users).value a.backend := by
  obtain ⟨rest, hrest⟩ := exists_backendUsers_eq hperm hu
  have hle : (turn activeBackends users donors a.backend u).1 ≤ 0 + _ := foldl_offer_fst_le _ _
  have hw := a.one_le_effectiveWeight
  have hafter : 0 ≤ (rest.map fun p => p.2.effectiveWeight).sum :=
    List.sum_nonneg fun x hx => by
      obtain ⟨p, -, rfl⟩ := List.mem_map.1 hx
      exact zero_le_one.trans p.2.one_le_effectiveWeight
  -- What has moved is at most what was offered before; the account itself is on top.
  rw [value_weights hperm, load_eq_sum_backendUsers hperm, hrest, List.map_append, List.sum_append,
    List.map_cons, List.sum_cons]
  dsimp only at hle ⊢
  omega

/-- The plan is sound when the turn of an account comes, and the account
is still where it was. -/
theorem sound_turn (hr : Ranges t users donors) (hu : t.lookup u = some a) :
    ∃ offered, Sound t offered (turn activeBackends users donors a.backend u).2 ∧ u ∉ offered := by
  have hnodup : (donors.takeWhile fun d => d ≠ a.backend).Nodup :=
    hr.donors.1.sublist (List.takeWhile_sublist _)
  have hstart : Sound t (usersOn t (donors.takeWhile fun d => d ≠ a.backend))
      (0, planAfter activeBackends users (donors.takeWhile fun d => d ≠ a.backend)).2 :=
    sound_planAfter hr.perm hnodup
  have hbefore : ∀ p ∈ (backendUsers users a.backend).takeWhile fun p => p.1 ≠ u,
      (t.lookup p.1 = some p.2 ∧ p.2.backend = a.backend) ∧ p.1 ≠ u := fun p hp =>
    ⟨(mem_backendUsers hr.perm).1 ((List.takeWhile_sublist _).subset hp), by
      simpa using List.mem_takeWhile_imp hp⟩
  have hout : ∀ v c, t.lookup v = some c → c.backend = a.backend →
      v ∉ usersOn t (donors.takeWhile fun d => d ≠ a.backend) := by
    rintro v c hv hc ⟨c', hv', hmem⟩
    obtain rfl : c = c' := Option.some.inj (hv.symm.trans hv')
    simpa [hc] using List.mem_takeWhile_imp hmem
  refine ⟨_, hstart.foldl_offer ?_ (fun p hp => (hbefore p hp).1)
    (fun p hp => hout p.1 p.2 (hbefore p hp).1.1 (hbefore p hp).1.2), ?_⟩
  · exact (nodup_backendUsers hr.perm).sublist ((List.takeWhile_sublist _).map Prod.fst)
  · rintro (hmem | hmem)
    · exact hout u a hu rfl hmem
    · obtain ⟨p, hp, heq⟩ := List.mem_map.1 hmem
      exact (hbefore p hp).2 heq

/-! ## Evacuation -/

/-- An account offered while something is left to shed is moved to the
target. -/
theorem mem_moves_offer {st : ℤ × Plan} (hleft : st.1 < excess)
    (htarget : target activeBackends ideal st.2.planned a.effectiveWeight ≠ "") :
    ⟨u, backend, target activeBackends ideal st.2.planned a.effectiveWeight⟩ ∈
      (offer activeBackends ideal excess backend st (u, a)).2.moves := by
  rw [offer, if_neg (not_le.2 hleft)]
  dsimp only
  rw [if_neg htarget]
  exact List.mem_append_right _ (List.mem_singleton.2 rfl)

/-- What follows the turn of an account takes no move back. -/
theorem moves_turn_subset (hr : Ranges t users donors) (hu : t.lookup u = some a)
    (hne : activeBackends ≠ []) (hout : a.backend ∉ activeBackends) :
    (offer activeBackends (LeastLoaded.ideal activeBackends users)
      ((weights activeBackends users).value a.backend) a.backend
      (turn activeBackends users donors a.backend u) (u, a)).2.moves ⊆
      computeMoves activeBackends users donors := by
  obtain ⟨laterUsers, husers⟩ := exists_backendUsers_eq hr.perm hu
  have hdonor : a.backend ∈ donors := by
    rw [hr.donors.mem, List.mem_toFinset]
    exact List.mem_map.2 ⟨(u, a), hr.perm.mem_iff.2 (Table.mem_pairs.2 hu), rfl⟩
  obtain ⟨laterDonors, hdonors⟩ :
      ∃ rest, donors = (donors.takeWhile fun d => d ≠ a.backend) ++ a.backend :: rest :=
    exists_eq_takeWhile_append hdonor (by simp) (by simp)
  have hexcess : LeastLoaded.excess activeBackends users a.backend =
      some ((weights activeBackends users).value a.backend) := if_pos hout
  have hdonate : donate activeBackends users
      (planAfter activeBackends users (donors.takeWhile fun d => d ≠ a.backend)) a.backend =
      (laterUsers.foldl (offer activeBackends (LeastLoaded.ideal activeBackends users)
        ((weights activeBackends users).value a.backend) a.backend)
        (offer activeBackends (LeastLoaded.ideal activeBackends users)
          ((weights activeBackends users).value a.backend) a.backend
          (turn activeBackends users donors a.backend u) (u, a))).2 := by
    rw [donate, hexcess]
    dsimp only
    rw [turn, ← List.foldl_cons, ← List.foldl_append, ← husers]
  have hplan : planAfter activeBackends users donors =
      laterDonors.foldl (donate activeBackends users) (donate activeBackends users
        (planAfter activeBackends users (donors.takeWhile fun d => d ≠ a.backend)) a.backend) := by
    rw [planAfter, planAfter, ← List.foldl_cons, ← List.foldl_append, ← hdonors]
  rw [computeMoves, if_neg (by simpa using hne), hplan, hdonate]
  exact List.Subset.trans (moves_foldl_offer_subset laterUsers _)
    (moves_foldl_donate_subset laterDonors _)

/-- **Room on average is room at the turn**, whatever has been planned
before. -/
theorem hasRoom_turn (hne : activeBackends ≠ []) (hnodup : activeBackends.Nodup)
    (hr : Ranges t users donors) (hu : t.lookup u = some a) (hout : a.backend ∉ activeBackends)
    (h : RoomOnAverage activeBackends users t a.effectiveWeight) :
    HasRoom activeBackends (LeastLoaded.ideal activeBackends users)
      (turn activeBackends users donors a.backend u).2.planned a.effectiveWeight := by
  obtain ⟨offered, hsound, hnew⟩ : ∃ offered,
      Sound t offered (turn activeBackends users donors a.backend u).2 ∧ u ∉ offered :=
    sound_turn hr hu
  obtain ⟨b, hb, hle⟩ := exists_load_le hne hnodup ((hsound.lookup hnew).trans hu) hout
  rw [totalWeight_applyMoves, ← hsound.planned b] at hle
  obtain ⟨hlt, hfits⟩ := h
  exact ⟨b, hb, hle.trans_lt hlt, by omega⟩

/-- One backend has been removed with two accounts on it. -/
def removedTable : Table RoutingKey Assignment :=
  Table.insertAll ∅ [("u1", ⟨"b3", 0, "assignment", 1⟩), ("u2", ⟨"b3", 0, "assignment", 1⟩),
    ("u3", ⟨"b1", 0, "assignment", 2⟩)]

/-- One heavy account on a backend that has been removed. -/
def heavyTable : Table RoutingKey Assignment :=
  Table.insertAll ∅ [("u", ⟨"b3", 0, "assignment", 10⟩)]

end LeastLoaded

end StickyProxy
