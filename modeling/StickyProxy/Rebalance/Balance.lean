import StickyProxy.Rebalance.Termination
/-!
# How far equal weights are evened out

With every account of weight one and on an active backend, a donor sheds
down to the ideal and one as long as some active backend is below the
ideal. Donors are judged against the ideal and one, receivers against the
ideal itself, so between the two a backend neither gives nor takes: what is
above (`overload`) and what is missing below (`spare`) drop together, one
for each move, and the pass ends when either is used up. It evens the
backends out exactly if there was room for all that was too much.
-/

namespace StickyProxy

namespace LeastLoaded

variable {t : Table RoutingKey Assignment} {activeBackends donors : List Backend}
  {users : List (RoutingKey × Assignment)} {b backend : Backend} {moves : List Move} {plan : Plan}
  {ideal excess : ℤ}

/-! ## What is too much and what is missing -/

/-- What the active backends have above the ideal and one. -/
def overload (activeBackends : List Backend) (ideal : ℤ) (t : Table RoutingKey Assignment) : ℤ :=
  ∑ b ∈ activeBackends.toFinset, max (load t b - ideal - 1) 0

/-- What they could take before all are at the ideal. -/
def spare (activeBackends : List Backend) (ideal : ℤ) (t : Table RoutingKey Assignment) : ℤ :=
  ∑ b ∈ activeBackends.toFinset, max (ideal - load t b) 0

/-- Every account weighs one and is on an active backend. -/
def UnitWeights (activeBackends : List Backend) (t : Table RoutingKey Assignment) : Prop :=
  ∀ u a, t.lookup u = some a → a.effectiveWeight = 1 ∧ a.backend ∈ activeBackends

/-- No active backend is above the ideal and one. -/
def Balanced (activeBackends : List Backend) (ideal : ℤ) (t : Table RoutingKey Assignment) : Prop :=
  ∀ b ∈ activeBackends, load t b ≤ ideal + 1

theorem overload_sub_spare : overload activeBackends ideal t - spare activeBackends ideal t =
    ∑ b ∈ activeBackends.toFinset, (max (load t b - ideal - 1) 0 - max (ideal - load t b) 0) :=
  Finset.sum_sub_distrib _ _ |>.symm

theorem spare_nonneg : 0 ≤ spare activeBackends ideal t :=
  Finset.sum_nonneg fun _ _ => le_max_right _ _

theorem balanced_iff_overload : Balanced activeBackends ideal t ↔
    overload activeBackends ideal t ≤ 0 := by
  constructor
  · intro h
    refine Finset.sum_nonpos fun b hb => max_le ?_ le_rfl
    have hle := h b (List.mem_toFinset.1 hb)
    omega
  · intro h b hb
    have hterm : max (load t b - ideal - 1) 0 ≤ overload activeBackends ideal t :=
      Finset.single_le_sum (f := fun b => max (load t b - ideal - 1) 0)
        (fun _ _ => le_max_right _ _) (List.mem_toFinset.2 hb)
    omega

theorem over_sub_missing_of_le {x : ℤ} (h : ideal + 1 ≤ x) :
    max (x - ideal - 1) 0 - max (ideal - x) 0 = x - ideal - 1 := by
  have hover : 0 ≤ x - ideal - 1 := by omega
  have hmissing : ideal - x ≤ 0 := by omega
  rw [max_eq_left hover, max_eq_right hmissing, sub_zero]

theorem over_sub_missing_of_ge {x : ℤ} (h : x ≤ ideal) :
    max (x - ideal - 1) 0 - max (ideal - x) 0 = x - ideal := by
  have hover : x - ideal - 1 ≤ 0 := by omega
  have hmissing : 0 ≤ ideal - x := by omega
  rw [max_eq_right hover, max_eq_left hmissing, zero_sub, neg_sub]

/-- **A move takes one off either**: its donor stays at the ideal and one
at least, its target at the ideal at most. -/
theorem Legal.overload_sub_spare (hunit : UnitWeights activeBackends t)
    (h : Legal activeBackends ideal t moves) :
    overload activeBackends ideal (applyMoves t moves) -
        spare activeBackends ideal (applyMoves t moves) =
      overload activeBackends ideal t - spare activeBackends ideal t := by
  induction h with
  | nil => rfl
  | @snoc moves m a _ hnew hadm ih =>
    have hlook : t.lookup m.routingKey = some a :=
      (lookup_applyMoves hnew).symm.trans hadm.account
    obtain ⟨hweight, hfrom⟩ := hunit m.routingKey a hlook
    rw [hadm.source] at hfrom
    have hsum := hadm.sum_load fun x => max (x - ideal - 1) 0 - max (ideal - x) 0
    have hbelow := hadm.below
    have hover := hadm.overfull hfrom
    have hto : load (applyMoves t moves) m.toBackend + 1 ≤ ideal := by omega
    have hkeep : ideal + 1 ≤ load (applyMoves t moves) m.fromBackend - 1 := by omega
    rw [← ih, applyMoves_append, LeastLoaded.overload_sub_spare, LeastLoaded.overload_sub_spare,
      hsum, if_pos hfrom, hweight, over_sub_missing_of_ge hto, over_sub_missing_of_ge hbelow.le,
      over_sub_missing_of_le hkeep, over_sub_missing_of_le hover.le]
    ring

/-! ## The pass goes on while there is room -/

/-- No active backend is planned below the ideal. -/
def Full (activeBackends : List Backend) (ideal : ℤ) (planned : Table Backend ℤ) : Prop :=
  ∀ b ∈ activeBackends, ideal ≤ planned.value b

theorem Full.no_target {planned : Table Backend ℤ} (h : Full activeBackends ideal planned) (w : ℤ) :
    target activeBackends ideal planned w = "" := by
  by_contra hname
  obtain ⟨hmem, hbelow, -⟩ := target_spec hname
  exact absurd (h _ hmem) (not_le.2 hbelow)

/-- An account of weight one has a target as long as a backend is below the
ideal. -/
theorem full_of_no_target {planned : Table Backend ℤ} (hname : "" ∉ activeBackends)
    (h : target activeBackends ideal planned 1 = "") : Full activeBackends ideal planned := by
  intro b hb
  by_contra hbelow
  have hroom : HasRoom activeBackends ideal planned 1 := ⟨b, hb, by omega, by omega⟩
  exact hname (h ▸ target_mem hroom)

/-- **How a turn ends**: with no room left, or with enough moved, or with
everything moved. -/
theorem foldl_offer_ends (hname : "" ∉ activeBackends) {us : List (RoutingKey × Assignment)} :
    ∀ st : ℤ × Plan, (∀ p ∈ us, p.2.effectiveWeight = 1) →
      Full activeBackends ideal
          (us.foldl (offer activeBackends ideal excess backend) st).2.planned ∨
        excess ≤ (us.foldl (offer activeBackends ideal excess backend) st).1 ∨
        (us.foldl (offer activeBackends ideal excess backend) st).1 = st.1 + us.length := by
  induction us with
  | nil =>
    intro st _
    exact Or.inr (Or.inr (by simp))
  | cons p us ih =>
    intro st hunit
    obtain ⟨hp, hus⟩ := List.forall_mem_cons.1 hunit
    rw [List.foldl_cons, List.length_cons]
    rcases offer_cases activeBackends ideal excess backend st p with
      ⟨heq, henough | hnone⟩ | ⟨-, -, heq⟩
    · rw [heq]
      rcases ih st hus with hfull | hmoved | hall
      · exact Or.inl hfull
      · exact Or.inr (Or.inl hmoved)
      · exact Or.inr (Or.inl (by omega))
    · -- Without room now there is none later.
      have hfull : Full activeBackends ideal st.2.planned := full_of_no_target hname (hp ▸ hnone)
      rw [heq, foldl_offer_of_no_target fun q _ => hfull.no_target _]
      exact Or.inl hfull
    · rw [heq]
      rcases ih _ hus with hfull | hmoved | hall
      · exact Or.inl hfull
      · exact Or.inr (Or.inl hmoved)
      · refine Or.inr (Or.inr ?_)
        rw [hall, hp]
        push_cast
        ring

/-- A turn takes no backend above the ideal and one. -/
theorem value_foldl_offer_le {us : List (RoutingKey × Assignment)} (st : ℤ × Plan)
    (h : st.2.planned.value b ≤ ideal + 1) :
    (us.foldl (offer activeBackends ideal excess backend) st).2.planned.value b ≤ ideal + 1 := by
  induction us generalizing st with
  | nil => exact h
  | cons p us ih =>
    refine ih _ ?_
    rcases offer_cases activeBackends ideal excess backend st p with ⟨heq, -⟩ | ⟨-, hname, heq⟩
    · rwa [heq]
    · obtain ⟨-, -, hfits⟩ := target_spec hname
      have hw := p.2.one_le_effectiveWeight
      rw [heq, Plan.value_move]
      dsimp only
      split
      · rename_i hto
        subst hto
        split <;> omega
      · split <;> omega

/-- With unit weights, a backend has as much weight as users. -/
theorem load_eq_length (hunit : UnitWeights activeBackends t) (hperm : users.Perm (Table.pairs t)) :
    load t backend = (backendUsers users backend).length := by
  have hone : ∀ p ∈ backendUsers users backend, p.2.effectiveWeight = 1 := fun p hp =>
    (hunit p.1 p.2 ((mem_backendUsers hperm).1 hp).1).1
  rw [load_eq_sum_backendUsers hperm, List.map_congr_left hone]
  simp

/-- A donor is down to the ideal and one after its turn, if there is still
room. -/
theorem full_or_shed (hname : "" ∉ activeBackends) (hunit : UnitWeights activeBackends t)
    (hperm : users.Perm (Table.pairs t)) {done : List Backend} (hnew : backend ∉ done)
    (h : Progress activeBackends (LeastLoaded.ideal activeBackends users) t done (usersOn t done)
      plan)
    (hmem : backend ∈ activeBackends) :
    Full activeBackends (LeastLoaded.ideal activeBackends users)
        (donate activeBackends users plan backend).planned ∨
      (donate activeBackends users plan backend).planned.value backend ≤
        LeastLoaded.ideal activeBackends users + 1 := by
  rcases hexcess : LeastLoaded.excess activeBackends users backend with - | e
  · -- Nothing to shed: it never had more.
    have hover : ¬ LeastLoaded.ideal activeBackends users + 1 < load t backend := fun hover => by
      obtain ⟨e, he⟩ := exists_excess hperm fun _ => hover
      exact Option.some_ne_none e (he.symm.trans hexcess)
    have hsame : donate activeBackends users plan backend = plan := by rw [donate, hexcess]
    rw [hsame, h.sound.planned]
    exact Or.inr (h.legal.load_le_max.trans (max_le (not_lt.1 hover) le_rfl))
  · have hones : ∀ p ∈ backendUsers users backend, p.2.effectiveWeight = 1 := fun p hp =>
      (hunit p.1 p.2 ((mem_backendUsers hperm).1 hp).1).1
    have hlength : load t backend = (backendUsers users backend).length :=
      load_eq_length hunit hperm
    obtain ⟨he, hover⟩ := excess_of_mem hperm hmem hexcess
    have hshed := (h.inTurn hperm hnew hexcess).shed hmem
    have hdonate : donate activeBackends users plan backend = ((backendUsers users backend).foldl
        (offer activeBackends (LeastLoaded.ideal activeBackends users) e backend) (0, plan)).2 := by
      rw [donate, hexcess]
    have hideal : 1 ≤ LeastLoaded.ideal activeBackends users := one_le_ideal hperm
    rw [hdonate, hshed]
    rcases foldl_offer_ends hname (0, plan) hones with hfull | hmoved | hall
    · exact Or.inl hfull
    · exact Or.inr (by omega)
    · exact Or.inr (by omega)

theorem value_donate_le (h : plan.planned.value b ≤ LeastLoaded.ideal activeBackends users + 1) :
    (donate activeBackends users plan backend).planned.value b ≤
      LeastLoaded.ideal activeBackends users + 1 := by
  unfold donate
  split
  · exact value_foldl_offer_le _ h
  · exact h

/-- **How the pass ends**: with no room left, or with every donor down to
the ideal and one. -/
theorem planAfter_ends (hname : "" ∉ activeBackends) (hunit : UnitWeights activeBackends t)
    (hperm : users.Perm (Table.pairs t)) (hnodup : donors.Nodup) :
    Full activeBackends (LeastLoaded.ideal activeBackends users)
        (planAfter activeBackends users donors).planned ∨
      ∀ b ∈ donors, b ∈ activeBackends →
        (planAfter activeBackends users donors).planned.value b ≤
          LeastLoaded.ideal activeBackends users + 1 := by
  refine (planAfter_invariant (I := fun done plan =>
    Progress activeBackends (LeastLoaded.ideal activeBackends users) t done (usersOn t done) plan ∧
      (Full activeBackends (LeastLoaded.ideal activeBackends users) plan.planned ∨
        ∀ b ∈ done, b ∈ activeBackends →
          plan.planned.value b ≤ LeastLoaded.ideal activeBackends users + 1)) ?_ ?_ hnodup).2
  · exact ⟨progress_planAfter hperm List.nodup_nil, Or.inr (List.forall_mem_nil _)⟩
  · rintro done backend plan hnew ⟨hprogress, hends⟩
    refine ⟨hprogress.donate hperm hnew, ?_⟩
    rcases hends with hfull | hdone
    · rw [donate_of_no_target fun _ _ _ _ => hfull.no_target _]
      exact Or.inl hfull
    by_cases hmem : backend ∈ activeBackends
    · have hturn := full_or_shed hname hunit hperm hnew hprogress hmem
      refine hturn.imp_right fun hshed b hb hact => ?_
      rcases List.mem_append.1 hb with hold | hone
      · exact value_donate_le (hdone b hold hact)
      · exact List.mem_singleton.1 hone ▸ hshed
    · refine Or.inr fun b hb hact => ?_
      rcases List.mem_append.1 hb with hold | hone
      · exact value_donate_le (hdone b hold hact)
      · exact absurd (List.mem_singleton.1 hone ▸ hact) hmem

/-- A pass leaves nothing to give or nowhere to give it. -/
theorem balanced_or_full (hname : "" ∉ activeBackends) (hunit : UnitWeights activeBackends t)
    (hr : Ranges t users donors) (hne : activeBackends ≠ []) :
    Balanced activeBackends (idealOf activeBackends t)
        (applyMoves t (computeMoves activeBackends users donors)) ∨
      spare activeBackends (idealOf activeBackends t)
        (applyMoves t (computeMoves activeBackends users donors)) = 0 := by
  have hmoves : computeMoves activeBackends users donors =
      (planAfter activeBackends users donors).moves := if_neg (by simpa using hne)
  have hplan : Progress activeBackends (LeastLoaded.ideal activeBackends users) t donors
      (usersOn t donors) (planAfter activeBackends users donors) :=
    progress_planAfter hr.perm hr.donors.1
  rw [← ideal_eq_idealOf hr.perm, hmoves]
  rcases planAfter_ends hname hunit hr.perm hr.donors.1 with hfull | hdonors
  · refine Or.inr (Finset.sum_eq_zero fun b hb => max_eq_right ?_)
    have hle := hfull b (List.mem_toFinset.1 hb)
    rw [hplan.sound.planned] at hle
    omega
  · refine Or.inl fun b hb => ?_
    by_cases hdonor : b ∈ donors
    · exact hplan.sound.planned b ▸ hdonors b hdonor hb
    · -- A backend that is not in the map has no account.
      have hnone : backendUsers users b = [] := List.eq_nil_iff_forall_not_mem.2 fun p hp => by
        rw [backendUsers, List.mem_filter, decide_eq_true_eq] at hp
        exact hdonor (hr.donors.mem.2 (List.mem_toFinset.2 (List.mem_map.2 ⟨p, hp.1, hp.2⟩)))
      have hload : load t b = 0 := by rw [load_eq_length hunit hr.perm, hnone]; rfl
      have hideal : 1 ≤ LeastLoaded.ideal activeBackends users := one_le_ideal hr.perm
      exact hplan.legal.load_le_max.trans (max_le (by omega) le_rfl)

/-- **When equal weights are evened out**: with no active backend left
above the ideal and one exactly if there was as much missing below the
ideal as there was too much above the ideal and one. -/
theorem balanced_iff_room (t : Table RoutingKey Assignment) (activeBackends donors : List Backend)
    (users : List (RoutingKey × Assignment)) (hne : activeBackends ≠ [])
    (hname : "" ∉ activeBackends) (hunit : UnitWeights activeBackends t)
    (hr : Ranges t users donors) :
    Balanced activeBackends (idealOf activeBackends t)
        (applyMoves t (computeMoves activeBackends users donors)) ↔
      overload activeBackends (idealOf activeBackends t) t ≤
        spare activeBackends (idealOf activeBackends t) t := by
  have hlegal : Legal activeBackends (idealOf activeBackends t) t
      (computeMoves activeBackends users donors) :=
    ideal_eq_idealOf hr.perm ▸ legal_computeMoves hr
  have hsame := hlegal.overload_sub_spare hunit
  have hspare : 0 ≤ spare activeBackends (idealOf activeBackends t)
      (applyMoves t (computeMoves activeBackends users donors)) := spare_nonneg
  constructor
  · intro hbalanced
    have hover := balanced_iff_overload.1 hbalanced
    omega
  · intro hroom
    refine (balanced_or_full hname hunit hr hne).elim id fun hfull => balanced_iff_overload.2 ?_
    omega

/-- Accounts of weight one, the `i`th on the `i`th of the backends. -/
def unitTable (backends : List Backend) : Table RoutingKey Assignment :=
  Table.insertAll ∅ (backends.zipIdx.map fun p => (toString p.2, ⟨p.1, 0, "assignment", 1⟩))

/-- Four accounts on one backend, one on either of the others. -/
theorem balanced_iff_room_unitTable :
    Balanced ["b1", "b2", "b3"] 2 (applyMoves (unitTable ["b1", "b1", "b1", "b1", "b2", "b3"])
      (computeMoves ["b1", "b2", "b3"]
        (Table.pairs (unitTable ["b1", "b1", "b1", "b1", "b2", "b3"])) ["b1", "b2", "b3"])) :=
  (balanced_iff_room (unitTable ["b1", "b1", "b1", "b1", "b2", "b3"]) ["b1", "b2", "b3"]
    ["b1", "b2", "b3"] (Table.pairs (unitTable ["b1", "b1", "b1", "b1", "b2", "b3"])) (by decide)
    (by decide) (fun u a h => by
      have hall : ∀ p ∈ Table.pairs (unitTable ["b1", "b1", "b1", "b1", "b2", "b3"]),
          p.2.effectiveWeight = 1 ∧ p.2.backend ∈ ["b1", "b2", "b3"] := by decide
      exact hall (u, a) (Table.mem_pairs.2 h)) ⟨List.Perm.refl _, by decide⟩).2 (by decide)

/-- **An even remainder can stay on one backend**: with four accounts on
one backend and two on either of the others nobody is below the ideal of
two, so nothing moves. -/
theorem remainder_stays :
    ¬ ∀ (t : Table RoutingKey Assignment) (activeBackends donors : List Backend)
      (users : List (RoutingKey × Assignment)), activeBackends ≠ [] → activeBackends.Nodup →
      "" ∉ activeBackends → UnitWeights activeBackends t → Ranges t users donors →
      Balanced activeBackends (idealOf activeBackends t)
        (applyMoves t (computeMoves activeBackends users donors)) := by
  intro h
  have hall : ∀ p ∈ Table.pairs (unitTable ["b1", "b1", "b1", "b1", "b2", "b2", "b3", "b3"]),
      p.2.effectiveWeight = 1 ∧ p.2.backend ∈ ["b1", "b2", "b3"] := by decide
  have hbalanced := h (unitTable ["b1", "b1", "b1", "b1", "b2", "b2", "b3", "b3"])
    ["b1", "b2", "b3"] ["b1", "b2", "b3"]
    (Table.pairs (unitTable ["b1", "b1", "b1", "b1", "b2", "b2", "b3", "b3"])) (by decide)
    (by decide) (by decide) (fun u a hu => hall (u, a) (Table.mem_pairs.2 hu))
    ⟨List.Perm.refl _, by decide⟩ "b1" (by decide)
  exact absurd hbalanced (by decide)

end LeastLoaded

end StickyProxy
