import StickyProxy.Rebalance.Moves
import StickyProxy.Rebalance.Evacuation
import StickyProxy.Rebalance.Correctness
import Mathlib.Data.Prod.Lex
import Mathlib.Order.WellFounded
/-!
# Rebalancing comes to rest

Pass after pass, with the same active backends and the maps in any order,
the least-loaded strategy runs out of moves. An admissible move off an
inactive backend leaves fewer accounts stranded there; one between active
backends evens their loads out, so that the sum of the squares drops. The
two, in this order, are a potential that every move lowers and that no
order of the maps enters. Whether there is a first move does not depend on
the order either, so a pass without one is the last that matters.
-/

namespace StickyProxy

namespace LeastLoaded

variable {t t' : Table RoutingKey Assignment} {activeBackends donors : List Backend}
  {users : List (RoutingKey × Assignment)} {a : Assignment} {backend : Backend}
  {u : RoutingKey} {m : Move} {moves : List Move} {plan : Plan} {ideal excess : ℤ}

/-! ## The potential -/

/-- How many accounts are on backends that are not active. -/
def stranded (activeBackends : List Backend) (t : Table RoutingKey Assignment) : ℤ :=
  Table.total (fun _ a => if a.backend ∈ activeBackends then 0 else 1) t

/-- The squares of the active loads. -/
def squares (activeBackends : List Backend) (t : Table RoutingKey Assignment) : ℤ :=
  ∑ b ∈ activeBackends.toFinset, load t b ^ 2

/-- What every move lowers. -/
def potential (activeBackends : List Backend) (t : Table RoutingKey Assignment) : ℕ ×ₗ ℕ :=
  toLex ((stranded activeBackends t).toNat, (squares activeBackends t).toNat)

theorem stranded_nonneg : 0 ≤ stranded activeBackends t := by
  refine List.sum_nonneg fun x hx => ?_
  obtain ⟨e, -, rfl⟩ := List.mem_map.1 hx
  dsimp only
  split <;> decide

theorem squares_nonneg : 0 ≤ squares activeBackends t :=
  Finset.sum_nonneg fun b _ => sq_nonneg (load t b)

/-- A move strands nobody, and brings one account back if it is off an
inactive backend. -/
theorem Admissible.stranded_eq (h : Admissible activeBackends ideal t m a) :
    stranded activeBackends (applyMove t m) =
      stranded activeBackends t - if m.fromBackend ∈ activeBackends then 0 else 1 := by
  rw [applyMove_of_lookup h.account, stranded, Table.total_insert,
    Table.share_of_lookup h.account, if_pos h.target, h.source, add_zero]
  rfl

/-- A move between active backends evens them out. -/
theorem Admissible.squares_lt (h : Admissible activeBackends ideal t m a)
    (hfrom : m.fromBackend ∈ activeBackends) :
    squares activeBackends (applyMove t m) < squares activeBackends t := by
  have hsum := h.sum_load (· ^ 2)
  rw [if_pos hfrom] at hsum
  have hw := a.one_le_effectiveWeight
  have hover := h.overfull hfrom
  have hfits := h.fits
  -- The donor keeps more than the target had.
  have hgap : load t m.toBackend + a.effectiveWeight - load t m.fromBackend < 0 := by omega
  have hdrop : a.effectiveWeight *
      (load t m.toBackend + a.effectiveWeight - load t m.fromBackend) < 0 :=
    mul_neg_of_pos_of_neg (by omega) hgap
  unfold squares
  rw [hsum]
  linarith [hdrop]

theorem Admissible.potential_lt (h : Admissible activeBackends ideal t m a) :
    potential activeBackends (applyMove t m) < potential activeBackends t := by
  have hstranded := h.stranded_eq
  have hnonneg : 0 ≤ stranded activeBackends (applyMove t m) := stranded_nonneg
  rw [potential, potential, Prod.Lex.toLex_lt_toLex]
  by_cases hfrom : m.fromBackend ∈ activeBackends
  · rw [if_pos hfrom, sub_zero] at hstranded
    have hsquares := h.squares_lt hfrom
    have hpos : 0 ≤ squares activeBackends (applyMove t m) := squares_nonneg
    exact Or.inr ⟨by rw [hstranded], by omega⟩
  · rw [if_neg hfrom] at hstranded
    exact Or.inl (by omega)

/-- **A pass that moves anything lowers the potential.** -/
theorem Legal.potential_lt (h : Legal activeBackends ideal t moves) (hne : moves ≠ []) :
    potential activeBackends (applyMoves t moves) < potential activeBackends t := by
  have hle : ∀ moves, Legal activeBackends ideal t moves →
      potential activeBackends (applyMoves t moves) ≤ potential activeBackends t := by
    intro moves h
    induction h with
    | nil => exact le_rfl
    | snoc _ _ hadm ih =>
      rw [applyMoves_append]
      exact hadm.potential_lt.le.trans ih
  cases h with
  | nil => exact absurd rfl hne
  | snoc hmoves _ hadm =>
    rw [applyMoves_append]
    exact hadm.potential_lt.trans_le (hle _ hmoves)

/-! ## What the strategy reads -/

/-- What the strategy reads of an assignment. -/
def placement (a : Assignment) : Backend × ℤ := (a.backend, a.effectiveWeight)

/-- The same accounts, on the same backends with the same weights. -/
def Alike (t t' : Table RoutingKey Assignment) : Prop :=
  ∀ k, (t.lookup k).map placement = (t'.lookup k).map placement

theorem Alike.refl (t : Table RoutingKey Assignment) : Alike t t := fun _ => rfl

theorem Alike.symm (h : Alike t t') : Alike t' t := fun k => (h k).symm

theorem Alike.trans {t'' : Table RoutingKey Assignment} (h : Alike t t') (h' : Alike t' t'') :
    Alike t t'' := fun k => (h k).trans (h' k)

theorem Alike.total_eq (h : Alike t t') (g : Backend × ℤ → ℤ) :
    Table.total (fun _ a => g (placement a)) t = Table.total (fun _ a => g (placement a)) t' :=
  Table.total_congr_map placement (fun _ => g) h

theorem Alike.load_eq (h : Alike t t') (b : Backend) : load t b = load t' b :=
  h.total_eq fun p => if p.1 = b then p.2 else 0

theorem Alike.idealOf_eq (h : Alike t t') :
    idealOf activeBackends t = idealOf activeBackends t' := by
  have htotal : totalWeight t = totalWeight t' := h.total_eq Prod.snd
  rw [idealOf, idealOf, htotal]

theorem Alike.potential_eq (h : Alike t t') :
    potential activeBackends t = potential activeBackends t' := by
  have hstranded : stranded activeBackends t = stranded activeBackends t' :=
    h.total_eq fun p => if p.1 ∈ activeBackends then 0 else 1
  have hsquares : squares activeBackends t = squares activeBackends t' :=
    Finset.sum_congr rfl fun b _ => by rw [h.load_eq b]
  rw [potential, potential, hstranded, hsquares]

/-! ## Whether there is a first move -/

/-- No account that could be given away has a target in the table as it
is. -/
def Stuck (activeBackends : List Backend) (t : Table RoutingKey Assignment) : Prop :=
  ∀ planned : Table Backend ℤ, (∀ b, planned.value b = load t b) →
    ∀ u a, t.lookup u = some a →
      (a.backend ∈ activeBackends → idealOf activeBackends t + 1 < load t a.backend) →
      target activeBackends (idealOf activeBackends t) planned a.effectiveWeight = ""

theorem target_congr {planned planned' : Table Backend ℤ} {w : ℤ}
    (h : ∀ b, planned.value b = planned'.value b) :
    target activeBackends ideal planned w = target activeBackends ideal planned' w := by
  simp only [target, h]

theorem Stuck.congr (h : Stuck activeBackends t) (hlike : Alike t t') :
    Stuck activeBackends t' := by
  intro planned hplanned u a ha hover
  obtain ⟨a', ha', hplace⟩ : ∃ a', t.lookup u = some a' ∧ placement a' = placement a := by
    have hu := hlike u
    rw [ha] at hu
    exact Option.map_eq_some_iff.1 hu
  obtain ⟨hbackend, hweight⟩ := Prod.mk.inj hplace
  rw [← hweight, ← hlike.idealOf_eq]
  refine h planned (fun b => (hplanned b).trans (hlike.load_eq b).symm) u a' ha' fun hmem => ?_
  rw [hlike.idealOf_eq, hlike.load_eq, hbackend]
  exact hover (hbackend ▸ hmem)

theorem load_pos (ha : t.lookup u = some a) : 0 < load t a.backend := by
  have hrest : 0 ≤ load (t.erase u) a.backend := List.sum_nonneg fun x hx => by
    obtain ⟨e, -, rfl⟩ := List.mem_map.1 hx
    have hw := Assignment.one_le_effectiveWeight e.2
    dsimp only
    split <;> omega
  have hw := a.one_le_effectiveWeight
  rw [load, Table.total_eq_share_add _ _ u, Table.share_of_lookup ha, if_pos rfl]
  exact add_pos_of_pos_of_nonneg (by omega) hrest

/-- Offers without a target change nothing. -/
theorem foldl_offer_of_no_target {us : List (RoutingKey × Assignment)} {st : ℤ × Plan}
    (h : ∀ p ∈ us, target activeBackends ideal st.2.planned p.2.effectiveWeight = "") :
    us.foldl (offer activeBackends ideal excess backend) st = st := by
  induction us with
  | nil => rfl
  | cons p us ih =>
    obtain ⟨hp, hus⟩ := List.forall_mem_cons.1 h
    rcases offer_cases activeBackends ideal excess backend st p with ⟨heq, -⟩ | ⟨-, hname, -⟩
    · rw [List.foldl_cons, heq]
      exact ih hus
    · exact absurd hp hname

/-- A turn that moves nothing has found no target for anybody. -/
theorem no_target_of_foldl_offer {us : List (RoutingKey × Assignment)} {st : ℤ × Plan}
    (hleft : st.1 < excess)
    (h : (us.foldl (offer activeBackends ideal excess backend) st).2.moves = []) :
    ∀ p ∈ us, target activeBackends ideal st.2.planned p.2.effectiveWeight = "" := by
  induction us with
  | nil => exact List.forall_mem_nil _
  | cons p us ih =>
    rcases offer_cases activeBackends ideal excess backend st p with
      ⟨heq, henough | hnone⟩ | ⟨-, -, heq⟩
    · exact absurd henough (not_le.2 hleft)
    · rw [List.foldl_cons, heq] at h
      exact List.forall_mem_cons.2 ⟨hnone, ih h⟩
    · -- The first move would still be there.
      have hsub : (offer activeBackends ideal excess backend st p).2.moves ⊆
          (us.foldl (offer activeBackends ideal excess backend)
            (offer activeBackends ideal excess backend st p)).2.moves :=
        moves_foldl_offer_subset us _
      rw [← List.foldl_cons, h, heq] at hsub
      exact absurd (hsub (List.mem_append_right _ (List.mem_singleton.2 rfl))) List.not_mem_nil

/-- A backend with an account has something to shed, if it sheds at all. -/
theorem excess_pos (hperm : users.Perm (Table.pairs t)) (ha : t.lookup u = some a)
    (h : LeastLoaded.excess activeBackends users a.backend = some excess) : 0 < excess := by
  by_cases hmem : a.backend ∈ activeBackends
  · obtain ⟨heq, hover⟩ := excess_of_mem hperm hmem h
    omega
  · have hall : LeastLoaded.excess activeBackends users a.backend =
        some ((weights activeBackends users).value a.backend) := if_pos hmem
    rw [← Option.some.inj (hall.symm.trans h), value_weights hperm]
    exact load_pos ha

/-- It sheds if it is not active or above the ideal and one. -/
theorem exists_excess (hperm : users.Perm (Table.pairs t))
    (h : backend ∈ activeBackends → LeastLoaded.ideal activeBackends users + 1 < load t backend) :
    ∃ e, LeastLoaded.excess activeBackends users backend = some e := by
  unfold LeastLoaded.excess
  dsimp only
  by_cases hmem : backend ∈ activeBackends
  · rw [if_neg (not_not.2 hmem), value_weights hperm, if_pos (h hmem)]
    exact ⟨_, rfl⟩
  · exact ⟨_, if_pos hmem⟩

/-- A donor none of whose accounts has a target gives nothing away. -/
theorem donate_of_no_target
    (h : ∀ e, LeastLoaded.excess activeBackends users backend = some e →
      ∀ p ∈ backendUsers users backend, target activeBackends
        (LeastLoaded.ideal activeBackends users) plan.planned p.2.effectiveWeight = "") :
    donate activeBackends users plan backend = plan := by
  unfold donate
  split
  · rename_i e he
    have hstay : (backendUsers users backend).foldl
        (offer activeBackends (LeastLoaded.ideal activeBackends users) e backend) (0, plan) =
        (0, plan) := foldl_offer_of_no_target (h e he)
    rw [hstay]
  · rfl

theorem computeMoves_of_stuck (hr : Ranges t users donors) (h : Stuck activeBackends t) :
    computeMoves activeBackends users donors = [] := by
  have hstay : ∀ backend, donate activeBackends users ⟨weights activeBackends users, []⟩ backend =
      ⟨weights activeBackends users, []⟩ := by
    intro backend
    refine donate_of_no_target fun e he p hp => ?_
    obtain ⟨hlook, rfl⟩ := (mem_backendUsers hr.perm).1 hp
    rw [ideal_eq_idealOf hr.perm]
    refine h _ (value_weights hr.perm) p.1 p.2 hlook fun hmem => ?_
    exact ideal_eq_idealOf hr.perm ▸ (excess_of_mem hr.perm hmem he).2
  have hplan : planAfter activeBackends users donors = ⟨weights activeBackends users, []⟩ :=
    planAfter_invariant (I := fun _ plan => plan = ⟨weights activeBackends users, []⟩) rfl
      (fun _ backend _ _ hplan => hplan ▸ hstay backend) hr.donors.1
  unfold computeMoves
  split
  · rfl
  · rw [hplan]

/-- Donors that have moved nothing so far have found no target for anybody,
and left the plan as it was. -/
theorem no_target_of_planAfter (hperm : users.Perm (Table.pairs t)) (hnodup : donors.Nodup) :
    (planAfter activeBackends users donors).moves = [] →
      planAfter activeBackends users donors = ⟨weights activeBackends users, []⟩ ∧
      ∀ backend ∈ donors, ∀ e, LeastLoaded.excess activeBackends users backend = some e →
        ∀ p ∈ backendUsers users backend, target activeBackends
          (LeastLoaded.ideal activeBackends users) (weights activeBackends users)
          p.2.effectiveWeight = "" := by
  refine planAfter_invariant (I := fun done plan => plan.moves = [] →
    plan = ⟨weights activeBackends users, []⟩ ∧
    ∀ backend ∈ done, ∀ e, LeastLoaded.excess activeBackends users backend = some e →
      ∀ p ∈ backendUsers users backend, target activeBackends
        (LeastLoaded.ideal activeBackends users) (weights activeBackends users)
        p.2.effectiveWeight = "") ?_ ?_ hnodup
  · exact fun _ => ⟨rfl, List.forall_mem_nil _⟩
  · intro done backend plan _ ih hmoves
    have hsub : plan.moves ⊆ (donate activeBackends users plan backend).moves :=
      moves_donate_subset plan
    have hbefore : plan.moves = [] := List.eq_nil_of_subset_nil (hmoves ▸ hsub)
    obtain ⟨rfl, hdone⟩ := ih hbefore
    have hmine : ∀ e, LeastLoaded.excess activeBackends users backend = some e →
        ∀ p ∈ backendUsers users backend, target activeBackends
          (LeastLoaded.ideal activeBackends users) (weights activeBackends users)
          p.2.effectiveWeight = "" := by
      intro e he p hp
      obtain ⟨hlook, rfl⟩ := (mem_backendUsers hperm).1 hp
      rw [donate, he] at hmoves
      exact no_target_of_foldl_offer (excess_pos hperm hlook he) hmoves p hp
    refine ⟨donate_of_no_target hmine, fun b hb => ?_⟩
    rcases List.mem_append.1 hb with hold | hone
    · exact hdone b hold
    · exact List.mem_singleton.1 hone ▸ hmine

/-- **Whether anything moves does not depend on the order of the maps.** -/
theorem computeMoves_eq_nil_iff (hr : Ranges t users donors) :
    computeMoves activeBackends users donors = [] ↔ Stuck activeBackends t := by
  refine ⟨fun hnil planned hplanned u a ha hover => ?_, computeMoves_of_stuck hr⟩
  have hideal : LeastLoaded.ideal activeBackends users = idealOf activeBackends t :=
    ideal_eq_idealOf hr.perm
  by_cases hempty : activeBackends.length = 0
  · rw [List.length_eq_zero_iff.1 hempty]
    rfl
  rw [computeMoves, if_neg hempty] at hnil
  obtain ⟨-, hnone⟩ := no_target_of_planAfter hr.perm hr.donors.1 hnil
  obtain ⟨e, he⟩ := exists_excess hr.perm (hideal ▸ hover)
  have hdonor : a.backend ∈ donors := by
    rw [hr.donors.mem, List.mem_toFinset]
    exact List.mem_map.2 ⟨(u, a), hr.perm.mem_iff.2 (Table.mem_pairs.2 ha), rfl⟩
  have hsame : ∀ b, planned.value b = (weights activeBackends users).value b := fun b =>
    (hplanned b).trans (value_weights hr.perm b).symm
  rw [target_congr hsame, ← hideal]
  exact hnone a.backend hdonor e he (u, a) ((mem_backendUsers hr.perm).2 ⟨ha, rfl⟩)

/-! ## Pass after pass -/

/-- One pass: the moves are computed in some order of the maps, and
applied. -/
def Pass (activeBackends : List Backend) (t t' : Table RoutingKey Assignment) : Prop :=
  ∃ users donors, Ranges t users donors ∧
    Alike t' (applyMoves t (computeMoves activeBackends users donors))

theorem Pass.potential_lt (h : Pass activeBackends t t') (hmoves : ¬ Stuck activeBackends t) :
    potential activeBackends t' < potential activeBackends t := by
  obtain ⟨users, donors, hr, hlike⟩ := h
  have hne : computeMoves activeBackends users donors ≠ [] :=
    fun hnil => hmoves ((computeMoves_eq_nil_iff hr).1 hnil)
  rw [hlike.potential_eq]
  exact (legal_computeMoves hr).potential_lt hne

theorem Pass.alike_of_stuck (h : Pass activeBackends t t') (hstuck : Stuck activeBackends t) :
    Alike t' t := by
  obtain ⟨users, donors, hr, hlike⟩ := h
  rw [computeMoves_of_stuck hr hstuck] at hlike
  exact hlike

/-- **Repeated rebalancing stops.** Every sequence of passes with the same
active backends reaches a table for which no order of the maps gives a
move, and stays there. -/
theorem rebalancing_stops (activeBackends : List Backend)
    (passes : ℕ → Table RoutingKey Assignment)
    (h : ∀ n, Pass activeBackends (passes n) (passes (n + 1))) :
    ∃ n, (∀ users donors, Ranges (passes n) users donors →
        computeMoves activeBackends users donors = []) ∧
      ∀ k, Alike (passes (n + k)) (passes n) := by
  -- The potential cannot drop for ever, and it drops as long as anything moves.
  obtain ⟨n, hn⟩ := WellFounded.not_rel_apply_succ (r := (· < ·))
    fun n => potential activeBackends (passes n)
  have hstuck : Stuck activeBackends (passes n) := by
    by_contra hmoves
    exact hn ((h n).potential_lt hmoves)
  refine ⟨n, fun users donors hr => computeMoves_of_stuck hr hstuck, fun k => ?_⟩
  induction k with
  | zero => exact .refl _
  | succ k ih => exact ((h (n + k)).alike_of_stuck (hstuck.congr ih.symm)).trans ih

/-- The mixed table after one pass. -/
def evenTable : Table RoutingKey Assignment :=
  applyMoves mixedTable [⟨"u1", "b1", "b2"⟩, ⟨"u4", "b3", "b1"⟩]

/-- The first pass and those after it. -/
def mixedPasses : ℕ → Table RoutingKey Assignment
  | 0 => mixedTable
  | _ + 1 => evenTable

theorem rebalancing_stops_mixedPasses :
    ∃ n, (∀ users donors, Ranges (mixedPasses n) users donors →
        computeMoves ["b1", "b2"] users donors = []) ∧
      ∀ k, Alike (mixedPasses (n + k)) (mixedPasses n) := by
  have hfirst : Pass ["b1", "b2"] mixedTable evenTable := by
    refine ⟨(Table.pairs mixedTable).reverse, ["b1", "b2", "b3"],
      ⟨List.reverse_perm _, by decide⟩, ?_⟩
    have hmoves : computeMoves ["b1", "b2"] (Table.pairs mixedTable).reverse ["b1", "b2", "b3"] =
        [⟨"u1", "b1", "b2"⟩, ⟨"u4", "b3", "b1"⟩] := by decide
    rw [hmoves]
    exact .refl _
  have hlater : Pass ["b1", "b2"] evenTable evenTable := by
    refine ⟨Table.pairs evenTable, ["b1", "b2"], ⟨List.Perm.refl _, by decide⟩, ?_⟩
    have hmoves : computeMoves ["b1", "b2"] (Table.pairs evenTable) ["b1", "b2"] = [] := by decide
    rw [hmoves]
    exact .refl _
  refine rebalancing_stops ["b1", "b2"] mixedPasses fun n => ?_
  cases n with
  | zero => exact hfirst
  | succ n => exact hlater

/-! ## The rebalancer -/

open Rebalance

theorem Legal.proper (h : Legal activeBackends ideal t moves) : Proper t activeBackends moves where
  distinct := h.nodup
  current m hm := by
    obtain ⟨a, ha, hfrom, -⟩ := h.of_mem hm
    exact ⟨a, ha, hfrom⟩
  target m hm := by
    obtain ⟨a, -, -, hto, -⟩ := h.of_mem hm
    exact Or.inr hto

/-- What a rebalance leaves in the store is the table with the moves
applied, but for the time and the source of what it wrote. -/
theorem alike_of_rebalanced {rb : Rebalancer} {s s' : Rebalance.State}
    (hlegal : Legal activeBackends ideal s.store.getAllAssignments moves)
    (h : Rebalanced rb activeBackends moves s s') :
    Alike s'.store.getAllAssignments (applyMoves s.store.getAllAssignments moves) := by
  intro k
  rw [Store.lookup_getAllAssignments]
  by_cases hk : k ∈ routingKeys moves
  · obtain ⟨m, hm, rfl⟩ := mem_routingKeys.1 hk
    obtain ⟨a, ha, -, -, -, hname⟩ := hlegal.of_mem hm
    obtain ⟨b, -, hb, hto⟩ := h.moved m hm
    obtain ⟨a', ha', rfl⟩ := Option.map_eq_some_iff.1 hb
    have hweight := h.weights m.routingKey
    rw [← Store.lookup_getAllAssignments s.store, ha, ha'] at hweight
    rw [lookup_applyMoves_of_mem hlegal.nodup hm ha, ha']
    exact congrArg some (Prod.ext (hto hname) (Option.some.inj hweight))
  · have hother : ∀ m ∈ moves, m.routingKey ≠ k := fun m hm heq =>
      hk (mem_routingKeys.2 ⟨m, hm, heq⟩)
    rw [h.unmoved k hk, lookup_applyMoves hother, Store.lookup_getAllAssignments]

/-- **A rebalance with no failing call is a pass.** -/
theorem pass_rebalance (rb : Rebalancer) (now : Time) (s : Rebalance.State)
    (hr : Ranges s.store.getAllAssignments users donors) :
    Pass (sortStrings activeBackends) s.store.getAllAssignments
      (rebalance rb (fun _ activeBackends => computeMoves activeBackends users donors) .succeed now
        activeBackends s).store.getAllAssignments := by
  refine ⟨users, donors, hr, ?_⟩
  have hlegal : Legal (sortStrings activeBackends) _ s.store.getAllAssignments
      (computeMoves (sortStrings activeBackends) users donors) := legal_computeMoves hr
  unfold rebalance
  simp only [Calls.succeed, not_true_eq_false, if_false]
  split
  · rename_i hnil
    rw [hnil]
    exact .refl _
  · rename_i hne
    have hactive : sortStrings activeBackends ≠ [] := fun hempty => hne (by
      rw [hempty]
      rfl)
    have hdone : Rebalanced rb (sortStrings activeBackends)
        (computeMoves (sortStrings activeBackends) users donors) s _ :=
      rebalanced_perform hlegal.proper hactive now
    exact alike_of_rebalanced hlegal hdone

end LeastLoaded

end StickyProxy
