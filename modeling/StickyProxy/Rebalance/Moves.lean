import StickyProxy.Rebalance.Planning
import Mathlib.Algebra.BigOperators.Group.Finset.Piecewise
/-!
# What a planned move may do

A move of the planner takes an account off a backend that is not active or
has more than the ideal and one, to an active backend that is below the
ideal and stays within the ideal and one. `Admissible` says so of one move,
in the table it is made in, and `Legal` of a list of moves, each in the
table those before it lead to, no account named twice. Whatever the order
of the maps, the planner's moves are legal (`legal_computeMoves`), and what
they are good for is read off legal lists alone.
-/

namespace StickyProxy

namespace LeastLoaded

variable {t : Table RoutingKey Assignment} {activeBackends donors : List Backend}
  {users : List (RoutingKey × Assignment)} {a : Assignment} {b backend : Backend}
  {u : RoutingKey} {m : Move} {moves : List Move} {plan : Plan} {ideal : ℤ}

/-! ## One move -/

/-- The move takes the account `a` from where it is to a backend that can
have it. -/
structure Admissible (activeBackends : List Backend) (ideal : ℤ)
    (t : Table RoutingKey Assignment) (m : Move) (a : Assignment) : Prop where
  account : t.lookup m.routingKey = some a
  source : a.backend = m.fromBackend
  target : m.toBackend ∈ activeBackends
  named : m.toBackend ≠ ""
  below : load t m.toBackend < ideal
  fits : load t m.toBackend + a.effectiveWeight ≤ ideal + 1
  overfull : m.fromBackend ∈ activeBackends → ideal + 1 < load t m.fromBackend

namespace Admissible

/-- The account really moves: a backend is not both below and above. -/
theorem ne (h : Admissible activeBackends ideal t m a) : m.toBackend ≠ m.fromBackend := by
  intro heq
  have hover := h.overfull (heq ▸ h.target)
  have hbelow := h.below
  rw [heq] at hbelow
  omega

theorem load_target (h : Admissible activeBackends ideal t m a) :
    load (applyMove t m) m.toBackend = load t m.toBackend + a.effectiveWeight := by
  rw [load_applyMove h.account, h.source, if_pos rfl, if_neg h.ne.symm, add_zero]

theorem load_source (h : Admissible activeBackends ideal t m a) :
    load (applyMove t m) m.fromBackend = load t m.fromBackend - a.effectiveWeight := by
  rw [load_applyMove h.account, h.source, if_neg h.ne, if_pos rfl, add_zero, sub_eq_add_neg]

theorem load_of_ne (h : Admissible activeBackends ideal t m a) (hto : b ≠ m.toBackend)
    (hfrom : b ≠ m.fromBackend) : load (applyMove t m) b = load t b := by
  rw [load_applyMove h.account, h.source, if_neg hto.symm, if_neg hfrom.symm, add_zero, add_zero]

/-- No backend gets above the ideal and one that was not above already. -/
theorem load_le_max (h : Admissible activeBackends ideal t m a) :
    load (applyMove t m) b ≤ max (load t b) (ideal + 1) := by
  have hw := a.one_le_effectiveWeight
  by_cases hto : b = m.toBackend
  · subst hto
    rw [h.load_target]
    exact h.fits.trans (le_max_right _ _)
  by_cases hfrom : b = m.fromBackend
  · subst hfrom
    rw [h.load_source]
    exact le_max_of_le_left (by omega)
  · rw [h.load_of_ne hto hfrom]
    exact le_max_left _ _

/-- No active backend gets below what the least of them had: what a donor
keeps is more than its target had before. -/
theorem le_load {low : ℤ} (h : Admissible activeBackends ideal t m a)
    (hlow : ∀ c ∈ activeBackends, low ≤ load t c) (hb : b ∈ activeBackends) :
    low ≤ load (applyMove t m) b := by
  have hw := a.one_le_effectiveWeight
  have htarget : low ≤ load t m.toBackend := hlow m.toBackend h.target
  by_cases hto : b = m.toBackend
  · subst hto
    rw [h.load_target]
    omega
  by_cases hfrom : b = m.fromBackend
  · subst hfrom
    have hover := h.overfull hb
    have hfits := h.fits
    rw [h.load_source]
    omega
  · rw [h.load_of_ne hto hfrom]
    exact hlow b hb

/-- **How a move changes a sum over the active backends**: at its target,
and at its source if that is active. -/
theorem sum_load (h : Admissible activeBackends ideal t m a) (f : ℤ → ℤ) :
    ∑ b ∈ activeBackends.toFinset, f (load (applyMove t m) b) =
      ∑ b ∈ activeBackends.toFinset, f (load t b) +
        (f (load t m.toBackend + a.effectiveWeight) - f (load t m.toBackend)) +
        if m.fromBackend ∈ activeBackends then
          f (load t m.fromBackend - a.effectiveWeight) - f (load t m.fromBackend)
        else 0 := by
  have hpoint : ∀ b ∈ activeBackends.toFinset, f (load (applyMove t m) b) = f (load t b) +
      (if b = m.toBackend then
        f (load t m.toBackend + a.effectiveWeight) - f (load t m.toBackend) else 0) +
      if b = m.fromBackend then
        f (load t m.fromBackend - a.effectiveWeight) - f (load t m.fromBackend) else 0 := by
    intro b _
    by_cases hto : b = m.toBackend
    · subst hto
      rw [h.load_target, if_pos rfl, if_neg h.ne]
      ring
    by_cases hfrom : b = m.fromBackend
    · subst hfrom
      rw [h.load_source, if_neg hto, if_pos rfl]
      ring
    · rw [h.load_of_ne hto hfrom, if_neg hto, if_neg hfrom, add_zero, add_zero]
  rw [Finset.sum_congr rfl hpoint, Finset.sum_add_distrib, Finset.sum_add_distrib,
    Finset.sum_ite_eq', Finset.sum_ite_eq', if_pos (List.mem_toFinset.2 h.target)]
  simp only [List.mem_toFinset]

end Admissible

/-! ## Lists of moves -/

/-- Each move is admissible in the table the moves before it lead to, and
names an account that none of them names. -/
inductive Legal (activeBackends : List Backend) (ideal : ℤ) (t : Table RoutingKey Assignment) :
    List Move → Prop
  | nil : Legal activeBackends ideal t []
  | snoc {moves : List Move} {m : Move} {a : Assignment} :
      Legal activeBackends ideal t moves → (∀ m' ∈ moves, m'.routingKey ≠ m.routingKey) →
      Admissible activeBackends ideal (applyMoves t moves) m a →
      Legal activeBackends ideal t (moves ++ [m])

namespace Legal

theorem nodup (h : Legal activeBackends ideal t moves) :
    (moves.map fun m => m.routingKey).Nodup := by
  induction h with
  | nil => exact List.nodup_nil
  | @snoc moves m a _ hnew _ ih =>
    rw [List.map_append, List.map_singleton, List.nodup_append]
    refine ⟨ih, List.nodup_singleton _, fun k hk k' hk' => ?_⟩
    obtain ⟨m', hm', rfl⟩ := List.mem_map.1 hk
    rw [List.mem_singleton.1 hk']
    exact hnew m' hm'

/-- A move names an account of the table, its backend there, and another
one that is active. -/
theorem of_mem (h : Legal activeBackends ideal t moves) (hm : m ∈ moves) :
    ∃ a, t.lookup m.routingKey = some a ∧ a.backend = m.fromBackend ∧
      m.toBackend ∈ activeBackends ∧ m.toBackend ≠ m.fromBackend ∧ m.toBackend ≠ "" := by
  induction h with
  | nil => exact absurd hm List.not_mem_nil
  | @snoc moves m' a _ hnew hadm ih =>
    rcases List.mem_append.1 hm with hold | hone
    · exact ih hold
    · obtain rfl := List.mem_singleton.1 hone
      have hlook : t.lookup m.routingKey = some a :=
        (lookup_applyMoves hnew).symm.trans hadm.account
      exact ⟨a, hlook, hadm.source, hadm.target, hadm.ne, hadm.named⟩

theorem load_le_max (h : Legal activeBackends ideal t moves) :
    load (applyMoves t moves) b ≤ max (load t b) (ideal + 1) := by
  induction h with
  | nil => exact le_max_left _ _
  | snoc _ _ hadm ih =>
    rw [applyMoves_append]
    exact hadm.load_le_max.trans (max_le ih (le_max_right _ _))

/-- **A backend that has received an account is within the ideal and
one**, whatever it has received or given since. -/
theorem load_receiver_le (h : Legal activeBackends ideal t moves) (hm : m ∈ moves) :
    load (applyMoves t moves) m.toBackend ≤ ideal + 1 := by
  induction h with
  | nil => exact absurd hm List.not_mem_nil
  | snoc _ _ hadm ih =>
    rw [applyMoves_append]
    rcases List.mem_append.1 hm with hold | hone
    · exact hadm.load_le_max.trans (max_le (ih hold) le_rfl)
    · obtain rfl := List.mem_singleton.1 hone
      rw [hadm.load_target]
      exact hadm.fits

theorem le_load {low : ℤ} (h : Legal activeBackends ideal t moves)
    (hlow : ∀ c ∈ activeBackends, low ≤ load t c) :
    ∀ b ∈ activeBackends, low ≤ load (applyMoves t moves) b := by
  induction h with
  | nil => exact hlow
  | snoc _ _ hadm ih =>
    intro b hb
    rw [applyMoves_append]
    exact hadm.le_load ih hb

end Legal

/-! ## The planner makes legal moves -/

/-- Where the planner is: what is planned is what the moves lead to, they
are legal, and an active backend that has something to shed and has not had
its turn has what it had. -/
structure Progress (activeBackends : List Backend) (ideal : ℤ) (t : Table RoutingKey Assignment)
    (done : List Backend) (offered : Set RoutingKey) (plan : Plan) : Prop where
  sound : Sound t offered plan
  legal : Legal activeBackends ideal t plan.moves
  waiting : ∀ b ∈ activeBackends, b ∉ done → ideal + 1 < load t b →
    plan.planned.value b = load t b

/-- Where it is in the turn of a backend: that one, if active, has what it
had without what has been moved. -/
structure InTurn (activeBackends : List Backend) (ideal : ℤ) (t : Table RoutingKey Assignment)
    (done : List Backend) (backend : Backend) (offered : Set RoutingKey) (st : ℤ × Plan) :
    Prop where
  progress : Progress activeBackends ideal t (done ++ [backend]) offered st.2
  shed : backend ∈ activeBackends → st.2.planned.value backend = load t backend - st.1

variable {done : List Backend} {offered : Set RoutingKey} {st : ℤ × Plan} {excess : ℤ}

theorem Progress.mono {offered' : Set RoutingKey}
    (h : Progress activeBackends ideal t done offered plan) (hsub : offered ⊆ offered') :
    Progress activeBackends ideal t done offered' plan :=
  ⟨h.sound.mono hsub, h.legal, h.waiting⟩

/-- An offer that finds a target is an admissible move: until it has shed
its excess, an active donor is above the ideal and one. -/
theorem InTurn.admissible (h : InTurn activeBackends ideal t done a.backend offered st)
    (hexcess : a.backend ∈ activeBackends → excess = load t a.backend - ideal - 1)
    (hu : t.lookup u = some a) (hnew : u ∉ offered) (hleft : st.1 < excess)
    (hname : target activeBackends ideal st.2.planned a.effectiveWeight ≠ "") :
    Admissible activeBackends ideal (applyMoves t st.2.moves)
      ⟨u, a.backend, target activeBackends ideal st.2.planned a.effectiveWeight⟩ a := by
  obtain ⟨hmem, hbelow, hfits⟩ := target_spec hname
  have hplanned := h.progress.sound.planned
  refine ⟨(h.progress.sound.lookup hnew).trans hu, rfl, hmem, hname, ?_, ?_, fun hb => ?_⟩
  · exact hplanned _ ▸ hbelow
  · exact hplanned _ ▸ hfits
  · have hshed := h.shed hb
    rw [hexcess hb] at hleft
    rw [← hplanned a.backend, hshed]
    omega

theorem InTurn.offer (h : InTurn activeBackends ideal t done a.backend offered st)
    (hexcess : a.backend ∈ activeBackends → excess = load t a.backend - ideal - 1)
    (hu : t.lookup u = some a) (hnew : u ∉ offered) :
    InTurn activeBackends ideal t done a.backend (insert u offered)
      (offer activeBackends ideal excess a.backend st (u, a)) := by
  rcases offer_cases activeBackends ideal excess a.backend st (u, a) with
    ⟨heq, -⟩ | ⟨hleft, hname, heq⟩
  · rw [heq]
    exact ⟨h.progress.mono (Set.subset_insert u offered), h.shed⟩
  rw [heq]
  have hadm := h.admissible hexcess hu hnew hleft hname
  obtain ⟨-, hbelow, -⟩ := target_spec hname
  have hfresh : ∀ m' ∈ st.2.moves, m'.routingKey ≠ u := fun m' hm' heq =>
    hnew (heq ▸ h.progress.sound.offered m' hm')
  refine ⟨⟨h.progress.sound.move hu hnew, h.progress.legal.snoc hfresh hadm, ?_⟩, ?_⟩
  · -- A backend still waiting is neither the donor nor low enough to be the target.
    intro c hc hwait hover
    have hplanned := h.progress.waiting c hc hwait hover
    have hdonor : a.backend ≠ c := fun heq => hwait (heq ▸ List.mem_append_right _ (by simp))
    have htarget : target activeBackends ideal st.2.planned a.effectiveWeight ≠ c := by
      rintro rfl
      dsimp only at hbelow
      omega
    rw [Plan.value_move, if_neg htarget, if_neg hdonor, add_zero, add_zero, hplanned]
  · intro hb
    have hshed := h.shed hb
    rw [Plan.value_move, if_neg hadm.ne, if_pos rfl, hshed]
    dsimp only
    omega

/-- What a backend has to shed, if it is active. -/
theorem excess_of_mem (hperm : users.Perm (Table.pairs t)) (hb : backend ∈ activeBackends)
    (h : LeastLoaded.excess activeBackends users backend = some excess) :
    excess = load t backend - LeastLoaded.ideal activeBackends users - 1 ∧
      LeastLoaded.ideal activeBackends users + 1 < load t backend := by
  unfold LeastLoaded.excess at h
  dsimp only at h
  rw [if_neg (not_not.2 hb), value_weights hperm] at h
  obtain ⟨hover, heq⟩ := Option.ite_none_right_eq_some.1 h
  exact ⟨(Option.some.inj heq).symm, hover⟩

/-- **The turn of a donor**, from its start to its end. -/
theorem Progress.inTurn (hperm : users.Perm (Table.pairs t)) (hnew : backend ∉ done)
    (h : Progress activeBackends (LeastLoaded.ideal activeBackends users) t done (usersOn t done)
      plan)
    (hexcess : LeastLoaded.excess activeBackends users backend = some excess) :
    InTurn activeBackends (LeastLoaded.ideal activeBackends users) t done backend
      (usersOn t (done ++ [backend]))
      ((backendUsers users backend).foldl
        (LeastLoaded.offer activeBackends (LeastLoaded.ideal activeBackends users) excess backend)
        (0, plan)) := by
  refine turn_invariant hperm hnew
    (I := InTurn activeBackends (LeastLoaded.ideal activeBackends users) t done backend) ?_ ?_
  · rintro offered st ⟨u, a⟩ hturn hu rfl hfresh
    exact hturn.offer (fun hb => (excess_of_mem hperm hb hexcess).1) hu hfresh
  · refine ⟨⟨h.sound, h.legal, fun c hc hwait => h.waiting c hc fun hmem =>
      hwait (List.mem_append_left _ hmem)⟩, fun hb => ?_⟩
    rw [h.waiting backend hb hnew (excess_of_mem hperm hb hexcess).2, sub_zero]

theorem Progress.donate (hperm : users.Perm (Table.pairs t)) (hnew : backend ∉ done)
    (h : Progress activeBackends (LeastLoaded.ideal activeBackends users) t done (usersOn t done)
      plan) :
    Progress activeBackends (LeastLoaded.ideal activeBackends users) t (done ++ [backend])
      (usersOn t (done ++ [backend])) (donate activeBackends users plan backend) := by
  unfold LeastLoaded.donate
  split
  · rename_i e he
    exact (h.inTurn hperm hnew he).progress
  · exact ⟨h.sound.mono fun u ⟨a, hu, ha⟩ => ⟨a, hu, List.mem_append_left _ ha⟩, h.legal,
      fun c hc hwait => h.waiting c hc fun hmem => hwait (List.mem_append_left _ hmem)⟩

theorem progress_planAfter (hperm : users.Perm (Table.pairs t)) (hnodup : donors.Nodup) :
    Progress activeBackends (LeastLoaded.ideal activeBackends users) t donors (usersOn t donors)
      (planAfter activeBackends users donors) :=
  planAfter_invariant (I := fun done plan =>
      Progress activeBackends (LeastLoaded.ideal activeBackends users) t done (usersOn t done) plan)
    ⟨(sound_weights hperm).mono (Set.empty_subset _), .nil, fun b _ _ _ => value_weights hperm b⟩
    (fun _ _ _ hnew h => h.donate hperm hnew) hnodup

/-- **The planner's moves are legal**, in every order of the maps. -/
theorem legal_computeMoves (hr : Ranges t users donors) :
    Legal activeBackends (LeastLoaded.ideal activeBackends users) t
      (computeMoves activeBackends users donors) := by
  unfold computeMoves
  split
  · exact .nil
  · exact (progress_planAfter hr.perm hr.donors.1).legal

/-! ## Safety -/

/-- `max(1, total / n)`: the average over the active backends, at least
one. -/
def idealOf (activeBackends : List Backend) (t : Table RoutingKey Assignment) : ℤ :=
  max 1 (totalWeight t / activeBackends.length)

theorem totalWeight_nonneg : 0 ≤ totalWeight t := by
  have hle : Table.total (fun _ _ => 0) t ≤ totalWeight t := Table.total_mono fun _ a _ =>
    zero_le_one.trans a.one_le_effectiveWeight
  have hzero : Table.total (fun _ (_ : Assignment) => 0) t = 0 := by simp [Table.total]
  rwa [hzero] at hle

/-- The planner's ideal is that of the table, in every order of the map. -/
theorem ideal_eq_idealOf (hperm : users.Perm (Table.pairs t)) :
    LeastLoaded.ideal activeBackends users = idealOf activeBackends t := by
  have hpos : 0 ≤ totalWeight t / activeBackends.length :=
    Int.ediv_nonneg totalWeight_nonneg (Int.natCast_nonneg _)
  unfold LeastLoaded.ideal idealOf
  rw [total_weights hperm]
  dsimp only
  split <;> omega

theorem one_le_ideal (hperm : users.Perm (Table.pairs t)) :
    1 ≤ LeastLoaded.ideal activeBackends users :=
  ideal_eq_idealOf hperm ▸ le_max_left _ _

/-- What makes a list of moves safe to apply. -/
structure Safe (activeBackends : List Backend) (ideal : ℤ) (t : Table RoutingKey Assignment)
    (moves : List Move) : Prop where
  /-- Each account is named at most once, -/
  once : (moves.map fun m => m.routingKey).Nodup
  /-- from the backend it is on -/
  source : ∀ m ∈ moves, ∃ a, t.lookup m.routingKey = some a ∧ a.backend = m.fromBackend
  /-- to another one that is active. -/
  target : ∀ m ∈ moves, m.toBackend ∈ activeBackends ∧ m.toBackend ≠ m.fromBackend
  /-- Who has received is within the ideal and one, -/
  received : ∀ m ∈ moves, load (applyMoves t moves) m.toBackend ≤ ideal + 1
  /-- the greatest load does not grow beyond that, -/
  greatest : ∀ high, (∀ b ∈ activeBackends, load t b ≤ high) →
    ∀ b ∈ activeBackends, load (applyMoves t moves) b ≤ max high (ideal + 1)
  /-- and the least load does not drop. -/
  least : ∀ low, (∀ b ∈ activeBackends, low ≤ load t b) →
    ∀ b ∈ activeBackends, low ≤ load (applyMoves t moves) b

theorem Legal.safe (h : Legal activeBackends ideal t moves) :
    Safe activeBackends ideal t moves where
  once := h.nodup
  source m hm := by
    obtain ⟨a, ha, hfrom, -⟩ := h.of_mem hm
    exact ⟨a, ha, hfrom⟩
  target m hm := by
    obtain ⟨a, -, -, hto, hne, -⟩ := h.of_mem hm
    exact ⟨hto, hne⟩
  received m hm := h.load_receiver_le hm
  greatest high hhigh b hb := h.load_le_max.trans (max_le_max (hhigh b hb) le_rfl)
  least _ hlow := h.le_load hlow

/-- **The moves of the least-loaded strategy are safe**, for all weights,
every list of active backends and every order of the maps. -/
theorem computeMoves_safe (t : Table RoutingKey Assignment) (activeBackends donors : List Backend)
    (users : List (RoutingKey × Assignment)) (hr : Ranges t users donors) :
    Safe activeBackends (idealOf activeBackends t) t
      (computeMoves activeBackends users donors) := by
  rw [← ideal_eq_idealOf hr.perm]
  exact (legal_computeMoves hr).safe

/-- A heavy backend, a light one, and one that has been removed. -/
def mixedTable : Table RoutingKey Assignment :=
  Table.insertAll ∅ [("u1", ⟨"b1", 0, "assignment", 4⟩), ("u2", ⟨"b1", 0, "assignment", 3⟩),
    ("u3", ⟨"b2", 0, "assignment", 1⟩), ("u4", ⟨"b3", 0, "assignment", 0⟩)]

/-- The donor sheds more than it has to, and receives in its turn. -/
theorem computeMoves_safe_mixedTable :
    computeMoves ["b1", "b2"] (Table.pairs mixedTable).reverse ["b1", "b2", "b3"] =
        [⟨"u1", "b1", "b2"⟩, ⟨"u4", "b3", "b1"⟩] ∧
      Safe ["b1", "b2"] 4 mixedTable
        (computeMoves ["b1", "b2"] (Table.pairs mixedTable).reverse ["b1", "b2", "b3"]) :=
  ⟨by decide, computeMoves_safe mixedTable ["b1", "b2"] ["b1", "b2", "b3"]
    (Table.pairs mixedTable).reverse ⟨List.reverse_perm _, by decide⟩⟩

end LeastLoaded

end StickyProxy
