import StickyProxy.Proxy.Model.Limiting
import StickyProxy.Proxy.RateLimit
import StickyProxy.Common.Pool
import Mathlib.Algebra.Order.BigOperators.Group.Finset
/-!
# The rate limit under concurrency

The level of a bucket, carried on to a fixed time, never rises: a clock that
was read early takes away what it gives back later. So every bucket keeps the
bound on what it lets through in a stretch of time, in whatever order the
calls take its lock. A user has a second bucket only if the sweep has deleted
the entry of the first one; calls that have loaded the first one by then may
still use it, so a deletion may let a user through as often once more.
-/

namespace StickyProxy.Limiting

open Run

variable {rl : RateLimiter} {st st' : State} {a : Action} {i p : ℕ} {u : RoutingKey} {s t : ℚ}
variable {c : Call}

/-! ## One bucket -/

/-- The level of a bucket, carried on to the time `t`. -/
def reserve (rl : RateLimiter) (t : ℚ) (ul : UserLimiter) : ℚ :=
  ul.tokens + (t - ul.lastRefill) * rl.rate

/-- What a call leaves of it: at most what a bucket holds that is full at the
time of the call, and at most what there was, less a token if it is taken. -/
theorem reserve_take (rl : RateLimiter) (t now : ℚ) (ul : UserLimiter) :
    reserve rl t (take rl now ul).2 =
      min (rl.burst + (t - now) * rl.rate) (reserve rl t ul) -
        if (take rl now ul).1 then 1 else 0 := by
  have hmin : rl.refill now ul + (t - now) * rl.rate =
      min (rl.burst + (t - now) * rl.rate) (reserve rl t ul) := by
    rw [RateLimiter.refill_eq_min, ← min_add_add_right, reserve]
    congr 1
    ring
  unfold take
  dsimp only
  by_cases hone : 1 ≤ rl.refill now ul
  · rw [if_pos hone, if_pos rfl, ← hmin, reserve]
    ring
  · rw [if_neg hone, if_neg Bool.false_ne_true, ← hmin, reserve, sub_zero]

/-- A token is taken only if there is one. -/
theorem one_le_of_take (hrate : 0 ≤ rl.rate) {now : ℚ} {ul : UserLimiter}
    (h : (take rl now ul).1 = true) (ht : now ≤ t) :
    1 ≤ min (rl.burst + (t - now) * rl.rate) (reserve rl t ul) := by
  have hone : 1 ≤ rl.refill now ul := by
    by_contra hone
    rw [take, if_neg hone] at h
    cases h
  have hflow : 0 ≤ (t - now) * rl.rate := mul_nonneg (sub_nonneg.2 ht) hrate
  rw [RateLimiter.refill_eq_min, le_min_iff] at hone
  refine le_min (by linarith [hone.1]) ?_
  have heq : reserve rl t ul =
      ul.tokens + (now - ul.lastRefill) * rl.rate + (t - now) * rl.rate := by
    unfold reserve
    ring
  linarith [hone.2]

/-! ## Steps -/

/-- What a step can do. -/
inductive Steps (rl : RateLimiter) (st : State) : State → Prop
  | clock {i : ℕ} {c : Call} {now : ℚ} : st.calls[i]? = some c → c.phase = .start →
      Steps rl st { st with calls := st.calls.set i { c with phase := .clocked now } }
  | load {i p : ℕ} {c : Call} {now : ℚ} : st.calls[i]? = some c → c.phase = .clocked now →
      st.limiters.lookup c.userID = some p →
      Steps rl st { st with calls := st.calls.set i { c with phase := .loaded now p } }
  | store {i : ℕ} {c : Call} {now : ℚ} : st.calls[i]? = some c → c.phase = .clocked now →
      st.limiters.lookup c.userID = none →
      Steps rl st { st with
        limiters := st.limiters.insert c.userID st.buckets.length
        buckets := st.buckets ++ [(c.userID, ⟨rl.burst, now⟩)]
        calls := st.calls.set i { c with phase := .loaded now st.buckets.length } }
  | take {i p : ℕ} {c : Call} {now : ℚ} {bucket : RoutingKey × UserLimiter} :
      st.calls[i]? = some c → c.phase = .loaded now p → st.buckets[p]? = some bucket →
      Steps rl st { st with
        buckets := st.buckets.set p (bucket.1, (Limiting.take rl now bucket.2).2)
        calls := st.calls.set i { c with
          phase := .done now p (Limiting.take rl now bucket.2).1 } }
  /-- The sweep, but for a deletion; what it is going to delete is in the
  map. -/
  | sweep {sweep : Sweep} :
      (∀ now u, sweep = .stale now u → (st.limiters.lookup u).isSome) →
      Steps rl st { st with sweep }
  | delete {now : ℚ} {u : RoutingKey} : st.sweep = .stale now u →
      Steps rl st { st with
        limiters := st.limiters.erase u, sweep := .ranging now, deleted := st.deleted ++ [u] }

theorem steps_of_step (h : step rl st a = some st') : Steps rl st st' := by
  cases a with
  | clock i now =>
    obtain ⟨c, hc, h⟩ := Option.bind_eq_some_iff.1 h
    split at h
    · rename_i hphase
      cases h
      exact .clock hc hphase
    · cases h
  | load i =>
    obtain ⟨c, hc, h⟩ := Option.bind_eq_some_iff.1 h
    split at h
    · rename_i hphase
      split at h
      · rename_i hlookup
        cases h
        exact .load hc hphase hlookup
      · rename_i hlookup
        cases h
        exact .store hc hphase hlookup
    · cases h
  | take i =>
    obtain ⟨c, hc, h⟩ := Option.bind_eq_some_iff.1 h
    split at h
    · rename_i hphase
      obtain ⟨bucket, hbucket, rfl⟩ := Option.map_eq_some_iff.1 h
      exact .take hc hphase hbucket
    · cases h
  | tick now =>
    simp only [step, Option.ite_none_right_eq_some, Option.some.injEq] at h
    obtain ⟨-, rfl⟩ := h
    exact .sweep nofun
  | check userID =>
    simp only [step] at h
    split at h
    · obtain ⟨bucket, hbucket, rfl⟩ := Option.map_eq_some_iff.1 h
      obtain ⟨p, hp, -⟩ := Option.bind_eq_some_iff.1 hbucket
      rename_i hsweep
      split
      · refine .sweep fun now u hu => ?_
        cases hu
        rw [hp]
        rfl
      · have hsame : Steps rl st { st with sweep := st.sweep } := by
          refine .sweep fun now u hu => ?_
          rw [hsweep] at hu
          cases hu
        exact hsame
    · cases h
  | delete =>
    simp only [step] at h
    split at h
    · rename_i hsweep
      cases h
      exact .delete hsweep
    · cases h
  | swept =>
    simp only [step] at h
    split at h
    · cases h
      exact .sweep nofun
    · cases h

/-! ## What a bucket lets through -/

/-- The call was let through by the bucket, with a reading of the clock in the
stretch of time. -/
def Call.admitted (p : ℕ) (s t : ℚ) (c : Call) : Bool :=
  match c.phase with
  | .done now q true => q = p ∧ s ≤ now ∧ now ≤ t
  | _ => false

theorem admitted_done (p : ℕ) (s t : ℚ) (c : Call) (now : ℚ) (q : ℕ) (ok : Bool) :
    Call.admitted p s t { c with phase := .done now q ok } =
      (ok && decide (q = p ∧ s ≤ now ∧ now ≤ t)) := by
  cases ok <;> rfl

/-- **What a bucket has let through is paid**, and what is left in it could
still be. -/
def Paid (rl : RateLimiter) (p : ℕ) (s t : ℚ) (st : State) : Prop :=
  st.calls.countP (fun c => c.admitted p s t) = 0 ∨
    ∃ bucket, st.buckets[p]? = some bucket ∧
      (st.calls.countP (fun c => c.admitted p s t) : ℚ) + max 0 (reserve rl t bucket.2) ≤
        rl.burst + rl.rate * (t - s)

/-- Calls that are not let through are not counted. -/
theorem countP_set_of_not {c' : Call} (hc : st.calls[i]? = some c)
    (h : c.admitted p s t = false) (h' : c'.admitted p s t = false) :
    (st.calls.set i c').countP (fun c => c.admitted p s t) =
      st.calls.countP (fun c => c.admitted p s t) := by
  have hcount := Pool.countP_set (fun c : Call => c.admitted p s t) c' hc
  rw [h, h'] at hcount
  simpa using hcount

/-- **A call pays with the bucket it takes a token from**, whenever it has read
the clock. -/
theorem Paid.take (hrate : 0 ≤ rl.rate) (hpaid : Paid rl p s t st) {q : ℕ} {now : ℚ}
    {bucket : RoutingKey × UserLimiter} (hc : st.calls[i]? = some c)
    (hphase : c.phase = .loaded now q) (hbucket : st.buckets[q]? = some bucket) :
    Paid rl p s t { st with
      buckets := st.buckets.set q (bucket.1, (Limiting.take rl now bucket.2).2)
      calls := st.calls.set i { c with
        phase := .done now q (Limiting.take rl now bucket.2).1 } } := by
  have hold : c.admitted p s t = false := by
    rw [Call.admitted, hphase]
  have hcount := Pool.countP_set (fun c : Call => c.admitted p s t)
    { c with phase := .done now q (Limiting.take rl now bucket.2).1 } hc
  rw [hold, admitted_done] at hcount
  have hreserve := reserve_take rl t now bucket.2
  unfold Paid
  dsimp only
  set W := reserve rl t bucket.2 with hW
  by_cases hq : q = p
  · subst hq
    have hsame : (st.buckets.set q (bucket.1, (Limiting.take rl now bucket.2).2))[q]? =
        some (bucket.1, (Limiting.take rl now bucket.2).2) := Pool.getElem?_set_self hbucket
    have hpaid' : st.calls.countP (fun c => c.admitted q s t) = 0 ∨
        (st.calls.countP (fun c => c.admitted q s t) : ℚ) + max 0 W ≤
          rl.burst + rl.rate * (t - s) := by
      refine hpaid.imp_right fun ⟨bucket', hbucket', hle⟩ => ?_
      obtain rfl := Option.some.inj (hbucket.symm.trans hbucket')
      exact hle
    by_cases hadmitted : (Limiting.take rl now bucket.2).1 = true ∧ s ≤ now ∧ now ≤ t
    · obtain ⟨hok, hs, ht⟩ := hadmitted
      have hone := one_le_of_take hrate hok ht
      rw [hok] at hcount hreserve
      simp only [hs, ht, and_self, decide_true, Bool.and_true, if_true, Bool.false_eq_true,
        if_false, Nat.add_zero] at hcount hreserve
      refine Or.inr ⟨_, hsame, ?_⟩
      have hwindow : (t - now) * rl.rate ≤ rl.rate * (t - s) := by
        rw [mul_comm]
        exact mul_le_mul_of_nonneg_left (by linarith) hrate
      dsimp only
      rw [hok, hcount, hreserve, max_eq_right (by linarith)]
      push_cast
      rcases hpaid' with hzero | hle
      · rw [hzero]
        have hfull := min_le_left (rl.burst + (t - now) * rl.rate) W
        push_cast
        linarith
      · have hleft := (min_le_right (rl.burst + (t - now) * rl.rate) W).trans (le_max_right 0 W)
        linarith
    · have hnot : ((Limiting.take rl now bucket.2).1 &&
          decide (q = q ∧ s ≤ now ∧ now ≤ t)) = false := by
        rw [Bool.and_eq_false_iff, decide_eq_false_iff_not]
        by_contra hcontra
        simp only [not_or, Bool.not_eq_false, not_not] at hcontra
        exact hadmitted ⟨hcontra.1, hcontra.2.2⟩
      rw [hnot] at hcount
      simp only [Bool.false_eq_true, if_false, Nat.add_zero] at hcount
      rw [hcount]
      refine hpaid'.imp_right fun hle => ⟨_, hsame, ?_⟩
      have hdown : reserve rl t (Limiting.take rl now bucket.2).2 ≤ W := by
        rw [hreserve]
        have := min_le_right (rl.burst + (t - now) * rl.rate) W
        split_ifs <;> linarith
      have hmax := max_le_max_left 0 hdown
      dsimp only
      linarith
  · have hnot : ((Limiting.take rl now bucket.2).1 &&
        decide (q = p ∧ s ≤ now ∧ now ≤ t)) = false := by simp [hq]
    rw [hnot] at hcount
    simp only [Bool.false_eq_true, if_false, Nat.add_zero] at hcount
    rw [hcount]
    refine hpaid.imp_right fun ⟨bucket', hbucket', hle⟩ => ⟨bucket', ?_, hle⟩
    exact (Pool.getElem?_set_ne hq).trans hbucket'

theorem Paid.step (hrate : 0 ≤ rl.rate) (hpaid : Paid rl p s t st) (h : Steps rl st st') :
    Paid rl p s t st' := by
  -- a call that is not at its end is not counted, before the step or after it
  have hquiet {i : ℕ} {c : Call} {phase : Phase} (hc : st.calls[i]? = some c)
      (h : c.admitted p s t = false)
      (h' : Call.admitted p s t { c with phase := phase } = false) :
      (st.calls.set i { c with phase }).countP (fun c => c.admitted p s t) =
        st.calls.countP (fun c => c.admitted p s t) := countP_set_of_not hc h h'
  cases h with
  | clock hc hphase =>
    unfold Paid
    rw [hquiet hc (by rw [Call.admitted, hphase]) rfl]
    exact hpaid
  | load hc hphase =>
    unfold Paid
    rw [hquiet hc (by rw [Call.admitted, hphase]) rfl]
    exact hpaid
  | store hc hphase =>
    unfold Paid
    rw [hquiet hc (by rw [Call.admitted, hphase]) rfl]
    refine hpaid.imp_right fun ⟨bucket, hbucket, hle⟩ => ⟨bucket, ?_, hle⟩
    exact (List.getElem?_append_left (List.getElem?_eq_some_iff.1 hbucket).1).trans hbucket
  | take hc hphase hbucket => exact hpaid.take hrate hc hphase hbucket
  | sweep | delete => exact hpaid

theorem paid_start (users : List RoutingKey) : Paid rl p s t (State.start users) := by
  refine Or.inl (List.countP_eq_zero.2 fun c hc => ?_)
  obtain ⟨u, -, rfl⟩ := List.mem_map.1 hc
  exact Bool.false_ne_true

/-- **Every bucket keeps the bound**, in whatever order the calls take its
lock. -/
theorem Paid.countP_le (hrate : 0 ≤ rl.rate) (hburst : 1 ≤ rl.burst) (hst : s ≤ t)
    (hpaid : Paid rl p s t st) :
    (st.calls.countP (fun c => c.admitted p s t) : ℚ) ≤ rl.burst + rl.rate * (t - s) := by
  rcases hpaid with hzero | ⟨bucket, -, hle⟩
  · have hone : (1 : ℚ) ≤ rl.burst := by exact_mod_cast hburst
    have hflow : 0 ≤ rl.rate * (t - s) := mul_nonneg hrate (sub_nonneg.2 hst)
    rw [hzero]
    push_cast
    linarith
  · exact (le_add_of_nonneg_right (le_max_left 0 _)).trans hle

/-! ## The buckets of a user -/

/-- The addresses of the buckets of a user. -/
def owned (u : RoutingKey) (st : State) : Finset ℕ :=
  (Finset.range st.buckets.length).filter fun p => (st.buckets[p]?).map Prod.fst = some u

theorem mem_owned : p ∈ owned u st ↔ (st.buckets[p]?).map Prod.fst = some u := by
  rw [owned, Finset.mem_filter, Finset.mem_range, and_iff_right_iff_imp]
  intro h
  obtain ⟨bucket, hbucket, -⟩ := Option.map_eq_some_iff.1 h
  exact (List.getElem?_eq_some_iff.1 hbucket).1

/-- The bucket of a call. -/
def Phase.bucket : Phase → Option ℕ
  | .loaded _ p | .done _ p _ => some p
  | .start | .clocked _ => none

/-- Buckets are used by their users, and a user has one more than there were
deletions, if there is one in the map. -/
structure Owned (st : State) : Prop where
  mapped : ∀ u p, st.limiters.lookup u = some p → p ∈ owned u st
  used : ∀ c ∈ st.calls, ∀ p ∈ c.phase.bucket, p ∈ owned c.userID st
  stale : ∀ now u, st.sweep = .stale now u → (st.limiters.lookup u).isSome
  card : ∀ u, (owned u st).card =
    st.deleted.count u + if (st.limiters.lookup u).isSome then 1 else 0

theorem owned_start (users : List RoutingKey) : Owned (State.start users) := by
  refine ⟨nofun, fun c hc p hp => ?_, nofun, fun u => rfl⟩
  obtain ⟨u, -, rfl⟩ := List.mem_map.1 hc
  cases hp

/-- Taking a token leaves a bucket to its user. -/
theorem owned_set {bucket : RoutingKey × UserLimiter} {ul : UserLimiter} {q : ℕ}
    (hbucket : st.buckets[q]? = some bucket) (u : RoutingKey) (calls : List Call) :
    owned u { st with buckets := st.buckets.set q (bucket.1, ul), calls } = owned u st := by
  ext p
  rw [mem_owned, mem_owned]
  dsimp only
  by_cases hp : q = p
  · rw [← hp, Pool.getElem?_set_self hbucket, hbucket]
    rfl
  · rw [Pool.getElem?_set_ne hp]

/-- A new bucket is the user's it is stored for. -/
theorem owned_append (u v : RoutingKey) (ul : UserLimiter) (limiters : Table RoutingKey ℕ)
    (calls : List Call) :
    owned u { st with limiters, buckets := st.buckets ++ [(v, ul)], calls } =
      if u = v then insert st.buckets.length (owned u st) else owned u st := by
  ext p
  have hmem : p ∈ owned u { st with limiters, buckets := st.buckets ++ [(v, ul)], calls } ↔
      p ∈ owned u st ∨ p = st.buckets.length ∧ v = u := by
    rw [mem_owned, mem_owned]
    dsimp only
    rcases Nat.lt_trichotomy p st.buckets.length with hp | rfl | hp
    · rw [List.getElem?_append_left hp]
      exact ⟨Or.inl, fun h => h.resolve_right fun h => absurd h.1 (Nat.ne_of_lt hp)⟩
    · simp
    · have hlen : (st.buckets ++ [(v, ul)]).length ≤ p := by
        rw [List.length_append, List.length_singleton]
        exact hp
      rw [List.getElem?_eq_none hlen, List.getElem?_eq_none (Nat.le_of_lt hp)]
      simp [Nat.ne_of_gt hp]
  rw [hmem]
  split_ifs with huv
  · rw [Finset.mem_insert, or_comm]
    simp [huv]
  · simp [Ne.symm huv]

theorem length_notMem_owned : st.buckets.length ∉ owned u st := by
  rw [owned, Finset.mem_filter, Finset.mem_range]
  exact fun h => Nat.lt_irrefl _ h.1

/-- A new bucket is stored for a user who has none in the map. -/
theorem Owned.store (hs : Owned st) {now : ℚ}
    (hlookup : st.limiters.lookup c.userID = none) :
    Owned { st with
      limiters := st.limiters.insert c.userID st.buckets.length
      buckets := st.buckets ++ [(c.userID, ⟨rl.burst, now⟩)]
      calls := st.calls.set i { c with phase := .loaded now st.buckets.length } } := by
  refine ⟨fun u p hp => ?_, fun d hd q hq => ?_, fun now' u hu => ?_, fun u => ?_⟩
  · rw [owned_append]
    dsimp only at hp
    rw [Table.lookup_insert_eq] at hp
    split_ifs at hp ⊢ with hu
    · rw [← Option.some.inj hp]
      exact Finset.mem_insert_self _ _
    · exact hs.mapped u p hp
  · rw [owned_append]
    rcases Pool.mem_or_eq_of_mem_set hd with hd | rfl
    · split_ifs
      · exact Finset.mem_insert_of_mem (hs.used d hd q hq)
      · exact hs.used d hd q hq
    · rw [if_pos rfl]
      obtain rfl := Option.some.inj hq
      exact Finset.mem_insert_self _ _
  · dsimp only
    rw [Table.lookup_insert_eq]
    split_ifs
    · rfl
    · exact hs.stale now' u hu
  · rw [owned_append]
    dsimp only
    rw [Table.lookup_insert_eq]
    split_ifs with hu hsome
    · rw [Finset.card_insert_of_notMem length_notMem_owned, hs.card u, hu, hlookup]
      rfl
    · exact absurd rfl hsome
    · rw [hs.card u, if_pos (by assumption)]
    · rw [hs.card u, if_neg (by assumption)]

theorem Owned.step (hs : Owned st) (h : Steps rl st st') : Owned st' := by
  -- a step that leaves the buckets alone leaves them to their users
  have hcalls {i : ℕ} {c' : Call} (hc' : ∀ q ∈ c'.phase.bucket, q ∈ owned c'.userID st) :
      ∀ d ∈ st.calls.set i c', ∀ q ∈ d.phase.bucket, q ∈ owned d.userID st := by
    intro d hd q hq
    rcases Pool.mem_or_eq_of_mem_set hd with hd | rfl
    · exact hs.used d hd q hq
    · exact hc' q hq
  cases h with
  | clock hc => exact ⟨hs.mapped, hcalls nofun, hs.stale, hs.card⟩
  | load hc hphase hlookup =>
    refine ⟨hs.mapped, hcalls fun q hq => ?_, hs.stale, hs.card⟩
    cases hq
    exact hs.mapped _ _ hlookup
  | store hc hphase hlookup => exact hs.store hlookup
  | @take i p c now bucket hc hphase hbucket =>
    have hown : p ∈ owned c.userID st :=
      hs.used c (List.mem_of_getElem? hc) p (by rw [hphase]; rfl)
    refine ⟨fun u q hq => ?_, fun d hd q hq => ?_, hs.stale, fun u => ?_⟩
    · rw [owned_set hbucket]
      exact hs.mapped u q hq
    · rw [owned_set hbucket]
      refine hcalls (fun q hq => ?_) d hd q hq
      cases hq
      exact hown
    · rw [owned_set hbucket]
      exact hs.card u
  | sweep hstale => exact ⟨hs.mapped, hs.used, hstale, hs.card⟩
  | @delete now u hsweep =>
    refine ⟨fun v p hp => ?_, hs.used, nofun, fun v => ?_⟩
    · dsimp only at hp
      rw [Table.lookup_erase_eq] at hp
      split_ifs at hp
      exact hs.mapped v p hp
    · change (owned v st).card = _
      dsimp only
      rw [Table.lookup_erase_eq, hs.card v, List.count_append, List.count_singleton]
      by_cases hv : v = u
      · rw [hv, if_pos (hs.stale now u hsweep)]
        simp
      · simp [hv, Ne.symm hv]

/-- Whoever is let through is let through by one of the buckets. -/
theorem countP_le_sum {calls : List Call} {S : Finset ℕ} (q : Call → Bool)
    (hS : ∀ c ∈ calls, q c = true → ∃ p ∈ S, c.admitted p s t = true) :
    calls.countP q ≤ ∑ p ∈ S, calls.countP (fun c => c.admitted p s t) := by
  induction calls with
  | nil => simp
  | cons c calls ih =>
    have hrest := ih fun d hd => hS d (List.mem_cons_of_mem _ hd)
    simp only [List.countP_cons, Finset.sum_add_distrib]
    refine Nat.add_le_add hrest ?_
    split_ifs with hq
    · obtain ⟨p, hp, hadmitted⟩ := hS c List.mem_cons_self hq
      have hle := Finset.single_le_sum (f := fun p => if c.admitted p s t = true then 1 else 0)
        (fun p _ => Nat.zero_le _) hp
      simpa [hadmitted] using hle
    · exact Nat.zero_le _

/-- The call is one for the user, and was let through with a reading of the
clock in the stretch of time. -/
def Call.letThrough (u : RoutingKey) (s t : ℚ) (c : Call) : Bool :=
  match c.phase with
  | .done now _ true => c.userID = u ∧ s ≤ now ∧ now ≤ t
  | _ => false

/-- **The rate limit under concurrency.** For any number of calls and any
interleaving of their steps with those of the sweep, with clocks read in any
order, and tokens counted exactly: in any stretch of time a user is let
through as often as the burst and what flows in allow, and as often once more
for each time that the sweep has deleted an entry of the user. Rounding can
let a user through once more than that, where what flows in is just short of
a token. -/
theorem letThrough_le (rl : RateLimiter) (hrate : 0 ≤ rl.rate) (hburst : 1 ≤ rl.burst)
    {users : List RoutingKey} {as : List Action}
    (hrun : exec (step rl) (State.start users) as = some st) (u : RoutingKey) (hst : s ≤ t) :
    (st.calls.countP (fun c => c.letThrough u s t) : ℚ) ≤
      (st.deleted.count u + 1) * (rl.burst + rl.rate * (t - s)) := by
  have hown : Owned st :=
    exec_invariant_of_forall (fun _ _ _ h hstep => h.step (steps_of_step hstep))
      (owned_start users) hrun
  have hpaid : ∀ p, Paid rl p s t st := fun p =>
    exec_invariant_of_forall (fun _ _ _ h hstep => h.step hrate (steps_of_step hstep))
      (paid_start users) hrun
  have hsum : st.calls.countP (fun c => c.letThrough u s t) ≤
      ∑ p ∈ owned u st, st.calls.countP (fun c => c.admitted p s t) := by
    refine countP_le_sum _ fun c hc hthrough => ?_
    unfold Call.letThrough at hthrough
    split at hthrough
    · rename_i now p hphase
      obtain ⟨rfl, hwindow⟩ := of_decide_eq_true hthrough
      refine ⟨p, hown.used c hc p (by rw [hphase]; rfl), ?_⟩
      rw [Call.admitted, hphase]
      exact decide_eq_true ⟨rfl, hwindow⟩
    · cases hthrough
  have hcard : ((owned u st).card : ℚ) ≤ st.deleted.count u + 1 := by
    have hle : (owned u st).card ≤ st.deleted.count u + 1 := by
      rw [hown.card u]
      split_ifs <;> omega
    exact_mod_cast hle
  have hbound : 0 ≤ rl.burst + rl.rate * (t - s) := by
    have hone : (1 : ℚ) ≤ rl.burst := by exact_mod_cast hburst
    have hflow : 0 ≤ rl.rate * (t - s) := mul_nonneg hrate (sub_nonneg.2 hst)
    linarith
  calc (st.calls.countP (fun c => c.letThrough u s t) : ℚ)
      ≤ ∑ p ∈ owned u st, (st.calls.countP (fun c => c.admitted p s t) : ℚ) := by
        exact_mod_cast hsum
    _ ≤ ∑ _p ∈ owned u st, (rl.burst + rl.rate * (t - s)) :=
        Finset.sum_le_sum fun p _ => (hpaid p).countP_le hrate hburst hst
    _ = (owned u st).card * (rl.burst + rl.rate * (t - s)) := by
        rw [Finset.sum_const, nsmul_eq_mul]
    _ ≤ (st.deleted.count u + 1) * (rl.burst + rl.rate * (t - s)) :=
        mul_le_mul_of_nonneg_right hcard hbound

/-- A call that has read the clock late takes the lock first: the bucket is
behind for the others, and they are refused. -/
def outOfOrder : List Action :=
  [.clock 0 1, .clock 1 0, .load 0, .take 0, .load 1, .clock 2 0, .take 1, .load 2, .take 2]

theorem letThrough_le_outOfOrder :
    ∃ st, exec (step (.new 1 2)) (State.start ["u", "u", "u"]) outOfOrder = some st ∧
      st.calls.countP (fun c => c.letThrough "u" 0 1) = 1 ∧
      (st.calls.countP (fun c => c.letThrough "u" 0 1) : ℚ) ≤ (0 + 1) * (2 + 1 * (1 - 0)) := by
  have hrun : ∃ st, exec (step (.new 1 2)) (State.start ["u", "u", "u"]) outOfOrder = some st ∧
      st.calls.countP (fun c => c.letThrough "u" 0 1) = 1 ∧ st.deleted = [] :=
    ⟨_, rfl, by decide +kernel, rfl⟩
  obtain ⟨st, hrun, hcount, hdeleted⟩ := hrun
  have hle := letThrough_le (.new 1 2) (by decide +kernel) (by decide) hrun "u"
    (s := 0) (t := 1) (by decide +kernel)
  rw [hdeleted] at hle
  exact ⟨st, hrun, hcount, hle⟩

-- A call has loaded the bucket when the sweep finds it stale, and takes the last
-- token of it; the next one gets a full bucket at the same moment.
example : ((exec (step (.new 1 1)) (State.start ["u", "u", "u"])
    [.clock 0 0, .load 0, .take 0, .clock 1 301, .load 1, .tick 301, .check "u", .delete, .take 1,
      .clock 2 301, .load 2, .take 2]).map fun st =>
      (st.deleted, st.calls.countP fun c => c.letThrough "u" 301 301)) = some (["u"], 2) := by
  decide +kernel

end StickyProxy.Limiting
