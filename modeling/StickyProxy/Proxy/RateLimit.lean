import StickyProxy.Common.Machine
import StickyProxy.Proxy.Model.RateLimiter
import Mathlib.Tactic.Linarith
import Mathlib.Tactic.Ring
/-!
# How much the rate limiter lets through

What counts of a bucket is its level, the tokens it would have if it were
refilled now; a user without a bucket has the burst. `Allow` goes by the
level and lowers it by the token it takes. A sweep leaves every level as it
is: a bucket it drops has had the time to fill. What is let through in a
stretch of time is then paid by the level at its beginning and by what
flows in.
-/

namespace StickyProxy

namespace RateLimiter

open Machine

variable {rl : RateLimiter} {u : RoutingKey} {now s t T : ℚ} {calls : List Call}

/-! ## Levels -/

/-- The tokens a user has at a time. -/
def level (rl : RateLimiter) (u : RoutingKey) (T : ℚ) : ℚ :=
  match rl.limiters.lookup u with
  | none => rl.burst
  | some ul => min (rl.burst : ℚ) (ul.tokens + (T - ul.lastRefill) * rl.rate)

theorem level_le_burst (rl : RateLimiter) (u : RoutingKey) (T : ℚ) : rl.level u T ≤ rl.burst := by
  unfold level
  split
  · exact le_refl _
  · exact min_le_left _ _

theorem refill_eq_min (rl : RateLimiter) (now : ℚ) (ul : UserLimiter) :
    rl.refill now ul = min (rl.burst : ℚ) (ul.tokens + (now - ul.lastRefill) * rl.rate) := by
  unfold refill
  dsimp only
  split
  · rename_i h
    exact (min_eq_left h.le).symm
  · rename_i h
    exact (min_eq_right (not_lt.1 h)).symm

/-- Refilled, the bucket of a user is at the level. -/
theorem refill_eq_level (rl : RateLimiter) (u : RoutingKey) (now : ℚ) :
    rl.refill now ((rl.limiters.lookup u).getD ⟨rl.burst, now⟩) = rl.level u now := by
  rw [refill_eq_min, level]
  rcases rl.limiters.lookup u with - | ul
  · simp
  · rfl

/-- The tokens a request takes. -/
def taken (rl : RateLimiter) (u : RoutingKey) (now : ℚ) : ℚ := if 1 ≤ rl.level u now then 1 else 0

/-- **`Allow`** goes by the level, and takes its token off. -/
theorem allow_eq (rl : RateLimiter) (u : RoutingKey) (now : ℚ) :
    rl.allow now u = (decide (1 ≤ rl.level u now), { rl with
      limiters := rl.limiters.insert u ⟨rl.level u now - rl.taken u now, now⟩ }) := by
  unfold allow taken
  dsimp only
  rw [refill_eq_level]
  split
  · rename_i h
    simp [h]
  · rename_i h
    simp [h]

theorem level_allow_self (rl : RateLimiter) (u : RoutingKey) (now T : ℚ) :
    (rl.allow now u).2.level u T =
      min (rl.burst : ℚ) (rl.level u now - rl.taken u now + (T - now) * rl.rate) := by
  rw [allow_eq, level]
  simp only [AList.lookup_insert]

theorem level_allow_of_ne {u' : RoutingKey} (h : u' ≠ u) (now T : ℚ) :
    (rl.allow now u).2.level u' T = rl.level u' T := by
  rw [allow_eq]
  simp only [level, AList.lookup_insert_ne h]

/-! ## Sweeps -/

/-- Buckets are never below empty, and were last refilled before `t`; and a
bucket that is stale has had the time to fill. -/
structure Valid (rate : ℚ) (burst : ℤ) (t : ℚ) (rl : RateLimiter) : Prop where
  rate_eq : rl.rate = rate
  burst_eq : rl.burst = burst
  tokens : ∀ u ul, rl.limiters.lookup u = some ul → 0 ≤ ul.tokens
  lastRefill : ∀ u ul, rl.limiters.lookup u = some ul → ul.lastRefill ≤ t

section Steps

variable {rate : ℚ} {burst : ℤ} (hrate : 0 < rate) (hburst : 1 ≤ burst)
  (hstale : burst ≤ 300 * rate)

theorem Valid.mono (h : rl.Valid rate burst s) (ht : s ≤ t) : rl.Valid rate burst t :=
  ⟨h.rate_eq, h.burst_eq, h.tokens, fun u ul hul => (h.lastRefill u ul hul).trans ht⟩

include hrate

/-- A level rises at the rate, at most. -/
theorem level_le_add (h : rl.rate = rate) (u : RoutingKey) (ht : t ≤ T) :
    rl.level u T ≤ rl.level u t + rate * (T - t) := by
  have hflow : 0 ≤ rate * (T - t) := mul_nonneg hrate.le (sub_nonneg.2 ht)
  unfold level
  rw [h]
  split
  · linarith
  · rename_i ul _
    have hsum : ul.tokens + (T - ul.lastRefill) * rate =
        ul.tokens + (t - ul.lastRefill) * rate + rate * (T - t) := by ring
    rw [hsum]
    rcases le_total (rl.burst : ℚ) (ul.tokens + (t - ul.lastRefill) * rate) with hfull | hroom
    · rw [min_eq_left hfull]
      exact (min_le_left _ _).trans (by linarith)
    · rw [min_eq_right hroom]
      exact min_le_right _ _

theorem Valid.level_nonneg (h : rl.Valid rate burst t) (hburst : 1 ≤ burst) (u : RoutingKey)
    (ht : t ≤ T) : 0 ≤ rl.level u T := by
  have hfull : (0 : ℚ) ≤ rl.burst := by
    rw [h.burst_eq]
    exact_mod_cast (by omega : (0 : ℤ) ≤ burst)
  unfold level
  split
  · exact hfull
  · rename_i ul hul
    have htokens := h.tokens u ul hul
    have hflow : 0 ≤ (T - ul.lastRefill) * rl.rate := by
      rw [h.rate_eq]
      exact mul_nonneg (sub_nonneg.2 ((h.lastRefill u ul hul).trans ht)) hrate.le
    exact le_min hfull (add_nonneg htokens hflow)

theorem Valid.allow (h : rl.Valid rate burst t) (hburst : 1 ≤ burst) (ht : t ≤ now)
    (u : RoutingKey) : (rl.allow now u).2.Valid rate burst now := by
  have hleft : 0 ≤ rl.level u now - rl.taken u now := by
    unfold taken
    split
    · linarith
    · rw [sub_zero]
      exact h.level_nonneg hrate hburst u ht
  rw [allow_eq]
  refine ⟨h.rate_eq, h.burst_eq, fun u' ul hul => ?_, fun u' ul hul => ?_⟩
  all_goals
    rw [Table.lookup_insert_eq] at hul
    split at hul
  · obtain rfl := Option.some.inj hul
    exact hleft
  · exact h.tokens u' ul hul
  · obtain rfl := Option.some.inj hul
    exact le_refl now
  · exact (h.lastRefill u' ul hul).trans ht

omit hrate in
/-- A sweep only takes buckets away. -/
theorem lookup_cleanup (rl : RateLimiter) (now : ℚ) (u : RoutingKey) :
    (rl.cleanup now).limiters.lookup u = (rl.limiters.lookup u).bind fun ul =>
      if staleThreshold < now - ul.lastRefill then none else some ul :=
  Table.lookup_mapPartial _ _ u

omit hrate in
theorem Valid.cleanup (h : rl.Valid rate burst t) (ht : t ≤ now) :
    (rl.cleanup now).Valid rate burst now := by
  have hkept : ∀ u ul, (rl.cleanup now).limiters.lookup u = some ul →
      rl.limiters.lookup u = some ul := by
    intro u ul hul
    rw [lookup_cleanup] at hul
    obtain ⟨ul', hul', hul⟩ := Option.bind_eq_some_iff.1 hul
    split at hul
    · cases hul
    · rwa [← Option.some.inj hul]
  exact ⟨h.rate_eq, h.burst_eq, fun u ul hul => h.tokens u ul (hkept u ul hul),
    fun u ul hul => (h.lastRefill u ul (hkept u ul hul)).trans ht⟩

/-- **A sweep leaves every level as it is.** -/
theorem Valid.level_cleanup (h : rl.Valid rate burst t) (hstale : burst ≤ 300 * rate)
    (u : RoutingKey) (hT : now ≤ T) : (rl.cleanup now).level u T = rl.level u T := by
  have hburst : (rl.cleanup now).burst = rl.burst := rfl
  have hrate' : (rl.cleanup now).rate = rl.rate := rfl
  unfold level
  rw [lookup_cleanup, hburst, hrate']
  rcases hul : rl.limiters.lookup u with - | ul
  · rfl
  · rw [Option.bind_some]
    by_cases hidle : staleThreshold < now - ul.lastRefill
    · -- The bucket is full by now.
      rw [if_pos hidle]
      have htokens := h.tokens u ul hul
      have hlong : 300 ≤ T - ul.lastRefill := by
        unfold staleThreshold at hidle
        linarith
      have hflow : 300 * rl.rate ≤ (T - ul.lastRefill) * rl.rate := by
        rw [h.rate_eq]
        exact mul_le_mul_of_nonneg_right hlong hrate.le
      refine (min_eq_left ?_).symm
      rw [h.rate_eq] at hflow ⊢
      rw [h.burst_eq]
      linarith
    · rw [if_neg hidle]

theorem Valid.step (h : rl.Valid rate burst t) (hburst : 1 ≤ burst) (c : Call)
    (ht : t ≤ c.time) : (rl.step c).2.Valid rate burst c.time := by
  cases c with
  | allow now u => exact h.allow hrate hburst ht u
  | cleanup now => exact h.cleanup ht

/-! ## Without the sweeps -/

/-- The same level for everybody, from a time on. -/
structure SameLevels (rate : ℚ) (burst : ℤ) (t : ℚ) (rl rl' : RateLimiter) : Prop where
  valid : rl.Valid rate burst t
  valid' : rl'.Valid rate burst t
  level : ∀ u T, t ≤ T → rl.level u T = rl'.level u T

theorem SameLevels.allow {rl' : RateLimiter} (h : SameLevels rate burst t rl rl')
    (hburst : 1 ≤ burst) (ht : t ≤ now) (u : RoutingKey) :
    (rl.step (.allow now u)).1 = (rl'.step (.allow now u)).1 ∧
      SameLevels rate burst now (rl.step (.allow now u)).2 (rl'.step (.allow now u)).2 := by
  have hnow : rl.level u now = rl'.level u now := h.level u now ht
  have htaken : rl.taken u now = rl'.taken u now := by rw [taken, taken, hnow]
  refine ⟨?_, h.valid.allow hrate hburst ht u, h.valid'.allow hrate hburst ht u,
    fun u' T hT => ?_⟩
  · simp only [RateLimiter.step, allow_eq, hnow]
  · change (rl.allow now u).2.level u' T = (rl'.allow now u).2.level u' T
    by_cases hu : u' = u
    · rw [hu, level_allow_self, level_allow_self, hnow, htaken, h.valid.burst_eq,
        h.valid'.burst_eq, h.valid.rate_eq, h.valid'.rate_eq]
    · rw [level_allow_of_ne hu, level_allow_of_ne hu, h.level u' T (ht.trans hT)]

theorem SameLevels.cleanup {rl' : RateLimiter} (h : SameLevels rate burst t rl rl')
    (hstale : burst ≤ 300 * rate) (ht : t ≤ now) :
    SameLevels rate burst now (rl.cleanup now) rl' :=
  ⟨h.valid.cleanup ht, h.valid'.mono ht, fun u T hT =>
    (h.valid.level_cleanup hrate hstale u hT).trans (h.level u T (ht.trans hT))⟩

/-! ## What is let through -/

omit hrate in
/-- The call is one for the user in the stretch of time, and is let
through. -/
def admitted (u : RoutingKey) (s t : ℚ) : Call × Option Bool → Bool
  | (.allow now u', some true) => u' = u ∧ s ≤ now ∧ now ≤ t
  | _ => false

omit hrate in
theorem of_admitted {p : Call × Option Bool} (h : admitted u s t p = true) :
    s ≤ p.1.time ∧ p.1.time ≤ t := by
  obtain ⟨c, answer⟩ := p
  unfold admitted at h
  split at h
  · rename_i heq
    obtain ⟨rfl, -⟩ := Prod.mk.inj heq
    exact (of_decide_eq_true h).2
  · cases h

omit hrate in
/-- A call that is let through takes a token. -/
theorem admitted_le_taken (rl : RateLimiter) (u : RoutingKey) (s T now : ℚ) :
    (if admitted u s T (.allow now u, (rl.step (.allow now u)).1) then 1 else 0) ≤
      rl.taken u now := by
  unfold taken
  by_cases hlevel : 1 ≤ rl.level u now
  · rw [if_pos hlevel]
    split
    · exact le_refl 1
    · exact zero_le_one
  · rw [if_neg hlevel]
    simp [RateLimiter.step, allow_eq, hlevel, admitted]

/-- **One call is paid by the level and what has flowed in.** -/
theorem Valid.level_step (h : rl.Valid rate burst t) (hstale : burst ≤ 300 * rate)
    (c : Call) (ht : t ≤ c.time) (u : RoutingKey) (s T : ℚ) :
    (if admitted u s T (c, (rl.step c).1) then 1 else 0) + (rl.step c).2.level u c.time ≤
      rl.level u t + rate * (c.time - t) := by
  have hrise := level_le_add hrate h.rate_eq u ht
  cases c with
  | cleanup now =>
    have hsame : (rl.cleanup now).level u now = rl.level u now :=
      h.level_cleanup hrate hstale u (le_refl now)
    change (0 : ℚ) + (rl.cleanup now).level u now ≤ _
    rw [hsame, zero_add]
    exact hrise
  | allow now u' =>
    change rl.level u now ≤ rl.level u t + rate * (now - t) at hrise
    change _ + (rl.allow now u').2.level u now ≤ rl.level u t + rate * (now - t)
    by_cases hu : u' = u
    · subst hu
      have hone := rl.admitted_le_taken u' s T now
      have hleft : (rl.allow now u').2.level u' now ≤ rl.level u' now - rl.taken u' now := by
        rw [level_allow_self, sub_self, zero_mul, add_zero]
        exact min_le_right _ _
      linarith
    · have hnot : admitted u s T (.allow now u', (rl.step (.allow now u')).1) = false := by
        rcases (rl.step (.allow now u')).1 with - | - | - <;> simp [admitted, hu]
      rw [hnot, level_allow_of_ne (fun heq => hu heq.symm)]
      simpa using hrise

/-- **What is let through is paid** by the level at the beginning, and what
flows in until `T`. -/
theorem Valid.countP_le (h : rl.Valid rate burst t) (hburst : 1 ≤ burst)
    (hstale : burst ≤ 300 * rate) (hcalls : From Call.time t calls) (hT : t ≤ T)
    (u : RoutingKey) (s : ℚ) :
    ((replies RateLimiter.step rl calls).countP (admitted u s T) : ℚ) ≤
      rl.level u t + rate * (T - t) := by
  induction calls generalizing rl t with
  | nil =>
    have hlevel := h.level_nonneg hrate hburst u (le_refl t)
    have hflow : 0 ≤ rate * (T - t) := mul_nonneg hrate.le (sub_nonneg.2 hT)
    simp only [replies, List.countP_nil, Nat.cast_zero]
    linarith
  | cons c calls ih =>
    have hpaid := h.level_step hrate hstale c hcalls.1 u s T
    rw [replies, List.countP_cons]
    push_cast
    by_cases hlate : c.time ≤ T
    · have hrest := ih (h.step hrate hburst c hcalls.1) hcalls.2 hlate
      linarith
    · -- No call after it is in the stretch of time.
      have hnone : (replies RateLimiter.step (rl.step c).2 calls).countP (admitted u s T) = 0 := by
        refine List.countP_eq_zero.2 fun p hp hadmitted => hlate ?_
        exact (hcalls.2.le (fst_mem_of_mem_replies hp)).trans (of_admitted hadmitted).2
      have hthis : admitted u s T (c, (rl.step c).1) = false :=
        Bool.eq_false_iff.2 fun hadmitted => hlate (of_admitted hadmitted).2
      have hlevel := h.level_nonneg hrate hburst u (le_refl t)
      have hflow : 0 ≤ rate * (T - t) := mul_nonneg hrate.le (sub_nonneg.2 hT)
      rw [hnone, hthis]
      simp only [Nat.cast_zero, Bool.false_eq_true, if_false]
      linarith

/-- In any stretch of time, by the burst and what flows in. -/
theorem Valid.countP_between_le (h : rl.Valid rate burst t) (hburst : 1 ≤ burst)
    (hstale : burst ≤ 300 * rate) (hcalls : From Call.time t calls) (hs : t ≤ s) (hT : s ≤ T)
    (u : RoutingKey) :
    ((replies RateLimiter.step rl calls).countP (admitted u s T) : ℚ) ≤ burst + rate * (T - s) := by
  induction calls generalizing rl t with
  | nil =>
    have hflow : 0 ≤ rate * (T - s) := mul_nonneg hrate.le (sub_nonneg.2 hT)
    have hpos : (1 : ℚ) ≤ burst := by exact_mod_cast hburst
    simp only [replies, List.countP_nil, Nat.cast_zero]
    linarith
  | cons c calls ih =>
    by_cases hearly : c.time < s
    · have hthis : admitted u s T (c, (rl.step c).1) = false :=
        Bool.eq_false_iff.2 fun hadmitted => not_le.2 hearly (of_admitted hadmitted).1
      rw [replies, List.countP_cons, hthis]
      exact ih (h.step hrate hburst c hcalls.1) hcalls.2 hearly.le
    · have hfrom : From Call.time s (c :: calls) := ⟨not_lt.1 hearly, hcalls.2⟩
      have hle := (h.mono hs).countP_le hrate hburst hstale hfrom hT u s
      have hfull := rl.level_le_burst u s
      rw [h.burst_eq] at hfull
      linarith

end Steps

theorem valid_new (rate : ℚ) (burst : ℤ) (t : ℚ) : (new rate burst).Valid rate burst t :=
  ⟨rfl, rfl, fun _ _ hul => (by cases hul), fun _ _ hul => (by cases hul)⟩

/-- **The rate limit.** For every rate and burst such that a bucket fills in
the time after which it is stale, every run of calls and sweeps at
nondecreasing times: in any stretch of time a user is let through at most as
often as the burst and what flows in allow, and without the sweeps every
call has the answer it had. -/
theorem allowed_le_burst_add (rate : ℚ) (burst : ℤ) (hrate : 0 < rate) (hburst : 1 ≤ burst)
    (hstale : burst ≤ 300 * rate) (calls : List Call) (hcalls : InOrder Call.time calls) :
    (∀ u s t, s ≤ t →
      ((replies step (new rate burst) calls).countP (admitted u s t) : ℚ) ≤
        burst + rate * (t - s)) ∧
    ((replies step (new rate burst) calls).filter fun p => !p.1.isCleanup) =
      replies step (new rate burst) (calls.filter fun c => !c.isCleanup) := by
  obtain ⟨t₀, hfrom⟩ := hcalls.exists_from
  constructor
  · intro u s t ht
    exact (valid_new rate burst (min t₀ s)).countP_between_le hrate hburst hstale
      (hfrom.mono (min_le_left _ _)) (min_le_right _ _) ht u
  · refine replies_filter (R := SameLevels rate burst) (fun c => !c.isCleanup) ?_ ?_ (t := t₀) ?_
      hfrom
    · intro t rl rl' c hR ht hkeep
      cases c with
      | allow now u => exact hR.allow hrate hburst ht u
      | cleanup now => cases hkeep
    · intro t rl rl' c hR ht hdrop
      cases c with
      | allow now u => cases hdrop
      | cleanup now => exact hR.cleanup hrate hstale ht
    · exact ⟨valid_new rate burst t₀, valid_new rate burst t₀, fun _ _ _ => rfl⟩

/-- A burst of two at a token a second: two calls at once, of which a third
is refused, and one a second later. -/
theorem allowed_le_burst_add_twoAtOnce :
    (replies step (new 1 2) [.allow 0 "u", .allow 0 "u", .allow 0 "u", .cleanup 1,
        .allow 1 "u"]).countP (admitted "u" 0 1) = 3 ∧
      ((replies step (new 1 2) [.allow 0 "u", .allow 0 "u", .allow 0 "u", .cleanup 1,
        .allow 1 "u"]).countP (admitted "u" 0 1) : ℚ) ≤ 2 + 1 * (1 - 0) :=
  ⟨by decide +kernel, (allowed_le_burst_add 1 2 (by decide +kernel) (by decide)
    (by norm_num) _ (by decide +kernel)).1 "u" 0 1 (by decide +kernel)⟩

end RateLimiter

end StickyProxy
