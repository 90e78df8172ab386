import StickyProxy.Metrics.Model.Histogram
import StickyProxy.Common.Pool
import Mathlib.Algebra.BigOperators.Intervals
import Mathlib.Algebra.Order.BigOperators.Group.Finset
import Mathlib.Data.List.Perm.Basic
/-!
# What is recorded is counted, and what is scraped lies in between

The counters only grow, and in every state each of them is the number of the
observations that have passed it. A scrape reads them one after the other
while they grow, so what it writes is no state of the histogram; but every
line of it lies between what the histogram said when the scrape began and
what it says when it is over. The sum is the fold of the durations that are
through, in the order of their swaps: an update is neither lost nor made
twice, and a swap fails only when another observation has got through since
the sum was loaded.
-/

namespace StickyProxy

namespace Metrics

open Run

variable {F : Type*} {h h' h₀ : Histogram F} {o o' : Observation F} {x y b : F} {i j k : ℕ}

/-! ## Buckets -/

namespace Histogram

/-- The bucket at a place. -/
def bucket (h : Histogram F) (i : ℕ) : ℕ := h.buckets[i]?.getD 0

/-- What the first `k` buckets add up to. -/
def upTo (h : Histogram F) (k : ℕ) : ℕ := ∑ i ∈ Finset.range k, h.bucket i

theorem upTo_succ (h : Histogram F) (k : ℕ) : h.upTo (k + 1) = h.upTo k + h.bucket k :=
  Finset.sum_range_succ _ _

/-- The histogram with one more observation in a bucket. -/
theorem bucket_modify (hi : i < h.buckets.length) (j : ℕ) :
    { h with buckets := h.buckets.modify i (· + 1) }.bucket j =
      h.bucket j + if i = j then 1 else 0 := by
  unfold bucket
  dsimp only
  rw [List.getElem?_modify]
  by_cases hij : i = j
  · subst hij
    simp [List.getElem?_eq_getElem hi]
  · simp [hij]

theorem upTo_modify (hi : i < h.buckets.length) (k : ℕ) :
    { h with buckets := h.buckets.modify i (· + 1) }.upTo k =
      h.upTo k + if i < k then 1 else 0 := by
  unfold upTo
  simp only [bucket_modify hi, Finset.sum_add_distrib, Finset.sum_ite_eq, Finset.mem_range]

/-- No counter of the first is above that of the second. -/
structure Le (h h' : Histogram F) : Prop where
  length : h'.buckets.length = h.buckets.length
  bucket : ∀ i, h.bucket i ≤ h'.bucket i
  count : h.count ≤ h'.count

theorem Le.refl (h : Histogram F) : h.Le h := ⟨rfl, fun _ => Nat.le_refl _, Nat.le_refl _⟩

theorem Le.trans {h'' : Histogram F} (hle : h.Le h') (hle' : h'.Le h'') : h.Le h'' :=
  ⟨hle'.length.trans hle.length, fun i => Nat.le_trans (hle.bucket i) (hle'.bucket i),
    Nat.le_trans hle.count hle'.count⟩

theorem Le.upTo (hle : h.Le h') (k : ℕ) : h.upTo k ≤ h'.upTo k :=
  Finset.sum_le_sum fun i _ => hle.bucket i

end Histogram

/-! ## Observations -/

namespace Observation

/-- The observation is in its bucket, and its duration is within the bound. -/
def within [LinearOrder F] (bound : F) : Observation F → Bool
  | .bucket _ => false
  | .count seconds | .load seconds | .swap seconds _ | .done seconds => seconds ≤ bound

/-- The observation is in the total. -/
def counted : Observation F → Bool
  | .bucket _ | .count _ => false
  | .load _ | .swap _ _ | .done _ => true

/-- The observation is in its bucket, and not yet in the total. -/
def uncounted : Observation F → Bool
  | .count _ => true
  | _ => false

/-- The duration of an observation that is in the sum. -/
def summed : Observation F → List F
  | .done seconds => [seconds]
  | _ => []

end Observation

namespace State

/-- The observations in a bucket whose durations are within the bound. -/
def recorded [LinearOrder F] (s : State F) (bound : F) : ℕ :=
  s.observations.countP (·.within bound)

/-- The observations in the total. -/
def counted (s : State F) : ℕ := s.observations.countP (·.counted)

/-- The observations that are through with their buckets, and not yet in the
total. -/
def uncounted (s : State F) : ℕ := s.observations.countP (·.uncounted)

/-- The durations that are in the sum. -/
def summed (s : State F) : List F := s.observations.flatMap (·.summed)

end State

section Order

variable [LinearOrder F] {add : F → F → F} {zero : F} {bounds durations : List F}
  {s s' t : State F} {a : Action} {as bs : List Action}

/-- With the bounds in order, an observation is within the bounds from its
bucket on, and within no other. -/
theorem tightest_le_iff (hbounds : bounds.Pairwise (· ≤ ·)) (hi : tightest bounds x = some i)
    (hk : bounds[k]? = some b) : i ≤ k ↔ x ≤ b := by
  obtain ⟨hlt, hle, hfirst⟩ := List.findIdx?_eq_some_iff_getElem.1 hi
  obtain ⟨hkl, rfl⟩ := List.getElem?_eq_some_iff.1 hk
  have hle : x ≤ bounds[i] := by simpa using hle
  constructor
  · intro hik
    rcases Nat.eq_or_lt_of_le hik with rfl | hik
    · exact hle
    · exact hle.trans (List.pairwise_iff_getElem.1 hbounds i k hlt hkl hik)
  · intro hxb
    by_contra hik
    exact hfirst k (Nat.lt_of_not_le hik) (by simpa using hxb)

theorem not_le_of_tightest_eq_none (hnone : tightest bounds x = none) (hk : bounds[k]? = some b) :
    ¬ x ≤ b := by
  have hall := List.findIdx?_eq_none_iff.1 hnone b (List.mem_of_getElem? hk)
  simpa using hall

/-! ## Steps -/

/-- What a step of an observation does: one case for each of its phases, two
for the swap. -/
inductive Records (add : F → F → F) (bounds : List F) (h : Histogram F) :
    Observation F → Histogram F → Observation F → Prop
  | bucket {x : F} {i : ℕ} : tightest bounds x = some i →
      Records add bounds h (.bucket x) { h with buckets := h.buckets.modify i (· + 1) } (.count x)
  | overflow {x : F} : tightest bounds x = none → Records add bounds h (.bucket x) h (.count x)
  | count {x : F} : Records add bounds h (.count x) { h with count := h.count + 1 } (.load x)
  | load {x : F} : Records add bounds h (.load x) h (.swap x h.sum)
  | swap {x oldVal : F} : h.sum = oldVal →
      Records add bounds h (.swap x oldVal) { h with sum := add oldVal x } (.done x)
  | retry {x oldVal : F} : h.sum ≠ oldVal → Records add bounds h (.swap x oldVal) h (.load x)

theorem records_of_step (hst : o.step add bounds h = some (h', o')) :
    Records add bounds h o h' o' := by
  cases o with
  | bucket x =>
    simp only [Observation.step] at hst
    split at hst
    · rename_i i hi
      obtain ⟨rfl, rfl⟩ := Prod.mk.inj (Option.some.inj hst)
      exact .bucket hi
    · rename_i hnone
      obtain ⟨rfl, rfl⟩ := Prod.mk.inj (Option.some.inj hst)
      exact .overflow hnone
  | count x =>
    obtain ⟨rfl, rfl⟩ := Prod.mk.inj (Option.some.inj hst)
    exact .count
  | load x =>
    obtain ⟨rfl, rfl⟩ := Prod.mk.inj (Option.some.inj hst)
    exact .load
  | swap x oldVal =>
    simp only [Observation.step] at hst
    split at hst
    · rename_i hsum
      obtain ⟨rfl, rfl⟩ := Prod.mk.inj (Option.some.inj hst)
      exact .swap hsum
    · rename_i hsum
      obtain ⟨rfl, rfl⟩ := Prod.mk.inj (Option.some.inj hst)
      exact .retry hsum
  | done x => cases hst

/-- What a step does: an observation or a scrape moves. -/
inductive Steps (add : F → F → F) (bounds : List F) (s : State F) : Action → State F → Prop
  | observe {i : ℕ} {o o' : Observation F} {h' : Histogram F} : s.observations[i]? = some o →
      Records add bounds s.histogram o h' o' →
      Steps add bounds s (.observe i)
        { s with histogram := h', observations := s.observations.set i o' }
  | scrape {j : ℕ} {c c' : Scrape F} : s.scrapes[j]? = some c → c.step s.histogram = some c' →
      Steps add bounds s (.scrape j) { s with scrapes := s.scrapes.set j c' }

theorem steps_of_step (hst : step add bounds s a = some s') : Steps add bounds s a s' := by
  cases a with
  | observe i =>
    obtain ⟨o, ho, hst⟩ := Option.bind_eq_some_iff.1 hst
    obtain ⟨⟨h', o'⟩, hmove, rfl⟩ := Option.map_eq_some_iff.1 hst
    exact .observe ho (records_of_step hmove)
  | scrape j =>
    obtain ⟨c, hc, hst⟩ := Option.bind_eq_some_iff.1 hst
    obtain ⟨c', hmove, rfl⟩ := Option.map_eq_some_iff.1 hst
    exact .scrape hc hmove

/-- No step takes anything off a counter. -/
theorem Records.le (hlen : h.buckets.length = bounds.length)
    (hrec : Records add bounds h o h' o') : h.Le h' := by
  cases hrec with
  | bucket hi =>
    obtain ⟨hlt, -⟩ := List.findIdx?_eq_some_iff_getElem.1 hi
    refine ⟨List.length_modify .., fun j => ?_, Nat.le_refl _⟩
    rw [Histogram.bucket_modify (hlen ▸ hlt)]
    exact Nat.le_add_right _ _
  | count => exact ⟨rfl, fun _ => Nat.le_refl _, Nat.le_succ _⟩
  | swap => exact ⟨rfl, fun _ => Nat.le_refl _, Nat.le_refl _⟩
  | overflow | load | retry => exact Histogram.Le.refl _

/-! ## The counters say how many -/

/-- Every counter is the number of the observations that have passed it. -/
structure Exact (bounds : List F) (s : State F) : Prop where
  length : s.histogram.buckets.length = bounds.length
  upTo : ∀ k b, bounds[k]? = some b → s.histogram.upTo (k + 1) = s.recorded b
  count : s.histogram.count = s.counted

theorem exact_start (zero : F) (bounds durations : List F) (n : ℕ) :
    Exact bounds (State.start bounds zero durations n) := by
  have hzero : ∀ i, (State.start bounds zero durations n).histogram.bucket i = 0 := by
    intro i
    simp only [State.start, Histogram.bucket, List.getElem?_replicate]
    split <;> rfl
  refine ⟨List.length_replicate, fun k b _ => ?_, ?_⟩
  · rw [Histogram.upTo, Finset.sum_eq_zero fun i _ => hzero i, State.recorded, State.start,
      List.countP_map]
    exact (List.countP_eq_zero.2 fun x _ => Bool.false_ne_true).symm
  · rw [State.counted, State.start, List.countP_map]
    exact (List.countP_eq_zero.2 fun x _ => Bool.false_ne_true).symm

/-- **A step of an observation keeps the counters exact.** -/
theorem Exact.observe (hbounds : bounds.Pairwise (· ≤ ·)) (hs : Exact bounds s)
    (ho : s.observations[i]? = some o) (hrec : Records add bounds s.histogram o h' o') :
    Exact bounds { s with histogram := h', observations := s.observations.set i o' } := by
  have hwithin : ∀ b, (s.observations.set i o').countP (·.within b) +
      (if o.within b then 1 else 0) = s.recorded b + (if o'.within b then 1 else 0) :=
    fun b => Pool.countP_set _ o' ho
  have hcounted : (s.observations.set i o').countP (·.counted) +
      (if o.counted then 1 else 0) = s.counted + (if o'.counted then 1 else 0) :=
    Pool.countP_set _ o' ho
  refine ⟨(hrec.le hs.length).length.trans hs.length, fun k b hk => ?_, ?_⟩
  · have hold := hs.upTo k b hk
    have hnew := hwithin b
    change h'.upTo (k + 1) = (s.observations.set i o').countP (·.within b)
    cases hrec with
    | bucket hi =>
      obtain ⟨hlt, -⟩ := List.findIdx?_eq_some_iff_getElem.1 hi
      have hiff := tightest_le_iff hbounds hi hk
      rw [Histogram.upTo_modify (hs.length ▸ hlt), hold]
      simp only [Observation.within, Bool.false_eq_true, if_false, decide_eq_true_eq,
        ← hiff] at hnew
      simp only [Nat.lt_succ_iff]
      exact hnew.symm
    | overflow hnone =>
      have hnot := not_le_of_tightest_eq_none hnone hk
      simp only [Observation.within, hnot, decide_false, Bool.false_eq_true, if_false] at hnew
      exact hold.trans hnew.symm
    | count | load | swap | retry => exact hold.trans (Nat.add_right_cancel hnew).symm
  · have hold := hs.count
    change h'.count = (s.observations.set i o').countP (·.counted)
    cases hrec with
    | count => exact (congrArg (· + 1) hold).trans hcounted.symm
    | bucket | overflow | load | swap | retry =>
      exact hold.trans (Nat.add_right_cancel hcounted).symm

theorem Exact.step (hbounds : bounds.Pairwise (· ≤ ·)) (hs : Exact bounds s)
    (hst : step add bounds s a = some s') : Exact bounds s' := by
  cases steps_of_step hst with
  | observe ho hrec => exact hs.observe hbounds ho hrec
  | scrape => exact ⟨hs.length, hs.upTo, hs.count⟩

/-- **In every state of every run the counters are exact.** -/
theorem exact_of_exec (hbounds : bounds.Pairwise (· ≤ ·)) {n : ℕ}
    (hrun : exec (step add bounds) (State.start bounds zero durations n) as = some s) :
    Exact bounds s :=
  exec_invariant_of_forall (fun _ _ _ hs hst => hs.step hbounds hst)
    (exact_start zero bounds durations n) hrun

/-! ## What a scrape reads -/

/-- The lines of a scrape that began at `h₀`, up to now. -/
structure Rows (h₀ h : Histogram F) (rows : List ℕ) : Prop where
  ordered : rows.Pairwise (· ≤ ·)
  between : ∀ k r, rows[k]? = some r → h₀.upTo (k + 1) ≤ r ∧ r ≤ h.upTo (k + 1)

/-- A scrape that began at `h₀`. -/
def Reading (h₀ h : Histogram F) : Scrape F → Prop
  | .buckets rows cumulative => Rows h₀ h rows ∧ rows.length ≤ h.buckets.length ∧
      (∀ r ∈ rows, r ≤ cumulative) ∧ h₀.upTo rows.length ≤ cumulative ∧
        cumulative ≤ h.upTo rows.length
  | .sum rows totalCount | .done rows totalCount _ => Rows h₀ h rows ∧
      rows.length = h.buckets.length ∧ h₀.count ≤ totalCount ∧ totalCount ≤ h.count

omit [LinearOrder F] in
theorem Rows.mono {rows : List ℕ} (hrows : Rows h₀ h rows) (hle : h.Le h') : Rows h₀ h' rows :=
  ⟨hrows.ordered, fun k r hr => ⟨(hrows.between k r hr).1,
    Nat.le_trans (hrows.between k r hr).2 (hle.upTo (k + 1))⟩⟩

omit [LinearOrder F] in
/-- The counters grow under a scrape. -/
theorem Reading.mono {c : Scrape F} (hc : Reading h₀ h c) (hle : h.Le h') : Reading h₀ h' c := by
  cases c with
  | buckets rows cumulative =>
    obtain ⟨hrows, hlen, hmax, hlow, hhigh⟩ := hc
    exact ⟨hrows.mono hle, hle.length ▸ hlen, hmax, hlow, Nat.le_trans hhigh (hle.upTo _)⟩
  | sum rows totalCount | done rows totalCount sum =>
    obtain ⟨hrows, hlen, hlow, hhigh⟩ := hc
    exact ⟨hrows.mono hle, hlen.trans hle.length.symm, hlow, Nat.le_trans hhigh hle.count⟩

omit [LinearOrder F] in
/-- One line more. -/
theorem Rows.append {rows : List ℕ} {r : ℕ} (hrows : Rows h₀ h rows) (hmax : ∀ q ∈ rows, q ≤ r)
    (hlow : h₀.upTo (rows.length + 1) ≤ r) (hhigh : r ≤ h.upTo (rows.length + 1)) :
    Rows h₀ h (rows ++ [r]) := by
  constructor
  · rw [List.pairwise_append]
    refine ⟨hrows.ordered, List.pairwise_singleton _ _, fun q hq r' hr' => ?_⟩
    rw [List.mem_singleton.1 hr']
    exact hmax q hq
  · intro k q hq
    rcases Nat.lt_or_ge k rows.length with hk | hk
    · rw [List.getElem?_append_left hk] at hq
      exact hrows.between k q hq
    · have hlast : k = rows.length := by
        have hlt := (List.getElem?_eq_some_iff.1 hq).1
        rw [List.length_append, List.length_singleton] at hlt
        omega
      subst hlast
      rw [List.getElem?_concat_length, Option.some.injEq] at hq
      exact hq ▸ ⟨hlow, hhigh⟩

omit [LinearOrder F] in
/-- **A step of a scrape.** The bucket it reads has grown since the scrape
began, and is the one the histogram has now. -/
theorem Reading.step {c c' : Scrape F} (hc : Reading h₀ h c) (hle : h₀.Le h)
    (hst : c.step h = some c') : Reading h₀ h c' := by
  cases c with
  | buckets rows cumulative =>
    obtain ⟨hrows, hlen, hmax, hlow, hhigh⟩ := hc
    simp only [Scrape.step] at hst
    split at hst
    · rename_i n hn
      obtain rfl := Option.some.inj hst
      have hnow : h.bucket rows.length = n := by rw [Histogram.bucket, hn]; rfl
      have hgrown := hle.bucket rows.length
      have hlow' : h₀.upTo (rows.length + 1) ≤ cumulative + n := by
        rw [Histogram.upTo_succ]
        omega
      have hhigh' : cumulative + n ≤ h.upTo (rows.length + 1) := by
        rw [Histogram.upTo_succ]
        omega
      have hmax' : ∀ q ∈ rows, q ≤ cumulative + n :=
        fun q hq => Nat.le_add_right_of_le (hmax q hq)
      refine ⟨hrows.append hmax' hlow' hhigh', ?_, fun q hq => ?_, ?_, ?_⟩
      · have hlt := (List.getElem?_eq_some_iff.1 hn).1
        rw [List.length_append, List.length_singleton]
        omega
      · rcases List.mem_append.1 hq with hq | hq
        · exact hmax' q hq
        · exact Nat.le_of_eq (List.mem_singleton.1 hq)
      · rw [List.length_append, List.length_singleton]
        exact hlow'
      · rw [List.length_append, List.length_singleton]
        exact hhigh'
    · rename_i hn
      obtain rfl := Option.some.inj hst
      have hge := List.getElem?_eq_none_iff.1 hn
      exact ⟨hrows, Nat.le_antisymm hlen hge, hle.count, Nat.le_refl _⟩
  | sum rows totalCount =>
    obtain rfl := Option.some.inj hst
    exact hc
  | done rows totalCount sum => cases hst

/-- What holds of a scrape from its beginning at `h₀` on. -/
structure Watched (bounds : List F) (h₀ : Histogram F) (j : ℕ) (s : State F) : Prop where
  exact : Exact bounds s
  le : h₀.Le s.histogram
  reading : ∀ c, s.scrapes[j]? = some c → Reading h₀ s.histogram c

theorem Watched.step (hbounds : bounds.Pairwise (· ≤ ·)) (hs : Watched bounds h₀ j s)
    (hst : step add bounds s a = some s') : Watched bounds h₀ j s' := by
  have hexact := hs.exact.step hbounds hst
  cases steps_of_step hst with
  | observe ho hrec =>
    have hgrow := hrec.le hs.exact.length
    exact ⟨hexact, hs.le.trans hgrow, fun c hc => (hs.reading c hc).mono hgrow⟩
  | scrape hc hmove =>
    refine ⟨hexact, hs.le, fun c'' hc'' => ?_⟩
    rcases Pool.getElem?_set_cases hc hc'' with ⟨rfl, rfl⟩ | ⟨-, hsame⟩
    · exact (hs.reading _ hc).step hs.le hmove
    · exact hs.reading c'' hsame

omit [LinearOrder F] in
theorem reading_start (h : Histogram F) : Reading h h (.buckets [] 0) := by
  refine ⟨⟨List.Pairwise.nil, fun k r hr => ?_⟩, Nat.zero_le _, fun r hr => ?_, Nat.le_refl _,
    Nat.zero_le _⟩
  · simp at hr
  · simp at hr

/-- What the buckets have and the total has not is under way from the one to
the other. -/
theorem recorded_le (s : State F) (b : F) : s.recorded b ≤ s.counted + s.uncounted := by
  unfold State.recorded State.counted State.uncounted
  induction s.observations with
  | nil => simp
  | cons o os ih =>
    have hone : (if o.within b then 1 else 0) ≤
        (if o.counted then 1 else 0) + if o.uncounted then 1 else 0 := by
      cases o with
      | bucket x => simp [Observation.within]
      | count x | load x | swap x y | done x =>
        simp only [Observation.counted, Observation.uncounted]
        split <;> simp
    simp only [List.countP_cons]
    omega

/-- A scrape that has read the total keeps what it has read. -/
theorem read_step {rows : List ℕ} {n : ℕ}
    (h : s.scrapes[j]? = some (.sum rows n) ∨ ∃ sum, s.scrapes[j]? = some (.done rows n sum))
    (hst : step add bounds s a = some s') :
    s'.scrapes[j]? = some (.sum rows n) ∨ ∃ sum, s'.scrapes[j]? = some (.done rows n sum) := by
  cases steps_of_step hst with
  | observe => exact h
  | scrape hc hmove =>
    rename_i k c c'
    by_cases hk : k = j
    · subst hk
      rw [Pool.getElem?_set_self hc]
      rw [hc, Option.some.injEq] at h
      rcases h with rfl | ⟨sum, h⟩
      · obtain rfl := Option.some.inj hmove
        exact Or.inr ⟨_, rfl⟩
      · obtain rfl := Option.some.inj h
        cases hmove
    · rwa [Pool.getElem?_set_ne hk]

/-- A scrape that is over has read the total once it had read the buckets. -/
theorem exists_total_read {rows : List ℕ} {totalCount : ℕ} {sum : F}
    (hbegin : s.scrapes[j]? = some (.buckets [] 0))
    (hrun : exec (step add bounds) s bs = some t)
    (hdone : t.scrapes[j]? = some (.done rows totalCount sum)) :
    ∃ bs₁ bs₂ u cumulative, bs = bs₁ ++ bs₂ ∧ exec (step add bounds) s bs₁ = some u ∧
      u.scrapes[j]? = some (.buckets rows cumulative) ∧ totalCount = u.histogram.count := by
  let I : State F → Prop := fun u => ∃ rows c, u.scrapes[j]? = some (.buckets rows c)
  have hnot : ¬ I t := by
    rintro ⟨rows', c, hc⟩
    rw [hdone] at hc
    cases hc
  obtain ⟨bs₁, a, bs₂, u, u', rfl, hrun₁, ⟨rows', c, hc⟩, hst, hleft, hrun₂⟩ :=
    exists_leaving_step (I := I) ⟨[], 0, hbegin⟩ hnot hrun
  -- The step that is no more in the loop over the buckets.
  have hread : u'.scrapes[j]? = some (.sum rows' u.histogram.count) := by
    cases steps_of_step hst with
    | observe => exact absurd ⟨rows', c, hc⟩ hleft
    | scrape hc' hmove =>
      rename_i j' x x'
      by_cases hj : j' = j
      · subst hj
        obtain rfl := Option.some.inj (hc.symm.trans hc')
        have hx' : (u.scrapes.set j' x')[j']? = some x' := Pool.getElem?_set_self hc
        simp only [Scrape.step] at hmove
        split at hmove
        · obtain rfl := Option.some.inj hmove
          exact absurd ⟨_, _, hx'⟩ hleft
        · obtain rfl := Option.some.inj hmove
          exact hx'
      · exact absurd ⟨rows', c, (Pool.getElem?_set_ne hj).trans hc⟩ hleft
  -- After it the lines stay as they are.
  have hkept : t.scrapes[j]? = some (.sum rows' u.histogram.count) ∨
      ∃ sum, t.scrapes[j]? = some (.done rows' u.histogram.count sum) :=
    exec_invariant_of_forall (fun _ _ _ h hst => read_step h hst) (Or.inl hread) hrun₂
  rcases hkept with hkept | ⟨sum', hkept⟩
  · rw [hdone] at hkept
    cases hkept
  · rw [hdone] at hkept
    cases hkept
    exact ⟨bs₁, a :: bs₂, u, c, rfl, hrun₁, hc, rfl⟩

/-- **A scrape lies between its beginning and its end.** For any durations,
any number of scrapes and any interleaving of their steps: a scrape that
begins in the state `s` and is over in the state `t` has one line for each
bound, these lines do not decrease, the line of a bound is at least the
number of the observations within that bound when it began and at most their
number when it is over, and so is the total, which is also the line `+Inf`.
That line may be below the others, by no more than the observations that
were through with their buckets and not in the total when it was read. -/
theorem scrape_between (add : F → F → F) (zero : F) (bounds durations : List F) (n : ℕ)
    (hbounds : bounds.Pairwise (· ≤ ·)) (as bs : List Action) (s t : State F) (j : ℕ)
    (rows : List ℕ) (totalCount : ℕ) (sum : F)
    (hs : exec (step add bounds) (State.start bounds zero durations n) as = some s)
    (hbegin : s.scrapes[j]? = some (.buckets [] 0))
    (ht : exec (step add bounds) s bs = some t)
    (hdone : t.scrapes[j]? = some (.done rows totalCount sum)) :
    rows.length = bounds.length ∧ rows.Pairwise (· ≤ ·) ∧
      (∀ (k : ℕ) (b : F) (r : ℕ), bounds[k]? = some b → rows[k]? = some r →
        s.recorded b ≤ r ∧ r ≤ t.recorded b) ∧
      (s.counted ≤ totalCount ∧ totalCount ≤ t.counted) ∧
      ∃ bs₁ bs₂ u, bs = bs₁ ++ bs₂ ∧ exec (step add bounds) s bs₁ = some u ∧
        totalCount = u.counted ∧ ∀ r ∈ rows, r ≤ totalCount + u.uncounted := by
  have hexact := exact_of_exec hbounds hs
  have hwatched : Watched bounds s.histogram j s := by
    refine ⟨hexact, Histogram.Le.refl _, fun c hc => ?_⟩
    obtain rfl := Option.some.inj (hbegin.symm.trans hc)
    exact reading_start _
  have hall : ∀ {cs u}, exec (step add bounds) s cs = some u → Watched bounds s.histogram j u :=
    fun hrun => exec_invariant_of_forall (fun _ _ _ hs hst => hs.step hbounds hst) hwatched hrun
  have hend := hall ht
  obtain ⟨hrows, hlen, hlow, hhigh⟩ := hend.reading _ hdone
  have hlength : rows.length = bounds.length := hlen.trans hend.exact.length
  refine ⟨hlength, hrows.ordered, fun k b r hb hr => ?_, ⟨?_, ?_⟩, ?_⟩
  · rw [← hexact.upTo k b hb, ← hend.exact.upTo k b hb]
    exact hrows.between k r hr
  · exact hexact.count ▸ hlow
  · exact hend.exact.count ▸ hhigh
  · obtain ⟨bs₁, bs₂, u, c, rfl, hrun, hc, rfl⟩ := exists_total_read hbegin ht hdone
    have hu := hall hrun
    obtain ⟨hrows, -⟩ := hu.reading _ hc
    refine ⟨bs₁, bs₂, u, rfl, hrun, hu.exact.count, fun r hr => ?_⟩
    obtain ⟨k, hk⟩ := List.mem_iff_getElem?.1 hr
    obtain ⟨b, hb⟩ : ∃ b, bounds[k]? = some b := by
      have hlt := (List.getElem?_eq_some_iff.1 hk).1
      exact ⟨bounds[k], List.getElem?_eq_getElem (hlength ▸ hlt)⟩
    calc r ≤ u.histogram.upTo (k + 1) := (hrows.between k r hk).2
      _ = u.recorded b := hu.exact.upTo k b hb
      _ ≤ u.counted + u.uncounted := recorded_le u b
      _ = u.histogram.count + u.uncounted := by rw [hu.exact.count]

/-- One observation is through when a scrape begins. -/
def begun : State ℕ := ⟨⟨[1, 0], 1, 1⟩, [.done 1, .bucket 1, .bucket 9], [.buckets [] 0]⟩

/-- When it is over, another has got into its bucket before the bucket was
read, and a third, beyond all bounds, into the total after that was. -/
def ended : State ℕ := ⟨⟨[2, 0], 2, 1⟩, [.done 1, .count 1, .load 9], [.done [2, 2] 1 1]⟩

theorem scrape_between_growing :
    exec (step (· + ·) [1, 5]) (State.start [1, 5] 0 [1, 1, 9] 1)
        [.observe 0, .observe 0, .observe 0, .observe 0] = some begun ∧
    exec (step (· + ·) [1, 5]) begun
        [.observe 1, .scrape 0, .scrape 0, .scrape 0, .observe 2, .observe 2, .scrape 0] =
      some ended ∧
    begun.recorded 1 = 1 ∧ ended.recorded 1 = 2 ∧ (begun.counted ≤ 1 ∧ 1 ≤ ended.counted) ∧
    ∃ bs₁ bs₂ u, [.observe 1, .scrape 0, .scrape 0, .scrape 0, .observe 2, .observe 2,
        .scrape 0] = bs₁ ++ bs₂ ∧ exec (step (· + ·) [1, 5]) begun bs₁ = some u ∧
      1 = u.counted ∧ ∀ r ∈ [2, 2], r ≤ 1 + u.uncounted :=
  ⟨by decide, by decide, by decide, by decide,
    (scrape_between (· + ·) 0 [1, 5] [1, 1, 9] 1 (by decide)
      [.observe 0, .observe 0, .observe 0, .observe 0]
      [.observe 1, .scrape 0, .scrape 0, .scrape 0, .observe 2, .observe 2, .scrape 0]
      begun ended 0 [2, 2] 1 1 (by decide) rfl (by decide) rfl).2.2.2⟩

/-! ## The sum -/

/-- The sum is the fold of the durations in it, in some order. -/
def Folds (add : F → F → F) (zero : F) (s : State F) : Prop :=
  ∃ order : List F, order.Perm s.summed ∧ s.histogram.sum = order.foldl add zero

/-- A step of an observation puts its duration in the sum, or leaves the sum
as it is. -/
theorem Records.sum (hrec : Records add bounds h o h' o') :
    (h'.sum = h.sum ∧ o.summed = [] ∧ o'.summed = []) ∨
      ∃ x, h'.sum = add h.sum x ∧ o.summed = [] ∧ o'.summed = [x] := by
  cases hrec with
  | swap hsum => exact Or.inr ⟨_, hsum ▸ rfl, rfl, rfl⟩
  | bucket | overflow | count | load | retry => exact Or.inl ⟨rfl, rfl, rfl⟩

/-- The durations in the sum after a step of an observation that was not. -/
theorem perm_summed (o' : Observation F) (ho : s.observations[i]? = some o)
    (hnone : o.summed = []) :
    ((s.observations.set i o').flatMap (·.summed)).Perm (s.summed ++ o'.summed) := by
  refine List.perm_iff_count.2 fun x => ?_
  have hcount := Pool.countP_flatMap_set (fun o : Observation F => o.summed) (· == x) o' ho
  rw [hnone, List.countP_nil, Nat.add_zero] at hcount
  rw [List.count_append]
  exact hcount

theorem Folds.step (hs : Folds add zero s) (hst : step add bounds s a = some s') :
    Folds add zero s' := by
  obtain ⟨order, hperm, hsum⟩ := hs
  cases steps_of_step hst with
  | @observe i o o' h' ho hrec =>
    rcases hrec.sum with ⟨hkept, hnone, hnone'⟩ | ⟨x, hadded, hnone, hx⟩
    · refine ⟨order, hperm.trans ?_, hkept.trans hsum⟩
      have hset := perm_summed o' ho hnone
      rw [hnone', List.append_nil] at hset
      exact hset.symm
    · refine ⟨order ++ [x], ?_, ?_⟩
      · have hset := perm_summed o' ho hnone
        rw [hx] at hset
        exact (hperm.append_right [x]).trans hset.symm
      · rw [List.foldl_concat, ← hsum]
        exact hadded
  | scrape => exact ⟨order, hperm, hsum⟩

/-- **No update of the sum is lost or made twice.** In every state of every
run, the sum is the fold of the durations of just those observations that
are through, in some order. -/
theorem sum_eq_foldl (add : F → F → F) (zero : F) (bounds durations : List F) (n : ℕ)
    (as : List Action) (s : State F)
    (hrun : exec (step add bounds) (State.start bounds zero durations n) as = some s) :
    ∃ order : List F, order.Perm s.summed ∧ s.histogram.sum = order.foldl add zero := by
  refine exec_invariant_of_forall (I := Folds add zero) (fun _ _ _ hs hst => hs.step hst) ?_ hrun
  refine ⟨[], ?_, rfl⟩
  have hnone : (State.start bounds zero durations n).summed = [] := by
    simp [State.summed, State.start, Observation.summed]
  rw [hnone]

/-- Two observations load the sum, one swaps, the other has to load it again. -/
theorem sum_eq_foldl_contended :
    ∃ order : List ℕ, order.Perm [3, 4] ∧ 7 = order.foldl (· + ·) 0 :=
  sum_eq_foldl (· + ·) 0 [1, 5] [3, 4] 0
    [.observe 0, .observe 0, .observe 1, .observe 1, .observe 0, .observe 1, .observe 1,
      .observe 0, .observe 0, .observe 0]
    ⟨⟨[0, 2], 2, 7⟩, [.done 3, .done 4], []⟩ (by decide)

/-! ## Progress -/

/-- Since the observation at `i` has loaded the sum from `s`. -/
structure Loaded (s : State F) (i : ℕ) (x : F) (t : State F) : Prop where
  observation : t.observations[i]? = some (.swap x s.histogram.sum)
  summed : s.summed.length ≤ t.summed.length
  sum : t.histogram.sum = s.histogram.sum ∨ s.summed.length < t.summed.length

/-- A step of another call. -/
theorem Loaded.step {t' : State F} (hl : Loaded s i x t) (ha : a ≠ .observe i)
    (hst : step add bounds t a = some t') : Loaded s i x t' := by
  cases steps_of_step hst with
  | @observe k o o' h' ho hrec =>
    have hki : k ≠ i := fun hki => ha (congrArg Action.observe hki)
    have hsame : (t.observations.set k o')[i]? = some (.swap x s.histogram.sum) := by
      rw [Pool.getElem?_set_ne hki, hl.observation]
    have hle := hl.summed
    rcases hrec.sum with ⟨hkept, hnone, hnone'⟩ | ⟨y, -, hnone, hy⟩
    · have hlen := (perm_summed o' ho hnone).length_eq
      rw [hnone', List.append_nil] at hlen
      refine ⟨hsame, hle.trans_eq hlen.symm, ?_⟩
      rcases hl.sum with hsum | hmore
      · exact Or.inl (hkept.trans hsum)
      · exact Or.inr (hmore.trans_eq hlen.symm)
    · have hlen := (perm_summed o' ho hnone).length_eq
      rw [hy, List.length_append, List.length_singleton] at hlen
      have hmore : s.summed.length < ((t.observations.set k o').flatMap (·.summed)).length := by
        omega
      exact ⟨hsame, hmore.le, Or.inr hmore⟩
  | scrape => exact ⟨hl.observation, hl.summed, hl.sum⟩

/-- **A swap fails only when another has succeeded.** If an observation loads
the sum and, whatever the others do meanwhile, its swap then fails, so that
it is to load the sum again, another observation has got through since: some
call always makes progress. -/
theorem summed_lt_of_retry (add : F → F → F) (bounds : List F) (s s₁ s₂ s₃ : State F)
    (bs : List Action) (i : ℕ) (x : F)
    (hload : s.observations[i]? = some (.load x)) (hs₁ : step add bounds s (.observe i) = some s₁)
    (hothers : .observe i ∉ bs) (hs₂ : exec (step add bounds) s₁ bs = some s₂)
    (hs₃ : step add bounds s₂ (.observe i) = some s₃)
    (hretry : s₃.observations[i]? = some (.load x)) :
    s.summed.length < s₂.summed.length := by
  have hloaded : Loaded s i x s₁ := by
    cases steps_of_step hs₁ with
    | @observe _ o o' h' ho hrec =>
      obtain rfl := Option.some.inj (hload.symm.trans ho)
      cases hrec
      have hlen := (perm_summed (.swap x s.histogram.sum) ho rfl).length_eq
      refine ⟨Pool.getElem?_set_self ho, ?_, Or.inl rfl⟩
      exact Nat.le_of_eq (hlen.trans (by simp [Observation.summed])).symm
  have hmeets : Meets (step add bounds) (fun _ a => a ≠ .observe i) s₁ bs := by
    refine meets_of_forall_mem (fun a ha t => ?_) s₁
    rintro rfl
    exact hothers ha
  have hend : Loaded s i x s₂ :=
    exec_invariant (fun _ _ _ hl ha hst => hl.step ha hst) hloaded hmeets hs₂
  rcases hend.sum with hsum | hmore
  · -- The sum is the one that was loaded, so the swap succeeds.
    exfalso
    cases steps_of_step hs₃ with
    | @observe _ o o' h' ho hrec =>
      obtain rfl := Option.some.inj (hend.observation.symm.trans ho)
      dsimp only at hretry
      rw [Pool.getElem?_set_self ho, Option.some.injEq] at hretry
      cases hrec with
      | swap => cases hretry
      | retry hne => exact hne hsum
  · exact hmore

/-- The second of two observations has to load the sum again after the first
has got through. -/
theorem summed_lt_of_retry_contended :
    (⟨⟨[2], 2, 0⟩, [.load 3, .load 4], []⟩ : State ℕ).summed.length <
      (⟨⟨[2], 2, 3⟩, [.done 3, .swap 4 0], []⟩ : State ℕ).summed.length :=
  summed_lt_of_retry (· + ·) [5] _ ⟨⟨[2], 2, 0⟩, [.load 3, .swap 4 0], []⟩ _
    ⟨⟨[2], 2, 3⟩, [.done 3, .load 4], []⟩ [.observe 0, .observe 0] 1 4 rfl rfl (by decide) rfl rfl
    rfl

end Order

end Metrics

end StickyProxy
