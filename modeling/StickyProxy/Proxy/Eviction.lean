import StickyProxy.Proxy.Model.Backends
import Mathlib.Data.Finset.Insert
/-!
# Eviction of a failing backend

A backend whose failures reach the threshold is meant to be refused until
the cooldown is over. `Available` runs before every request and drops an
entry that is not evicting, so the request that follows a failure starts
counting anew: a run of requests never counts beyond one, and only a
threshold of one is ever reached.
-/

namespace StickyProxy

namespace BackendManager

variable {m : BackendManager} {b : Backend} {c : Call} {cs : List Call} {now t : Time}

/-! ## One call -/

/-- A backend that is let through has no entry left. -/
theorem lookup_available (h : (m.available now b).1 = true) :
    (m.available now b).2.failures.lookup b = none := by
  unfold available at h ⊢
  rcases hb : m.failures.lookup b with - | f
  · exact hb
  · simp only [hb] at h ⊢
    split
    · exact AList.lookup_erase b _
    · rename_i hlt
      rw [if_neg hlt] at h
      cases h

theorem evictionThreshold_available :
    (m.available now b).2.evictionThreshold = m.evictionThreshold := by
  unfold available
  split
  · rfl
  · split <;> rfl

theorem evictionCooldown_available :
    (m.available now b).2.evictionCooldown = m.evictionCooldown := by
  unfold available
  split
  · rfl
  · split <;> rfl

/-- A backend that is refused keeps its entry. -/
theorem available_of_evicted {f : Failure} (hb : m.failures.lookup b = some f)
    (h : now ≤ f.evictedUntil) : m.available now b = (false, m) := by
  unfold available
  simp only [hb, if_neg (not_lt.2 h)]

theorem available_of_not_evicted {f : Failure} (hb : m.failures.lookup b = some f)
    (h : f.evictedUntil < now) : (m.available now b).1 = true := by
  unfold available
  simp only [hb, if_pos h]

/-- **A request that is let through and fails is counted as the first.** -/
theorem lookup_proxyRequest_of_error (h : (m.available c.start b).1 = true)
    (herr : c.forward = .error) :
    (m.proxyRequest b c).failures.lookup b = some ⟨1,
      if m.evictionThreshold ≤ 1 then c.finish + m.evictionCooldown else 0⟩ := by
  have hnone := lookup_available h
  simp only [proxyRequest, if_pos h, herr, recordFailure, hnone, evictionThreshold_available,
    evictionCooldown_available, Option.getD_none, zero_add, decide_eq_true_eq]
  exact AList.lookup_insert _

theorem proxyRequest_config :
    (m.proxyRequest b c).evictionThreshold = m.evictionThreshold ∧
      (m.proxyRequest b c).evictionCooldown = m.evictionCooldown := by
  simp only [proxyRequest]
  split
  · split
    · exact ⟨evictionThreshold_available, evictionCooldown_available⟩
    · exact ⟨evictionThreshold_available, evictionCooldown_available⟩
  · exact ⟨evictionThreshold_available, evictionCooldown_available⟩

/-! ## Runs of calls -/

/-- While a backend is evicted requests change nothing. -/
theorem proxyRequests_of_evicted {f : Failure} (hb : m.failures.lookup b = some f)
    (h : ∀ c ∈ cs, c.start ≤ f.evictedUntil) : m.proxyRequests b cs = m := by
  induction cs with
  | nil => rfl
  | cons c cs ih =>
    have hc : m.proxyRequest b c = m := by
      simp only [proxyRequest, available_of_evicted hb (h c List.mem_cons_self)]
      rfl
    have hcs := ih fun c' hc' => h c' (List.mem_cons_of_mem c hc')
    rw [proxyRequests, List.foldl_cons, hc]
    exact hcs

/-- After a run of failing requests the last is the only one counted. -/
theorem lookup_proxyRequests_of_allFail (hne : cs ≠ []) (hfail : AllFail b cs m) :
    (m.proxyRequests b cs).failures.lookup b = some ⟨1,
      if m.evictionThreshold ≤ 1 then (cs.getLast hne).finish + m.evictionCooldown else 0⟩ := by
  induction cs generalizing m with
  | nil => exact absurd rfl hne
  | cons c cs ih =>
    obtain ⟨hok, herr, hrest⟩ := hfail
    rw [proxyRequests, List.foldl_cons]
    rcases eq_or_ne cs [] with rfl | hcs
    · exact lookup_proxyRequest_of_error hok herr
    · have := ih hcs hrest
      rw [(proxyRequest_config (m := m)).1, (proxyRequest_config (m := m)).2] at this
      rw [List.getLast_cons hcs]
      exact this

theorem proxyRequests_config :
    (m.proxyRequests b cs).evictionThreshold = m.evictionThreshold ∧
      (m.proxyRequests b cs).evictionCooldown = m.evictionCooldown := by
  induction cs generalizing m with
  | nil => exact ⟨rfl, rfl⟩
  | cons c cs ih =>
    have hc := proxyRequest_config (m := m) (b := b) (c := c)
    exact ⟨(ih (m := m.proxyRequest b c)).1.trans hc.1,
      (ih (m := m.proxyRequest b c)).2.trans hc.2⟩

theorem getLast_finish_pos (hne : cs ≠ []) (h : Timed t cs) : 0 < (cs.getLast hne).finish := by
  induction cs generalizing t with
  | nil => exact absurd rfl hne
  | cons c cs ih =>
    obtain ⟨-, hpos, hle, hrest⟩ := h
    rcases eq_or_ne cs [] with rfl | hcs
    · exact lt_of_lt_of_le hpos hle
    · rw [List.getLast_cons hcs]
      exact ih hcs hrest

/-- The backend is refused from `t` until the cooldown is over, whatever
requests are made to it meanwhile. -/
def Evicted (b : Backend) (t : Time) (m : BackendManager) : Prop :=
  ∀ (later : List Call) (now : Time), t ≤ now → now ≤ t + m.evictionCooldown →
    (∀ c ∈ later, c.start ≤ now) → ((m.proxyRequests b later).available now b).1 = false

/-- **A run of failures evicts the backend exactly when the threshold is
one.** The run is as long as the threshold and follows any history of the
failure table, and whether it lies within one cooldown plays no part. -/
theorem evicted_iff_threshold_one (m : BackendManager) (b : Backend) (calls : List Call)
    (hne : calls ≠ []) (hlen : (calls.length : ℤ) = m.evictionThreshold)
    (hcool : 0 ≤ m.evictionCooldown) (htimed : Timed 0 calls) (hfail : AllFail b calls m) :
    Evicted b (calls.getLast hne).finish (m.proxyRequests b calls) ↔ m.evictionThreshold = 1 := by
  have hlook := lookup_proxyRequests_of_allFail hne hfail
  have hcool' : (m.proxyRequests b calls).evictionCooldown = m.evictionCooldown :=
    proxyRequests_config.2
  constructor
  · intro hev
    by_contra hn
    have hpos : 0 < calls.length := List.length_pos_iff.2 hne
    rw [if_neg (by omega)] at hlook
    -- At the last failure the entry has the zero time, so it is dropped.
    have havail := available_of_not_evicted hlook (getLast_finish_pos hne htimed)
    have hrefused := hev [] _ (le_refl _) (by rw [hcool']; exact le_add_of_nonneg_right hcool)
      (fun _ h => absurd h List.not_mem_nil)
    rw [proxyRequests, List.foldl_nil, havail] at hrefused
    cases hrefused
  · intro hone later now hge hle hlater
    rw [if_pos (le_of_eq hone)] at hlook
    rw [hcool'] at hle
    rw [proxyRequests_of_evicted hlook fun c hc => (hlater c hc).trans hle,
      available_of_evicted hlook hle]

/-- One failure at a threshold of one. -/
theorem evicted_iff_threshold_one_at_one :
    Evicted "b1" 6 (proxyRequests "b1" [⟨5, 6, .error⟩] ⟨∅, 1, 60⟩) :=
  (evicted_iff_threshold_one ⟨∅, 1, 60⟩ "b1" [⟨5, 6, .error⟩] (by decide) rfl (by decide)
    (by decide) (by decide)).2 rfl

/-- **Three failures within seconds do not evict** at a threshold of
three. -/
theorem three_failures_not_evicted :
    ¬ ∀ (m : BackendManager) (b : Backend) (calls : List Call) (hne : calls ≠ []),
      (calls.length : ℤ) = m.evictionThreshold → 0 ≤ m.evictionCooldown → Timed 0 calls →
      AllFail b calls m →
      (calls.getLast hne).finish ≤ (calls.head hne).start + m.evictionCooldown →
      Evicted b (calls.getLast hne).finish (m.proxyRequests b calls) := by
  intro h
  have hev := h ⟨∅, 3, 60⟩ "b1" [⟨1, 2, .error⟩, ⟨3, 4, .error⟩, ⟨5, 6, .error⟩] (by decide) rfl
    (by decide) (by decide) (by decide) (by decide)
  exact absurd (hev [] 6 (by decide) (by decide) (by simp)) (by decide)

end BackendManager

end StickyProxy
