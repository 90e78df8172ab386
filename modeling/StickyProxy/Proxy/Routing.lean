import StickyProxy.Proxy.Model.Serve
import StickyProxy.Store.Effects
import Mathlib
/-!
# Which backend a request is handed to

A backend is fit when it is available and not draining. `ServeHTTP` asks
this of the cached backend alone. What replaces an unfit or missing entry
is chosen by the store, by the hash or from the breaker's cached list, and
none of these knows of evictions or drains; so a request is handed to a
fit backend exactly when the ones its key may be given happen to be fit.
-/

namespace StickyProxy

/-- Sorting a reply loses the order it came in. -/
theorem sortStrings_eq_sort {order : List Backend} {s : Finset Backend}
    (h : Enumerates order s) : sortStrings order = s.sort (· ≤ ·) := by
  have hperm : (sortStrings order).Perm (s.sort (· ≤ ·)) := by
    refine (List.perm_insertionSort (· ≤ ·) order).trans ?_
    rw [List.perm_ext_iff_of_nodup h.1 (Finset.sort_nodup _ _)]
    intro b
    rw [h.mem, Finset.mem_sort]
  exact hperm.eq_of_pairwise' (List.pairwise_insertionSort _ order) (Finset.pairwise_sort _ _)

namespace Proxy

variable {p q : Proxy} {req : Request} {now : Time} {k : RoutingKey} {b : Backend}

/-- The backend is available and not draining. -/
def Fit (p : Proxy) (now : Time) (b : Backend) : Prop :=
  (p.backends.available now b).1 = true ∧ p.isDraining b = false

instance (p : Proxy) (now : Time) (b : Backend) : Decidable (p.Fit now b) :=
  inferInstanceAs (Decidable (_ ∧ _))

/-- The test `ServeHTTP` makes is for what is not fit. -/
theorem unfit_iff : (¬ (p.backends.available now b).1 = true ∨ p.isDraining b = true) ↔
    ¬ p.Fit now b := by
  rw [Fit, not_and_or, Bool.not_eq_false]

/-- The account is in quarantine. -/
def quarantines (k : RoutingKey) (p : Proxy) : Bool :=
  (p.poisonPill.map (·.isQuarantined k)).getD false

/-- The detector would quarantine the account at one more forced
reassignment. -/
def blocks (now : Time) (k : RoutingKey) (p : Proxy) : Bool :=
  (p.poisonPill.map fun d => (d.recordReassignment now k).1).getD false

/-! ## The backend selected -/

theorem selected_forward (req : Request) (b : Backend) : (forward req b).selected = some b := by
  unfold forward
  split <;> rfl

theorem selected_serveMiss : (serveMiss req p).1.selected = (p.assign req).1 := by
  rcases h : p.assign req with ⟨- | b, q⟩
  · simp only [serveMiss, h]
    rfl
  · simp only [serveMiss, h]
    exact selected_forward req b

/-- The choice of a backend reads the store, the breaker and the mode. -/
theorem assign_fst_congr (hs : q.store = p.store) (hr : q.redis = p.redis)
    (hm : q.routingMode = p.routingMode) : (q.assign req).1 = (p.assign req).1 := by
  have hstore : ∀ {q p : Proxy}, q.store = p.store → q.redis = p.redis →
      (q.assignFromStore req).1 = (p.assignFromStore req).1 := by
    intro q p hs hr
    simp only [assignFromStore, hs, hr]
    rcases (p.store.assignLeastLoaded req.order req.now req.key).1 with - | a
    · rcases p.redis with - | br
      · rfl
      · rfl
    · rfl
  simp only [assign, hm]
  cases p.routingMode with
  | hash => rfl
  | assignment =>
    simp only [assignViaTable, hr]
    rcases p.redis with - | br
    · exact hstore hs hr
    · dsimp only
      split
      · rfl
      · exact hstore hs rfl

/-- An unfit entry is replaced unless the detector steps in. -/
theorem selected_serveUnfit :
    (serveUnfit req p).1.selected =
      if p.blocks req.now req.key then none else (p.assign req).1 := by
  rcases hd : p.poisonPill with - | d
  · simp only [serveUnfit, blocks, hd, selected_serveMiss]
    exact assign_fst_congr rfl rfl rfl
  · simp only [serveUnfit, blocks, hd, Option.map_some, Option.getD_some]
    split
    · rfl
    · rw [selected_serveMiss]
      exact assign_fst_congr rfl rfl rfl

/-- **The backend a request is handed to**, once it is past the rate
limiter and the quarantine: the cached one if it is fit, and otherwise
the mode's choice. -/
theorem selected_serveHTTP (hallowed : req.allowed = true)
    (hq : p.quarantines req.key = false) :
    (p.serveHTTP req).1.selected =
      match p.cache.live req.now req.key with
      | none => (p.assign req).1
      | some b =>
        if p.Fit req.now b then some b
        else if p.blocks req.now req.key then none else (p.assign req).1 := by
  have hget := UserCache.get_fst req.now req.key p.cache
  rw [quarantines] at hq
  simp only [serveHTTP, hallowed, hq, hget]
  rcases p.cache.live req.now req.key with - | b
  · simp only [Bool.false_eq_true, not_true, if_false, selected_serveMiss]
    exact assign_fst_congr rfl rfl rfl
  · simp only [Bool.false_eq_true, not_true, if_false]
    by_cases hfit : p.Fit req.now b
    · have hok : ¬ (¬ (p.backends.available req.now b).1 = true ∨ p.isDraining b = true) :=
        fun hbad => unfit_iff.1 hbad hfit
      rw [if_pos hfit]
      exact (congrArg (fun o : Outcome × Proxy => o.1.selected) (if_neg hok)).trans
        (selected_forward req b)
    · have hbad : ¬ (p.backends.available req.now b).1 = true ∨ p.isDraining b = true :=
        unfit_iff.2 hfit
      rw [if_neg hfit]
      refine (congrArg (fun o : Outcome × Proxy => o.1.selected) (if_pos hbad)).trans ?_
      rw [selected_serveUnfit]
      exact if_congr Iff.rfl rfl (assign_fst_congr rfl rfl rfl)

/-! ## The choice of each mode -/

/-- The backend an open breaker routes the key to without the store. -/
def fallback (now : Time) (k : RoutingKey) (p : Proxy) : Option Backend :=
  p.redis.bind fun br =>
    if (br.isCBOpen now).1 ∧ br.hashFallback (hashUser k) ≠ "" then
      some (br.hashFallback (hashUser k))
    else none

/-- A backend the key may be given when its cache entry does not serve. -/
def Replaces (now : Time) (k : RoutingKey) (b : Backend) (p : Proxy) : Prop :=
  match p.routingMode with
  | .assignment =>
    match p.fallback now k with
    | some fb => b = fb
    | none => p.store.Chooses k b
  | .hash => pick (hashUser k) (p.store.active.sort (· ≤ ·)) = some b

/-- The call of the store that assigning may make succeeds. -/
def StoreSucceeds (now : Time) (k : RoutingKey) (p : Proxy) : Prop :=
  p.routingMode = .assignment → ∀ order, Enumerates order p.store.candidates →
    ((p.store.assignLeastLoaded order now k).1).isSome

/-- Looking at the breaker does not change the cached list. -/
theorem hashFallback_isCBOpen (br : Breaker) (hash : BitVec 32) :
    (br.isCBOpen now).2.hashFallback hash = br.hashFallback hash := by
  unfold Breaker.isCBOpen
  cases br.cbState with
  | opened =>
    dsimp only
    split <;> rfl
  | halfOpen => rfl
  | closed => rfl

/-- In assignment mode the fallback comes first, then the store. -/
theorem assign_of_assignment (hmode : p.routingMode = .assignment) {a : Assignment}
    (ha : (p.store.assignLeastLoaded req.order req.now req.key).1 = some a) :
    (p.assign req).1 = some ((p.fallback req.now req.key).getD a.backend) := by
  have hstore : ∀ {q : Proxy}, q.store = p.store →
      (q.assignFromStore req).1 = some a.backend := by
    intro q hq
    simp only [assignFromStore, hq, ha]
  simp only [assign, hmode, assignViaTable, fallback]
  rcases p.redis with - | br
  · exact hstore rfl
  · simp only [Option.bind_some, hashFallback_isCBOpen]
    by_cases hfb : (br.isCBOpen req.now).1 = true ∧ br.hashFallback (hashUser req.key) ≠ ""
    · rw [if_pos hfb, if_pos hfb]
      rfl
    · rw [if_neg hfb, if_neg hfb]
      exact hstore rfl

/-- What the mode chooses may replace the entry. -/
theorem replaces_of_assign (hsome : p.StoreSucceeds req.now req.key)
    (horder : Enumerates req.order p.listed) (hb : (p.assign req).1 = some b) :
    p.Replaces req.now req.key b := by
  cases hmode : p.routingMode with
  | assignment =>
    simp only [listed, hmode] at horder
    obtain ⟨a, ha⟩ := Option.isSome_iff_exists.1 (hsome hmode req.order horder)
    rw [assign_of_assignment hmode ha, Option.some.injEq] at hb
    simp only [Replaces, hmode]
    rcases hfb : p.fallback req.now req.key with - | fb
    · rw [hfb] at hb
      exact hb ▸ Store.chooses_of_assignLeastLoaded horder ha
    · rw [hfb] at hb
      exact hb.symm
  | hash =>
    simp only [listed, hmode] at horder
    simp only [assign, hmode, assignViaHash, sortStrings_eq_sort horder] at hb
    simp only [Replaces, hmode]
    exact hb

/-- And every backend that may replace it is chosen, for some order of the
store's list. -/
theorem exists_assign_of_replaces (hsome : p.StoreSucceeds now k) (hb : p.Replaces now k b) :
    ∃ order, Enumerates order p.listed ∧
      (p.assign ⟨k, now, true, order, false⟩).1 = some b := by
  cases hmode : p.routingMode with
  | assignment =>
    simp only [Replaces, hmode] at hb
    simp only [listed, hmode]
    rcases hfb : p.fallback now k with - | fb
    · simp only [hfb] at hb
      obtain ⟨order, a, horder, ha, rfl⟩ := Store.exists_order_of_chooses hb (hsome hmode)
      refine ⟨order, horder, ?_⟩
      rw [assign_of_assignment hmode ha]
      simp only [hfb, Option.getD_none]
    · simp only [hfb] at hb
      have horder : Enumerates p.store.candidates.toList p.store.candidates :=
        ⟨Finset.nodup_toList _, Finset.toList_toFinset _⟩
      obtain ⟨a, ha⟩ := Option.isSome_iff_exists.1 (hsome hmode _ horder)
      refine ⟨_, horder, ?_⟩
      rw [assign_of_assignment hmode ha]
      simp only [hfb, Option.getD_some, hb]
  | hash =>
    simp only [Replaces, hmode] at hb
    simp only [listed, hmode]
    have horder : Enumerates p.store.active.toList p.store.active :=
      ⟨Finset.nodup_toList _, Finset.toList_toFinset _⟩
    refine ⟨_, horder, ?_⟩
    simp only [assign, hmode, assignViaHash, sortStrings_eq_sort horder]
    exact hb

/-! ## Requests -/

/-- If some active backend is fit, the request is handed to a fit one or
to none. -/
def RoutesToFit (req : Request) (p : Proxy) : Prop :=
  (∃ b ∈ p.store.active, p.Fit req.now b) →
    ∀ b, (p.serveHTTP req).1.selected = some b → p.Fit req.now b

/-- The state in which the requests of a key are handed to fit backends
only. -/
def KeepsFit (now : Time) (k : RoutingKey) (p : Proxy) : Prop :=
  (∀ b ∈ p.store.active, ¬ p.Fit now b) ∨ p.quarantines k = true ∨
    (∃ b, p.cache.live now k = some b ∧ (p.Fit now b ∨ p.blocks now k = true)) ∨
    ∀ b, p.Replaces now k b → p.Fit now b

/-- A backend that may replace the entry is selected by some request,
unless the key is quarantined or the entry settles the request. -/
theorem exists_selected_of_replaces (hsome : p.StoreSucceeds now k) (hq : p.quarantines k = false)
    (hlive : ∀ c, p.cache.live now k = some c → ¬ p.Fit now c ∧ ¬ p.blocks now k = true)
    (hb : p.Replaces now k b) :
    ∃ order, Enumerates order p.listed ∧
      (p.serveHTTP ⟨k, now, true, order, false⟩).1.selected = some b := by
  obtain ⟨order, horder, hassign⟩ := exists_assign_of_replaces hsome hb
  refine ⟨order, horder, ?_⟩
  rw [selected_serveHTTP rfl hq]
  dsimp only
  rcases hl : p.cache.live now k with - | c
  · exact hassign
  · obtain ⟨hunfit, hblocks⟩ := hlive c hl
    simp only [if_neg hunfit, if_neg hblocks]
    exact hassign

/-- What a request selects is a fit entry, or may replace an entry that
does not settle it. -/
theorem fit_or_replaces_of_selected (hsome : p.StoreSucceeds req.now req.key)
    (horder : Enumerates req.order p.listed)
    (hb : (p.serveHTTP req).1.selected = some b) :
    p.quarantines req.key = false ∧ (p.Fit req.now b ∨
      p.Replaces req.now req.key b ∧ ∀ c, p.cache.live req.now req.key = some c →
        ¬ p.Fit req.now c ∧ ¬ p.blocks req.now req.key = true) := by
  by_cases hallowed : req.allowed = true
  swap
  · simp only [serveHTTP, if_pos hallowed] at hb
    cases hb
  by_cases hq : p.quarantines req.key = true
  · rw [quarantines] at hq
    simp only [serveHTTP, hallowed, hq, not_true, if_false, if_true] at hb
    cases hb
  rw [Bool.not_eq_true] at hq
  refine ⟨hq, ?_⟩
  rw [selected_serveHTTP hallowed hq] at hb
  rcases hl : p.cache.live req.now req.key with - | c
  · simp only [hl] at hb
    exact Or.inr ⟨replaces_of_assign hsome horder hb, fun c hc => by cases hc⟩
  · simp only [hl] at hb
    split at hb
    · rename_i hfit
      exact Or.inl (Option.some.inj hb ▸ hfit)
    · rename_i hunfit
      split at hb
      · cases hb
      · rename_i hblocks
        refine Or.inr ⟨replaces_of_assign hsome horder hb, fun c' hc' => ?_⟩
        exact Option.some.inj hc' ▸ ⟨hunfit, hblocks⟩

/-- **Exactly when the requests of a key are routed to fit backends.** The
call of the store succeeds, and the store may list its backends in any
order. -/
theorem routesToFit_iff_keepsFit (p : Proxy) (k : RoutingKey) (now : Time)
    (hsome : p.StoreSucceeds now k) :
    (∀ req : Request, req.key = k → req.now = now → Enumerates req.order p.listed →
      p.RoutesToFit req) ↔ p.KeepsFit now k := by
  constructor
  · intro h
    by_contra hcon
    simp only [KeepsFit, not_or, not_forall, not_not, not_exists, not_and] at hcon
    obtain ⟨⟨c, hc, hcfit⟩, hq, hlive, b, hb, hbad⟩ := hcon
    rw [Bool.not_eq_true] at hq
    obtain ⟨order, horder, hselected⟩ := exists_selected_of_replaces hsome hq hlive hb
    exact hbad (h ⟨k, now, true, order, false⟩ rfl rfl horder ⟨c, hc, hcfit⟩ b hselected)
  · rintro hkeeps req rfl rfl horder ⟨c, hc, hcfit⟩ b hb
    obtain ⟨hq, hfit | ⟨hreplaces, hlive⟩⟩ := fit_or_replaces_of_selected hsome horder hb
    · exact hfit
    rcases hkeeps with hnone | hq' | ⟨b', hl, hsettled⟩ | hall
    · exact absurd hcfit (hnone c hc)
    · exact absurd (hq.symm.trans hq') Bool.false_ne_true
    · obtain ⟨hunfit, hblocks⟩ := hlive b' hl
      exact (hsettled.elim hunfit hblocks).elim
    · exact hall b hreplaces

/-- A replica in assignment mode that drains the backend a key is cached on.
The key has no assignment any more, and there are two lighter backends. -/
def cachedReplica : Proxy where
  store := .redis ⟨∅, Table.insertAll ∅ [("b1", 2)], {"b1", "b2", "b3"}⟩
  cache := ⟨100, Table.insertAll ∅ [("u", ⟨"b1", 50⟩)]⟩
  backends := ⟨∅, 3, 30⟩
  draining := some {"b1"}
  redis := some ⟨0, .closed, 0, 5, 30, ["b1"]⟩
  poisonPill := none
  routingMode := .assignment

/-- The key is replaced by either of the two, however the store lists them. -/
theorem routesToFit_iff_keepsFit_cachedReplica :
    cachedReplica.StoreSucceeds 20 "u" ∧ cachedReplica.KeepsFit 20 "u" ∧
      cachedReplica.cache.live 20 "u" = some "b1" ∧ ¬ cachedReplica.Fit 20 "b1" ∧
      ∀ req : Request, req.key = "u" → req.now = 20 → Enumerates req.order cachedReplica.listed →
        cachedReplica.RoutesToFit req := by
  have hsome : cachedReplica.StoreSucceeds 20 "u" := by
    intro _ order horder
    refine Store.isSome_answer_of_ready "u" 20 ⟨fun k v hv => ?_, "b1", by decide⟩ horder
    cases hv
  have hlightest : ∀ b, cachedReplica.Replaces 20 "u" b → cachedReplica.Fit 20 b := by
    intro b hb
    have hchooses : cachedReplica.store.Chooses "u" b := hb
    rcases hchooses with ⟨a, ha, -⟩ | ⟨-, hactive, hle⟩
    · cases ha
    · have hb2 : "b2" ∈ ({"b1", "b2", "b3"} : Finset Backend) := by decide
      have hle := hle "b2" hb2
      have hcases : b = "b1" ∨ b = "b2" ∨ b = "b3" := by simpa using hactive
      rcases hcases with rfl | rfl | rfl
      · exact absurd hle (by decide)
      · decide
      · decide
  have hkeeps : cachedReplica.KeepsFit 20 "u" := Or.inr (Or.inr (Or.inr hlightest))
  exact ⟨hsome, hkeeps, by decide, by decide,
    (routesToFit_iff_keepsFit cachedReplica "u" 20 hsome).2 hkeeps⟩

/-- A replica in assignment mode that drains the backend a key is assigned
to, while another backend is fit. -/
def drainingReplica : Proxy where
  store := .redis ⟨Table.insertAll ∅ [("u", marshalAssignment ⟨"b1", 1, "assignment", 1⟩)],
    Table.insertAll ∅ [("b1", 1)], {"b1", "b2"}⟩
  cache := ⟨100, ∅⟩
  backends := ⟨∅, 3, 30⟩
  draining := some {"b1"}
  redis := some ⟨0, .closed, 0, 5, 30, []⟩
  poisonPill := none
  routingMode := .assignment

/-- **A request is handed to a draining backend** though a fit one is
active: the key's assignment is not looked at again. -/
theorem drainingReplica_routes_unfit :
    ¬ ∀ (p : Proxy) (req : Request),
      (p.routingMode = .assignment →
        ((p.store.assignLeastLoaded req.order req.now req.key).1).isSome) →
      Enumerates req.order p.listed → p.RoutesToFit req := by
  intro h
  have hfit := h drainingReplica ⟨"u", 20, true, ["b1", "b2"], false⟩ (by decide) (by decide)
    ⟨"b2", by decide, by decide⟩ "b1" (by decide)
  exact absurd hfit (by decide)

end Proxy

end StickyProxy
