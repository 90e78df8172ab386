import StickyProxy.Proxy.Model.Outage
import StickyProxy.Proxy.Routing
import StickyProxy.Common.Run
/-!
# Stickiness through an outage

The backend a request is routed to over the cached list goes into the user
cache like any other. If the store has the key somewhere else, the two
disagree from then on, for as long as the entry lives. That is the one way
they come to disagree.
-/

namespace StickyProxy

namespace Outage

variable {p p' : Proxy} {req : Request} {call : Call} {act : Action} {k : RoutingKey}
  {b : Backend}

/-- A call that is served makes no difference. -/
theorem serveHTTP_served (req : Request) (p : Proxy) :
    serveHTTP .served req p = p.serveHTTP req := rfl

/-! ## The choice of a backend -/

/-- The backend the request is routed to over the cached list: while the
breaker is open, and when its call fails. -/
def overCachedList (call : Call) (req : Request) (p : Proxy) : Option Backend :=
  p.redis.bind fun br =>
    if br.hashFallback (hashUser req.key) ≠ "" ∧ ((br.isCBOpen req.now).1 = true ∨
        (call.assignLeastLoaded req.order req.now req.key p.store).1 = none) then
      some (br.hashFallback (hashUser req.key))
    else none

/-- The store when the request has been assigned a backend. No call is made
while an open breaker has one. -/
def storeAfter (call : Call) (req : Request) (p : Proxy) : Store :=
  match p.fallback req.now req.key with
  | some _ => p.store
  | none => (call.assignLeastLoaded req.order req.now req.key p.store).2

theorem hashFallback_recordCBFailure (br : Breaker) (now : Time) (hash : BitVec 32) :
    (br.recordCBFailure now).hashFallback hash = br.hashFallback hash := by
  unfold Breaker.recordCBFailure
  split <;> rfl

/-- The call of the store, and what is made of its failure. -/
theorem assignFromStore_spec (call : Call) (req : Request) (p : Proxy) :
    (assignFromStore call req p).2.cache = p.cache ∧
    (assignFromStore call req p).2.routingMode = p.routingMode ∧
    (assignFromStore call req p).2.store =
      (call.assignLeastLoaded req.order req.now req.key p.store).2 ∧
    (assignFromStore call req p).1 =
      match (call.assignLeastLoaded req.order req.now req.key p.store).1 with
      | some a => some a.backend
      | none => p.redis.bind fun br =>
        if br.hashFallback (hashUser req.key) ≠ "" then some (br.hashFallback (hashUser req.key))
        else none := by
  unfold assignFromStore
  rcases call.assignLeastLoaded req.order req.now req.key p.store with ⟨- | a, store⟩
  · rcases p.redis with - | br
    · exact ⟨rfl, rfl, rfl, rfl⟩
    · simp only [hashFallback_recordCBFailure, Option.bind_some, and_self]
  · exact ⟨rfl, rfl, rfl, rfl⟩

/-- **What a request is assigned**: over the cached list, or by the answer
of the store. -/
theorem assignViaTable_spec (call : Call) (req : Request) (p : Proxy) :
    (assignViaTable call req p).2.cache = p.cache ∧
    (assignViaTable call req p).2.routingMode = p.routingMode ∧
    (assignViaTable call req p).2.store = storeAfter call req p ∧
    (assignViaTable call req p).1 = (overCachedList call req p).or
      ((call.assignLeastLoaded req.order req.now req.key p.store).1.map (·.backend)) := by
  simp only [assignViaTable, storeAfter, Proxy.fallback, overCachedList]
  rcases hredis : p.redis with - | br
  · obtain ⟨hcache, hmode, hstore, hans⟩ := assignFromStore_spec call req p
    refine ⟨hcache, hmode, hstore, hans.trans ?_⟩
    rcases (call.assignLeastLoaded req.order req.now req.key p.store).1 with - | a
    · rw [hredis]
      rfl
    · rfl
  · simp only [Option.bind_some, Proxy.hashFallback_isCBOpen]
    by_cases hopen : (br.isCBOpen req.now).1 = true ∧ br.hashFallback (hashUser req.key) ≠ ""
    · rw [if_pos hopen, if_pos hopen, if_pos ⟨hopen.2, Or.inl hopen.1⟩]
      exact ⟨rfl, rfl, rfl, rfl⟩
    · rw [if_neg hopen, if_neg hopen]
      obtain ⟨hcache, hmode, hstore, hans⟩ :=
        assignFromStore_spec call req { p with redis := some (br.isCBOpen req.now).2 }
      refine ⟨hcache, hmode, hstore, hans.trans ?_⟩
      rcases (call.assignLeastLoaded req.order req.now req.key p.store).1 with - | a
      · simp only [Option.bind_some, Proxy.hashFallback_isCBOpen, or_true, and_true,
          Option.map_none, Option.or_none]
      · have hnone : ¬ (br.hashFallback (hashUser req.key) ≠ "" ∧
            ((br.isCBOpen req.now).1 = true ∨ (some a : Option Assignment) = none)) := by
          rintro ⟨hfb, hcb | habs⟩
          · exact hopen ⟨hcb, hfb⟩
          · cases habs
        rw [if_neg hnone]
        rfl

/-- A request that is not routed over the list has made its call. -/
theorem storeAfter_of_eq_none (h : overCachedList call req p = none) :
    storeAfter call req p = (call.assignLeastLoaded req.order req.now req.key p.store).2 := by
  unfold storeAfter
  split
  · rename_i fb hfb
    obtain ⟨br, hbr, hif⟩ := Option.bind_eq_some_iff.1 hfb
    split at hif
    · rename_i hopen
      rw [overCachedList, hbr, Option.bind_some, if_pos ⟨hopen.2, Or.inl hopen.1⟩] at h
      cases h
    · cases hif
  · rfl

/-- An answer was given by a call that was served. -/
theorem served_of_answer {order : List Backend} {now : Time} {store : Store} {a : Assignment}
    (h : (call.assignLeastLoaded order now k store).1 = some a) : call = .served := by
  cases call with
  | served => rfl
  | unreached => cases h
  | lost => cases h

/-- Only the key of the request is touched. -/
theorem getAssignment_storeAfter_of_ne (horder : Enumerates req.order p.store.candidates)
    (hk : k ≠ req.key) : (storeAfter call req p).getAssignment k = p.store.getAssignment k := by
  have hothers := (Store.placed_assignLeastLoaded req.key req.now horder).others k hk
  unfold storeAfter
  split
  · rfl
  · cases call with
    | served => exact hothers
    | unreached => rfl
    | lost => exact hothers

/-! ## Coherence -/

/-- Where the cache and the store both have a key, they have it on the same
backend. -/
def Coherent (p : Proxy) : Prop :=
  ∀ k e a, p.cache.data.lookup k = some e → p.store.getAssignment k = some a →
    e.backend = a.backend

/-- Entries that are dropped do no harm. -/
theorem Coherent.shrink (h : Coherent p) (hstore : p'.store = p.store)
    (hshrink : ∀ k e, p'.cache.data.lookup k = some e → p.cache.data.lookup k = some e) :
    Coherent p' := fun k e a he ha => h k e a (hshrink k e he) (hstore ▸ ha)

/-- What the request is routed to over the cached list is where the store
has its key, if it has it. -/
def Agrees (call : Call) (req : Request) (p : Proxy) : Prop :=
  ∀ b ∈ overCachedList call req p, ∀ a ∈ (storeAfter call req p).getAssignment req.key,
    b = a.backend

instance (call : Call) (req : Request) (p : Proxy) : Decidable (Agrees call req p) :=
  inferInstanceAs (Decidable (∀ b ∈ overCachedList call req p,
    ∀ a ∈ (storeAfter call req p).getAssignment req.key, b = a.backend))

/-- A request without an entry keeps the two coherent exactly then. -/
theorem coherent_serveMiss_iff (hmode : p.routingMode = .assignment)
    (horder : Enumerates req.order p.store.candidates)
    (hmiss : p.cache.data.lookup req.key = none) (h : Coherent p) :
    Coherent (serveMiss call req p).2 ↔ Agrees call req p := by
  obtain ⟨hcache, -, hstore, hans⟩ := assignViaTable_spec call req p
  have hothers : ∀ k ≠ req.key, (storeAfter call req p).getAssignment k = p.store.getAssignment k :=
    fun k hk => getAssignment_storeAfter_of_ne horder hk
  simp only [serveMiss, assign, hmode]
  generalize assignViaTable call req p = r at hcache hstore hans ⊢
  obtain ⟨backend, q⟩ := r
  dsimp only at hcache hstore hans ⊢
  rcases backend with - | b
  · -- Nothing was chosen, and there is still no entry for the key.
    refine iff_of_true (fun k e a he ha => ?_) fun fb hfb => ?_
    · rw [hcache] at he
      rw [hstore] at ha
      by_cases hk : k = req.key
      · rw [hk, hmiss] at he
        cases he
      · exact h k e a he ((hothers k hk).symm.trans ha)
    · rw [Option.mem_def.1 hfb] at hans
      cases hans
  · constructor
    · intro hco fb hfb a ha
      rw [Option.mem_def.1 hfb, Option.some_or, Option.some.injEq] at hans
      subst hans
      refine hco req.key ⟨b, req.now + q.cache.ttl⟩ a ?_ ?_
      · exact (Table.lookup_insert_eq _ _ _ _).trans (if_pos rfl)
      · rw [hstore]
        exact ha
    · intro hagrees k e a he ha
      dsimp only at he ha
      rw [hstore] at ha
      rcases UserCache.lookup_of_set he with ⟨rfl, rfl⟩ | ⟨hk, he⟩
      · rcases hover : overCachedList call req p with - | fb
        · -- The answer of the store is what the store has.
          rw [hover, Option.none_or] at hans
          obtain ⟨x, hx, hxb⟩ := Option.map_eq_some_iff.1 hans.symm
          obtain rfl := served_of_answer hx
          rw [storeAfter_of_eq_none hover] at ha
          have hstored := ((Store.placed_assignLeastLoaded req.key req.now horder).answered x hx).1
          rw [← hxb, Option.some.inj (hstored.symm.trans ha)]
        · rw [hover, Option.some_or, Option.some.injEq] at hans
          rw [hans]
          exact hagrees fb hover a ha
      · rw [hcache] at he
        exact h k e a he ((hothers k hk).symm.trans ha)

/-- The request comes to an assignment: it is let through, and has no entry
or one that is not fit. -/
def ComesToAssign (req : Request) (p : Proxy) : Prop :=
  req.allowed = true ∧ p.quarantines req.key = false ∧
    ∀ b ∈ p.cache.live req.now req.key, ¬ p.Fit req.now b ∧ p.blocks req.now req.key = false

instance (req : Request) (p : Proxy) : Decidable (ComesToAssign req p) :=
  inferInstanceAs (Decidable (_ ∧ _ ∧ ∀ b ∈ p.cache.live req.now req.key,
    ¬ p.Fit req.now b ∧ p.blocks req.now req.key = false))

/-- A request whose entry is not fit. -/
theorem coherent_serveUnfit_iff (hmode : p.routingMode = .assignment)
    (horder : Enumerates req.order p.store.candidates) (h : Coherent p) :
    Coherent (serveUnfit call req p).2 ↔
      (p.blocks req.now req.key = false → Agrees call req p) := by
  have hinvalidated : (p.cache.invalidate req.key).data.lookup req.key = none :=
    (Table.lookup_erase_eq _ _ _).trans (if_pos rfl)
  have hshrink : ∀ k e, (p.cache.invalidate req.key).data.lookup k = some e →
      p.cache.data.lookup k = some e := fun k e he => (UserCache.lookup_of_invalidate he).2
  rcases hd : p.poisonPill with - | d
  · simp only [serveUnfit, hd, Proxy.blocks, Option.map_none, Option.getD_none, forall_const]
    exact coherent_serveMiss_iff (p := { p with
      poisonPill := none
      cache := p.cache.invalidate req.key }) hmode horder hinvalidated (h.shrink rfl hshrink)
  · simp only [serveUnfit, hd, Proxy.blocks, Option.map_some, Option.getD_some]
    split
    · rename_i hblocked
      rw [hblocked]
      exact iff_of_true (h.shrink rfl fun _ _ he => he) fun hfree =>
        absurd hfree.symm Bool.false_ne_true
    · rename_i hblocked
      rw [Bool.not_eq_true] at hblocked
      simp only [hblocked, forall_const]
      exact coherent_serveMiss_iff (p := { p with
        poisonPill := some (d.recordReassignment req.now req.key).2
        cache := p.cache.invalidate req.key }) hmode horder hinvalidated (h.shrink rfl hshrink)

/-- **A request keeps the cache and the store coherent** exactly when it
does not come to an assignment, or is not routed past where the store has
its key. -/
theorem coherent_serveHTTP_iff (hmode : p.routingMode = .assignment)
    (horder : Enumerates req.order p.store.candidates) (h : Coherent p) :
    Coherent (serveHTTP call req p).2 ↔ (ComesToAssign req p → Agrees call req p) := by
  by_cases hallowed : req.allowed = true
  swap
  · simp only [serveHTTP, if_pos hallowed]
    exact iff_of_true h fun hcomes => absurd hcomes.1 hallowed
  by_cases hq : p.quarantines req.key = true
  · have hq' := hq
    rw [Proxy.quarantines] at hq'
    simp only [serveHTTP, hallowed, hq', not_true, if_false, if_true]
    exact iff_of_true h fun hcomes => absurd (hcomes.2.1.symm.trans hq) Bool.false_ne_true
  rw [Bool.not_eq_true] at hq
  have hget := UserCache.get_fst req.now req.key p.cache
  have hshrink : ∀ k e, (p.cache.get req.now req.key).2.data.lookup k = some e →
      p.cache.data.lookup k = some e := fun k e he => UserCache.lookup_of_get he
  simp only [ComesToAssign, hallowed, hq, true_and, ← hget]
  rw [Proxy.quarantines] at hq
  simp only [serveHTTP, hallowed, hq, Bool.false_eq_true, not_true, if_false]
  rcases hcached : (p.cache.get req.now req.key).1 with - | b
  · simp only [Option.mem_def, reduceCtorEq, false_implies, implies_true, forall_const]
    exact coherent_serveMiss_iff (p := { p with cache := (p.cache.get req.now req.key).2 }) hmode
      horder (UserCache.lookup_of_get_eq_none hcached) (h.shrink rfl hshrink)
  · simp only [Option.mem_def, Option.some.injEq, forall_eq']
    by_cases hfit : p.Fit req.now b
    · have hok : ¬ (¬ (p.backends.available req.now b).1 = true ∨ p.isDraining b = true) :=
        fun hbad => Proxy.unfit_iff.1 hbad hfit
      refine iff_of_true ?_ fun hcomes => absurd hfit hcomes.1
      refine (congrArg (fun o : Outcome × Proxy => Coherent o.2) (if_neg hok)).mpr ?_
      exact h.shrink rfl hshrink
    · have hbad : ¬ (p.backends.available req.now b).1 = true ∨ p.isDraining b = true :=
        Proxy.unfit_iff.2 hfit
      refine (iff_of_eq (congrArg (fun o : Outcome × Proxy => Coherent o.2) (if_pos hbad))).trans ?_
      simp only [hfit, not_false_eq_true, true_and]
      exact coherent_serveUnfit_iff (p := { p with
        cache := (p.cache.get req.now req.key).2
        backends := (p.backends.available req.now b).2 }) hmode horder (h.shrink rfl hshrink)

/-! ## Runs -/

/-- The steps that keep the two coherent. -/
def FallbackAgrees (p : Proxy) : Action → Prop
  | .serveHTTP req call => ComesToAssign req p → Agrees call req p
  | _ => True

instance (p : Proxy) : ∀ act : Action, Decidable (FallbackAgrees p act)
  | .serveHTTP req call => inferInstanceAs (Decidable (ComesToAssign req p → Agrees call req p))
  | .proxyRequest _ _ | .refreshBackendList _ | .cleanup _ => isTrue trivial

/-- No request changes the mode. -/
theorem routingMode_serveMiss (call : Call) (req : Request) (p : Proxy) :
    (serveMiss call req p).2.routingMode = p.routingMode := by
  have hassign : (assign call req p).2.routingMode = p.routingMode := by
    unfold assign
    split
    · exact (assignViaTable_spec call req p).2.1
    · rfl
  unfold serveMiss
  generalize assign call req p = r at hassign ⊢
  obtain ⟨- | b, q⟩ := r
  · exact hassign
  · exact hassign

theorem routingMode_serveUnfit (call : Call) (req : Request) (p : Proxy) :
    (serveUnfit call req p).2.routingMode = p.routingMode := by
  unfold serveUnfit
  split
  · exact routingMode_serveMiss call req _
  · dsimp only
    split
    · rfl
    · exact routingMode_serveMiss call req _

theorem routingMode_serveHTTP (call : Call) (req : Request) (p : Proxy) :
    (serveHTTP call req p).2.routingMode = p.routingMode := by
  unfold serveHTTP
  split
  · rfl
  · split
    · rfl
    · dsimp only
      split
      · exact routingMode_serveMiss call req _
      · split
        · exact routingMode_serveUnfit call req _
        · rfl

theorem routingMode_step (hst : step p act = some p') : p'.routingMode = p.routingMode := by
  cases act with
  | serveHTTP req call =>
    simp only [step] at hst
    split at hst
    · obtain rfl := Option.some.inj hst
      exact routingMode_serveHTTP call req p
    · cases hst
  | refreshBackendList order =>
    simp only [step] at hst
    split at hst
    · obtain rfl := Option.some.inj hst
      rfl
    · cases hst
  | proxyRequest b c | cleanup now =>
    obtain rfl := Option.some.inj hst
    rfl

/-- **One step.** -/
theorem coherent_step_iff (hmode : p.routingMode = .assignment) (h : Coherent p)
    (hst : step p act = some p') : Coherent p' ↔ FallbackAgrees p act := by
  cases act with
  | serveHTTP req call =>
    simp only [step] at hst
    split at hst
    · rename_i horder
      obtain rfl := Option.some.inj hst
      rw [Proxy.listed, hmode] at horder
      exact coherent_serveHTTP_iff hmode horder h
    · cases hst
  | proxyRequest b c =>
    obtain rfl := Option.some.inj hst
    exact iff_of_true (h.shrink rfl fun _ _ he => he) trivial
  | refreshBackendList order =>
    simp only [step] at hst
    split at hst
    · obtain rfl := Option.some.inj hst
      exact iff_of_true (h.shrink rfl fun _ _ he => he) trivial
    · cases hst
  | cleanup now =>
    obtain rfl := Option.some.inj hst
    exact iff_of_true (h.shrink rfl fun _ _ he => UserCache.lookup_of_cleanup he) trivial

/-- **An outage does not break stickiness exactly as long as the cached
list agrees with the store.** In assignment mode, from a coherent state:
the cache and the store are coherent in every state of a run, if and only
if every request that is routed over the cached list is routed to where
the store has its key, or the store does not have it. -/
theorem coherent_iff_fallbackAgrees {p₀ : Proxy} {schedule : List Action}
    (hmode : p₀.routingMode = .assignment) (hcoherent : Coherent p₀)
    (hrun : Run.exec step p₀ schedule = some p) :
    (∀ n q, Run.exec step p₀ (schedule.take n) = some q → Coherent q) ↔
      Run.Meets step FallbackAgrees p₀ schedule := by
  have hmodes : ∀ n q, Run.exec step p₀ (schedule.take n) = some q →
      q.routingMode = .assignment := fun n q hq =>
    Run.exec_invariant_of_forall (I := fun q => q.routingMode = .assignment)
      (fun _ _ _ h hst => (routingMode_step hst).trans h) hmode hq
  rw [← Run.forall_take_iff_meets (I := fun q => q.routingMode = .assignment ∧ Coherent q) ?_
    ⟨hmode, hcoherent⟩ hrun]
  · exact ⟨fun h n q hq => ⟨hmodes n q hq, h n q hq⟩, fun h n q hq => (h n q hq).2⟩
  · intro q act q' hq hst
    rw [and_iff_right ((routingMode_step hst).trans hq.1)]
    exact coherent_step_iff hq.1 hq.2 hst

/-- A replica over Redis with nothing assigned and nothing cached, whose
breaker opens at the first failure. -/
def outageReplica : Proxy where
  store := .redis ⟨∅, ∅, {"b1", "b2"}⟩
  cache := ⟨100, ∅⟩
  backends := ⟨∅, 3, 30⟩
  draining := some ∅
  redis := some ⟨0, .closed, 0, 1, 30, []⟩
  poisonPill := none
  routingMode := .assignment

/-- A key is assigned and its entry expires. Its next call fails, the
breaker opens, a new key is routed without a call, and after the cooldown
that key gets an assignment. -/
def agreeingOutage : List Action :=
  [.refreshBackendList ["b1", "b2"],
    .serveHTTP ⟨"u", 10, true, ["b1", "b2"], false⟩ .served,
    .serveHTTP ⟨"u", 120, true, ["b1", "b2"], false⟩ .unreached,
    .serveHTTP ⟨"v", 125, true, ["b1", "b2"], false⟩ .unreached,
    .cleanup 240,
    .serveHTTP ⟨"v", 250, true, ["b1", "b2"], false⟩ .served]

theorem coherent_agreeingOutage :
    ∃ p, Run.exec step outageReplica agreeingOutage = some p ∧ Coherent p ∧
      p.cache.data.lookup "v" = some ⟨"b2", 350⟩ := by
  have heval : (Run.exec step outageReplica agreeingOutage).map (·.cache.data.lookup "v") =
      some (some ⟨"b2", 350⟩) := by decide +kernel
  obtain ⟨p, hrun, hv⟩ := Option.map_eq_some_iff.1 heval
  have hcoherent : Coherent outageReplica := fun k e a he _ => nomatch he
  refine ⟨p, hrun, ?_, hv⟩
  exact (coherent_iff_fallbackAgrees rfl hcoherent hrun).2 (by decide +kernel) 6 p hrun

/-- The call that fails is for an assigned key, and the hash over the
cached list picks another backend. The next request finds that in the
cache. -/
def partingOutage : List Action :=
  [.refreshBackendList ["b2", "b1"],
    .serveHTTP ⟨"u", 10, true, ["b1", "b2"], false⟩ .served,
    .serveHTTP ⟨"u", 120, true, ["b1", "b2"], false⟩ .unreached,
    .serveHTTP ⟨"u", 200, true, ["b1", "b2"], false⟩ .served]

/-- The cache and the store have the key on different backends, and the
outage is long over. -/
theorem partingOutage_breaks_stickiness :
    ∃ p, Run.exec step outageReplica partingOutage = some p ∧
      p.cache.data.lookup "u" = some ⟨"b2", 220⟩ ∧
      p.store.getAssignment "u" = some ⟨"b1", 10, "assignment", 1⟩ ∧ ¬ Coherent p := by
  have heval : (Run.exec step outageReplica partingOutage).map
      (fun p => (p.cache.data.lookup "u", p.store.getAssignment "u")) =
      some (some ⟨"b2", 220⟩, some ⟨"b1", 10, "assignment", 1⟩) := by decide +kernel
  obtain ⟨p, hrun, hp⟩ := Option.map_eq_some_iff.1 heval
  obtain ⟨he, ha⟩ := Prod.mk.inj hp
  exact ⟨p, hrun, he, ha, fun hco => absurd (hco "u" _ _ he ha) (by decide)⟩

end Outage

end StickyProxy
