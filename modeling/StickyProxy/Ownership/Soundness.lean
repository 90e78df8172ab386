import StickyProxy.Ownership.Model.Checker
import StickyProxy.Sticky.Finding
import StickyProxy.Store.Effects
/-!
# Which users a checker spares

A checker goes by the sticky keys and the proxy by its caches and the
assignments, and no step of either writes a sticky key. So what a checker
reads is what was there from the start, and the users the proxy routes to
a backend are spared exactly as long as the proxy routes every account to
the backend its key has had all along.
-/

namespace StickyProxy

namespace Ownership

open Sticky Traffic

variable {mode : RoutingMode} {s s' : Replicas} {act : Sticky.Action} {u k : RoutingKey}
  {b : Backend} {store store' : Store} {c : Sticky.Choice} {f f' : Frontend} {q q' : RequestStep}

/-! ## Routing by the keys -/

/-- The owner an account has by its key. -/
def ownerOf (strings : Strings) (u : RoutingKey) : Backend := owner (strings.lookup (stickyKey u))

/-- The proxy routes every account to its owner. -/
def Keyed (s : Replicas) : Prop := ∀ u b, Routed s u b → ownerOf s.strings u = b

/-- A request for an account stores and caches nothing but its owner. -/
def KeepsTo (mode : RoutingMode) (c : Sticky.Choice) (s : Replicas) : RequestStep → Prop
  | .assign k => ∀ t ∈ assign mode c k s.store, ∀ a ∈ t.2.getAssignment k,
      ownerOf s.strings k = a.backend
  | .set k b => ownerOf s.strings k = b
  | _ => True

instance (mode : RoutingMode) (c : Sticky.Choice) (s : Replicas) :
    ∀ q : RequestStep, Decidable (KeepsTo mode c s q)
  | .assign k => inferInstanceAs (Decidable (∀ t ∈ assign mode c k s.store,
      ∀ a ∈ t.2.getAssignment k, ownerOf s.strings k = a.backend))
  | .set k b => inferInstanceAs (Decidable (ownerOf s.strings k = b))
  | .start _ | .wait _ | .held _ | .get _ | .check _ _ | .unfit _ | .forwarded _ _
  | .refused _ => isTrue trivial

/-- The step routes no account to a backend that is not its owner. -/
def Loyal (mode : RoutingMode) (s : Replicas) : Sticky.Action → Prop
  | .request i c => ∀ p ∈ s.requests[i]?, KeepsTo mode c s p.2
  | _ => True

instance (mode : RoutingMode) (s : Replicas) : ∀ act : Sticky.Action, Decidable (Loyal mode s act)
  | .request i c => inferInstanceAs (Decidable (∀ p ∈ s.requests[i]?, KeepsTo mode c s p.2))
  | .cleanup _ _ | .addBackend _ | .removeBackend _ => isTrue trivial

/-! ## What a request changes -/

/-- `assignViaTable` leaves the store as it was, or as the call left it. -/
theorem store_assignViaTable : (assignViaTable c k store).2 = store ∨
    (assignViaTable c k store).2 = (c.call.assignLeastLoaded c.order c.now k store).2 := by
  rw [assignViaTable]
  split
  · exact Or.inl rfl
  · rcases c.call.assignLeastLoaded c.order c.now k store with ⟨- | a, st⟩ <;> exact Or.inr rfl

/-- The choice of a backend touches one account. -/
theorem getAssignment_assign_of_ne {t : Option Backend × Store} (h : assign mode c k store = some t)
    (hu : u ≠ k) : t.2.getAssignment u = store.getAssignment u := by
  cases mode with
  | hash =>
    obtain ⟨-, ht⟩ := Option.ite_none_right_eq_some.1 h
    rw [← Option.some.inj ht]
  | assignment =>
    obtain ⟨horder, ht⟩ := Option.ite_none_right_eq_some.1 h
    obtain rfl := Option.some.inj ht
    rcases store_assignViaTable (c := c) (k := k) with hst | hst
    · rw [hst]
    · rw [hst]
      cases c.call with
      | unreached => rfl
      | served | lost => exact (Store.placed_assignLeastLoaded k c.now horder).others u hu

/-- A step of a request chooses a backend, or leaves the store alone. -/
theorem store_of_requestStep (h : requestStep mode c store f q = some (q', store', f')) :
    (∃ k ob, q = .assign k ∧ assign mode c k store = some (ob, store')) ∨
      store' = store ∧ ∀ k, q ≠ .assign k := by
  by_cases hq : ∃ k, q = .assign k
  · obtain ⟨k, rfl⟩ := hq
    obtain ⟨⟨ob, st⟩, hassign, ht⟩ := Option.map_eq_some_iff.1 h
    refine Or.inl ⟨k, ob, rfl, ?_⟩
    split at ht <;> cases ht <;> exact hassign
  · have hne : ∀ k, q ≠ .assign k := fun k hk => hq ⟨k, hk⟩
    rw [requestStep_of_ne hne] at h
    cases takes_of_requestStep h with
    | pass _ _ _ _ => exact Or.inr ⟨rfl, hne⟩
    | assign hassign _ _ => exact absurd hassign (hne _)
    | set _ => exact Or.inr ⟨rfl, hne⟩

theorem keyed_request_iff {i : ℕ} {p : ℕ × RequestStep} (h : Keyed s)
    (hf : s.frontends[p.1]? = some f)
    (hreq : requestStep mode c s.store f p.2 = some (q', store', f')) :
    Keyed { s with
        store := store'
        frontends := s.frontends.set p.1 f'
        requests := s.requests.set i (p.1, q') } ↔
      KeepsTo mode c s p.2 := by
  constructor
  · intro h'
    rcases p with ⟨r, q⟩
    cases q with
    | assign k =>
      rintro t ht a ha
      rcases store_of_requestStep hreq with ⟨k', ob, hk, hassign⟩ | ⟨-, hne⟩
      · obtain rfl := RequestStep.assign.inj hk
        obtain rfl := Option.some.inj (ht.symm.trans hassign)
        exact h' k a.backend (Or.inr ⟨a, ha, rfl⟩)
      · exact absurd rfl (hne k)
    | set k b =>
      exact h' k b (Or.inl ⟨f', Pool.self_mem_set hf, _, lookup_of_requestStep_set hreq, rfl⟩)
    | _ => trivial
  · rintro hok u b (⟨g, hg, entry, hentry, rfl⟩ | ⟨a, ha, rfl⟩)
    · rcases Pool.mem_or_eq_of_mem_set hg with hg | rfl
      · exact h u _ (Or.inl ⟨g, hg, entry, hentry, rfl⟩)
      · rcases cached_of_requestStep hreq hentry with hold | hset
        · exact h u _ (Or.inl ⟨f, List.mem_of_getElem? hf, entry, hold, rfl⟩)
        · rw [hset] at hok
          exact hok
    · rcases store_of_requestStep hreq with ⟨k, ob, hk, hassign⟩ | ⟨rfl, -⟩
      · rw [hk] at hok
        by_cases hu : u = k
        · exact hu ▸ hok _ hassign a (hu ▸ ha)
        · refine h u _ (Or.inr ⟨a, ?_, rfl⟩)
          exact (getAssignment_assign_of_ne hassign hu).symm.trans ha
      · exact h u _ (Or.inr ⟨a, ha, rfl⟩)

/-- **A step keeps every account with its owner exactly if it is loyal.** -/
theorem keyed_step_iff (h : Keyed s) (hst : Sticky.step mode s act = some s') :
    Keyed s' ↔ Loyal mode s act := by
  cases act with
  | request i c =>
    obtain ⟨p, hp, hst⟩ := Option.bind_eq_some_iff.1 hst
    obtain ⟨f, hf, hst⟩ := Option.bind_eq_some_iff.1 hst
    obtain ⟨⟨q', store', f'⟩, hreq, rfl⟩ := Option.map_eq_some_iff.1 hst
    refine (keyed_request_iff h hf hreq).trans ⟨fun hok p' hp' => ?_, fun hok => hok p hp⟩
    exact Option.some.inj (hp.symm.trans hp') ▸ hok
  | cleanup r now =>
    obtain rfl := Option.some.inj hst
    refine iff_of_true ?_ trivial
    rintro u b (⟨g, hg, entry, hentry, rfl⟩ | hstored)
    · obtain ⟨f, hf, rfl | rfl⟩ := Pool.exists_of_mem_modify hg
      · exact h u _ (Or.inl ⟨g, hf, entry, hentry, rfl⟩)
      · exact h u _ (Or.inl ⟨f, hf, entry, UserCache.lookup_of_cleanup hentry, rfl⟩)
    · exact h u b (Or.inr hstored)
  | addBackend b =>
    obtain rfl := Option.some.inj hst
    refine iff_of_true (fun u c hrouted => h u c (hrouted.imp_right ?_)) trivial
    rintro ⟨a, ha, hb⟩
    exact ⟨a, (Store.getAssignment_addBackend u).symm.trans ha, hb⟩
  | removeBackend b =>
    obtain rfl := Option.some.inj hst
    refine iff_of_true (fun u c hrouted => h u c (hrouted.imp_right ?_)) trivial
    rintro ⟨a, ha, hb⟩
    exact ⟨a, (Store.getAssignment_removeBackend u).symm.trans ha, hb⟩

/-! ## The checkers beside the replicas -/

theorem strings_step (hst : Sticky.step mode s act = some s') : s'.strings = s.strings := by
  cases act with
  | request i c =>
    obtain ⟨p, -, hst⟩ := Option.bind_eq_some_iff.1 hst
    obtain ⟨f, -, hst⟩ := Option.bind_eq_some_iff.1 hst
    obtain ⟨t, -, rfl⟩ := Option.map_eq_some_iff.1 hst
    rfl
  | cleanup r now | addBackend b | removeBackend b =>
    obtain rfl := Option.some.inj hst
    rfl

variable {S S' : System} {a : Action} {ch ch' : Checker} {strings : Strings}

/-- What a pass has read and not yet judged. -/
def Pass.read : Pass → List (RoutingKey × Option String)
  | .vals unjudged _ => unjudged
  | _ => []

/-- What a checker has read is what the keys say. -/
def Checker.Reads (strings : Strings) (c : Checker) : Prop :=
  ∀ v ∈ c.pass.read, v.2 = strings.lookup (stickyKey v.1)

theorem Checker.Reads.check {t : Turn} (h : ch.Reads strings)
    (hst : ch.check strings t = some ch') : ch'.Reads strings := by
  revert hst
  fun_cases Checker.check strings t ch <;> rintro ⟨⟩ <;> intro v hv
  case case1 =>
    split at hv
    · exact h v hv
    · cases hv
  case case4 userIDs todo _ =>
    split at hv
    · obtain ⟨uid, -, rfl⟩ := List.mem_map.1 hv
      rfl
    · cases hv
  case case6 hpass _ | case7 hpass _ =>
    exact h v (by rw [hpass]; exact List.mem_cons_of_mem _ hv)
  all_goals cases hv

/-- The checkers have read what the keys say, and so they do after any
step. -/
theorem reads_step (h : ∀ c ∈ S.checkers, c.Reads S.replicas.strings)
    (hst : step mode S a = some S') : ∀ c ∈ S'.checkers, c.Reads S'.replicas.strings := by
  cases a with
  | proxy act =>
    obtain ⟨replicas, hreplicas, rfl⟩ := Option.map_eq_some_iff.1 hst
    intro c hc
    rw [show replicas.strings = _ from strings_step hreplicas]
    exact h c hc
  | track i u | untrack i u =>
    obtain rfl := Option.some.inj hst
    intro c hc
    obtain ⟨d, hd, rfl | rfl⟩ := Pool.exists_of_mem_modify hc
    · exact h c hd
    · exact h d hd
  | check i t =>
    obtain ⟨c, hc, hst⟩ := Option.bind_eq_some_iff.1 hst
    obtain ⟨c', hcheck, rfl⟩ := Option.map_eq_some_iff.1 hst
    intro d hd
    rcases Pool.mem_or_eq_of_mem_set hd with hd | rfl
    · exact h d hd
    · exact (h c (List.mem_of_getElem? hc)).check hcheck

/-- A checker evicts only users it is not the owner of. -/
theorem Checker.Reads.ne_of_evicts (h : ch.Reads strings) (hu : u ∈ ch.evicts) :
    ownerOf strings u ≠ ch.myAddr := by
  revert hu
  fun_cases Checker.evicts ch <;> rintro ⟨⟩
  case case2 val _ _ hne hpass =>
    have hread := h (u, val) (by rw [hpass]; exact List.mem_cons_self)
    rwa [ownerOf, ← hread]

/-- The replicas run as they would alone. -/
theorem exec_proxyActions {as : List Action} (hrun : Run.exec (step mode) S as = some S') :
    Run.exec (Sticky.step mode) S.replicas (proxyActions as) = some S'.replicas := by
  induction as generalizing S with
  | nil =>
    rw [Run.exec_nil, Option.some.injEq] at hrun
    rw [hrun]
    rfl
  | cons a as ih =>
    obtain ⟨T, hst, hrun⟩ := Run.exec_cons_eq_some.1 hrun
    cases a with
    | proxy act =>
      obtain ⟨replicas, hreplicas, rfl⟩ := Option.map_eq_some_iff.1 hst
      exact Run.exec_cons_eq_some.2 ⟨replicas, hreplicas, ih hrun⟩
    | track i u | untrack i u =>
      obtain rfl := Option.some.inj hst
      have hrest := ih hrun
      exact hrest
    | check i t =>
      obtain ⟨c, -, hst⟩ := Option.bind_eq_some_iff.1 hst
      obtain ⟨c', -, rfl⟩ := Option.map_eq_some_iff.1 hst
      have hrest := ih hrun
      exact hrest

/-- And a run of the replicas is one of the whole, whatever the checkers
are. -/
theorem exec_map_proxy {as : List Sticky.Action} (checkers : List Checker)
    (hrun : Run.exec (Sticky.step mode) s as = some s') :
    Run.exec (step mode) ⟨s, checkers⟩ (as.map .proxy) = some ⟨s', checkers⟩ := by
  induction as generalizing s with
  | nil =>
    rw [Run.exec_nil, Option.some.injEq] at hrun
    rw [hrun]
    rfl
  | cons a as ih =>
    obtain ⟨t, hst, hrun⟩ := Run.exec_cons_eq_some.1 hrun
    refine Run.exec_cons_eq_some.2 ⟨⟨t, checkers⟩, ?_, ih hrun⟩
    rw [step, hst]
    rfl

theorem proxyActions_map_proxy (as : List Sticky.Action) (bs : List Action) :
    proxyActions (as.map .proxy ++ bs) = as ++ proxyActions bs := by
  rw [proxyActions, List.filterMap_append, List.filterMap_map]
  exact congrArg (· ++ _) List.filterMap_some

/-! ## Soundness -/

/-- With every account at its owner, the checkers spare who is routed to
them. -/
theorem sound_of_keyed (hkeyed : Keyed S.replicas)
    (hreads : ∀ c ∈ S.checkers, c.Reads S.replicas.strings) : S.Sound := by
  intro c hc u hu _ hrouted
  exact (hreads c hc).ne_of_evicts hu (hkeyed u c.myAddr hrouted)

/-- A checker that tracks one user, in any state of the replicas. -/
def tracking (b : Backend) (u : RoutingKey) : Checker := ⟨b, {u}, .idle, []⟩

/-- The pass of that checker, up to its verdict. -/
def onePass (u : RoutingKey) : List Action := [.check 0 ⟨[u], true⟩, .check 0 ⟨[], true⟩]

theorem exec_onePass (s : Replicas) (b : Backend) (u : RoutingKey) :
    Run.exec (step mode) ⟨s, [tracking b u]⟩ (onePass u) =
      some ⟨s, [{ tracking b u with pass := .vals [(u, s.strings.lookup (stickyKey u))] [] }]⟩ := by
  have henum : Enumerates [u] {u} := ⟨List.nodup_singleton u, by simp⟩
  simp [onePass, Run.exec, step, Checker.check, tracking, henum, batches, batchSize]

/-- Where the checkers are always sound, every account is at its owner. -/
theorem keyed_of_sound (mode : RoutingMode)
    (h : ∀ checkers as t, (∀ c ∈ checkers, c.pass = .idle) → proxyActions as = [] →
      Run.exec (step mode) ⟨s, checkers⟩ as = some t → t.Sound) : Keyed s := by
  intro u b hrouted
  by_contra hne
  refine h [tracking b u] (onePass u) _ ?_ rfl (exec_onePass s b u) _ List.mem_cons_self u ?_
    (Finset.mem_singleton_self u) hrouted
  · intro c hc
    rw [List.mem_singleton.1 hc]
    rfl
  · exact (if_neg hne : (if owner _ = b then none else some u) = some u)

/-- **The checkers are sound exactly if the proxy is loyal to the keys.**
Beside a run of the replicas, whatever checkers there are and whenever they
pass, no user is evicted that is routed to the backend, exactly if every
account is routed to the owner its key has, from the start and by every
step of the run. -/
theorem sound_iff_loyal (mode : RoutingMode) (s s' : Replicas) (acts : List Sticky.Action)
    (hrun : Run.exec (Sticky.step mode) s acts = some s') :
    (∀ checkers as t, (∀ c ∈ checkers, c.pass = .idle) → proxyActions as <+: acts →
        Run.exec (step mode) ⟨s, checkers⟩ as = some t → t.Sound) ↔
      Keyed s ∧ Run.Meets (Sticky.step mode) (Loyal mode) s acts := by
  constructor
  · intro hsound
    have hkeyed : ∀ n t, Run.exec (Sticky.step mode) s (acts.take n) = some t → Keyed t := by
      intro n t ht
      refine keyed_of_sound mode fun checkers as t' hidle has hrun' => ?_
      refine hsound checkers ((acts.take n).map .proxy ++ as) t' hidle ?_ ?_
      · rw [proxyActions_map_proxy, has, List.append_nil]
        exact List.take_prefix n acts
      · exact Run.exec_append_eq_some.2 ⟨_, exec_map_proxy checkers ht, hrun'⟩
    have hs : Keyed s := hkeyed 0 s rfl
    exact ⟨hs, (Run.forall_take_iff_meets (fun _ _ _ h hst => keyed_step_iff h hst) hs hrun).1
      hkeyed⟩
  · rintro ⟨hs, hloyal⟩ checkers as t hidle hpre hrun'
    have hkeyed := (Run.forall_take_iff_meets (fun _ _ _ h hst => keyed_step_iff h hst) hs hrun).2
      hloyal
    refine sound_of_keyed ?_ ?_
    · refine hkeyed (proxyActions as).length t.replicas ?_
      rw [← List.prefix_iff_eq_take.1 hpre]
      exact exec_proxyActions hrun'
    · refine Run.exec_invariant_of_forall (fun _ _ _ h hst => reads_step h hst) ?_ hrun'
      intro c hc v hv
      rw [hidle c hc] at hv
      cases hv

/-- The request of `oneReplica`, the backends listed in the order of their
names; then both modes give the account to the first. -/
def servedInOrder : List Sticky.Action :=
  List.replicate 5 (.request 0 ⟨⟨60, ["b1", "b2"], true⟩, .served, false, ""⟩)

theorem keyed_oneReplica (strings : Strings) : Keyed (oneReplica strings) := by
  rintro u b (⟨f, hf, entry, hentry, -⟩ | ⟨a, ha, -⟩)
  · rw [List.mem_singleton.1 hf] at hentry
    cases hentry
  · cases ha

theorem sound_keysInPlace :
    (∃ s, Run.exec (Sticky.step .assignment) (oneReplica keysInPlace) servedInOrder = some s ∧
        Routed s "u" "b1") ∧
      ∀ checkers as t, (∀ c ∈ checkers, c.pass = .idle) → proxyActions as <+: servedInOrder →
        Run.exec (step .assignment) ⟨oneReplica keysInPlace, checkers⟩ as = some t → t.Sound := by
  have hend : (Run.exec (Sticky.step .assignment) (oneReplica keysInPlace) servedInOrder).map
      (fun s => decide (Routed s "u" "b1")) = some true := by decide +kernel
  obtain ⟨s, hrun, hrouted⟩ := Option.map_eq_some_iff.1 hend
  exact ⟨⟨s, hrun, of_decide_eq_true hrouted⟩,
    (sound_iff_loyal .assignment _ s _ hrun).2 ⟨keyed_oneReplica _, by decide +kernel⟩⟩

/-- The request is served, and the backend it went to takes a pass over
the user it tracks. -/
def servedThenChecked : List Action :=
  servedInOrder.map .proxy ++ onePass "u" ++ [.check 0 ⟨[], true⟩]

/-- What has been evicted by whom, and whether the user is routed to the
backend. -/
def verdict (s : System) : List (Backend × List RoutingKey) × Bool :=
  (s.checkers.map fun c => (c.myAddr, c.evicted), decide (Routed s.replicas "u" "b1"))

/-- The user is evicted, in either mode, with the proxy routing it to the
backend: no request has written its key. -/
theorem routedUser_is_evicted :
    (Run.exec (step .hash) ⟨oneReplica ∅, [tracking "b1" "u"]⟩ servedThenChecked).map verdict =
        some ([("b1", ["u"])], true) ∧
      (Run.exec (step .assignment) ⟨oneReplica ∅, [tracking "b1" "u"]⟩ servedThenChecked).map
        verdict = some ([("b1", ["u"])], true) := by
  constructor <;> decide +kernel

end Ownership

end StickyProxy
