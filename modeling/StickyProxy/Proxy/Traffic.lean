import StickyProxy.Proxy.Model.Traffic
/-!
# What a step of a request can do

A request comes across a cached backend, asks the store, or writes the
cache; every other step leaves the store alone and only takes entries out
of the cache. `Takes` says so once, for every proof about requests beside
something else.
-/

namespace StickyProxy

namespace Traffic

/-- The request is on its way to a backend, for a key. -/
def RequestStep.Carries (k : RoutingKey) (b : Backend) : RequestStep → Prop
  | .check k' b' | .set k' b' | .forwarded k' b' => k' = k ∧ b' = b
  | _ => False

/-- Every step a request can take. -/
inductive Takes (c : Choice) (s : Store) (f : Frontend) (q : RequestStep) :
    RequestStep → Store → Frontend → Prop
  /-- It comes across a cached backend, or none, and only takes entries
  away. -/
  | pass {q' : RequestStep} {cache : UserCache} : (∀ k, q ≠ .assign k) →
      (∀ k e, cache.data.lookup k = some e → f.cache.data.lookup k = some e) →
      (∀ k b, q'.Carries k b → q.Carries k b ∨
        ∃ e, f.cache.data.lookup k = some e ∧ e.backend = b) →
      (∀ k b, q' ≠ .set k b) →
      Takes c s f q q' s { f with cache := cache }
  /-- It asks the store. -/
  | assign {k : RoutingKey} {a : Assignment} {s' : Store} : q = .assign k →
      Enumerates c.order s.candidates → s.assignLeastLoaded c.order c.now k = (some a, s') →
      Takes c s f q (.set k a.backend) s' f
  /-- It writes the cache. -/
  | set {k : RoutingKey} {b : Backend} : q = .set k b →
      Takes c s f q (.forwarded k b) s { f with cache := f.cache.set c.now k b }

variable {c : Choice} {s s' : Store} {f f' : Frontend} {q q' : RequestStep} {k : RoutingKey}

/-- A step that touches nothing and carries nothing new. -/
theorem takes_still (hassign : ∀ k, q ≠ .assign k)
    (hc : ∀ k b, q'.Carries k b → q.Carries k b) (hset : ∀ k b, q' ≠ .set k b) :
    Takes c s f q q' s f :=
  .pass hassign (fun _ _ h => h) (fun k b h => Or.inl (hc k b h)) hset

/-- **A step of a request is one of these.** -/
theorem takes_of_requestStep (h : requestStep c s f q = some (q', s', f')) :
    Takes c s f q q' s' f' := by
  cases q with
  | start k | wait k =>
    simp only [requestStep, Option.some.injEq, Prod.mk.injEq] at h
    obtain ⟨rfl, rfl, rfl⟩ := h
    split
    · exact takes_still (fun _ h => nomatch h) (fun _ _ h => h.elim) fun _ _ h => nomatch h
    · exact takes_still (fun _ h => nomatch h) (fun _ _ h => h.elim) fun _ _ h => nomatch h
  | held k =>
    simp only [requestStep] at h
    split at h
    · simp only [Option.some.injEq, Prod.mk.injEq] at h
      obtain ⟨rfl, rfl, rfl⟩ := h
      exact takes_still (fun _ h => nomatch h) (fun _ _ h => h.elim) fun _ _ h => nomatch h
    · cases h
  | get k =>
    simp only [requestStep] at h
    rcases hget : f.cache.get c.now k with ⟨- | b, cache⟩
    · simp only [hget, Option.some.injEq, Prod.mk.injEq] at h
      obtain ⟨rfl, rfl, rfl⟩ := h
      refine .pass (fun _ h => nomatch h) (fun k' e he => ?_) (fun _ _ h => h.elim)
        fun _ _ h => nomatch h
      exact UserCache.lookup_of_get (by rw [hget]; exact he)
    · simp only [hget, Option.some.injEq, Prod.mk.injEq] at h
      obtain ⟨rfl, rfl, rfl⟩ := h
      refine .pass (fun _ h => nomatch h) (fun k' e he => ?_) (fun k' b' hcarry => Or.inr ?_)
        fun _ _ h => nomatch h
      · exact UserCache.lookup_of_get (by rw [hget]; exact he)
      · obtain ⟨rfl, rfl⟩ := hcarry
        exact UserCache.exists_of_get (by rw [hget])
  | check k b =>
    simp only [requestStep, Option.some.injEq, Prod.mk.injEq] at h
    obtain ⟨rfl, rfl, rfl⟩ := h
    split
    · exact takes_still (fun _ h => nomatch h) (fun _ _ h => h) fun _ _ h => nomatch h
    · exact takes_still (fun _ h => nomatch h) (fun _ _ h => h.elim) fun _ _ h => nomatch h
  | unfit k =>
    simp only [requestStep] at h
    split at h
    · simp only [Option.some.injEq, Prod.mk.injEq] at h
      obtain ⟨rfl, rfl, rfl⟩ := h
      exact .pass (fun _ h => nomatch h) (fun k' e he => (UserCache.lookup_of_invalidate he).2)
        (fun _ _ h => h.elim) fun _ _ h => nomatch h
    · simp only [Option.some.injEq, Prod.mk.injEq] at h
      obtain ⟨rfl, rfl, rfl⟩ := h
      exact takes_still (fun _ h => nomatch h) (fun _ _ h => h.elim) fun _ _ h => nomatch h
  | assign k =>
    simp only [requestStep] at h
    split at h
    · rename_i horder
      rcases hans : s.assignLeastLoaded c.order c.now k with ⟨- | a, s''⟩
      · simp only [hans] at h
        cases h
      · simp only [hans, Option.some.injEq, Prod.mk.injEq] at h
        obtain ⟨rfl, rfl, rfl⟩ := h
        exact .assign rfl horder hans
    · cases h
  | set k b =>
    simp only [requestStep, Option.some.injEq, Prod.mk.injEq] at h
    obtain ⟨rfl, rfl, rfl⟩ := h
    exact .set rfl
  | forwarded k b => cases h
  | refused k => cases h

end Traffic

end StickyProxy
