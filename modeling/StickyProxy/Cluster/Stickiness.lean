import StickyProxy.Cluster.Model.Replicas
import StickyProxy.Proxy.Traffic
import StickyProxy.Store.Effects
import StickyProxy.Common.Run
import StickyProxy.Common.Pool
/-!
# Stickiness across replicas

The one invariant behind the proxy's purpose: whatever points a key to a
backend, an entry of any cache or a request of any replica on its way,
agrees with the assignment the store has for the key, and that assignment
is one `AssignLeastLoaded` does not touch. The first request for a key
creates it, and a second one racing with the first finds it.
-/

namespace StickyProxy

namespace Cluster

open Traffic Store

variable {s s' : Replicas} {st st' : Store} {k k' : RoutingKey} {b b' : Backend}
  {order : List Backend} {now : Time}

/-- Every pointer from a key to a backend agrees with the store. -/
structure Agreed (s : Replicas) : Prop where
  caches : ∀ f ∈ s.frontends, ∀ k e, f.cache.data.lookup k = some e →
    Settled s.store k e.backend
  requests : ∀ p ∈ s.requests, ∀ k b, p.2.Carries k b → Settled s.store k b

/-- **One step keeps the agreement.** -/
theorem Agreed.request {i : ℕ} {p : ℕ × RequestStep} {f f' : Frontend} {q : RequestStep}
    {c : Choice} (h : Agreed s) (hp : s.requests[i]? = some p) (hf : s.frontends[p.1]? = some f)
    (ht : Takes c s.store f p.2 q st f') :
    Agreed ⟨st, s.frontends.set p.1 f', s.requests.set i (p.1, q)⟩ := by
  have hcache := h.caches f (List.mem_of_getElem? hf)
  have hcarried := h.requests p (List.mem_of_getElem? hp)
  -- The pool and the frontends change in one place each.
  have hassemble : (∀ k b, Settled s.store k b → Settled st k b) →
      (∀ k e, f'.cache.data.lookup k = some e → Settled st k e.backend) →
      (∀ k b, q.Carries k b → Settled st k b) →
      Agreed ⟨st, s.frontends.set p.1 f', s.requests.set i (p.1, q)⟩ := by
    intro hmono hf' hq
    refine ⟨fun g hg k e he => ?_, fun p' hp' k b hb => ?_⟩
    · rcases Pool.mem_or_eq_of_mem_set hg with hg | rfl
      · exact hmono _ _ (h.caches g hg k e he)
      · exact hf' k e he
    · rcases Pool.mem_or_eq_of_mem_set hp' with hp' | rfl
      · exact hmono _ _ (h.requests p' hp' k b hb)
      · exact hq k b hb
  cases ht with
  | pass _ hshrink hcarry _ =>
    refine hassemble (fun _ _ h => h) (fun k e he => hcache k e (hshrink k e he)) fun k b hb => ?_
    rcases hcarry k b hb with hb | ⟨e, he, rfl⟩
    · exact hcarried k b hb
    · exact hcache k e he
  | @assign k a _ _ horder hans =>
    have hmono : ∀ k' b, Settled s.store k' b → Settled st k' b :=
      fun k' b hb => hb.call horder hans
    refine hassemble hmono (fun k e he => hmono k _ (hcache k e he)) fun k' b hb => ?_
    obtain ⟨rfl, rfl⟩ := hb
    exact settled_of_answer horder hans
  | @set k b hq =>
    have hb : Settled s.store k b := hcarried k b (by rw [hq]; exact ⟨rfl, rfl⟩)
    refine hassemble (fun _ _ h => h) (fun k' e he => ?_) fun k' b' hb' => ?_
    · rcases UserCache.lookup_of_set he with ⟨rfl, rfl⟩ | ⟨-, he⟩
      · exact hb
      · exact hcache k' e he
    · obtain ⟨rfl, rfl⟩ := hb'
      exact hb

/-- A step of a request takes place at its replica. -/
theorem request_eq_some {i : ℕ} {c : Choice} (hst : step s (.request i c) = some s') :
    ∃ p f q st f', s.requests[i]? = some p ∧ s.frontends[p.1]? = some f ∧
      Takes c s.store f p.2 q st f' ∧
      s' = ⟨st, s.frontends.set p.1 f', s.requests.set i (p.1, q)⟩ := by
  obtain ⟨p, hp, hst⟩ := Option.bind_eq_some_iff.1 hst
  obtain ⟨f, hf, hst⟩ := Option.bind_eq_some_iff.1 hst
  obtain ⟨⟨q, st, f'⟩, hq, rfl⟩ := Option.map_eq_some_iff.1 hst
  exact ⟨p, f, q, st, f', hp, hf, takes_of_requestStep hq, rfl⟩

theorem Agreed.step {a : Action} (h : Agreed s) (hst : step s a = some s') : Agreed s' := by
  cases a with
  | request i c =>
    obtain ⟨p, f, q, st, f', hp, hf, htakes, rfl⟩ := request_eq_some hst
    exact h.request hp hf htakes
  | cleanup r now =>
    obtain rfl := Option.some.inj hst
    refine ⟨fun f hf k e he => ?_, h.requests⟩
    obtain ⟨g, hg, rfl | rfl⟩ := Pool.exists_of_mem_modify hf
    · exact h.caches f hg k e he
    · exact h.caches g hg k e (UserCache.lookup_of_cleanup he)

/-- Every cache entry of every replica agrees with the store. Caches
without entries do. -/
def Fresh (st : Store) (frontends : List Frontend) : Prop :=
  ∀ f ∈ frontends, ∀ k e, f.cache.data.lookup k = some e → Settled st k e.backend

theorem agreed_start {frontends : List Frontend} {requests : List (ℕ × RoutingKey)}
    (h : Fresh st frontends) : Agreed (Replicas.start st frontends requests) := by
  refine ⟨h, fun p hp k b hb => ?_⟩
  obtain ⟨r, -, rfl⟩ := List.mem_map.1 hp
  exact hb.elim

/-- **Stickiness.** Requests for one key are forwarded to one backend, by
whichever replicas and in whatever order their steps are taken. -/
theorem forwarded_agree {frontends : List Frontend} {requests : List (ℕ × RoutingKey)}
    {schedule : List Action} (hfresh : Fresh st frontends)
    (hrun : Run.exec step (Replicas.start st frontends requests) schedule = some s) {r r' : ℕ}
    (h : (r, .forwarded k b) ∈ s.requests) (h' : (r', .forwarded k b') ∈ s.requests) : b = b' := by
  have hagreed : Agreed s := Run.exec_invariant_of_forall (I := Agreed)
    (fun t a t' ht hst => ht.step hst) (agreed_start hfresh) hrun
  have hb := hagreed.requests _ h k b ⟨rfl, rfl⟩
  exact hb.unique (hagreed.requests _ h' k b' ⟨rfl, rfl⟩)

/-- Two replicas, nothing cached, and one key that neither has seen. -/
def twoReplicas : Replicas :=
  .start (.redis ⟨∅, ∅, {"b1", "b2"}⟩) [⟨⟨60, ∅⟩, ∅⟩, ⟨⟨60, ∅⟩, ∅⟩] [(0, "u"), (1, "u")]

/-- Both requests miss the cache before either asks the store, and each
store call lists the backends in an order of its own. -/
def firstRequests : List Action :=
  [.request 0 ⟨1, [], true⟩, .request 0 ⟨1, [], true⟩, .request 0 ⟨1, [], true⟩,
    .request 1 ⟨2, [], true⟩, .request 1 ⟨2, [], true⟩, .request 1 ⟨2, [], true⟩,
    .request 0 ⟨3, ["b2", "b1"], true⟩, .request 1 ⟨3, ["b1", "b2"], true⟩,
    .request 1 ⟨4, [], true⟩, .request 0 ⟨4, [], true⟩]

/-- The requests race, and go to the same backend. -/
theorem forwarded_agree_firstRequests :
    ∃ s, Run.exec step twoReplicas firstRequests = some s ∧
      (0, .forwarded "u" "b2") ∈ s.requests ∧
      ∀ r b, (r, .forwarded "u" b) ∈ s.requests → b = "b2" := by
  obtain ⟨s, hrun, hmem⟩ : ∃ s, Run.exec step twoReplicas firstRequests = some s ∧
      (0, .forwarded "u" "b2") ∈ s.requests := ⟨_, rfl, List.mem_cons_self⟩
  have hfresh : Fresh (.redis ⟨∅, ∅, {"b1", "b2"}⟩) [⟨⟨60, ∅⟩, ∅⟩, ⟨⟨60, ∅⟩, ∅⟩] := by
    intro f hf k e he
    simp only [List.mem_cons, List.not_mem_nil, or_false, or_self] at hf
    subst hf
    cases he
  exact ⟨s, hrun, hmem, fun r b hb => forwarded_agree hfresh hrun hb hmem⟩

end Cluster

end StickyProxy
