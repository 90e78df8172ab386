import StickyProxy.Proxy.Model.Listening
import StickyProxy.Proxy.Sweeping
/-!
# What an announcement comes to

An announcement that comes to the channel of the loop is owed to the cache
until the loop has gone through the cache after it: it is in the channel, or
its backend is pending, or left to be dealt with in the present firing, or
the loop goes through the cache for it and has begun to after the
announcement was published. So once nothing is under way, an announcement was
missed, or no entry with its backend is in the cache from before it was
published.
-/

namespace StickyProxy

open Traversal

namespace Listening

variable {s s' : State} {a : Action} {e : Event} {ok : Bool}

/-! ## What is owed -/

/-- The cache has no entry with the backend from before the announcement. -/
def Settled (log : List (RoutingKey × Option CacheEntry)) (e : Event) : Prop :=
  Purged log e.writes (·.backend = e.backend)

/-- The loop has yet to go through the cache for the announcement, or has
begun to since. -/
def Loop.Owes (loop : Loop) (pending : Finset Backend) (e : Event) : Prop :=
  match loop with
  | .select => e.backend ∈ pending
  | .firing todo => e.backend ∈ todo
  | .sweeping b tr _ todo => e.backend ∈ todo ∨ (e.backend = b ∧ e.writes ≤ tr.start)
  | .stopped => True

/-- **Where an announcement is.** -/
def Traced (s : State) (e : Event) : Prop :=
  e ∈ s.missed ∨ e ∈ s.session.queue ∨ e ∈ s.ch ∨ s.loop.Owes s.pending e ∨ Settled s.log e

/-- The loop goes through the cache as `InvalidateBackend` does. -/
def Loop.Ok (loop : Loop) (log : List (RoutingKey × Option CacheEntry)) : Prop :=
  match loop with
  | .sweeping b tr delete _ =>
    SharedCache.Ranging log 0 (.invalidateBackend b) tr delete []
  | _ => True

structure Accounted (s : State) : Prop where
  writes : ∀ e ∈ s.published, e.writes ≤ s.log.length
  traced : ∀ e ∈ s.published, Traced s e
  loop : s.loop.Ok s.log

theorem accounted_start (log : List (RoutingKey × Option CacheEntry)) :
    Accounted (State.start log) :=
  ⟨fun _ h => (List.not_mem_nil h).elim, fun _ h => (List.not_mem_nil h).elim, trivial⟩

/-- Whoever writes to the cache: what is settled stays so. -/
theorem Traced.write (w : RoutingKey × Option CacheEntry) (hle : e.writes ≤ s.log.length)
    (h : Traced s e) : Traced { s with log := s.log ++ [w] } e := by
  rcases h with hmissed | hqueue | hch | howes | hsettled
  · exact Or.inl hmissed
  · exact Or.inr (Or.inl hqueue)
  · exact Or.inr (Or.inr (Or.inl hch))
  · exact Or.inr (Or.inr (Or.inr (Or.inl howes)))
  · exact Or.inr (Or.inr (Or.inr (Or.inr (hsettled.append hle [w]))))

theorem Loop.Ok.write {loop : Loop} {log : List (RoutingKey × Option CacheEntry)}
    (h : loop.Ok log) (w : RoutingKey × Option CacheEntry) : loop.Ok (log ++ [w]) := by
  cases loop with
  | sweeping => exact SharedCache.Ranging.grow h [w] (le_refl 0)
  | _ => exact trivial

theorem Accounted.write (h : Accounted s) (w : RoutingKey × Option CacheEntry) :
    Accounted { s with log := s.log ++ [w] } := by
  refine ⟨fun e he => ?_, fun e he => (h.traced e he).write w (h.writes e he), h.loop.write w⟩
  have hle := h.writes e he
  rw [List.length_append]
  omega

/-! ## The session -/

/-- An announcement has not come to the loop. -/
def Before (s : State) (e : Event) : Prop := e ∈ s.missed ∨ e ∈ s.session.queue ∨ e ∈ s.ch

/-- A step before the loop, which loses sight of nothing. -/
structure Passes (s s' : State) : Prop where
  log : s'.log = s.log
  loop : s'.loop = s.loop
  pending : s'.pending = s.pending
  published : s'.published = s.published
  before : ∀ e, Before s e → Before s' e

theorem Traced.passes (h : Traced s e) (hpasses : Passes s s') : Traced s' e := by
  have hbefore (hplace : Before s e) : Traced s' e := by
    rcases hpasses.before e hplace with hmissed | hqueue | hch
    · exact Or.inl hmissed
    · exact Or.inr (Or.inl hqueue)
    · exact Or.inr (Or.inr (Or.inl hch))
  rcases h with hmissed | hqueue | hch | howes | hsettled
  · exact hbefore (Or.inl hmissed)
  · exact hbefore (Or.inr (Or.inl hqueue))
  · exact hbefore (Or.inr (Or.inr hch))
  · refine Or.inr (Or.inr (Or.inr (Or.inl ?_)))
    rwa [hpasses.loop, hpasses.pending]
  · refine Or.inr (Or.inr (Or.inr (Or.inr ?_)))
    rwa [Settled, hpasses.log]

theorem Accounted.passes (h : Accounted s) (hpasses : Passes s s') : Accounted s' := by
  refine ⟨fun e he => ?_, fun e he => ?_, ?_⟩
  · rw [hpasses.published] at he
    rw [hpasses.log]
    exact h.writes e he
  · rw [hpasses.published] at he
    exact (h.traced e he).passes hpasses
  · rw [hpasses.loop, hpasses.log]
    exact h.loop

/-- A session that has nothing in hand goes on. -/
theorem passes_of_idle {q : Session} (hqueue : s.session.queue = []) :
    Passes s { s with session := q } := by
  refine ⟨rfl, rfl, rfl, rfl, fun e he => ?_⟩
  rcases he with hmissed | hnone | hch
  · exact Or.inl hmissed
  · rw [hqueue] at hnone
    cases hnone
  · exact Or.inr (Or.inr hch)

/-- **Nothing leaves the session but to the channel, or to be missed.** -/
theorem passes_of_sessionStep (hst : sessionStep s ok = some s') : Passes s s' := by
  unfold sessionStep at hst
  cases hsession : s.session with
  | check =>
    simp only [hsession, Option.some.injEq] at hst
    subst hst
    exact passes_of_idle (by rw [hsession]; rfl)
  | connect | listen =>
    simp only [hsession] at hst
    obtain ⟨-, hst⟩ := Option.ite_none_left_eq_some.1 hst
    obtain rfl := Option.some.inj hst
    exact passes_of_idle (by rw [hsession]; rfl)
  | wait queue =>
    simp only [hsession] at hst
    cases ok with
    | true =>
      cases queue with
      | nil => cases hst
      | cons e queue =>
        obtain rfl := Option.some.inj hst
        refine ⟨rfl, rfl, rfl, rfl, fun d hd => ?_⟩
        rwa [Before, hsession] at hd
    | false =>
      obtain rfl := Option.some.inj hst
      refine ⟨rfl, rfl, rfl, rfl, fun d hd => ?_⟩
      rw [Before, hsession] at hd
      rcases hd with hmissed | hqueue | hch
      · exact Or.inl (List.mem_append_left _ hmissed)
      · exact Or.inl (List.mem_append_right _ hqueue)
      · exact Or.inr (Or.inr hch)
  | callback e queue =>
    simp only [hsession] at hst
    split at hst
    all_goals
      obtain rfl := Option.some.inj hst
      refine ⟨rfl, rfl, rfl, rfl, fun d hd => ?_⟩
      rw [Before, hsession] at hd
    · rcases hd with hmissed | hqueue | hch
      · exact Or.inl hmissed
      · rcases List.mem_cons.1 hqueue with rfl | hqueue
        · exact Or.inr (Or.inr (List.mem_append_right _ List.mem_cons_self))
        · exact Or.inr (Or.inl hqueue)
      · exact Or.inr (Or.inr (List.mem_append_left _ hch))
    · rcases hd with hmissed | hqueue | hch
      · exact Or.inl (List.mem_append_left _ hmissed)
      · rcases List.mem_cons.1 hqueue with rfl | hqueue
        · exact Or.inl (List.mem_append_right _ List.mem_cons_self)
        · exact Or.inr (Or.inl hqueue)
      · exact Or.inr (Or.inr hch)
  | reconnect =>
    simp only [hsession] at hst
    split at hst
    · obtain rfl := Option.some.inj hst
      exact passes_of_idle (by rw [hsession]; rfl)
    · obtain ⟨-, hst⟩ := Option.ite_none_right_eq_some.1 hst
      obtain rfl := Option.some.inj hst
      exact passes_of_idle (by rw [hsession]; rfl)
  | returned =>
    simp only [hsession] at hst
    cases hst

/-- What is published comes to a session that listens, or is missed. -/
theorem Accounted.publish {b : Backend} (h : Accounted s) (hst : step s (.publish b) = some s') :
    Accounted s' := by
  set e : Event := ⟨b, s.log.length⟩
  obtain ⟨hlog, hloop, hpending, hpublished, hbefore, hnew⟩ : s'.log = s.log ∧ s'.loop = s.loop ∧
      s'.pending = s.pending ∧ s'.published = s.published ++ [e] ∧
      (∀ d, Before s d → Before s' d) ∧ Before s' e := by
    simp only [step, Option.some.injEq] at hst
    subst hst
    cases hsession : s.session with
    | wait queue | callback _ queue =>
      refine ⟨rfl, rfl, rfl, rfl, fun d hd => ?_, Or.inr (Or.inl ?_)⟩
      · rw [Before, hsession] at hd
        exact hd.imp_right (Or.imp_left fun hqueue =>
          by simpa [Session.queue, or_assoc] using Or.inl hqueue)
      · simp [Session.queue, e]
    | check | connect | listen | reconnect | returned =>
      refine ⟨rfl, rfl, rfl, rfl, fun d hd => ?_, Or.inl ?_⟩
      · rw [Before, hsession] at hd
        exact hd.imp_left (List.mem_append_left _)
      · exact List.mem_append_right _ List.mem_cons_self
  have hold : Accounted { s' with published := s.published } :=
    h.passes ⟨hlog, hloop, hpending, rfl, hbefore⟩
  refine ⟨fun d hd => ?_, fun d hd => ?_, hold.loop⟩
  · rw [hpublished] at hd
    rcases List.mem_append.1 hd with hd | hd
    · exact hold.writes d hd
    · obtain rfl := List.mem_singleton.1 hd
      rw [hlog]
  · rw [hpublished] at hd
    rcases List.mem_append.1 hd with hd | hd
    · exact hold.traced d hd
    · obtain rfl := List.mem_singleton.1 hd
      rcases hnew with hmissed | hqueue | hch
      · exact Or.inl hmissed
      · exact Or.inr (Or.inl hqueue)
      · exact Or.inr (Or.inr (Or.inl hch))

/-! ## The loop -/

/-- A step of the loop that takes nothing out of the places before it, and
owes what it owed or has settled it. -/
theorem Accounted.loops {t : State} (h : Accounted s) (hmissed : t.missed = s.missed)
    (hsession : t.session = s.session) (hch : t.ch = s.ch) (hlog : t.log = s.log)
    (hpublished : t.published = s.published)
    (howes : ∀ e ∈ s.published, s.loop.Owes s.pending e →
      t.loop.Owes t.pending e ∨ Settled t.log e)
    (hloop : t.loop.Ok t.log) : Accounted t := by
  refine ⟨fun e he => ?_, fun e he => ?_, hloop⟩
  · rw [hpublished] at he
    rw [hlog]
    exact h.writes e he
  · rw [hpublished] at he
    rw [Traced, hmissed, hsession, hch]
    rcases h.traced e he with hplace | hplace | hplace | hplace | hsettled
    · exact Or.inl hplace
    · exact Or.inr (Or.inl hplace)
    · exact Or.inr (Or.inr (Or.inl hplace))
    · exact Or.inr (Or.inr (Or.inr (howes e he hplace)))
    · refine Or.inr (Or.inr (Or.inr (Or.inr ?_)))
      rwa [Settled, hlog]

theorem Accounted.receive (h : Accounted s) (hst : step s .receive = some s') : Accounted s' := by
  simp only [step] at hst
  split at hst
  · rename_i d ch hselect hch
    obtain rfl := Option.some.inj hst
    refine ⟨h.writes, fun e he => ?_, ?_⟩
    · have htraced := h.traced e he
      rw [Traced, hch, hselect] at htraced
      rw [Traced, hselect]
      rcases htraced with hmissed | hqueue | hmem | howes | hsettled
      · exact Or.inl hmissed
      · exact Or.inr (Or.inl hqueue)
      · rcases List.mem_cons.1 hmem with rfl | hmem
        · exact Or.inr (Or.inr (Or.inr (Or.inl (Finset.mem_insert_self _ _))))
        · exact Or.inr (Or.inr (Or.inl hmem))
      · exact Or.inr (Or.inr (Or.inr (Or.inl (Finset.mem_insert_of_mem howes))))
      · exact Or.inr (Or.inr (Or.inr (Or.inr hsettled)))
    · dsimp only
      rw [hselect]
      exact trivial
  · cases hst

theorem Accounted.fire {order : List Backend} (h : Accounted s)
    (hst : step s (.fire order) = some s') : Accounted s' := by
  obtain ⟨⟨hselect, -, horder⟩, hst⟩ := Option.ite_none_right_eq_some.1 hst
  obtain rfl := Option.some.inj hst
  refine h.loops rfl rfl rfl rfl rfl (fun e _ howes => Or.inl ?_) trivial
  rw [hselect] at howes
  exact horder.mem.2 howes

theorem Accounted.visit {k : RoutingKey} {t : ℕ} (h : Accounted s)
    (hst : step s (.visit k t) = some s') : Accounted s' := by
  simp only [step] at hst
  split at hst
  · rename_i b tr todo hloop
    obtain ⟨⟨ht, hk⟩, hst⟩ := Option.ite_none_right_eq_some.1 hst
    obtain ⟨entry, hentry, rfl⟩ := Option.map_eq_some_iff.1 hst
    have hranging : SharedCache.Ranging s.log 0 (.invalidateBackend b) tr none [] := by
      have hok := h.loop
      rwa [hloop] at hok
    refine h.loops rfl rfl rfl rfl rfl (fun e _ howes => Or.inl ?_) ?_
    · rw [hloop] at howes
      exact howes
    · have hvisited := hranging.visit ht hk hentry
      simp only [SharedCache.Job.deletes, SharedCache.Job.lists, decide_eq_true_eq,
        Bool.false_eq_true, if_false] at hvisited
      exact hvisited
  · cases hst

theorem Accounted.loopStep (h : Accounted s) (hst : loopStep s = some s') : Accounted s' := by
  unfold Listening.loopStep at hst
  split at hst
  · rename_i b todo hloop
    obtain rfl := Option.some.inj hst
    refine h.loops rfl rfl rfl rfl rfl (fun e he howes => Or.inl ?_)
      (SharedCache.ranging_begin s.log 0 _)
    rw [hloop] at howes
    rcases List.mem_cons.1 howes with hb | htodo
    · exact Or.inr ⟨hb, h.writes e he⟩
    · exact Or.inl htodo
  · rename_i b tr k todo hloop
    obtain rfl := Option.some.inj hst
    have hranging : SharedCache.Ranging s.log 0 (.invalidateBackend b) tr (some k) [] := by
      have hok := h.loop
      rwa [hloop] at hok
    have hwritten := h.write (k, none)
    refine hwritten.loops rfl rfl rfl rfl rfl (fun e _ howes => Or.inl ?_) hranging.delete
    dsimp only at howes
    rw [hloop] at howes
    exact howes
  · rename_i b tr todo hloop
    obtain ⟨hcomplete, hst⟩ := Option.ite_none_right_eq_some.1 hst
    obtain rfl := Option.some.inj hst
    have hranging : SharedCache.Ranging s.log 0 (.invalidateBackend b) tr none [] := by
      have hok := h.loop
      rwa [hloop] at hok
    refine h.loops rfl rfl rfl rfl rfl (fun e _ howes => ?_) trivial
    rw [hloop] at howes
    rcases howes with htodo | ⟨hb, hle⟩
    · exact Or.inl htodo
    · have hpurged := (hranging.finish hcomplete.2).purged.mono hle
      simp only [SharedCache.Job.deletes, decide_eq_true_eq] at hpurged
      exact Or.inr (by rwa [Settled, hb])
  · rename_i hloop
    obtain rfl := Option.some.inj hst
    refine h.loops rfl rfl rfl rfl rfl (fun e _ howes => ?_) trivial
    rw [hloop] at howes
    cases howes
  · cases hst
  · cases hst

/-! ## Runs -/

theorem Accounted.step (h : Accounted s) (hst : step s a = some s') : Accounted s' := by
  cases a with
  | publish b => exact h.publish hst
  | cancel =>
    obtain rfl := Option.some.inj hst
    exact h.passes ⟨rfl, rfl, rfl, rfl, fun _ he => he⟩
  | session ok => exact h.passes (passes_of_sessionStep hst)
  | receive => exact h.receive hst
  | fire order => exact h.fire hst
  | visit k t => exact h.visit hst
  | loop => exact h.loopStep hst
  | stop =>
    obtain ⟨-, hst⟩ := Option.ite_none_right_eq_some.1 hst
    obtain rfl := Option.some.inj hst
    exact h.loops rfl rfl rfl rfl rfl (fun _ _ _ => Or.inl trivial) trivial
  | write w =>
    obtain rfl := Option.some.inj hst
    exact h.write w

/-! ## What is missed -/

/-- A session that is notified of what is published. -/
def Session.listens : Session → Bool
  | .wait _ | .callback _ _ => true
  | _ => false

/-- A step that misses nothing: what is published finds a session that
listens, a session that is lost has nothing left to pass on, and the callback
finds room in the channel. -/
def attentive (s : State) : Action → Bool
  | .publish _ => s.session.listens
  | .session ok =>
    match s.session with
    | .wait queue => ok || queue.isEmpty
    | .callback _ _ => s.ch.length < chCap
    | _ => true
  | _ => true

/-- What is added to what was missed. -/
theorem missed_of_append {missed ms : List Event} {b : Bool} (h : ms = [] ↔ b = true) :
    missed <+: missed ++ ms ∧ (missed ++ ms = missed ↔ b = true) :=
  ⟨List.prefix_append _ _, List.append_right_eq_self.trans h⟩

/-- What is missed stays missed, and a step adds to it unless it is
attentive. -/
theorem missed_step (hst : step s a = some s') :
    s.missed <+: s'.missed ∧ (s'.missed = s.missed ↔ attentive s a = true) := by
  have hsame {missed : List Event} {b : Bool} (hb : b = true) :
      missed <+: missed ∧ (missed = missed ↔ b = true) := ⟨List.prefix_rfl, iff_of_true rfl hb⟩
  cases a with
  | publish b =>
    simp only [step, Option.some.injEq] at hst
    subst hst
    cases hsession : s.session with
    | wait | callback =>
      refine hsame ?_
      simp only [attentive, hsession, Session.listens]
    | check | connect | listen | reconnect | returned =>
      refine missed_of_append (iff_of_false (List.cons_ne_nil _ _) ?_)
      simp only [attentive, hsession, Session.listens]
      exact Bool.false_ne_true
  | session ok =>
    simp only [step, sessionStep] at hst
    cases hsession : s.session with
    | wait queue =>
      simp only [hsession] at hst
      simp only [attentive, hsession]
      cases ok with
      | true =>
        cases queue with
        | nil => cases hst
        | cons e queue =>
          obtain rfl := Option.some.inj hst
          exact hsame rfl
      | false =>
        obtain rfl := Option.some.inj hst
        exact missed_of_append (by simp)
    | callback e queue =>
      simp only [hsession] at hst
      simp only [attentive, hsession]
      split at hst
      · rename_i hroom
        obtain rfl := Option.some.inj hst
        exact hsame (decide_eq_true hroom)
      · rename_i hfull
        obtain rfl := Option.some.inj hst
        exact missed_of_append (iff_of_false (List.cons_ne_nil _ _) (by simpa using hfull))
    | check =>
      simp only [hsession, Option.some.injEq] at hst
      subst hst
      exact hsame (by simp only [attentive, hsession])
    | connect | listen =>
      simp only [hsession] at hst
      obtain ⟨-, hst⟩ := Option.ite_none_left_eq_some.1 hst
      obtain rfl := Option.some.inj hst
      exact hsame (by simp only [attentive, hsession])
    | reconnect =>
      simp only [hsession] at hst
      split at hst
      · obtain rfl := Option.some.inj hst
        exact hsame (by simp only [attentive, hsession])
      · obtain ⟨-, hst⟩ := Option.ite_none_right_eq_some.1 hst
        obtain rfl := Option.some.inj hst
        exact hsame (by simp only [attentive, hsession])
    | returned =>
      simp only [hsession] at hst
      cases hst
  | cancel | write =>
    obtain rfl := Option.some.inj hst
    exact hsame rfl
  | fire | stop =>
    obtain ⟨-, hst⟩ := Option.ite_none_right_eq_some.1 hst
    obtain rfl := Option.some.inj hst
    exact hsame rfl
  | receive =>
    simp only [step] at hst
    split at hst
    · obtain rfl := Option.some.inj hst
      exact hsame rfl
    · cases hst
  | visit k t =>
    simp only [step] at hst
    split at hst
    · obtain ⟨-, hst⟩ := Option.ite_none_right_eq_some.1 hst
      obtain ⟨entry, -, rfl⟩ := Option.map_eq_some_iff.1 hst
      exact hsame rfl
    · cases hst
  | loop =>
    simp only [step, Listening.loopStep] at hst
    split at hst
    · obtain rfl := Option.some.inj hst
      exact hsame rfl
    · obtain rfl := Option.some.inj hst
      exact hsame rfl
    · obtain ⟨-, hst⟩ := Option.ite_none_right_eq_some.1 hst
      obtain rfl := Option.some.inj hst
      exact hsame rfl
    · obtain rfl := Option.some.inj hst
      exact hsame rfl
    · cases hst
    · cases hst

/-- **What is announced is carried out or missed.** However the steps of the
session, of the loop, of those who publish and of those who write to the cache
interleave: nothing is missed exactly if what is published always finds a
session that listens, no session is lost with something left to pass on, and
the channel is never full. Once nothing is under way, an announcement was
missed, or every entry with the backend that is in the cache was stored after
the announcement was published. -/
theorem stored_since_of_published {log : List (RoutingKey × Option CacheEntry)}
    {as : List Action} (hrun : Run.exec step (State.start log) as = some s) :
    (s.missed = [] ↔ Run.Meets step (fun t a => attentive t a = true) (State.start log) as) ∧
    (s.AtRest → ∀ e ∈ s.published, e ∈ s.missed ∨
      ∀ k entry, value s.log k = some entry → entry.backend = e.backend →
        (k, some entry) ∈ s.log.drop e.writes) := by
  have h : Accounted s :=
    Run.exec_invariant_of_forall (fun _ _ _ h hst => Accounted.step h hst) (accounted_start log)
      hrun
  refine ⟨⟨fun hmissed => ?_, fun hmeets => ?_⟩, fun hrest e he => ?_⟩
  · by_contra hmeets
    refine Run.exec_of_not_meets (I := fun t => t.missed = []) (J := fun t => t.missed ≠ [])
      (fun t a t' ht ha hst => ?_) (fun t a t' ht ha hst => ?_) (fun t a t' ht hst => ?_) rfl hmeets
      hrun hmissed
    · rw [(missed_step hst).2.2 ha, ht]
    · intro hnone
      exact ha ((missed_step hst).2.1 (hnone.trans ht.symm))
    · intro hnone
      have hprefix := (missed_step hst).1
      rw [hnone] at hprefix
      exact ht (List.prefix_nil.1 hprefix)
  · exact Run.exec_invariant (I := fun t => t.missed = [])
      (fun t a t' ht ha hst => ((missed_step hst).2.2 ha).trans ht) rfl hmeets hrun
  · rcases h.traced e he with hmissed | hqueue | hch | howes | hsettled
    · exact Or.inl hmissed
    · rw [hrest.session] at hqueue
      cases hqueue
    · rw [hrest.ch] at hch
      cases hch
    · rw [hrest.loop, hrest.pending] at howes
      cases howes
    · exact Or.inr hsettled

/-- `u` is mapped to the backend before it is published, `v` before the timer
fires, and `w` while the loop goes through the cache. -/
def announcing : List Action :=
  [.session true, .session true, .session true, .publish "b", .session true,
    .write ("v", some ⟨"b", 5⟩), .session true, .receive, .fire ["b"], .loop, .visit "u" 2, .loop,
    .write ("w", some ⟨"b", 9⟩), .visit "v" 3, .loop, .loop, .loop]

/-- The mapping of `w` alone is left, which is from after the announcement. -/
theorem stored_since_of_published_debounced :
    ∃ s : State, Run.exec step (State.start [("u", some ⟨"b", 5⟩)]) announcing = some s ∧
      s.missed = [] ∧ value s.log "u" = none ∧ value s.log "v" = none ∧
      value s.log "w" = some ⟨"b", 9⟩ ∧ ("w", some ⟨"b", 9⟩) ∈ s.log.drop 1 := by
  obtain ⟨s, hrun, hpublished, hmissed, hrest, hu, hv, hw⟩ : ∃ s : State,
      Run.exec step (State.start [("u", some ⟨"b", 5⟩)]) announcing = some s ∧
      s.published = [⟨"b", 1⟩] ∧ s.missed = [] ∧ s.AtRest ∧ value s.log "u" = none ∧
      value s.log "v" = none ∧ value s.log "w" = some ⟨"b", 9⟩ :=
    ⟨_, rfl, rfl, rfl, ⟨rfl, rfl, rfl, rfl⟩, rfl, rfl, rfl⟩
  have hevent : (⟨"b", 1⟩ : Event) ∈ s.published := hpublished ▸ List.mem_cons_self
  rcases (stored_since_of_published hrun).2 hrest _ hevent with hlost | hsince
  · rw [hmissed] at hlost
    cases hlost
  · exact ⟨s, hrun, hmissed, hu, hv, hw, hsince "w" _ hw rfl⟩

end Listening

end StickyProxy
