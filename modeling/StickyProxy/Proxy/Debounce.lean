import StickyProxy.Common.Run
import StickyProxy.Proxy.Model.Notifier
/-!
# No event is stranded

The loop has its pending backends, a timer and the channel of the timer to
keep in step. A backend is pending from when it is received until the firing
that invalidates it is over, and whenever the loop waits, the timer is armed
if and only if something is pending. What the loop does besides leaves the
cache alone.
-/

namespace StickyProxy

namespace Notifier

variable {s s' : Subscriber} {a : Action} {b : Backend} {received invalidated : List Backend}

/-! ## What has been received and invalidated -/

def recordReceived (received : List Backend) : Action → List Backend
  | .receive b => received ++ [b]
  | .clear => []
  | _ => received

def recordInvalidated (invalidated : List Backend) : Action → List Backend
  | .invalidate b => invalidated ++ [b]
  | .fire _ => []
  | _ => invalidated

/-- The backends received since the last firing. -/
def receivedIn (acts : List Action) : List Backend := acts.foldl recordReceived []

/-- The backends invalidated at the last firing, or so far at this one. -/
def invalidatedIn (acts : List Action) : List Backend := acts.foldl recordInvalidated []

/-! ## One step -/

/-- What a step does, and when it can be taken. -/
inductive Steps (s : Subscriber) : Action → Subscriber → Prop where
  | announce {b : Backend} {ch : List Backend} : Steps s (.announce b) { s with ch := ch }
  | receiveArmed {b : Backend} {rest : List Backend} :
      s.phase = .select → s.timer = true →
      Steps s (.receive b) { s with ch := rest, pending := insert b s.pending }
  | receive {b : Backend} {rest : List Backend} :
      s.phase = .select → s.timer = false →
      Steps s (.receive b) { s with
        ch := rest, pending := insert b s.pending, timer := true, timerC := true, armed := true }
  | fire {order : List Backend} :
      s.phase = .select → s.timerC = true → Enumerates order s.pending →
      Steps s (.fire order) { s with phase := .firing order, armed := false }
  | invalidate {b : Backend} {todo : List Backend} :
      s.phase = .firing (b :: todo) →
      Steps s (.invalidate b) { s with
        cache := s.cache.invalidateBackend b, phase := .firing todo }
  | clear : s.phase = .firing [] →
      Steps s .clear { s with pending := ∅, timer := false, timerC := false, phase := .select }
  | done : s.phase = .select → Steps s .done { s with phase := .stopped, armed := false }
  | other {cache : UserCache} : Steps s (.other cache) { s with cache := cache }

theorem steps_of_step (h : step s a = some s') : Steps s a s' := by
  cases a with
  | announce b =>
    obtain rfl := Option.some.inj h
    split
    · exact .announce
    · exact .announce
  | receive b =>
    simp only [step] at h
    split at h
    · rename_i b' rest hphase _
      obtain ⟨rfl, hs'⟩ := Option.ite_none_right_eq_some.1 h
      obtain rfl := Option.some.inj hs'
      split
      · rename_i htimer
        exact .receiveArmed hphase htimer
      · rename_i htimer
        exact .receive hphase (Bool.eq_false_iff.2 htimer)
    · cases h
  | fire order =>
    obtain ⟨⟨hphase, htimerC, -, horder⟩, h⟩ := Option.ite_none_right_eq_some.1 h
    obtain rfl := Option.some.inj h
    exact .fire hphase htimerC horder
  | invalidate b =>
    simp only [step] at h
    split at h
    · rename_i b' todo hphase
      obtain ⟨rfl, hs'⟩ := Option.ite_none_right_eq_some.1 h
      obtain rfl := Option.some.inj hs'
      exact .invalidate hphase
    · cases h
  | clear =>
    obtain ⟨hphase, h⟩ := Option.ite_none_right_eq_some.1 h
    obtain rfl := Option.some.inj h
    exact .clear hphase
  | done =>
    obtain ⟨hphase, h⟩ := Option.ite_none_right_eq_some.1 h
    obtain rfl := Option.some.inj h
    exact .done hphase
  | other cache =>
    obtain rfl := Option.some.inj h
    exact .other

/-! ## The variables in step -/

/-- The loop is where these backends have been received since the last
firing, and those invalidated at it. -/
structure InStep (s : Subscriber) (received invalidated : List Backend) : Prop where
  pending_eq : s.pending = received.toFinset
  timer_iff : s.timer = true ↔ s.pending.Nonempty
  timerC_eq : s.timerC = s.timer
  armed_eq : s.phase = .select → s.armed = s.timer
  firing : ∀ todo, s.phase = .firing todo → Enumerates (invalidated ++ todo) s.pending
  spent : ∀ todo, s.phase = .firing todo → s.armed = false

theorem inStep_start (cache : UserCache) : InStep (.start cache) [] [] where
  pending_eq := rfl
  timer_iff := iff_of_false Bool.false_ne_true Finset.not_nonempty_empty
  timerC_eq := rfl
  armed_eq _ := rfl
  firing todo h := by cases h
  spent todo h := by cases h

theorem toFinset_append_singleton (l : List Backend) (b : Backend) :
    (l ++ [b]).toFinset = insert b l.toFinset := by
  rw [List.toFinset_append, List.toFinset_cons, List.toFinset_nil, insert_empty_eq,
    Finset.union_comm, ← Finset.insert_eq]

theorem InStep.step (h : InStep s received invalidated) (hst : step s a = some s') :
    InStep s' (recordReceived received a) (recordInvalidated invalidated a) := by
  cases steps_of_step hst with
  | announce | other =>
    exact ⟨h.pending_eq, h.timer_iff, h.timerC_eq, h.armed_eq, h.firing, h.spent⟩
  | receiveArmed hphase htimer =>
    refine ⟨?_, iff_of_true htimer (Finset.insert_nonempty _ _), h.timerC_eq, h.armed_eq, ?_,
      h.spent⟩
    · exact (congrArg (insert _) h.pending_eq).trans (toFinset_append_singleton _ _).symm
    · intro todo hfiring
      cases hphase.symm.trans hfiring
  | receive hphase htimer =>
    have hwaits : ∀ todo, s.phase ≠ .firing todo := fun todo hfiring => by
      cases hphase.symm.trans hfiring
    refine ⟨?_, iff_of_true rfl (Finset.insert_nonempty _ _), rfl, fun _ => rfl,
      fun todo hfiring => absurd hfiring (hwaits todo),
      fun todo hfiring => absurd hfiring (hwaits todo)⟩
    exact (congrArg (insert _) h.pending_eq).trans (toFinset_append_singleton _ _).symm
  | fire hphase _ horder =>
    refine ⟨h.pending_eq, h.timer_iff, h.timerC_eq, fun hselect => (by cases hselect), ?_,
      fun _ _ => rfl⟩
    intro todo hfiring
    obtain rfl := Phase.firing.inj hfiring
    exact horder
  | invalidate hphase =>
    refine ⟨h.pending_eq, h.timer_iff, h.timerC_eq, fun hselect => (by cases hselect), ?_,
      fun _ _ => h.spent _ hphase⟩
    intro todo hfiring
    obtain rfl := Phase.firing.inj hfiring
    have hleft := h.firing _ hphase
    rw [List.append_cons] at hleft
    exact hleft
  | clear hphase =>
    exact ⟨rfl, iff_of_false Bool.false_ne_true Finset.not_nonempty_empty, rfl,
      fun _ => h.spent _ hphase, fun _ hfiring => (by cases hfiring),
      fun _ hfiring => (by cases hfiring)⟩
  | done _ =>
    exact ⟨h.pending_eq, h.timer_iff, h.timerC_eq, fun hselect => (by cases hselect),
      fun _ hfiring => (by cases hfiring), fun _ hfiring => (by cases hfiring)⟩

/-- **The variables stay in step.** -/
theorem inStep_of_exec {cache : UserCache} {acts : List Action}
    (hrun : Run.exec step (.start cache) acts = some s) :
    InStep s (receivedIn acts) (invalidatedIn acts) := by
  induction acts using List.reverseRecOn generalizing s with
  | nil =>
    obtain rfl := Option.some.inj hrun
    exact inStep_start cache
  | append_singleton acts a ih =>
    obtain ⟨t, ht, hst⟩ := Run.exec_append_eq_some.1 hrun
    obtain ⟨t', hlast, ht'⟩ := Run.exec_cons_eq_some.1 hst
    obtain rfl := Option.some.inj ht'
    rw [receivedIn, invalidatedIn, List.foldl_append, List.foldl_append]
    exact (ih ht).step hlast

/-! ## The cache -/

/-- What is left in the cache by a step of the loop: everything, but for
the entries of a backend it invalidates. -/
theorem lookup_invalidateBackend (c : UserCache) (b : Backend) (k : RoutingKey)
    (entry : CacheEntry) :
    (c.invalidateBackend b).data.lookup k = some entry ↔
      c.data.lookup k = some entry ∧ entry.backend ≠ b := by
  constructor
  · intro h
    exact ⟨UserCache.lookup_of_invalidateBackend h, UserCache.ne_of_invalidateBackend h⟩
  · rintro ⟨h, hne⟩
    rw [UserCache.invalidateBackend, Table.lookup_mapPartial, h, Option.bind_some, if_neg hne]

/-- The action is one of the loop or the subscription. -/
def Action.isOwn : Action → Bool
  | .other _ => false
  | _ => true

theorem InStep.mem_of_invalidate (h : InStep s received invalidated)
    (hst : Notifier.step s (.invalidate b) = some s') : b ∈ received := by
  cases steps_of_step hst with
  | invalidate hphase =>
    have hmem : b ∈ s.pending := (h.firing _ hphase).mem.1
      (List.mem_append_right _ List.mem_cons_self)
    rw [h.pending_eq] at hmem
    exact List.mem_toFinset.1 hmem

/-- An entry that a step of the loop removes is of a backend that was
announced. -/
theorem InStep.lookup_or_mem (h : InStep s received invalidated)
    (hst : Notifier.step s a = some s') (hown : a.isOwn = true) {k : RoutingKey}
    {entry : CacheEntry} (hentry : s.cache.data.lookup k = some entry) :
    s'.cache.data.lookup k = some entry ∨
      a = .invalidate entry.backend ∧ entry.backend ∈ received := by
  have hsteps := steps_of_step hst
  cases hsteps with
  | @invalidate b todo hphase =>
    by_cases hb : entry.backend = b
    · subst hb
      exact .inr ⟨rfl, h.mem_of_invalidate hst⟩
    · exact .inl ((lookup_invalidateBackend s.cache b k entry).2 ⟨hentry, hb⟩)
  | other => cases hown
  | _ => exact .inl hentry

/-- The firing is enabled when the loop waits with something pending. -/
theorem InStep.fire_enabled (h : InStep s received invalidated) (hphase : s.phase = .select)
    (hpending : s.pending.Nonempty) {order : List Backend} (horder : Enumerates order s.pending) :
    (Notifier.step s (.fire order)).isSome := by
  have htimer : s.timer = true := h.timer_iff.2 hpending
  rw [Notifier.step, if_pos ⟨hphase, h.timerC_eq.trans htimer, (h.armed_eq hphase).trans htimer,
    horder⟩]
  rfl

/-- **No event is stranded.** After any steps of the subscription, the loop,
its timer and others that write to the cache, in any order, but not while an
`InvalidateBackend` goes through it:

* whenever the loop waits, the timer is armed if and only if something is
  pending, and then it can fire;
* pending are the backends received since the last firing;
* when a firing is over, it has invalidated each of them once, and no other;
* invalidating a backend takes the entries of that backend out of the
  cache, and no step of the loop takes out any entry but of a backend
  received since the last firing. -/
theorem debounced_invalidation_exact (cache : UserCache) (acts : List Action) (s : Subscriber)
    (hrun : Run.exec step (.start cache) acts = some s) :
    (s.phase = .select → (s.armed = true ↔ s.pending.Nonempty) ∧ s.timer = s.armed ∧
      s.timerC = s.armed ∧ (s.pending.Nonempty → ∀ order, Enumerates order s.pending →
        (step s (.fire order)).isSome)) ∧
    s.pending = (receivedIn acts).toFinset ∧
    (s.phase = .firing [] → (invalidatedIn acts).Nodup ∧
      ∀ b, b ∈ invalidatedIn acts ↔ b ∈ receivedIn acts) ∧
    (∀ b s', step s (.invalidate b) = some s' → ∀ k entry,
      s'.cache.data.lookup k = some entry ↔
        s.cache.data.lookup k = some entry ∧ entry.backend ≠ b) ∧
    ∀ a s', step s a = some s' → a.isOwn = true → ∀ k entry,
      s.cache.data.lookup k = some entry → s'.cache.data.lookup k = some entry ∨
        a = .invalidate entry.backend ∧ entry.backend ∈ receivedIn acts := by
  have h := inStep_of_exec hrun
  refine ⟨fun hphase => ?_, h.pending_eq, fun hphase => ?_, fun b s' hst => ?_,
    fun a s' hst hown k entry hentry => h.lookup_or_mem hst hown hentry⟩
  · have harmed := h.armed_eq hphase
    refine ⟨by rw [harmed, h.timer_iff], harmed.symm, h.timerC_eq.trans harmed.symm, ?_⟩
    intro hpending order horder
    exact h.fire_enabled hphase hpending horder
  · have horder := h.firing [] hphase
    rw [List.append_nil, h.pending_eq] at horder
    exact ⟨horder.1, fun b => by rw [← List.mem_toFinset, horder.2, List.mem_toFinset]⟩
  · cases steps_of_step hst with
    | invalidate _ => exact lookup_invalidateBackend s.cache b

/-- Two backends, one of them announced twice, and a firing up to its end. -/
def oneFiring : List Action :=
  [.announce "b1", .announce "b2", .receive "b1", .announce "b1", .receive "b2", .receive "b1",
    .fire ["b2", "b1"], .invalidate "b2", .invalidate "b1"]

/-- Entries of one backend that is announced and one that is not. -/
def twoEntries : UserCache := ⟨100, Table.insertAll ∅ [("u", ⟨"b1", 9⟩), ("v", ⟨"b3", 9⟩)]⟩

theorem debounced_invalidation_oneFiring :
    ∃ s, Run.exec step (.start twoEntries) oneFiring = some s ∧ s.phase = .firing [] ∧
      s.cache.data.lookup "u" = none ∧ s.cache.data.lookup "v" = some ⟨"b3", 9⟩ ∧
      (invalidatedIn oneFiring).Nodup ∧
      ∀ b, b ∈ invalidatedIn oneFiring ↔ b ∈ receivedIn oneFiring := by
  have hend : (Run.exec step (.start twoEntries) oneFiring).map (fun s =>
      (s.phase, s.cache.data.lookup "u", s.cache.data.lookup "v")) =
        some (.firing [], none, some ⟨"b3", 9⟩) := by decide +kernel
  obtain ⟨s, hrun, hs⟩ := Option.map_eq_some_iff.1 hend
  obtain ⟨hphase, hcache⟩ := Prod.mk.inj hs
  obtain ⟨hu, hv⟩ := Prod.mk.inj hcache
  exact ⟨s, hrun, hphase, hu, hv,
    (debounced_invalidation_exact twoEntries oneFiring s hrun).2.2.1 hphase⟩

end Notifier

end StickyProxy
