import StickyProxy.Common.Pool
import StickyProxy.Proxy.Model.SharedCache
/-!
# What going through the cache comes to

`InvalidateBackend` goes through the map while others write to it, and the
deletion of a key that it has seen with the backend is a step of its own.
Still, once it has returned, an entry with that backend was stored after it
began: any other was there all the time, so it was handed out, and deleted. A
request that looks after that cannot be sent to the backend by an entry from
before. `UsersForBackend` lists every key that has an entry with the backend
all the time, and only keys that had one at some time.
-/

namespace StickyProxy

open Traversal

namespace SharedCache

variable {s s' : SharedCache} {a : Action} {c c' : Call} {i : ℕ} {job : Job}
  {log ws : List (RoutingKey × Option CacheEntry)} {now now' : Time} {tr : Traversal RoutingKey}
  {found : List RoutingKey}

/-! ## A step -/

/-- Every step: writes are added, the clock does not go back, and one call
moves on. -/
inductive Steps (s : SharedCache) : Action → SharedCache → Prop
  | tick (d : ℕ) : Steps s (.tick d) { s with clock := s.clock + d }
  | next {i : ℕ} {c c' : Call} {ws : List (RoutingKey × Option CacheEntry)} :
      s.calls[i]? = some c → s.next c = some (ws, c') →
      Steps s (.next i) { s with log := s.log ++ ws, calls := s.calls.set i c' }
  | visit {i : ℕ} {job : Job} {tr : Traversal RoutingKey} {found : List RoutingKey}
      {k : RoutingKey} {t : ℕ} {entry : CacheEntry} :
      s.calls[i]? = some (.ranging job tr none found) → Covers s.log tr t → k ∉ tr.keys →
      valueAt s.log t k = some entry →
      Steps s (.visit i k t) { s with calls := s.calls.set i (.ranging job (tr.visit k t)
        (if job.deletes entry then some k else none)
        (if job.lists s.clock entry then found ++ [k] else found)) }

theorem steps_of_step (h : step s a = some s') : Steps s a s' := by
  cases a with
  | tick d =>
    obtain rfl := Option.some.inj h
    exact .tick d
  | next i =>
    obtain ⟨c, hc, h⟩ := Option.bind_eq_some_iff.1 h
    obtain ⟨⟨ws, c'⟩, hnext, rfl⟩ := Option.map_eq_some_iff.1 h
    exact .next hc hnext
  | visit i k t =>
    obtain ⟨c, hc, h⟩ := Option.bind_eq_some_iff.1 h
    obtain ⟨c', hvisit, rfl⟩ := Option.map_eq_some_iff.1 h
    unfold SharedCache.visit at hvisit
    split at hvisit
    · obtain ⟨hok, hvisit⟩ := Option.ite_none_right_eq_some.1 hvisit
      obtain ⟨entry, hentry, rfl⟩ := Option.map_eq_some_iff.1 hvisit
      exact .visit hc hok.1 hok.2 hentry
    · cases hvisit

/-! ## Calls that go through the map -/

/-- **A call of `Range` under way**: what it has seen and is to delete was
deleted since it began, or is deleted next; it has listed what it has seen
and is to list, and nothing else. -/
structure Ranging (log : List (RoutingKey × Option CacheEntry)) (now : Time) (job : Job)
    (tr : Traversal RoutingKey) (delete : Option RoutingKey) (found : List RoutingKey) :
    Prop where
  valid : Valid log tr
  deleted : ∀ k t entry, (k, t) ∈ tr.visited → valueAt log t k = some entry →
    job.deletes entry = true → delete = some k ∨ (k, none) ∈ log.drop tr.start
  listed : ∀ k t entry, (k, t) ∈ tr.visited → valueAt log t k = some entry →
    job.lists now entry = true → k ∈ found
  sound : ∀ k ∈ found, ∃ t entry, (k, t) ∈ tr.visited ∧ valueAt log t k = some entry ∧
    ∃ before, job.lists before entry = true
  nodup : found.Nodup

/-- **One that has ended.** -/
structure Ranged (log : List (RoutingKey × Option CacheEntry)) (job : Job)
    (tr : Traversal RoutingKey) (found : List RoutingKey) (stop : ℕ) (now : Time) : Prop where
  start_le : tr.start ≤ stop
  stop_le : stop ≤ log.length
  purged : Purged log tr.start (job.deletes · = true)
  listed : ∀ k, (∀ t, tr.start ≤ t → t ≤ stop → ∃ entry, valueAt log t k = some entry ∧
    job.lists now entry = true) → k ∈ found
  sound : ∀ k ∈ found, ∃ t entry, tr.start ≤ t ∧ t ≤ stop ∧ valueAt log t k = some entry ∧
    ∃ before, job.lists before entry = true
  nodup : found.Nodup

/-- What is known of a call. -/
def Call.Ok (log : List (RoutingKey × Option CacheEntry)) (now : Time) : Call → Prop
  | .ranging job tr delete found => Ranging log now job tr delete found
  | .ranged job tr found stop now => Ranged log job tr found stop now
  | _ => True

/-- What has expired later may not have expired before. -/
theorem Job.lists_of_le {entry : CacheEntry} (h : now ≤ now')
    (hlists : job.lists now' entry = true) : job.lists now entry = true := by
  cases job with
  | usersForBackend b =>
    obtain ⟨hb, hexp⟩ := of_decide_eq_true hlists
    exact decide_eq_true ⟨hb, h.trans hexp⟩
  | invalidateBackend | cleanup => cases hlists

/-- Later writes and a later clock change nothing of it. -/
theorem Ranging.grow {delete : Option RoutingKey} (h : Ranging log now job tr delete found)
    (ws : List (RoutingKey × Option CacheEntry)) (hnow : now ≤ now') :
    Ranging (log ++ ws) now' job tr delete found where
  valid := h.valid.append ws
  deleted k t entry hvisited hentry hdeletes := by
    rw [valueAt_append ws (h.valid.visited _ hvisited).2] at hentry
    refine (h.deleted k t entry hvisited hentry hdeletes).imp_right fun hmem => ?_
    rw [List.drop_append_of_le_length h.valid.start]
    exact List.mem_append_left _ hmem
  listed k t entry hvisited hentry hlists := by
    rw [valueAt_append ws (h.valid.visited _ hvisited).2] at hentry
    exact h.listed k t entry hvisited hentry (Job.lists_of_le hnow hlists)
  sound k hk := by
    obtain ⟨t, entry, hvisited, hentry, hlists⟩ := h.sound k hk
    refine ⟨t, entry, hvisited, ?_, hlists⟩
    rwa [valueAt_append ws (h.valid.visited _ hvisited).2]
  nodup := h.nodup

theorem Ranged.grow {stop : ℕ} (h : Ranged log job tr found stop now)
    (ws : List (RoutingKey × Option CacheEntry)) : Ranged (log ++ ws) job tr found stop now where
  start_le := h.start_le
  stop_le := by
    rw [List.length_append]
    exact h.stop_le.trans (Nat.le_add_right _ _)
  purged := h.purged.append (h.start_le.trans h.stop_le) ws
  listed k hall := by
    refine h.listed k fun t hstart hstop => ?_
    obtain ⟨entry, hentry, hlists⟩ := hall t hstart hstop
    rw [valueAt_append ws (hstop.trans h.stop_le)] at hentry
    exact ⟨entry, hentry, hlists⟩
  sound k hk := by
    obtain ⟨t, entry, hstart, hstop, hentry, hlists⟩ := h.sound k hk
    refine ⟨t, entry, hstart, hstop, ?_, hlists⟩
    rwa [valueAt_append ws (hstop.trans h.stop_le)]
  nodup := h.nodup

theorem Call.Ok.grow (h : c.Ok log now) (ws : List (RoutingKey × Option CacheEntry))
    (hnow : now ≤ now') : c.Ok (log ++ ws) now' := by
  cases c with
  | ranging => exact Ranging.grow h ws hnow
  | ranged => exact Ranged.grow h ws
  | _ => exact trivial

/-! ## Their steps -/

theorem ranging_begin (log : List (RoutingKey × Option CacheEntry)) (now : Time) (job : Job) :
    Ranging log now job (begin log) none [] where
  valid := valid_begin log
  deleted _ _ _ hvisited := (List.not_mem_nil hvisited).elim
  listed _ _ _ hvisited := (List.not_mem_nil hvisited).elim
  sound _ hk := (List.not_mem_nil hk).elim
  nodup := List.nodup_nil

/-- A key is handed out, deleted next if it is to be deleted, and listed if it
is to be listed. -/
theorem Ranging.visit {k : RoutingKey} {t : ℕ} {entry : CacheEntry}
    (h : Ranging log now job tr none found) (ht : Covers log tr t) (hk : k ∉ tr.keys)
    (hentry : valueAt log t k = some entry) :
    Ranging log now job (tr.visit k t) (if job.deletes entry then some k else none)
      (if job.lists now entry then found ++ [k] else found) where
  valid := h.valid.visit ht
  deleted k' t' entry' hvisited hentry' hdeletes := by
    rcases List.mem_append.1 hvisited with hvisited | hvisited
    · exact Or.inr ((h.deleted k' t' entry' hvisited hentry' hdeletes).resolve_left nofun)
    · obtain ⟨rfl, rfl⟩ := Prod.mk.inj (List.mem_singleton.1 hvisited)
      obtain rfl := Option.some.inj (hentry.symm.trans hentry')
      exact Or.inl (if_pos hdeletes)
  listed k' t' entry' hvisited hentry' hlists := by
    rcases List.mem_append.1 hvisited with hvisited | hvisited
    · have hmem := h.listed k' t' entry' hvisited hentry' hlists
      split
      · exact List.mem_append_left _ hmem
      · exact hmem
    · obtain ⟨rfl, rfl⟩ := Prod.mk.inj (List.mem_singleton.1 hvisited)
      obtain rfl := Option.some.inj (hentry.symm.trans hentry')
      rw [if_pos hlists]
      exact List.mem_append_right _ List.mem_cons_self
  sound k' hk' := by
    have hold (hmem : k' ∈ found) : ∃ t' entry', (k', t') ∈ (tr.visit k t).visited ∧
        valueAt log t' k' = some entry' ∧ ∃ before, job.lists before entry' = true := by
      obtain ⟨t', entry', hvisited, hrest⟩ := h.sound k' hmem
      exact ⟨t', entry', List.mem_append_left _ hvisited, hrest⟩
    split at hk'
    · rename_i hlists
      rcases List.mem_append.1 hk' with hmem | hmem
      · exact hold hmem
      · obtain rfl := List.mem_singleton.1 hmem
        exact ⟨t, entry, List.mem_append_right _ List.mem_cons_self, hentry, now, hlists⟩
    · exact hold hk'
  nodup := by
    split
    · refine List.nodup_append.2 ⟨h.nodup, List.nodup_singleton k, fun k' hk' x hx => ?_⟩
      obtain rfl := List.mem_singleton.1 hx
      rintro rfl
      obtain ⟨t', entry', hvisited, -⟩ := h.sound k' hk'
      exact hk (List.mem_map.2 ⟨_, hvisited, rfl⟩)
    · exact h.nodup

/-- The deletion. -/
theorem Ranging.delete {k : RoutingKey} (h : Ranging log now job tr (some k) found) :
    Ranging (log ++ [(k, none)]) now job tr none found := by
  have hgrown := h.grow [(k, none)] (le_refl now)
  refine { hgrown with deleted := fun k' t entry hvisited hentry hdeletes => Or.inr ?_ }
  rcases hgrown.deleted k' t entry hvisited hentry hdeletes with hnext | hmem
  · obtain rfl := Option.some.inj hnext
    rw [List.drop_append_of_le_length h.valid.start]
    exact List.mem_append_right _ List.mem_cons_self
  · exact hmem

/-- **The end**: by what `Range` promises. -/
theorem Ranging.finish (h : Ranging log now job tr none found) (hcomplete : Complete log tr) :
    Ranged log job tr found log.length now where
  start_le := h.valid.start
  stop_le := le_refl _
  purged := by
    refine hcomplete.purged h.valid fun k t entry hvisited hentry hdeletes => ?_
    exact (h.deleted k t entry hvisited hentry hdeletes).resolve_left nofun
  listed k hall := by
    have hkey : k ∈ tr.keys := by
      refine hcomplete k fun t ht hnone => ?_
      obtain ⟨entry, hentry, -⟩ := hall t ht.1 ht.2
      rw [hnone] at hentry
      cases hentry
    obtain ⟨⟨k', t⟩, hvisited, rfl⟩ := List.mem_map.1 hkey
    have ht := h.valid.visited _ hvisited
    obtain ⟨entry, hentry, hlists⟩ := hall t ht.1 ht.2
    exact h.listed k' t entry hvisited hentry hlists
  sound k hk := by
    obtain ⟨t, entry, hvisited, hentry, hlists⟩ := h.sound k hk
    have ht := h.valid.visited _ hvisited
    exact ⟨t, entry, ht.1, ht.2, hentry, hlists⟩
  nodup := h.nodup

/-! ## Runs -/

/-- The next step of a call. -/
theorem Call.Ok.next (h : c.Ok s.log s.clock) (hnext : s.next c = some (ws, c')) :
    c'.Ok (s.log ++ ws) s.clock := by
  cases c with
  | get k =>
    obtain ⟨rfl, rfl⟩ := Prod.mk.inj (Option.some.inj hnext)
    cases value s.log k <;> exact trivial
  | loaded k entry =>
    obtain ⟨rfl, rfl⟩ := Prod.mk.inj (Option.some.inj hnext)
    split <;> exact trivial
  | expired | set | store | invalidate | cleanup =>
    obtain ⟨rfl, rfl⟩ := Prod.mk.inj (Option.some.inj hnext)
    exact trivial
  | range job =>
    obtain ⟨rfl, rfl⟩ := Prod.mk.inj (Option.some.inj hnext)
    rw [List.append_nil]
    exact ranging_begin _ _ _
  | ranging job tr delete found =>
    cases delete with
    | some k =>
      obtain ⟨rfl, rfl⟩ := Prod.mk.inj (Option.some.inj hnext)
      exact Ranging.delete h
    | none =>
      obtain ⟨hcomplete, hnext⟩ := Option.ite_none_right_eq_some.1 hnext
      obtain ⟨rfl, rfl⟩ := Prod.mk.inj (Option.some.inj hnext)
      rw [List.append_nil]
      exact Ranging.finish h hcomplete.2
  | got | ranged | done => cases hnext

/-- Every call is in order. -/
def Ok (s : SharedCache) : Prop := ∀ c ∈ s.calls, c.Ok s.log s.clock

theorem Ok.step (h : s.Ok) (hst : Steps s a s') : s'.Ok := by
  intro d hd
  cases hst with
  | tick n =>
    have hgrown := (h d hd).grow [] (Int.le_add_of_nonneg_right (Int.natCast_nonneg n))
    rwa [List.append_nil] at hgrown
  | @next i c c' ws hc hnext =>
    rcases Pool.mem_or_eq_of_mem_set hd with hd | rfl
    · exact (h d hd).grow ws (le_refl _)
    · exact (h c (List.mem_of_getElem? hc)).next hnext
  | visit hc ht hk hentry =>
    rcases Pool.mem_or_eq_of_mem_set hd with hd | rfl
    · exact h d hd
    · exact Ranging.visit (h _ (List.mem_of_getElem? hc)) ht hk hentry

/-- Calls that have yet to begin are in order. -/
theorem ok_of_isNew (h : ∀ c ∈ s.calls, c.isNew = true) : s.Ok := by
  intro c hc
  have hnew := h c hc
  cases c with
  | ranging | ranged => cases hnew
  | _ => exact trivial

theorem ok_of_exec {s₀ : SharedCache} {as : List Action} (hnew : ∀ c ∈ s₀.calls, c.isNew = true)
    (hrun : Run.exec step s₀ as = some s) : s.Ok :=
  Run.exec_invariant_of_forall (fun _ _ _ h hst => h.step (steps_of_step hst)) (ok_of_isNew hnew)
    hrun

/-! ## `InvalidateBackend` -/

/-- What a `Get` that began since then has found, if it is of the kind, was
stored since the sweep began. -/
def Call.Fresh (log : List (RoutingKey × Option CacheEntry)) (n : ℕ) (job : Job) : Call → Prop
  | .loaded k entry | .got k (some entry) =>
    job.deletes entry = true → (k, some entry) ∈ log.drop n
  | _ => True

theorem Call.Fresh.grow {n : ℕ} (h : c.Fresh log n job) (hn : n ≤ log.length)
    (ws : List (RoutingKey × Option CacheEntry)) : c.Fresh (log ++ ws) n job := by
  have hmem {w : RoutingKey × Option CacheEntry} (hw : w ∈ log.drop n) :
      w ∈ (log ++ ws).drop n := by
    rw [List.drop_append_of_le_length hn]
    exact List.mem_append_left _ hw
  cases c with
  | loaded k entry => exact fun hdeletes => hmem (h hdeletes)
  | got k hit =>
    cases hit with
    | none => exact trivial
    | some entry => exact fun hdeletes => hmem (h hdeletes)
  | _ => exact trivial

/-- A `Get` finds what is in the map. -/
theorem Call.Fresh.next {n : ℕ} (h : c.Fresh s.log n job)
    (hpurged : Purged s.log n (job.deletes · = true)) (hnext : s.next c = some (ws, c')) :
    c'.Fresh s.log n job := by
  cases c with
  | get k =>
    obtain ⟨rfl, rfl⟩ := Prod.mk.inj (Option.some.inj hnext)
    cases hvalue : value s.log k with
    | none => exact trivial
    | some entry => exact fun hdeletes => hpurged k entry hvalue hdeletes
  | loaded k entry =>
    obtain ⟨rfl, rfl⟩ := Prod.mk.inj (Option.some.inj hnext)
    split
    · exact trivial
    · exact h
  | ranging job tr delete found =>
    cases delete with
    | some k =>
      obtain ⟨rfl, rfl⟩ := Prod.mk.inj (Option.some.inj hnext)
      exact trivial
    | none =>
      obtain ⟨-, hnext⟩ := Option.ite_none_right_eq_some.1 hnext
      obtain ⟨rfl, rfl⟩ := Prod.mk.inj (Option.some.inj hnext)
      exact trivial
  | expired | set | store | invalidate | cleanup | range =>
    obtain ⟨rfl, rfl⟩ := Prod.mk.inj (Option.some.inj hnext)
    exact trivial
  | got | ranged | done => cases hnext

/-- Since a sweep has ended: nothing from before is in the cache, and nothing
from before was found by the call. -/
structure Swept (n : ℕ) (job : Job) (j : ℕ) (s : SharedCache) : Prop where
  le : n ≤ s.log.length
  purged : Purged s.log n (job.deletes · = true)
  fresh : ∀ c, s.calls[j]? = some c → c.Fresh s.log n job

theorem Swept.step {n j : ℕ} (h : Swept n job j s) (hst : Steps s a s') : Swept n job j s' := by
  cases hst with
  | tick => exact ⟨h.le, h.purged, h.fresh⟩
  | @next i c c' ws hc hnext =>
    have hlen : (s.log ++ ws).length = s.log.length + ws.length := List.length_append
    refine ⟨?_, h.purged.append h.le ws, fun d hd => ?_⟩
    · have hle := h.le
      dsimp only
      omega
    · rcases Pool.getElem?_set_cases hc hd with ⟨rfl, rfl⟩ | ⟨-, hd⟩
      · exact ((h.fresh c hc).next h.purged hnext).grow h.le ws
      · exact (h.fresh d hd).grow h.le ws
  | visit hc =>
    refine ⟨h.le, h.purged, fun d hd => ?_⟩
    rcases Pool.getElem?_set_cases hc hd with ⟨rfl, rfl⟩ | ⟨-, hd⟩
    · exact trivial
    · exact h.fresh d hd

/-- **Nothing from before is left.** Whatever others do meanwhile: once a call
of `InvalidateBackend` has returned, every entry with the backend that is in
the cache was stored after the call began, and so was every one that a `Get`
finds that begins from then on. The same holds of a tick of `cleanupLoop` and
the entries that had expired. -/
theorem stored_since_of_ranged {s₀ : SharedCache} {as bs : List Action} {stop : ℕ}
    (hnew : ∀ c ∈ s₀.calls, c.isNew = true) (hrun : Run.exec step s₀ as = some s)
    (hranged : s.calls[i]? = some (.ranged job tr found stop now))
    (hrest : Run.exec step s bs = some s') :
    (∀ k entry, value s'.log k = some entry → job.deletes entry = true →
      (k, some entry) ∈ s'.log.drop tr.start) ∧
    (∀ (j : ℕ) (k : RoutingKey) (entry : CacheEntry), s.calls[j]? = some (.get k) →
      s'.calls[j]? = some (.got k (some entry)) → job.deletes entry = true →
      (k, some entry) ∈ s'.log.drop tr.start) := by
  have hended : Ranged s.log job tr found stop now :=
    (ok_of_exec hnew hrun) _ (List.mem_of_getElem? hranged)
  have hswept (j : ℕ) (hfresh : ∀ c, s.calls[j]? = some c → c.Fresh s.log tr.start job) :
      Swept tr.start job j s' :=
    Run.exec_invariant_of_forall (fun _ _ _ h hst => h.step (steps_of_step hst))
      ⟨hended.start_le.trans hended.stop_le, hended.purged, hfresh⟩ hrest
  constructor
  · refine (hswept i fun c hc => ?_).purged
    obtain rfl := Option.some.inj (hranged.symm.trans hc)
    exact trivial
  · intro j k entry hget hgot hdeletes
    refine (hswept j fun c hc => ?_).fresh _ hgot hdeletes
    obtain rfl := Option.some.inj (hget.symm.trans hc)
    exact trivial

/-- Calls that write to the cache, one that goes through it and one that
reads it. -/
def crowded (job : Job) : SharedCache :=
  ⟨100, [], 0, [.set "u" "b", .set "v" "b", .range job, .set "u" "b", .set "w" "b", .get "w"]⟩

/-- The mapping of `u` is renewed after it was handed out and before it is
deleted, and `w` is mapped to the backend while the call goes through. -/
def invalidating : List Action :=
  [.next 0, .next 0, .next 1, .next 1, .next 2, .visit 2 "u" 2, .next 3, .next 3, .next 2,
    .visit 2 "v" 2, .next 2, .next 4, .next 4, .next 2]

/-- What is left is what was mapped since. -/
theorem stored_since_of_ranged_renewed :
    ∃ s s' : SharedCache, Run.exec step (crowded (.invalidateBackend "b")) invalidating = some s ∧
      s.calls[2]? = some (.ranged (.invalidateBackend "b") ⟨2, [("u", 2), ("v", 2)]⟩ [] 6 0) ∧
      Run.exec step s [.next 5, .next 5] = some s' ∧
      s'.calls[5]? = some (.got "w" (some ⟨"b", 100⟩)) ∧
      ("w", some ⟨"b", 100⟩) ∈ s'.log.drop 2 := by
  have hrun : ∃ s s' : SharedCache,
      Run.exec step (crowded (.invalidateBackend "b")) invalidating = some s ∧
      s.calls[2]? = some (.ranged (.invalidateBackend "b") ⟨2, [("u", 2), ("v", 2)]⟩ [] 6 0) ∧
      s.calls[5]? = some (.get "w") ∧ Run.exec step s [.next 5, .next 5] = some s' ∧
      s'.calls[5]? = some (.got "w" (some ⟨"b", 100⟩)) :=
    ⟨_, _, rfl, rfl, rfl, rfl, rfl⟩
  obtain ⟨s, s', hrun, hranged, hget, hrest, hgot⟩ := hrun
  refine ⟨s, s', hrun, hranged, hrest, hgot, ?_⟩
  exact (stored_since_of_ranged (by decide) hrun hranged hrest).2 5 "w" _ hget hgot rfl

/-! ## `UsersForBackend` -/

/-- **Who is listed.** Whatever others do meanwhile, the keys that a call of
`UsersForBackend` returns are without repetition, each had an entry with the
backend at some point of the call, and every key is among them that had one
from the beginning to the end of the call, none of which had expired by
then. -/
theorem mem_found_of_ranged {s₀ : SharedCache} {as : List Action} {b : Backend} {stop : ℕ}
    (hnew : ∀ c ∈ s₀.calls, c.isNew = true) (hrun : Run.exec step s₀ as = some s)
    (hranged : s.calls[i]? = some (.ranged (.usersForBackend b) tr found stop now)) :
    found.Nodup ∧
    (∀ k ∈ found, ∃ t entry, tr.start ≤ t ∧ t ≤ stop ∧ valueAt s.log t k = some entry ∧
      entry.backend = b) ∧
    ∀ k, (∀ t, tr.start ≤ t → t ≤ stop → ∃ entry, valueAt s.log t k = some entry ∧
      entry.backend = b ∧ now ≤ entry.exp) → k ∈ found := by
  have hended : Ranged s.log (.usersForBackend b) tr found stop now :=
    (ok_of_exec hnew hrun) _ (List.mem_of_getElem? hranged)
  refine ⟨hended.nodup, fun k hk => ?_, fun k hall => ?_⟩
  · obtain ⟨t, entry, hstart, hstop, hentry, before, hlists⟩ := hended.sound k hk
    exact ⟨t, entry, hstart, hstop, hentry, (of_decide_eq_true hlists).1⟩
  · refine hended.listed k fun t hstart hstop => ?_
    obtain ⟨entry, hentry, hb, hexp⟩ := hall t hstart hstop
    exact ⟨entry, hentry, decide_eq_true ⟨hb, hexp⟩⟩

/-- A key that is there all the time is listed, though it is mapped anew
meanwhile. -/
theorem mem_found_of_ranged_renewed :
    ∃ s : SharedCache, Run.exec step (crowded (.usersForBackend "b"))
        [.next 0, .next 0, .next 1, .next 1, .next 2, .next 3, .next 3, .visit 2 "u" 2,
          .next 4, .next 4, .visit 2 "v" 3, .next 2] = some s ∧
      s.calls[2]? = some (.ranged (.usersForBackend "b") ⟨2, [("u", 2), ("v", 3)]⟩ ["u", "v"] 4 0) ∧
      ["u", "v"].Nodup := by
  have hrun : ∃ s : SharedCache, Run.exec step (crowded (.usersForBackend "b"))
        [.next 0, .next 0, .next 1, .next 1, .next 2, .next 3, .next 3, .visit 2 "u" 2,
          .next 4, .next 4, .visit 2 "v" 3, .next 2] = some s ∧
      s.calls[2]? =
        some (.ranged (.usersForBackend "b") ⟨2, [("u", 2), ("v", 3)]⟩ ["u", "v"] 4 0) :=
    ⟨_, rfl, rfl⟩
  obtain ⟨s, hrun, hranged⟩ := hrun
  exact ⟨s, hrun, hranged, (mem_found_of_ranged (by decide) hrun hranged).1⟩

end SharedCache

end StickyProxy
