import StickyProxy.WebSocket.Housing
/-!
# The connection tracker over whole runs

A bridge that has been added and not yet removed is in just one place, so no
bridge is closed twice, and none is closed or swapped for another key. A
`CloseConns` closes what was under its key when it took the map out. A map is
registered only while there is a bridge in it: when all connections are gone,
the tracker is empty.
-/

namespace StickyProxy.Tracking

open Run

variable {s s' : State} {a : Action} {i j p : ℕ} {k : RoutingKey} {x : Session} {c : Closer}

/-! ## What is closed and swapped -/

/-- The bridges that were closed are those that the calls have been through,
each one once. -/
structure Logged (s : State) : Prop where
  visited : ∀ (j : ℕ) (c : Closer), s.closers[j]? = some c → ∀ i ∈ c.phase.visited,
    ∃ p, c.phase.address = some p ∧ i ∈ s.tracker.bridges p
  closed : ∀ i, i ∈ s.closed ↔ ∃ (j : ℕ) (c : Closer), s.closers[j]? = some c ∧ i ∈ c.phase.visited
  nodup : s.closed.Nodup

theorem logged_start (sessions closers : List RoutingKey) (swappers : List (RoutingKey × Backend)) :
    Logged (State.start sessions closers swappers) := by
  have hvisited : ∀ (j : ℕ) (c : Closer),
      (State.start sessions closers swappers).closers[j]? = some c → c.phase.visited = ∅ := by
    intro j c hc
    simp only [State.start, List.getElem?_map, Option.map_eq_some_iff] at hc
    obtain ⟨k, -, rfl⟩ := hc
    rfl
  refine ⟨fun j c hc i hi => ?_, fun i => ⟨fun hi => ?_, ?_⟩, List.nodup_nil⟩
  · rw [hvisited j c hc] at hi
    cases hi
  · cases hi
  · rintro ⟨j, c, hc, hi⟩
    rw [hvisited j c hc] at hi
    cases hi

theorem State.address_closer (hc : s.closers[j]? = some c) :
    s.address (.closer j) = c.phase.address := by
  rw [State.address, hc]
  rfl

/-- A step that leaves the calls as they are closes nothing. -/
theorem Logged.of_closers_eq (hs : Housed s) (hl : Logged s) (h : Steps s s')
    (hclosers : s'.closers = s.closers) (hclosed : s'.closed = s.closed) : Logged s' := by
  refine ⟨fun j c hc i hi => ?_, ?_, ?_⟩
  · rw [hclosers] at hc
    obtain ⟨p, hp, hmem⟩ := hl.visited j c hc i hi
    rw [← hs.bridges_eq h ((State.address_closer hc).trans hp)] at hmem
    exact ⟨p, hp, hmem⟩
  · rw [hclosers, hclosed]
    exact hl.closed
  · rw [hclosed]
    exact hl.nodup

/-- Nor does one after which a call has been through what it had been. -/
theorem Logged.of_visited_eq {c' : Closer} (ct : ConnTracker) (hl : Logged s)
    (hc : s.closers[j]? = some c) (hmaps : ct.maps = s.tracker.maps)
    (hvisited : c'.phase.visited = c.phase.visited)
    (haddress : c'.phase.visited.Nonempty → c'.phase.address = c.phase.address) :
    Logged { s with tracker := ct, closers := s.closers.set j c' } := by
  have hbridges : ∀ p, ct.bridges p = s.tracker.bridges p := by
    intro p
    rw [ConnTracker.bridges, hmaps, ConnTracker.bridges]
  refine ⟨fun m d hd i hi => ?_, fun i => (hl.closed i).trans ⟨?_, ?_⟩, hl.nodup⟩
  · dsimp only
    rcases Pool.getElem?_set_cases hc hd with ⟨-, rfl⟩ | ⟨-, hd'⟩
    · rw [haddress ⟨i, hi⟩]
      rw [hvisited] at hi
      obtain ⟨p, hp, hmem⟩ := hl.visited j c hc i hi
      exact ⟨p, hp, (hbridges p).symm ▸ hmem⟩
    · obtain ⟨p, hp, hmem⟩ := hl.visited m d hd' i hi
      exact ⟨p, hp, (hbridges p).symm ▸ hmem⟩
  · rintro ⟨m, d, hd, hi⟩
    by_cases hm : m = j
    · rw [hm] at hd
      obtain rfl := Option.some.inj (hc.symm.trans hd)
      exact ⟨j, c', Pool.getElem?_set_self hc, hvisited.symm ▸ hi⟩
    · exact ⟨m, d, (Pool.getElem?_set_ne (Ne.symm hm)).trans hd, hi⟩
  · rintro ⟨m, d, hd, hi⟩
    rcases Pool.getElem?_set_cases hc hd with ⟨-, rfl⟩ | ⟨-, hd'⟩
    · exact ⟨j, c, hc, hvisited ▸ hi⟩
    · exact ⟨m, d, hd', hi⟩

/-- **A bridge is closed for the first time**: it is in one map, and the call
that has that map has not been through it. -/
theorem Logged.notMem_closed {visited : Finset ℕ} (hs : Housed s) (hl : Logged s)
    (hc : s.closers[j]? = some c) (hphase : c.phase = .close (some p) visited)
    (hi : i ∈ s.tracker.bridges p) (hnew : i ∉ visited) : i ∉ s.closed := by
  intro hclosed
  obtain ⟨m, d, hd, hmem⟩ := (hl.closed i).1 hclosed
  obtain ⟨q, hq, hiq⟩ := hl.visited m d hd i hmem
  have hp : s.address (.closer j) = some p := by
    rw [State.address_closer hc, hphase]
    rfl
  rw [← hs.once p q i hi hiq, ← State.address_closer hd] at hq
  obtain rfl := Holder.closer.inj (hs.apart (.closer j) (.closer m) p hp hq)
  obtain rfl := Option.some.inj (hc.symm.trans hd)
  rw [hphase] at hmem
  exact hnew hmem

theorem Logged.close {visited : Finset ℕ} (hs : Housed s) (hl : Logged s)
    (hc : s.closers[j]? = some c) (hphase : c.phase = .close (some p) visited)
    (hi : i ∈ s.tracker.bridges p) (hnew : i ∉ visited) :
    Logged { s with
      closers := s.closers.set j { c with phase := .close (some p) (insert i visited) }
      closed := s.closed ++ [i] } := by
  refine ⟨fun m d hd l hmem => ?_, fun l => ?_, ?_⟩
  · rcases Pool.getElem?_set_cases hc hd with ⟨-, rfl⟩ | ⟨-, hd'⟩
    · refine ⟨p, rfl, ?_⟩
      rcases Finset.mem_insert.1 hmem with rfl | hmem
      · exact hi
      · obtain ⟨q, hq, hlq⟩ := hl.visited j c hc l (by rw [hphase]; exact hmem)
        rw [hphase] at hq
        cases hq
        exact hlq
    · exact hl.visited m d hd' l hmem
  · rw [List.mem_append, hl.closed l, List.mem_singleton]
    constructor
    · rintro (⟨m, d, hd, hmem⟩ | rfl)
      · by_cases hm : m = j
        · rw [hm] at hd
          obtain rfl := Option.some.inj (hc.symm.trans hd)
          rw [hphase] at hmem
          exact ⟨j, _, Pool.getElem?_set_self hc, Finset.mem_insert_of_mem hmem⟩
        · exact ⟨m, d, (Pool.getElem?_set_ne (Ne.symm hm)).trans hd, hmem⟩
      · exact ⟨j, _, Pool.getElem?_set_self hc, Finset.mem_insert_self l visited⟩
    · rintro ⟨m, d, hd, hmem⟩
      rcases Pool.getElem?_set_cases hc hd with ⟨-, rfl⟩ | ⟨-, hd'⟩
      · rcases Finset.mem_insert.1 hmem with rfl | hmem
        · exact Or.inr rfl
        · exact Or.inl ⟨j, c, hc, by rw [hphase]; exact hmem⟩
      · exact Or.inl ⟨m, d, hd', hmem⟩
  · have hnot := hl.notMem_closed hs hc hphase hi hnew
    exact hl.nodup.append (List.nodup_singleton i) (List.disjoint_singleton.2 hnot)

theorem Logged.step (hs : Housed s) (hl : Logged s) (h : Steps s s') : Logged s' := by
  cases h with
  | detach hc hphase =>
    refine hl.of_visited_eq _ hc rfl (by rw [hphase]; rfl) ?_
    rintro ⟨i, hi⟩
    cases hi
  | close hc hphase hi hnew => exact hl.close hs hc hphase hi hnew
  | closed hc hphase =>
    exact hl.of_visited_eq s.tracker hc rfl (by rw [hphase]; rfl) fun _ => by rw [hphase]; rfl
  | add hx hphase => exact hl.of_closers_eq hs (.add hx hphase) rfl rfl
  | run hx hphase => exact hl.of_closers_eq hs (.run hx hphase) rfl rfl
  | remove hx hphase => exact hl.of_closers_eq hs (.remove hx hphase) rfl rfl
  | copy hw htodo horder => exact hl.of_closers_eq hs (.copy hw htodo horder) rfl rfl
  | swap hw htodo => exact hl.of_closers_eq hs (.swap hw htodo) rfl rfl

/-- The bridges that were swapped, or are going to be, are of the key of the
call. -/
structure Addressed (s : State) : Prop where
  todo : ∀ (j : ℕ) (w : Swapper) (l : List ℕ), s.swappers[j]? = some w → w.todo = some l →
    ∀ i ∈ l, ∃ x, s.sessions[i]? = some x ∧ x.key = w.key
  swapped : ∀ i b, (i, b) ∈ s.swapped → ∃ (j : ℕ) (w : Swapper) (x : Session),
    s.swappers[j]? = some w ∧ w.newBackend = b ∧ s.sessions[i]? = some x ∧ x.key = w.key

theorem addressed_start (sessions closers : List RoutingKey)
    (swappers : List (RoutingKey × Backend)) :
    Addressed (State.start sessions closers swappers) := by
  refine ⟨fun j w l hw hl => ?_, nofun⟩
  simp only [State.start, List.getElem?_map, Option.map_eq_some_iff] at hw
  obtain ⟨v, -, rfl⟩ := hw
  cases hl

/-- A connection keeps its key. -/
theorem Steps.session_key (h : Steps s s') (hx : s.sessions[i]? = some x) :
    ∃ x', s'.sessions[i]? = some x' ∧ x'.key = x.key := by
  have hset : ∀ (l : ℕ) (y : Session) (phase : Phase), s.sessions[l]? = some y →
      ∃ x', (s.sessions.set l { y with phase })[i]? = some x' ∧ x'.key = x.key := by
    intro l y phase hy
    by_cases hi : i = l
    · rw [hi] at hx ⊢
      obtain rfl := Option.some.inj (hy.symm.trans hx)
      exact ⟨_, Pool.getElem?_set_self hy, rfl⟩
    · exact ⟨x, (Pool.getElem?_set_ne (Ne.symm hi)).trans hx, rfl⟩
  cases h with
  | add hy | run hy | remove hy => exact hset _ _ _ hy
  | detach | close | closed | copy | swap => exact ⟨x, hx, rfl⟩

/-- And so does a call of `SwapConns`, with its backend. -/
theorem Steps.swapper_key {w : Swapper} (h : Steps s s') (hw : s.swappers[j]? = some w) :
    ∃ w', s'.swappers[j]? = some w' ∧ w'.key = w.key ∧ w'.newBackend = w.newBackend := by
  have hset : ∀ (m : ℕ) (v : Swapper) (todo : Option (List ℕ)), s.swappers[m]? = some v →
      ∃ w', (s.swappers.set m { v with todo })[j]? = some w' ∧ w'.key = w.key ∧
        w'.newBackend = w.newBackend := by
    intro m v todo hv
    by_cases hj : j = m
    · rw [hj] at hw ⊢
      obtain rfl := Option.some.inj (hv.symm.trans hw)
      exact ⟨_, Pool.getElem?_set_self hv, rfl, rfl⟩
    · exact ⟨w, (Pool.getElem?_set_ne (Ne.symm hj)).trans hw, rfl, rfl⟩
  cases h with
  | copy hv | swap hv => exact hset _ _ _ hv
  | add | run | remove | detach | close | closed => exact ⟨w, hw, rfl, rfl⟩

/-- A bridge under a key is of a connection of that key. -/
theorem Housed.session_of_tracked (hs : Housed s) (hi : i ∈ s.tracker.tracked k) :
    ∃ x, s.sessions[i]? = some x ∧ x.key = k ∧ x.phase.registered = true := by
  rcases hk : s.tracker.conns.lookup k with - | p
  · rw [ConnTracker.tracked, hk] at hi
    cases hi
  · rw [ConnTracker.tracked, hk] at hi
    obtain ⟨h, hp, hfits⟩ := hs.held p i hi
    obtain rfl := hs.apart h (.key k) p hp hk
    exact hfits

/-- Where the calls of `SwapConns` have been, when a step has moved only
other things. -/
theorem Addressed.of_swappers_eq (hw : Addressed s) (h : Steps s s')
    (hswappers : s'.swappers = s.swappers) (hswapped : s'.swapped = s.swapped) :
    Addressed s' := by
  refine ⟨fun j w l hj hl i hi => ?_, fun i b hib => ?_⟩
  · rw [hswappers] at hj
    obtain ⟨x, hx, hkey⟩ := hw.todo j w l hj hl i hi
    obtain ⟨x', hx', hkey'⟩ := h.session_key hx
    exact ⟨x', hx', hkey'.trans hkey⟩
  · rw [hswapped] at hib
    obtain ⟨j, w, x, hj, hb, hx, hkey⟩ := hw.swapped i b hib
    obtain ⟨x', hx', hkey'⟩ := h.session_key hx
    exact ⟨j, w, x', hswappers ▸ hj, hb, hx', hkey'.trans hkey⟩

theorem Addressed.step (hs : Housed s) (hw : Addressed s) (h : Steps s s') : Addressed s' := by
  -- what was swapped before stays the work of its call
  have hold : ∀ i b, (i, b) ∈ s.swapped → s'.sessions = s.sessions →
      ∃ (j : ℕ) (w : Swapper) (x : Session), s'.swappers[j]? = some w ∧ w.newBackend = b ∧
        s'.sessions[i]? = some x ∧ x.key = w.key := by
    intro i b hib hsessions
    obtain ⟨j, w, x, hj, hb, hx, hkey⟩ := hw.swapped i b hib
    obtain ⟨w', hj', hkey', hb'⟩ := h.swapper_key hj
    exact ⟨j, w', x, hj', hb'.trans hb, hsessions ▸ hx, hkey.trans hkey'.symm⟩
  cases h with
  | add hx hphase => exact hw.of_swappers_eq (.add hx hphase) rfl rfl
  | run hx hphase => exact hw.of_swappers_eq (.run hx hphase) rfl rfl
  | remove hx hphase => exact hw.of_swappers_eq (.remove hx hphase) rfl rfl
  | detach hc hphase => exact hw.of_swappers_eq (.detach hc hphase) rfl rfl
  | close hc hphase hi hnew => exact hw.of_swappers_eq (.close hc hphase hi hnew) rfl rfl
  | closed hc hphase hall => exact hw.of_swappers_eq (.closed hc hphase hall) rfl rfl
  | @copy m v order hv htodo horder =>
    refine ⟨fun j w l hj hl i hi => ?_, fun i b hib => hold i b hib rfl⟩
    rcases Pool.getElem?_set_cases hv hj with ⟨-, rfl⟩ | ⟨-, hj'⟩
    · cases hl
      have htracked : i ∈ s.tracker.tracked v.key := horder ▸ List.mem_toFinset.2 hi
      obtain ⟨x, hx, hkey, -⟩ := hs.session_of_tracked htracked
      exact ⟨x, hx, hkey⟩
    · exact hw.todo j w l hj' hl i hi
  | @swap m i₀ v rest hv htodo =>
    refine ⟨fun j w l hj hl i hi => ?_, fun i b hib => ?_⟩
    · rcases Pool.getElem?_set_cases hv hj with ⟨-, rfl⟩ | ⟨-, hj'⟩
      · cases hl
        exact hw.todo m v _ hv htodo i (List.mem_cons_of_mem i₀ hi)
      · exact hw.todo j w l hj' hl i hi
    · rcases List.mem_append.1 hib with hib | hib
      · exact hold i b hib rfl
      · cases List.mem_singleton.1 hib
        obtain ⟨x, hx, hkey⟩ := hw.todo m v _ hv htodo i₀ List.mem_cons_self
        exact ⟨m, _, x, Pool.getElem?_set_self hv, rfl, hx, hkey⟩

/-! ## Whole runs -/

/-- What holds after any run. -/
structure Tidy (s : State) : Prop where
  housed : Housed s
  logged : Logged s
  addressed : Addressed s

theorem Tidy.step (hs : Tidy s) (h : Tracking.step s a = some s') : Tidy s' := by
  have hsteps := steps_of_step h
  exact ⟨hs.housed.step hsteps, hs.logged.step hs.housed hsteps,
    hs.addressed.step hs.housed hsteps⟩

theorem Tidy.exec {as : List Action} (hs : Tidy s) (hrun : exec Tracking.step s as = some s') :
    Tidy s' :=
  exec_invariant_of_forall (fun _ _ _ => Tidy.step) hs hrun

theorem tidy_start (sessions closers : List RoutingKey) (swappers : List (RoutingKey × Backend)) :
    Tidy (State.start sessions closers swappers) :=
  ⟨housed_start .., logged_start .., addressed_start ..⟩

/-- What a holder has is the map at its address. -/
theorem State.mem_holds {h : Holder} :
    i ∈ s.holds h ↔ ∃ p, s.address h = some p ∧ i ∈ s.tracker.bridges p := by
  unfold State.holds
  rcases s.address h with - | p
  · exact ⟨nofun, fun ⟨_, h, _⟩ => nomatch h⟩
  · exact ⟨fun hi => ⟨p, rfl, hi⟩, fun ⟨q, hq, hi⟩ => Option.some.inj hq ▸ hi⟩

/-- **Between its `Add` and its `Remove` a bridge has one place**: under its
own key, or in the map that one `CloseConns` of that key has taken out, and
no other key or call has it. Under a key there are bridges of that key only,
between their `Add` and their `Remove`; there is no key without bridges, and
no key at all once every connection is gone. -/
theorem existsUnique_holder {sessions closers : List RoutingKey}
    {swappers : List (RoutingKey × Backend)} {as : List Action}
    (hrun : exec step (State.start sessions closers swappers) as = some s) :
    (∀ (i : ℕ) (x : Session), s.sessions[i]? = some x → x.phase.registered = true →
      ∃ h, i ∈ s.holds h ∧ (∀ h', i ∈ s.holds h' → h' = h) ∧
        (h = .key x.key ∨ ∃ (j : ℕ) (c : Closer), h = .closer j ∧ s.closers[j]? = some c ∧
          c.key = x.key)) ∧
    (∀ k, ∀ i ∈ s.tracker.tracked k, ∃ x, s.sessions[i]? = some x ∧ x.key = k ∧
      x.phase.registered = true) ∧
    (∀ k ∈ s.tracker.conns, 0 < s.tracker.count k) ∧
    ((∀ x ∈ s.sessions, x.phase = .gone) → s.tracker.conns = ∅) := by
  have hs : Housed s := ((tidy_start ..).exec hrun).housed
  have hcount : ∀ k ∈ s.tracker.conns, (s.tracker.tracked k).Nonempty := by
    intro k hk
    obtain ⟨p, hp⟩ := Option.isSome_iff_exists.1 (AList.lookup_isSome.2 hk)
    rw [ConnTracker.tracked, hp]
    exact hs.nonempty k p hp
  refine ⟨fun i x hx hreg => ?_, fun k i hi => hs.session_of_tracked hi,
    fun k hk => Finset.card_pos.2 (hcount k hk), fun hgone => ?_⟩
  · obtain ⟨p, hip⟩ := hs.placed i x hx hreg
    obtain ⟨h, hp, hfits⟩ := hs.held p i hip
    refine ⟨h, State.mem_holds.2 ⟨p, hp, hip⟩, fun h' hh' => ?_, ?_⟩
    · obtain ⟨q, hq, hiq⟩ := State.mem_holds.1 hh'
      rw [hs.once q p i hiq hip] at hq
      exact hs.apart h' h p hq hp
    · cases h with
      | key k =>
        obtain ⟨y, hy, rfl, -⟩ := hfits
        obtain rfl := Option.some.inj (hx.symm.trans hy)
        exact Or.inl rfl
      | closer j =>
        obtain ⟨y, c, hy, hc, hkey, -⟩ := hfits
        obtain rfl := Option.some.inj (hx.symm.trans hy)
        exact Or.inr ⟨j, c, rfl, hc, hkey.symm⟩
  · refine AList.ext_iff.2 (List.eq_nil_iff_forall_not_mem.2 fun e he => ?_)
    obtain ⟨i, hi⟩ := hcount e.1 (AList.mem_keys.2 (List.mem_keys_of_mem he))
    obtain ⟨x, hx, -, hreg⟩ := hs.session_of_tracked hi
    rw [hgone x (List.mem_of_getElem? hx)] at hreg
    cases hreg

/-- Two connections of a user and one of another: the first is taken out by a
`CloseConns` and removed before that gets to it, the second stays, and the
user comes back. -/
def reconnecting : State := State.start ["u", "u", "v", "u"] ["u", "u"] [("u", "b")]

/-- The schedule of it, up to the first `CloseConns`. -/
def before : List Action := [.session 0, .session 1, .session 2]

/-- And from there on. -/
def after : List Action :=
  [.session 0, .session 0, .session 3, .copy 0 [3], .close 0 1, .close 0 0, .swap 0, .detach 1,
    .close 1 3, .closed 0]

theorem existsUnique_holder_reconnecting :
    ∃ s, exec step reconnecting (before ++ [.detach 0] ++ after) = some s ∧
      (∀ k ∈ s.tracker.conns, 0 < s.tracker.count k) ∧
      ∃ x, s.sessions[1]? = some x ∧ x.phase.registered = true ∧ ∃ h, 1 ∈ s.holds h ∧
        (∀ h', 1 ∈ s.holds h' → h' = h) ∧ (h = .key x.key ∨ ∃ (j : ℕ) (c : Closer),
          h = .closer j ∧ s.closers[j]? = some c ∧ c.key = x.key) := by
  have hrun : ∃ s, exec step reconnecting (before ++ [.detach 0] ++ after) = some s ∧
      s.sessions[1]? = some ⟨"u", .run⟩ := ⟨_, rfl, rfl⟩
  obtain ⟨s, hrun, hsession⟩ := hrun
  have hmain := existsUnique_holder hrun
  exact ⟨s, hrun, hmain.2.2.1, _, hsession, rfl, hmain.1 1 _ hsession rfl⟩

/-- A bridge that a call of `CloseConns` has been through is of the key of
the call. -/
theorem Tidy.session_of_visited (hs : Tidy s) (hc : s.closers[j]? = some c)
    (hi : i ∈ c.phase.visited) : ∃ x, s.sessions[i]? = some x ∧ x.key = c.key := by
  obtain ⟨p, hp, hip⟩ := hs.logged.visited j c hc i hi
  obtain ⟨h, hp', hfits⟩ := hs.housed.held p i hip
  obtain rfl := hs.housed.apart h (.closer j) p hp' ((State.address_closer hc).trans hp)
  obtain ⟨x, d, hx, hd, hkey, -⟩ := hfits
  obtain rfl := Option.some.inj (hc.symm.trans hd)
  exact ⟨x, hx, hkey⟩

/-- **No bridge is closed twice**, however many calls of `CloseConns` there
are: what was closed is what the calls have been through. Every one of them
has been through bridges of its own key only, and whichever `SwapConns` is
the next to swap a bridge, it swaps one of its own key. -/
theorem nodup_closed {sessions closers : List RoutingKey}
    {swappers : List (RoutingKey × Backend)} {as : List Action}
    (hrun : exec step (State.start sessions closers swappers) as = some s) :
    s.closed.Nodup ∧
    (∀ i, i ∈ s.closed ↔ ∃ (j : ℕ) (c : Closer), s.closers[j]? = some c ∧ i ∈ c.phase.visited) ∧
    (∀ (j : ℕ) (c : Closer), s.closers[j]? = some c → ∀ i ∈ c.phase.visited,
      ∃ x, s.sessions[i]? = some x ∧ x.key = c.key) ∧
    (∀ i b, (i, b) ∈ s.swapped → ∃ (j : ℕ) (w : Swapper) (x : Session),
      s.swappers[j]? = some w ∧ w.newBackend = b ∧ s.sessions[i]? = some x ∧ x.key = w.key) ∧
    (∀ (j : ℕ) (t : State), step s (.swap j) = some t → ∃ (i : ℕ) (w : Swapper) (x : Session),
      s.swappers[j]? = some w ∧ t.swapped = s.swapped ++ [(i, w.newBackend)] ∧
      s.sessions[i]? = some x ∧ x.key = w.key) := by
  have hs := (tidy_start ..).exec hrun
  refine ⟨hs.logged.nodup, hs.logged.closed, fun j c hc i hi => hs.session_of_visited hc hi,
    hs.addressed.swapped, fun j t hst => ?_⟩
  obtain ⟨w, hw, hst⟩ := Option.bind_eq_some_iff.1 hst
  split at hst
  · rename_i i rest htodo
    cases hst
    obtain ⟨x, hx, hkey⟩ := hs.addressed.todo j w _ hw htodo i List.mem_cons_self
    exact ⟨i, w, x, hw, rfl, hx, hkey⟩
  · cases hst

theorem nodup_closed_reconnecting :
    ∃ s, exec step reconnecting (before ++ [.detach 0] ++ after) = some s ∧
      s.closed = [1, 0, 3] ∧ s.closed.Nodup ∧ s.swapped = [(3, "b")] ∧
      ∃ (j : ℕ) (w : Swapper) (x : Session), s.swappers[j]? = some w ∧ w.newBackend = "b" ∧
        s.sessions[3]? = some x ∧ x.key = w.key := by
  have hrun : ∃ s, exec step reconnecting (before ++ [.detach 0] ++ after) = some s ∧
      s.closed = [1, 0, 3] ∧ s.swapped = [(3, "b")] := ⟨_, rfl, rfl, rfl⟩
  obtain ⟨s, hrun, hclosed, hswapped⟩ := hrun
  obtain ⟨hnodup, -, -, hmain, -⟩ := nodup_closed hrun
  have hmem : (3, "b") ∈ s.swapped := hswapped ▸ List.mem_cons_self
  exact ⟨s, hrun, hclosed, hnodup, hswapped, hmain 3 "b" hmem⟩

/-- A `CloseConns` has taken out the bridges `T`, and is not done before it
has been through them all. -/
structure Closing (j : ℕ) (T : Finset ℕ) (s : State) (c : Closer) : Prop where
  closer : s.closers[j]? = some c
  begun : c.phase ≠ .detach
  holds : s.holds (.closer j) = T
  done : ∀ p visited, c.phase = .done p visited → T ⊆ visited

theorem State.holds_closer (hc : s.closers[j]? = some c) :
    s.holds (.closer j) = c.phase.address.elim ∅ fun p => s.tracker.bridges p := by
  rw [State.holds, State.address_closer hc]

/-- A step of somebody else. -/
theorem Closing.of_getElem? {T : Finset ℕ} (hs : Housed s) (hT : Closing j T s c)
    (h : Steps s s') (hc : s'.closers[j]? = some c) : Closing j T s' c := by
  refine ⟨hc, hT.begun, ?_, hT.done⟩
  rw [← hT.holds, State.holds_closer hc, State.holds_closer hT.closer]
  rcases hp : c.phase.address with - | p
  · rfl
  · exact hs.bridges_eq h ((State.address_closer hT.closer).trans hp)

theorem Closing.step {T : Finset ℕ} (hs : Housed s) (hT : Closing j T s c) (h : Steps s s') :
    ∃ c', Closing j T s' c' := by
  have hother : ∀ (m : ℕ) (d : Closer), m ≠ j → (s.closers.set m d)[j]? = some c :=
    fun m d hm => (Pool.getElem?_set_ne hm).trans hT.closer
  have hcopy := h
  cases h with
  | add | run | remove | copy | swap => exact ⟨c, hT.of_getElem? hs hcopy hT.closer⟩
  | @detach m d hd hphase =>
    by_cases hm : m = j
    · subst hm
      obtain rfl := Option.some.inj (hd.symm.trans hT.closer)
      exact absurd hphase hT.begun
    · exact ⟨c, hT.of_getElem? hs hcopy (hother m _ hm)⟩
  | @close m i p d visited hd hphase hi hnew =>
    by_cases hm : m = j
    · subst hm
      obtain rfl := Option.some.inj (hd.symm.trans hT.closer)
      refine ⟨_, Pool.getElem?_set_self hd, nofun, ?_, nofun⟩
      rw [← hT.holds, State.holds_closer hd, hphase, State.holds_closer (Pool.getElem?_set_self hd)]
      rfl
    · exact ⟨c, hT.of_getElem? hs hcopy (hother m _ hm)⟩
  | @closed m d p visited hd hphase hall =>
    by_cases hm : m = j
    · subst hm
      obtain rfl := Option.some.inj (hd.symm.trans hT.closer)
      have hholds : s.holds (.closer m) = p.elim ∅ fun p => s.tracker.bridges p := by
        rw [State.holds_closer hd, hphase]
        rfl
      refine ⟨_, Pool.getElem?_set_self hd, nofun, ?_, fun q v hv => ?_⟩
      · rw [← hT.holds, hholds, State.holds_closer (Pool.getElem?_set_self hd)]
        rfl
      · cases hv
        rw [← hT.holds, hholds]
        exact hall
    · exact ⟨c, hT.of_getElem? hs hcopy (hother m _ hm)⟩

/-- **`CloseConns` closes the bridges that were under its key when it took the
map out**, all of them by the time it returns and no other, whatever is added,
removed, closed and swapped meanwhile. -/
theorem visited_eq_tracked {sessions closers : List RoutingKey}
    {swappers : List (RoutingKey × Backend)} {as bs : List Action} {t : State} {d : Closer}
    (hrun : exec step (State.start sessions closers swappers) as = some s)
    (hd : s.closers[j]? = some d) (hdetach : step s (.detach j) = some t)
    (hrest : exec step t bs = some s') :
    ∃ c, s'.closers[j]? = some c ∧ c.phase.visited ⊆ s.tracker.tracked d.key ∧
      c.phase.visited ⊆ s'.closed.toFinset ∧
      (∀ p visited, c.phase = .done p visited → visited = s.tracker.tracked d.key) := by
  have hs := (tidy_start ..).exec hrun
  have ht := hs.step hdetach
  have hbegin : ∃ c, Closing j (s.tracker.tracked d.key) t c := by
    obtain ⟨d', hd', h⟩ := Option.bind_eq_some_iff.1 hdetach
    obtain rfl := Option.some.inj (hd.symm.trans hd')
    split at h
    · cases h
      refine ⟨_, Pool.getElem?_set_self hd, nofun, ?_, nofun⟩
      rw [State.holds_closer (Pool.getElem?_set_self hd)]
      rfl
    · cases h
  have hend : Tidy s' ∧ ∃ c, Closing j (s.tracker.tracked d.key) s' c := by
    refine exec_invariant_of_forall
      (I := fun u => Tidy u ∧ ∃ c, Closing j (s.tracker.tracked d.key) u c)
      (fun u a u' hu h => ?_) ⟨ht, hbegin⟩ hrest
    obtain ⟨hu, c, hT⟩ := hu
    exact ⟨hu.step h, hT.step hu.housed (steps_of_step h)⟩
  obtain ⟨hs', c, hT⟩ := hend
  have hsub : c.phase.visited ⊆ s.tracker.tracked d.key := by
    intro i hi
    obtain ⟨p, hp, hip⟩ := hs'.logged.visited j c hT.closer i hi
    rw [← hT.holds]
    exact State.mem_holds.2 ⟨p, (State.address_closer hT.closer).trans hp, hip⟩
  refine ⟨c, hT.closer, hsub, fun i hi => ?_, fun p visited hphase => ?_⟩
  · exact List.mem_toFinset.2 ((hs'.logged.closed i).2 ⟨j, c, hT.closer, hi⟩)
  · refine Finset.Subset.antisymm ?_ (hT.done p visited hphase)
    rw [hphase] at hsub
    exact hsub

theorem visited_eq_tracked_reconnecting :
    ∃ (s t s' : State) (visited : Finset ℕ), exec step reconnecting before = some s ∧
      step s (.detach 0) = some t ∧ exec step t after = some s' ∧
      s'.closers[0]? = some ⟨"u", .done (some 0) visited⟩ ∧
      s.tracker.tracked "u" = {0, 1} ∧ visited = s.tracker.tracked "u" := by
  have hrun : ∃ (s t s' : State) (visited : Finset ℕ), exec step reconnecting before = some s ∧
      s.closers[0]? = some ⟨"u", .detach⟩ ∧ step s (.detach 0) = some t ∧
      exec step t after = some s' ∧ s'.closers[0]? = some ⟨"u", .done (some 0) visited⟩ ∧
      s.tracker.tracked "u" = {0, 1} := ⟨_, _, _, _, rfl, rfl, rfl, rfl, rfl, by decide⟩
  obtain ⟨s, t, s', visited, hs, hd, ht, hs', hc, htracked⟩ := hrun
  obtain ⟨c, hc', -, -, hdone⟩ := visited_eq_tracked hs hd ht hs'
  obtain rfl := Option.some.inj (hc.symm.trans hc')
  exact ⟨s, t, s', visited, hs, ht, hs', hc, htracked, hdone _ visited rfl⟩

end StickyProxy.Tracking
