import StickyProxy.WebSocket.Model.Tracker
import StickyProxy.Common.Pool
/-!
# Where the bridges are

Every inner map belongs to one holder: to the routing key it is registered
under, or to the `CloseConns` that has taken it out. Every bridge is in one
map, and under a key only while it is registered there. So whoever adds or
removes a bridge leaves the maps alone that are being closed.
-/

namespace StickyProxy

/-! ## Operations of the tracker -/

namespace ConnTracker

variable {ct : ConnTracker} {k k' : RoutingKey} {i p q : ℕ}

theorem bridges_of_length_le (h : ct.maps.length ≤ p) : ct.bridges p = ∅ := by
  rw [bridges, List.getElem?_eq_none_iff.2 h]
  rfl

/-- The inner map at an address, after a change to the one at another. -/
theorem bridges_modify (f : Finset ℕ → Finset ℕ) (hp : p < ct.maps.length) (q : ℕ)
    (conns : Table RoutingKey ℕ) :
    bridges q ⟨ct.maps.modify p f, conns⟩ = if q = p then f (ct.bridges p) else ct.bridges q := by
  unfold bridges
  dsimp only
  rw [List.getElem?_modify]
  by_cases hq : q = p
  · subst hq
    simp [List.getElem?_eq_getElem hp]
  · have hqp : p ≠ q := fun heq => hq heq.symm
    simp [hq, hqp]

/-- **`Add`** puts the bridge in the map under the key, a new one if there
is none. -/
structure Adds (k : RoutingKey) (i : ℕ) (ct : ConnTracker) (p : ℕ) (ct' : ConnTracker) :
    Prop where
  lookup : ∀ k', ct'.conns.lookup k' = if k' = k then some p else ct.conns.lookup k'
  bridges : ∀ q, ct'.bridges q = if q = p then insert i (ct.bridges p) else ct.bridges q
  length : ct.maps.length ≤ ct'.maps.length
  lt : p < ct'.maps.length
  address : ct.conns.lookup k = some p ∨ ct.conns.lookup k = none ∧ p = ct.maps.length

theorem exists_adds (hbound : ∀ p, ct.conns.lookup k = some p → p < ct.maps.length) (i : ℕ) :
    ∃ p, Adds k i ct p (ct.add k i) := by
  rcases hk : ct.conns.lookup k with - | p <;> simp only [add, hk]
  · refine ⟨ct.maps.length, fun k' => Table.lookup_insert_eq _ _ _ _, fun q => ?_, ?_, ?_,
      Or.inr ⟨hk, rfl⟩⟩
    · rw [bridges_of_length_le (Nat.le_refl _)]
      unfold ConnTracker.bridges
      dsimp only
      rcases Nat.lt_trichotomy q ct.maps.length with hq | hq | hq
      · rw [List.getElem?_append_left hq, if_neg (Nat.ne_of_lt hq)]
      · subst hq
        simp
      · have hnone : (ct.maps ++ [{i}])[q]? = none := by
          rw [List.getElem?_eq_none_iff, List.length_append, List.length_singleton]
          omega
        rw [hnone, if_neg (Nat.ne_of_gt hq), List.getElem?_eq_none_iff.2 (Nat.le_of_lt hq)]
    · rw [List.length_append]
      exact Nat.le_add_right _ _
    · rw [List.length_append, List.length_singleton]
      exact Nat.lt_succ_self _
  · refine ⟨p, fun k' => ?_, fun q => bridges_modify _ (hbound p hk) q _, ?_, ?_, Or.inl hk⟩
    · by_cases hkk : k' = k
      · rw [if_pos hkk, hkk, hk]
      · rw [if_neg hkk]
    · rw [List.length_modify]
    · rw [List.length_modify]
      exact hbound p hk

/-- **`Remove`** takes the bridge out of the map under the key, and the map
out of the tracker if it is empty then. -/
structure Removes (k : RoutingKey) (i : ℕ) (ct ct' : ConnTracker) : Prop where
  mem : ∀ q l, l ∈ ct'.bridges q ↔ l ∈ ct.bridges q ∧ (ct.conns.lookup k = some q → l ≠ i)
  lookup : ∀ k' q, ct'.conns.lookup k' = some q ↔
    ct.conns.lookup k' = some q ∧ (k' = k → (ct'.bridges q).Nonempty)
  length : ct'.maps.length = ct.maps.length

theorem removes_remove (hbound : ∀ p, ct.conns.lookup k = some p → p < ct.maps.length) (i : ℕ) :
    Removes k i ct (ct.remove k i) := by
  rcases hk : ct.conns.lookup k with - | p <;> simp only [remove, hk]
  · refine ⟨fun q l => ?_, fun k' q => ?_, rfl⟩
    · rw [hk]
      exact ⟨fun h => ⟨h, nofun⟩, And.left⟩
    · refine ⟨fun h => ⟨h, fun hkk => ?_⟩, And.left⟩
      rw [hkk, hk] at h
      cases h
  · have hmaps := fun q => bridges_modify (·.erase i) (hbound p hk) q
    have hmem : ∀ q l conns, l ∈ bridges q ⟨ct.maps.modify p (·.erase i), conns⟩ ↔
        l ∈ ct.bridges q ∧ (some p = some q → l ≠ i) := by
      intro q l conns
      rw [hmaps q conns]
      by_cases hq : q = p
      · rw [if_pos hq, hq, Finset.mem_erase]
        exact ⟨fun h => ⟨h.2, fun _ => h.1⟩, fun h => ⟨h.2 rfl, h.1⟩⟩
      · rw [if_neg hq]
        exact ⟨fun h => ⟨h, fun heq => absurd (Option.some.inj heq).symm hq⟩, And.left⟩
    split_ifs with hempty
    · refine ⟨fun q l => by rw [hk]; exact hmem q l _, fun k' q => ?_, List.length_modify ..⟩
      dsimp only
      rw [Table.lookup_erase_eq, hmaps]
      split_ifs with hkk hq hq
      · simp [hempty, hkk]
      · have hne : ct.conns.lookup k' ≠ some q := by
          rw [hkk, hk]
          exact fun heq => hq (Option.some.inj heq).symm
        simp [hne]
      · simp [hkk]
      · simp [hkk]
    · refine ⟨fun q l => by rw [hk]; exact hmem q l _, fun k' q => ?_, List.length_modify ..⟩
      dsimp only
      rw [hmaps]
      refine ⟨fun h => ⟨h, fun hkk => ?_⟩, And.left⟩
      rw [hkk, hk] at h
      rw [if_pos (Option.some.inj h).symm]
      exact Finset.nonempty_iff_ne_empty.2 hempty

end ConnTracker

namespace Tracking

/-- Who may hold an inner map. -/
inductive Holder where
  /-- The routing key it is registered under. -/
  | key (k : RoutingKey)
  /-- The `CloseConns` that has taken it out. -/
  | closer (j : ℕ)
  deriving DecidableEq

/-- The connection has added its bridge and not removed it. -/
def Phase.registered : Phase → Bool
  | .run | .remove => true
  | .add | .gone => false

/-- The address of the map that a `CloseConns` has taken out. -/
def ClosePhase.address : ClosePhase → Option ℕ
  | .detach => none
  | .close p _ | .done p _ => p

/-- The bridges it has closed. -/
def ClosePhase.visited : ClosePhase → Finset ℕ
  | .detach => ∅
  | .close _ visited | .done _ visited => visited

namespace State

/-- The address of the map of a holder. -/
def address (s : State) : Holder → Option ℕ
  | .key k => s.tracker.conns.lookup k
  | .closer j => (s.closers[j]?).bind (·.phase.address)

/-- The bridges of a holder. -/
def holds (s : State) (h : Holder) : Finset ℕ := (s.address h).elim ∅ fun p => s.tracker.bridges p

/-- A bridge may be with a holder: with its own key while it is registered,
and with a `CloseConns` of that key from then on. -/
def Fits (s : State) (i : ℕ) : Holder → Prop
  | .key k => ∃ x, s.sessions[i]? = some x ∧ x.key = k ∧ x.phase.registered = true
  | .closer j => ∃ x c, s.sessions[i]? = some x ∧ s.closers[j]? = some c ∧ x.key = c.key ∧
      x.phase ≠ .add

end State

/-- Every map has one holder, and every bridge is in one map. -/
structure Housed (s : State) : Prop where
  bounded : ∀ h p, s.address h = some p → p < s.tracker.maps.length
  apart : ∀ h h' p, s.address h = some p → s.address h' = some p → h = h'
  nonempty : ∀ k p, s.tracker.conns.lookup k = some p → (s.tracker.bridges p).Nonempty
  once : ∀ p q i, i ∈ s.tracker.bridges p → i ∈ s.tracker.bridges q → p = q
  held : ∀ p i, i ∈ s.tracker.bridges p → ∃ h, s.address h = some p ∧ s.Fits i h
  placed : ∀ i x, s.sessions[i]? = some x → x.phase.registered = true →
    ∃ p, i ∈ s.tracker.bridges p

variable {s s' : State} {a : Action} {i j p : ℕ} {k : RoutingKey} {x : Session} {c : Closer}

theorem housed_start (sessions closers : List RoutingKey) (swappers : List (RoutingKey × Backend)) :
    Housed (State.start sessions closers swappers) := by
  have hnone : ∀ h, (State.start sessions closers swappers).address h = none := by
    rintro (k | j)
    · rfl
    · simp only [State.address, State.start, List.getElem?_map]
      rcases closers[j]? with - | k <;> rfl
  have hempty : ∀ p, (State.start sessions closers swappers).tracker.bridges p = ∅ :=
    fun p => ConnTracker.bridges_of_length_le (Nat.zero_le _)
  refine ⟨fun h p hp => ?_, fun h h' p hp => ?_, fun k p hp => ?_, fun p q i hi => ?_,
    fun p i hi => ?_, fun i x hx hreg => ?_⟩
  · rw [hnone] at hp
    cases hp
  · rw [hnone] at hp
    cases hp
  · cases hp
  · rw [hempty] at hi
    cases hi
  · rw [hempty] at hi
    cases hi
  · simp only [State.start, List.getElem?_map, Option.map_eq_some_iff] at hx
    obtain ⟨k, -, rfl⟩ := hx
    cases hreg

/-- A bridge that is yet to be added is in no map. -/
theorem Housed.notMem_of_add (hs : Housed s) (hx : s.sessions[i]? = some x) (hadd : x.phase = .add)
    (p : ℕ) : i ∉ s.tracker.bridges p := by
  intro hi
  obtain ⟨h, -, hfits⟩ := hs.held p i hi
  cases h with
  | key k =>
    obtain ⟨y, hy, -, hreg⟩ := hfits
    obtain rfl := Option.some.inj (hx.symm.trans hy)
    rw [hadd] at hreg
    cases hreg
  | closer j =>
    obtain ⟨y, c, hy, -, -, hne⟩ := hfits
    obtain rfl := Option.some.inj (hx.symm.trans hy)
    exact hne hadd

/-! ## Steps -/

/-- What a step can do. -/
inductive Steps (s : State) : State → Prop
  | add {i : ℕ} {x : Session} : s.sessions[i]? = some x → x.phase = .add →
      Steps s { s with
        tracker := s.tracker.add x.key i, sessions := s.sessions.set i { x with phase := .run } }
  | run {i : ℕ} {x : Session} : s.sessions[i]? = some x → x.phase = .run →
      Steps s { s with sessions := s.sessions.set i { x with phase := .remove } }
  | remove {i : ℕ} {x : Session} : s.sessions[i]? = some x → x.phase = .remove →
      Steps s { s with
        tracker := s.tracker.remove x.key i
        sessions := s.sessions.set i { x with phase := .gone } }
  | detach {j : ℕ} {c : Closer} : s.closers[j]? = some c → c.phase = .detach →
      Steps s { s with
        tracker := s.tracker.detach c.key
        closers := s.closers.set j { c with phase := .close (s.tracker.conns.lookup c.key) ∅ } }
  | close {j i p : ℕ} {c : Closer} {visited : Finset ℕ} : s.closers[j]? = some c →
      c.phase = .close (some p) visited → i ∈ s.tracker.bridges p → i ∉ visited →
      Steps s { s with
        closers := s.closers.set j { c with phase := .close (some p) (insert i visited) }
        closed := s.closed ++ [i] }
  | closed {j : ℕ} {c : Closer} {p : Option ℕ} {visited : Finset ℕ} : s.closers[j]? = some c →
      c.phase = .close p visited → p.elim ∅ (fun p => s.tracker.bridges p) ⊆ visited →
      Steps s { s with closers := s.closers.set j { c with phase := .done p visited } }
  | copy {j : ℕ} {w : Swapper} {order : List ℕ} : s.swappers[j]? = some w → w.todo = none →
      order.toFinset = s.tracker.tracked w.key →
      Steps s { s with swappers := s.swappers.set j { w with todo := some order } }
  | swap {j i : ℕ} {w : Swapper} {rest : List ℕ} : s.swappers[j]? = some w →
      w.todo = some (i :: rest) →
      Steps s { s with
        swappers := s.swappers.set j { w with todo := some rest }
        swapped := s.swapped ++ [(i, w.newBackend)] }

theorem steps_of_step (h : step s a = some s') : Steps s s' := by
  cases a with
  | session i =>
    obtain ⟨x, hx, h⟩ := Option.bind_eq_some_iff.1 h
    unfold sessionStep at h
    split at h
    · rename_i hphase
      cases h
      exact .add hx hphase
    · rename_i hphase
      cases h
      exact .run hx hphase
    · rename_i hphase
      cases h
      exact .remove hx hphase
    · cases h
  | detach j =>
    obtain ⟨c, hc, h⟩ := Option.bind_eq_some_iff.1 h
    split at h
    · rename_i hphase
      cases h
      exact .detach hc hphase
    · cases h
  | close j i =>
    obtain ⟨c, hc, h⟩ := Option.bind_eq_some_iff.1 h
    split at h
    · rename_i hphase
      split_ifs at h with hi
      cases h
      exact .close hc hphase hi.1 hi.2
    · cases h
  | closed j =>
    obtain ⟨c, hc, h⟩ := Option.bind_eq_some_iff.1 h
    split at h
    · rename_i hphase
      split_ifs at h with hall
      cases h
      exact .closed hc hphase hall
    · cases h
  | copy j order =>
    obtain ⟨w, hw, h⟩ := Option.bind_eq_some_iff.1 h
    split at h
    · rename_i htodo
      split_ifs at h with horder
      cases h
      exact .copy hw htodo horder.2
    · cases h
  | swap j =>
    obtain ⟨w, hw, h⟩ := Option.bind_eq_some_iff.1 h
    split at h
    · rename_i htodo
      cases h
      exact .swap hw htodo
    · cases h

/-- The maps of the holders, when a call of `CloseConns` has changed. -/
theorem State.address_set_closer {c' : Closer} (ct : ConnTracker) (log : List ℕ)
    (hc : s.closers[j]? = some c) (h : Holder) :
    State.address { s with tracker := ct, closers := s.closers.set j c', closed := log } h =
      if h = .closer j then c'.phase.address
      else State.address { s with tracker := ct } h := by
  cases h with
  | key k => rfl
  | closer l =>
    unfold State.address
    dsimp only
    by_cases hl : l = j
    · rw [if_pos (congrArg Holder.closer hl), hl, Pool.getElem?_set_self hc]
      rfl
    · rw [if_neg fun heq => hl (Holder.closer.inj heq), Pool.getElem?_set_ne (Ne.symm hl)]

/-- A bridge stays where it fits while its connection keeps its key and does
not leave or come back. -/
theorem State.Fits.set_session {y : Session} {h : Holder} {l : ℕ} {ct : ConnTracker}
    (hx : s.sessions[i]? = some x) (hfits : s.Fits l h) (hkey : y.key = x.key)
    (hreg : l = i → x.phase.registered = true → y.phase.registered = true)
    (hadd : l = i → y.phase ≠ .add) :
    State.Fits { s with tracker := ct, sessions := s.sessions.set i y } l h := by
  -- the connection of the bridge is the one that steps, or it is as before
  have hlook : ∀ z, s.sessions[l]? = some z → ∃ z', (s.sessions.set i y)[l]? = some z' ∧
      z'.key = z.key ∧ (z.phase.registered = true → z'.phase.registered = true) ∧
      (z.phase ≠ .add → z'.phase ≠ .add) := by
    intro z hz
    by_cases hl : l = i
    · rw [hl] at hz ⊢
      obtain rfl := Option.some.inj (hx.symm.trans hz)
      exact ⟨y, Pool.getElem?_set_self hx, hkey, hreg hl, fun _ => hadd hl⟩
    · exact ⟨z, (Pool.getElem?_set_ne (Ne.symm hl)).trans hz, rfl, id, id⟩
  cases h with
  | key k =>
    obtain ⟨z, hz, hk, hzreg⟩ := hfits
    obtain ⟨z', hz', hk', hreg', -⟩ := hlook z hz
    exact ⟨z', hz', hk'.trans hk, hreg' hzreg⟩
  | closer j =>
    obtain ⟨z, c, hz, hc, hk, hne⟩ := hfits
    obtain ⟨z', hz', hk', -, hne'⟩ := hlook z hz
    exact ⟨z', c, hz', hc, hk'.trans hk, hne' hne⟩

theorem State.Fits.set_closer {c' : Closer} {h : Holder} {l : ℕ} (ct : ConnTracker)
    (log : List ℕ) (hc : s.closers[j]? = some c) (hfits : s.Fits l h) (hkey : c'.key = c.key) :
    State.Fits { s with tracker := ct, closers := s.closers.set j c', closed := log } l h := by
  cases h with
  | key k => exact hfits
  | closer m =>
    obtain ⟨z, d, hz, hd, hk, hne⟩ := hfits
    by_cases hm : m = j
    · rw [hm] at hd ⊢
      obtain rfl := Option.some.inj (hc.symm.trans hd)
      exact ⟨z, c', hz, Pool.getElem?_set_self hc, hk.trans hkey.symm, hne⟩
    · exact ⟨z, d, hz, (Pool.getElem?_set_ne (Ne.symm hm)).trans hd, hk, hne⟩

/-- **`Add` finds a place for its bridge.** -/
theorem Housed.add (hs : Housed s) (hx : s.sessions[i]? = some x) (hphase : x.phase = .add) :
    Housed { s with
      tracker := s.tracker.add x.key i
      sessions := s.sessions.set i { x with phase := .run } } := by
  obtain ⟨p, hadds⟩ := ConnTracker.exists_adds (fun p => hs.bounded (.key x.key) p) i
  have hfresh : ∀ q, i ∉ s.tracker.bridges q := hs.notMem_of_add hx hphase
  -- nobody else has the map that the bridge is put in
  have hother : ∀ h, h ≠ .key x.key → s.address h ≠ some p := by
    intro h hne hp
    rcases hadds.address with hk | ⟨-, rfl⟩
    · exact hne (hs.apart h (.key x.key) p hp hk)
    · exact Nat.lt_irrefl _ (hs.bounded h _ hp)
  have haddr : ∀ h, State.address { s with
        tracker := s.tracker.add x.key i
        sessions := s.sessions.set i { x with phase := .run } } h =
      if h = .key x.key then some p else s.address h := by
    rintro (k | j)
    · simp only [State.address, hadds.lookup k, Holder.key.injEq]
    · rfl
  refine ⟨fun h q hq => ?_, fun h h' q hq hq' => ?_, fun k q hq => ?_, fun q q' l hl hl' => ?_,
    fun q l hl => ?_, fun l y hy hreg => ?_⟩
  · rw [haddr] at hq
    split_ifs at hq with hh
    · cases hq
      exact hadds.lt
    · exact Nat.lt_of_lt_of_le (hs.bounded h q hq) hadds.length
  · rw [haddr] at hq hq'
    split_ifs at hq hq' with hh hh' hh'
    · rw [hh, hh']
    · cases hq
      exact absurd hq' (hother h' hh')
    · cases hq'
      exact absurd hq (hother h hh)
    · exact hs.apart h h' q hq hq'
  · dsimp only at hq ⊢
    rw [hadds.bridges]
    rw [hadds.lookup] at hq
    split_ifs with hqp
    · exact Finset.insert_nonempty i _
    · split_ifs at hq with hk
      · exact absurd (Option.some.inj hq).symm hqp
      · exact hs.nonempty k q hq
  · dsimp only at hl hl'
    rw [hadds.bridges] at hl hl'
    split_ifs at hl hl' with hqp hqp' hqp'
    · rw [hqp, hqp']
    · rcases Finset.mem_insert.1 hl with rfl | hlp
      · exact absurd hl' (hfresh q')
      · exact hqp.trans (hs.once p q' l hlp hl')
    · rcases Finset.mem_insert.1 hl' with rfl | hlp
      · exact absurd hl (hfresh q)
      · exact (hs.once q p l hl hlp).trans hqp'.symm
    · exact hs.once q q' l hl hl'
  · dsimp only at hl
    rw [hadds.bridges] at hl
    have hstay : ∀ h, s.Fits l h → l ≠ i → State.Fits { s with
        tracker := s.tracker.add x.key i
        sessions := s.sessions.set i { x with phase := .run } } l h :=
      fun h hfits hne => hfits.set_session hx rfl (fun heq => absurd heq hne)
        fun heq => absurd heq hne
    split_ifs at hl with hqp
    · rcases Finset.mem_insert.1 hl with rfl | hlp
      · refine ⟨.key x.key, ?_, ⟨{ x with phase := .run }, Pool.getElem?_set_self hx, rfl, rfl⟩⟩
        rw [haddr, if_pos rfl, hqp]
      · obtain ⟨h, haddress, hfits⟩ := hs.held p l hlp
        refine ⟨h, ?_, hstay h hfits fun heq => hfresh p (heq ▸ hlp)⟩
        rw [haddr, hqp, haddress, ite_self]
    · obtain ⟨h, haddress, hfits⟩ := hs.held q l hl
      refine ⟨h, ?_, hstay h hfits fun heq => hfresh q (heq ▸ hl)⟩
      rw [haddr, if_neg, haddress]
      rintro rfl
      rcases hadds.address with hk | ⟨hk, -⟩ <;> rw [State.address, hk] at haddress
      · exact hqp (Option.some.inj haddress).symm
      · cases haddress
  · by_cases hli : l = i
    · refine ⟨p, ?_⟩
      dsimp only
      rw [hadds.bridges, if_pos rfl, hli]
      exact Finset.mem_insert_self i _
    · have hy' : s.sessions[l]? = some y := (Pool.getElem?_set_ne (Ne.symm hli)).symm.trans hy
      obtain ⟨q, hq⟩ := hs.placed l y hy' hreg
      refine ⟨q, ?_⟩
      dsimp only
      rw [hadds.bridges]
      split_ifs with hqp
      · exact Finset.mem_insert_of_mem (hqp ▸ hq)
      · exact hq

/-- A bridge whose `run` has returned stays where it is. -/
theorem Housed.run (hs : Housed s) (hx : s.sessions[i]? = some x) (hphase : x.phase = .run) :
    Housed { s with sessions := s.sessions.set i { x with phase := .remove } } := by
  refine ⟨hs.bounded, hs.apart, hs.nonempty, hs.once, fun q l hl => ?_, fun l y hy hreg => ?_⟩
  · obtain ⟨h, haddress, hfits⟩ := hs.held q l hl
    exact ⟨h, haddress, hfits.set_session hx rfl (fun _ _ => rfl) (fun _ => nofun)⟩
  · rcases Pool.getElem?_set_cases hx hy with ⟨rfl, -⟩ | ⟨-, hy'⟩
    · exact hs.placed _ x hx (by rw [hphase]; rfl)
    · exact hs.placed l y hy' hreg

/-- **`Remove` leaves the bridge only where a `CloseConns` has it.** -/
theorem Housed.remove (hs : Housed s) (hx : s.sessions[i]? = some x) :
    Housed { s with
      tracker := s.tracker.remove x.key i
      sessions := s.sessions.set i { x with phase := .gone } } := by
  have hrem := ConnTracker.removes_remove (fun p => hs.bounded (.key x.key) p) i
  have haddr : ∀ h q, State.address { s with
        tracker := s.tracker.remove x.key i
        sessions := s.sessions.set i { x with phase := .gone } } h = some q ↔
      s.address h = some q ∧
        (h = .key x.key → ((s.tracker.remove x.key i).bridges q).Nonempty) := by
    rintro (k | j) q
    · simp only [State.address, hrem.lookup k q, Holder.key.injEq]
    · exact ⟨fun h => ⟨h, nofun⟩, And.left⟩
  refine ⟨fun h q hq => ?_, fun h h' q hq hq' => ?_, fun k q hq => ?_, fun q q' l hl hl' => ?_,
    fun q l hl => ?_, fun l y hy hreg => ?_⟩
  · exact Nat.lt_of_lt_of_eq (hs.bounded h q ((haddr h q).1 hq).1) hrem.length.symm
  · exact hs.apart h h' q ((haddr h q).1 hq).1 ((haddr h' q).1 hq').1
  · obtain ⟨hk, hne⟩ := (hrem.lookup k q).1 hq
    by_cases hkx : k = x.key
    · exact hne hkx
    -- another key has another map, which has lost nothing
    · obtain ⟨l, hl⟩ := hs.nonempty k q hk
      refine ⟨l, (hrem.mem q l).2 ⟨hl, fun hxq => ?_⟩⟩
      exact absurd (Holder.key.inj (hs.apart (.key k) (.key x.key) q hk hxq)) hkx
  · exact hs.once q q' l ((hrem.mem q l).1 hl).1 ((hrem.mem q' l).1 hl').1
  · obtain ⟨hlq, hne⟩ := (hrem.mem q l).1 hl
    obtain ⟨h, haddress, hfits⟩ := hs.held q l hlq
    refine ⟨h, (haddr h q).2 ⟨haddress, fun _ => ⟨l, hl⟩⟩, ?_⟩
    by_cases hli : l = i
    · -- the map is not the one under the key, so a call has taken it out
      cases h with
      | key k =>
        obtain ⟨y, hy, rfl, -⟩ := hfits
        rw [hli] at hy
        obtain rfl := Option.some.inj (hx.symm.trans hy)
        exact absurd hli (hne haddress)
      | closer j =>
        obtain ⟨y, c, hy, hc, hkey, -⟩ := hfits
        rw [hli] at hy ⊢
        obtain rfl := Option.some.inj (hx.symm.trans hy)
        exact ⟨_, c, Pool.getElem?_set_self hx, hc, hkey, nofun⟩
    · exact hfits.set_session hx rfl (fun heq => absurd heq hli) fun heq => absurd heq hli
  · rcases Pool.getElem?_set_cases hx hy with ⟨-, rfl⟩ | ⟨hli, hy'⟩
    · cases hreg
    · obtain ⟨q, hq⟩ := hs.placed l y hy' hreg
      exact ⟨q, (hrem.mem q l).2 ⟨hq, fun _ => hli⟩⟩

/-- **`CloseConns` takes over the map of its key.** -/
theorem Housed.detach (hs : Housed s) (hc : s.closers[j]? = some c) (hphase : c.phase = .detach) :
    Housed { s with
      tracker := s.tracker.detach c.key
      closers := s.closers.set j { c with
        phase := .close (s.tracker.conns.lookup c.key) ∅ } } := by
  -- the call has the map that the key had, and the key has none
  have haddr : ∀ h, State.address { s with
        tracker := s.tracker.detach c.key
        closers := s.closers.set j { c with
          phase := .close (s.tracker.conns.lookup c.key) ∅ } } h =
      if h = .closer j then s.address (.key c.key)
      else if h = .key c.key then none else s.address h := by
    intro h
    rw [State.address_set_closer _ _ hc]
    cases h with
    | key k =>
      simp only [reduceCtorEq, if_false, Holder.key.injEq]
      exact Table.lookup_erase_eq ..
    | closer l => rfl
  have hnone : s.address (.closer j) = none := by
    rw [State.address, hc]
    exact congrArg ClosePhase.address hphase
  refine ⟨fun h q hq => ?_, fun h h' q hq hq' => ?_, fun k q hq => ?_, hs.once,
    fun q l hl => ?_, hs.placed⟩
  · rw [haddr] at hq
    split_ifs at hq
    · exact hs.bounded _ q hq
    · exact hs.bounded h q hq
  · rw [haddr] at hq hq'
    split_ifs at hq hq' with hj hj' hk' hk hj' hk'
    · rw [hj, hj']
    · exact absurd (hs.apart _ h' q hq hq').symm hk'
    · exact absurd (hs.apart h _ q hq hq') hk
    · exact hs.apart h h' q hq hq'
  · have hq' := (haddr (.key k)).symm.trans hq
    rw [if_neg nofun] at hq'
    split_ifs at hq'
    exact hs.nonempty k q hq'
  · obtain ⟨h, haddress, hfits⟩ := hs.held q l hl
    by_cases hk : h = .key c.key
    · rw [hk] at haddress hfits
      obtain ⟨y, hy, hkey, hreg⟩ := hfits
      refine ⟨.closer j, ?_, y, _, hy, Pool.getElem?_set_self hc, hkey, fun hadd => ?_⟩
      · rw [haddr, if_pos rfl, haddress]
      · rw [hadd] at hreg
        cases hreg
    · refine ⟨h, ?_, hfits.set_closer _ _ hc rfl⟩
      rw [haddr, if_neg, if_neg hk, haddress]
      rintro rfl
      rw [hnone] at haddress
      cases haddress

/-- While it goes through the map, a `CloseConns` keeps it. -/
theorem Housed.set_closer {c' : Closer} (log : List ℕ) (hs : Housed s)
    (hc : s.closers[j]? = some c) (hkey : c'.key = c.key)
    (haddress : c'.phase.address = c.phase.address) :
    Housed { s with closers := s.closers.set j c', closed := log } := by
  have haddr : ∀ h, State.address { s with closers := s.closers.set j c', closed := log } h =
      s.address h := by
    intro h
    refine (State.address_set_closer s.tracker log hc h).trans ?_
    split_ifs with hj
    · rw [hj, haddress, State.address, hc]
      rfl
    · rfl
  refine ⟨fun h q hq => hs.bounded h q ((haddr h).symm.trans hq),
    fun h h' q hq hq' => hs.apart h h' q ((haddr h).symm.trans hq) ((haddr h').symm.trans hq'),
    hs.nonempty, hs.once, fun q l hl => ?_, hs.placed⟩
  obtain ⟨h, hq, hfits⟩ := hs.held q l hl
  exact ⟨h, (haddr h).trans hq, hfits.set_closer s.tracker log hc hkey⟩

/-- **Every step keeps the bridges housed.** -/
theorem Housed.step (hs : Housed s) (h : Steps s s') : Housed s' := by
  cases h with
  | add hx hphase => exact hs.add hx hphase
  | run hx hphase => exact hs.run hx hphase
  | remove hx => exact hs.remove hx
  | detach hc hphase => exact hs.detach hc hphase
  | close hc hphase => exact hs.set_closer _ hc rfl (by rw [hphase]; rfl)
  | closed hc hphase => exact hs.set_closer s.closed hc rfl (by rw [hphase]; rfl)
  | copy | swap => exact ⟨hs.bounded, hs.apart, hs.nonempty, hs.once, hs.held, hs.placed⟩

/-- **The map that a `CloseConns` goes through does not change**, whoever
else takes a step. -/
theorem Housed.bridges_eq (hs : Housed s) (h : Steps s s')
    (hp : s.address (.closer j) = some p) : s'.tracker.bridges p = s.tracker.bridges p := by
  cases h with
  | @add i x hx hphase =>
    obtain ⟨q, hadds⟩ := ConnTracker.exists_adds (fun q => hs.bounded (.key x.key) q) i
    dsimp only
    rw [hadds.bridges, if_neg]
    rintro rfl
    rcases hadds.address with hk | ⟨-, rfl⟩
    · cases hs.apart (.closer j) (.key x.key) p hp hk
    · exact Nat.lt_irrefl _ (hs.bounded _ _ hp)
  | @remove i x hx =>
    have hrem := ConnTracker.removes_remove (fun q => hs.bounded (.key x.key) q) i
    ext l
    rw [hrem.mem p l]
    refine ⟨And.left, fun hl => ⟨hl, fun hk => ?_⟩⟩
    cases hs.apart (.closer j) (.key x.key) p hp hk
  | run | detach | close | closed | copy | swap => rfl

end Tracking

end StickyProxy
