import StickyProxy.Drain.Starting
import StickyProxy.Store.Effects
/-!
# Which drains may yet remove their backend

Whether a goroutine still comes to its `RemoveBackend`, and whether that
takes effect, is a matter of how far it is, of its context and of the
store. The calls to Redis and to Postgres end it once the context is done,
unless its removal has been issued. `MemoryStore` looks at no context, so
what comes before the removal has to stop it: in assignment mode there are
no users to be had from `MemoryStore`, and otherwise it is Redis that is
asked for them, if it is there.
-/

namespace StickyProxy

namespace DrainManager

variable {d d' : DrainManager} {b : Backend} {i j : ℕ} {t : Turn} {g : DrainGoroutine}
  {p : DrainPhase × Store}

/-! ## The kind of a manager -/

/-- What a manager is set up with: it stays as it is. -/
def kind (d : DrainManager) : RoutingMode × Bool × Bool := (d.routingMode, d.redis, d.ignoresCtx)

/-- Writing to the store does not change what store it is. -/
theorem kind_phaseStep (h : d.phaseStep g t = some p) : kind { d with store := p.2 } = d.kind := by
  obtain ⟨q, store⟩ := p
  cases moves_phaseStep h with
  | on _ _ _ | unmark _ => rfl
  | delete _ | remove _ => unfold kind ignoresCtx; cases d.store <;> rfl

theorem kind_turn (h : d.turn i t = some d') : d'.kind = d.kind := by
  obtain ⟨g, -, h⟩ := Option.bind_eq_some_iff.1 h
  obtain ⟨p, hp, rfl⟩ := Option.map_eq_some_iff.1 h
  exact kind_phaseStep hp

theorem kind_addBackend : kind { d with store := d.store.addBackend b } = d.kind := by
  unfold kind ignoresCtx
  cases d.store <;> rfl

theorem kind_removeBackend : kind { d with store := d.store.removeBackend b } = d.kind := by
  unfold kind ignoresCtx
  cases d.store <;> rfl

theorem kind_startDrain : (d.startDrain b).kind = d.kind := by
  unfold startDrain
  split <;> rfl

theorem kind_cancel : (d.cancel i).kind = d.kind := by
  unfold cancel
  split <;> rfl

/-! ## The removals to come -/

/-- A list of users may yet be obtained and led to the removal. -/
def mayFind (d : DrainManager) (g : DrainGoroutine) : Bool :=
  match d.routingMode with
  | .assignment => !d.ignoresCtx && !g.ctxDone
  | .hash => !g.ctxDone || d.ignoresCtx && !d.redis

/-- The goroutine may yet take its backend out of the active set. -/
def mayRemove (d : DrainManager) (g : DrainGoroutine) : Bool :=
  match g.phase with
  | .checkCtx => !g.ctxDone && d.mayFind g
  | .lock | .retry | .getUsers => d.mayFind g
  | .sendUnassign _ | .bulkDelete _ | .invalidate _ | .publish | .removeBackend =>
    d.ignoresCtx || !g.ctxDone
  -- The call is issued, and no longer depends on the context.
  | .removing => true
  | .unlock | .unmark | .ended => false

theorem mayRemove_of_kind (h : d'.kind = d.kind) : d'.mayRemove g = d.mayRemove g := by
  obtain ⟨hmode, hredis, hstore⟩ : d'.routingMode = d.routingMode ∧ d'.redis = d.redis ∧
      d'.ignoresCtx = d.ignoresCtx := by simpa only [kind, Prod.mk.injEq] using h
  unfold mayRemove mayFind
  rw [hmode, hredis, hstore]

theorem removes_of_kind (h : d'.kind = d.kind) : d'.removes g t = d.removes g t := by
  have hstore : d'.ignoresCtx = d.ignoresCtx := congrArg (·.2.2) h
  unfold removes
  rw [hstore]

/-- A context that ends makes no removal possible. -/
theorem mayRemove_ctxDone (h : d.mayRemove g = false) :
    d.mayRemove { g with ctxDone := true } = false := by
  unfold mayRemove mayFind at h ⊢
  cases hphase : g.phase <;> cases hmode : d.routingMode <;> simp_all

/-- A goroutine that may remove nothing takes a step that removes nothing,
and may remove nothing after it. -/
theorem mayRemove_phaseStep (h : d.phaseStep g t = some p) (hnot : d.mayRemove g = false) :
    d.removes g t = false ∧ t ≠ .giveUp ∧ d.mayRemove { g with phase := p.1 } = false := by
  revert h
  fun_cases phaseStep d g t <;> rintro ⟨⟩ <;>
    simp_all [mayRemove, mayFind, removes, finds] <;> grind

/-! ## What the manager does to the active set -/

theorem store_startDrain : (d.startDrain b).store = d.store := by
  unfold startDrain
  split <;> rfl

theorem store_cancel : (d.cancel i).store = d.store := by
  unfold cancel
  split <;> rfl

theorem sent_cancel : (d.cancel i).sent = d.sent := by
  unfold cancel
  split <;> rfl

/-- What a cancellation makes of the goroutines. -/
theorem getElem?_cancel (k i : ℕ) : (d.cancel k).goroutines[i]? =
    (d.goroutines[i]?).map fun g => { g with ctxDone := g.ctxDone || decide (k = i) } := by
  unfold cancel
  by_cases hki : k = i
  · subst hki
    rcases hk : d.goroutines[k]? with - | x
    · simp [hk]
    · simp [Pool.getElem?_set_self hk]
  · rcases hk : d.goroutines[k]? with - | x
    · simp [hki]
    · simp [Pool.getElem?_set_ne hki, hki]

/-- A goroutine takes its own backend out, and nothing else. -/
theorem mem_active_turn (h : d.turn i t = some d') :
    b ∈ d'.store.active ↔ b ∈ d.store.active ∧
      (d.goroutines[i]?).any (fun g => g.backend = b ∧ d.removes g t) = false := by
  obtain ⟨g, q, store, hg, hmoves, rfl⟩ := turn_cases h
  simp only [hg, Option.any_some]
  cases hmoves with
  | on hphase hq hremoves => simp [hremoves]
  | delete hphase => simp [Store.active_bulkDeleteAssignments, removes, hphase]
  | remove hremoves =>
    rw [Store.mem_active_removeBackend]
    simp [hremoves, eq_comm]
  | unmark hphase => simp [removes, hphase]

theorem mem_active_land (h : d.land j = some d') :
    b ∈ d'.store.active ↔ b ∈ d.store.active ∧ d.sent[j]? ≠ some b := by
  obtain ⟨c, hc, rfl⟩ := Option.map_eq_some_iff.1 h
  rw [Store.mem_active_removeBackend, hc]
  simp [eq_comm]

/-! ## A backend no drain can take out -/

/-- Nothing that drains have under way or may come to takes the backend out
of the active set. -/
structure Harmless (b : Backend) (d : DrainManager) : Prop where
  sent : b ∉ d.sent
  goroutines : ∀ (i : ℕ) (g : DrainGoroutine), d.goroutines[i]? = some g → g.backend = b →
    d.mayRemove g = false

/-- It stays so as long as no goroutine is new. -/
theorem Harmless.of_goroutines (h : d.Harmless b) (hkind : d'.kind = d.kind)
    (hsent : d'.sent = d.sent) (hgoroutines : d'.goroutines = d.goroutines) : d'.Harmless b := by
  refine ⟨hsent ▸ h.sent, fun i g hg hgb => ?_⟩
  rw [mayRemove_of_kind hkind]
  exact h.goroutines i g (hgoroutines ▸ hg) hgb

theorem Harmless.startDrain {c : Backend} (h : d.Harmless b) (hc : c ≠ b) :
    (d.startDrain c).Harmless b := by
  rcases hlook : d.draining.lookup c with - | k
  · have hstart : d.startDrain c = { d with
        draining := d.draining.insert c d.goroutines.length
        goroutines := d.goroutines ++ [{ backend := c }] } := by rw [DrainManager.startDrain, hlook]
    rw [hstart]
    refine ⟨h.sent, fun i g hg hgb => ?_⟩
    rcases Nat.lt_or_ge i d.goroutines.length with hi | hi
    · rw [List.getElem?_append_left hi] at hg
      exact h.goroutines i g hg hgb
    · -- The new goroutine drains another backend.
      rw [List.getElem?_append_right hi, List.getElem?_singleton,
        Option.ite_none_right_eq_some] at hg
      obtain rfl := Option.some.inj hg.2
      exact absurd hgb hc
  · have hstart : d.startDrain c = d := by rw [DrainManager.startDrain, hlook]
    rwa [hstart]

theorem Harmless.cancel (h : d.Harmless b) (k : ℕ) : (d.cancel k).Harmless b := by
  refine ⟨sent_cancel.symm ▸ h.sent, fun i g hg hgb => ?_⟩
  rw [getElem?_cancel] at hg
  obtain ⟨x, hx, rfl⟩ := Option.map_eq_some_iff.1 hg
  rw [mayRemove_of_kind kind_cancel]
  have hx := h.goroutines i x hx hgb
  cases decide (k = i) with
  | true => simpa using mayRemove_ctxDone hx
  | false => simpa using hx

theorem Harmless.turn (h : d.Harmless b) (hst : d.turn i t = some d') :
    d'.Harmless b ∧ (b ∈ d'.store.active ↔ b ∈ d.store.active) := by
  have hkind := kind_turn hst
  have hactive := mem_active_turn (b := b) hst
  obtain ⟨x, hx, hst⟩ := Option.bind_eq_some_iff.1 hst
  obtain ⟨p, hp, rfl⟩ := Option.map_eq_some_iff.1 hst
  -- What the goroutine does if it is one of the backend.
  have hown : x.backend = b → d.removes x t = false ∧ t ≠ .giveUp ∧
      d.mayRemove { x with phase := p.1 } = false :=
    fun hxb => mayRemove_phaseStep hp (h.goroutines i x hx hxb)
  refine ⟨⟨?_, fun k g hg hgb => ?_⟩, hactive.trans (and_iff_left ?_)⟩
  · dsimp only
    split
    · rename_i hgiveUp
      rw [List.mem_append, List.mem_singleton, not_or]
      exact ⟨h.sent, fun hxb => (hown hxb.symm).2.1 hgiveUp⟩
    · exact h.sent
  · rw [mayRemove_of_kind hkind]
    rcases Pool.getElem?_set_cases hx hg with ⟨rfl, rfl⟩ | ⟨-, hg⟩
    · exact (hown hgb).2.2
    · exact h.goroutines k g hg hgb
  · rw [hx, Option.any_some, decide_eq_false_iff_not]
    rintro ⟨hxb, hremoves⟩
    rw [(hown hxb).1] at hremoves
    exact Bool.false_ne_true hremoves

theorem Harmless.land (h : d.Harmless b) (hst : d.land j = some d') :
    d'.Harmless b ∧ (b ∈ d'.store.active ↔ b ∈ d.store.active) := by
  have hactive := mem_active_land (b := b) hst
  obtain ⟨c, hc, rfl⟩ := Option.map_eq_some_iff.1 hst
  refine ⟨⟨fun hb => h.sent (List.mem_of_mem_eraseIdx hb), fun k g hg hgb => ?_⟩,
    hactive.trans (and_iff_left fun hb => h.sent (List.mem_of_getElem? hb))⟩
  have hkind := kind_removeBackend (d := { d with sent := d.sent.eraseIdx j }) (b := c)
  rw [mayRemove_of_kind hkind]
  exact h.goroutines k g hg hgb

/-! ## A manager whose goroutines take no steps -/

/-- The goroutines are where they were, though their contexts may have ended
and others been started. -/
structure Keeps (d d' : DrainManager) : Prop where
  sent : d'.sent = d.sent
  kind : d'.kind = d.kind
  goroutines : ∀ (i : ℕ) (g : DrainGoroutine), d.goroutines[i]? = some g →
    ∃ g', d'.goroutines[i]? = some g' ∧ g'.backend = g.backend ∧ g'.phase = g.phase

theorem Keeps.of_goroutines (hkind : d'.kind = d.kind) (hsent : d'.sent = d.sent)
    (hgoroutines : d'.goroutines = d.goroutines) : Keeps d d' :=
  ⟨hsent, hkind, fun _ g hg => ⟨g, hgoroutines ▸ hg, rfl, rfl⟩⟩

theorem Keeps.trans {d'' : DrainManager} (h : Keeps d d') (h' : Keeps d' d'') : Keeps d d'' := by
  refine ⟨h'.sent.trans h.sent, h'.kind.trans h.kind, fun i g hg => ?_⟩
  obtain ⟨g', hg', hb, hphase⟩ := h.goroutines i g hg
  obtain ⟨g'', hg'', hb', hphase'⟩ := h'.goroutines i g' hg'
  exact ⟨g'', hg'', hb'.trans hb, hphase'.trans hphase⟩

theorem keeps_cancel (k : ℕ) : Keeps d (d.cancel k) := by
  refine ⟨sent_cancel, kind_cancel, fun i g hg => ?_⟩
  rw [getElem?_cancel, hg]
  exact ⟨_, rfl, rfl, rfl⟩

theorem keeps_startDrain (b : Backend) : Keeps d (d.startDrain b) := by
  refine ⟨?_, kind_startDrain, fun i g hg => ⟨g, ?_, rfl, rfl⟩⟩
  · unfold startDrain
    split <;> rfl
  · have hi : i < d.goroutines.length := (List.getElem?_eq_some_iff.1 hg).1
    unfold startDrain
    split
    · exact hg
    · exact (List.getElem?_append_left hi).trans hg

/-! ## How a goroutine gets on -/

/-- How many steps a goroutine is from its end, at most. -/
def left : DrainPhase → ℕ
  | .checkCtx => 11
  | .lock | .retry => 10
  | .getUsers => 9
  | .sendUnassign _ => 8
  | .bulkDelete _ => 7
  | .invalidate _ => 6
  | .publish => 5
  | .removeBackend => 4
  | .removing => 3
  | .unlock => 2
  | .unmark => 1
  | .ended => 0

/-- Users that a goroutine may find. -/
theorem exists_finds (h : d.routingMode = .hash → d.redis = false ∨ g.ctxDone = false)
    (h' : d.routingMode = .assignment → d.ignoresCtx = false ∧ g.ctxDone = false) :
    ∃ us, d.finds g us = true := by
  cases hmode : d.routingMode with
  | hash => exact ⟨[], by simpa [finds, hmode] using h hmode⟩
  | assignment =>
    obtain ⟨hctx, hdone⟩ := h' hmode
    exact ⟨d.store.getBackendUsers g.backend, by simp [finds, hmode, hctx, hdone]⟩

/-- A goroutine that has found its users goes on, with them or without. -/
theorem phaseStep_users {us : List RoutingKey} (hphase : g.phase = .getUsers)
    (h : d.finds g us = true) :
    ∃ q, d.phaseStep g (.users us) = some (q, d.store) ∧ left q < left g.phase ∧
      (q = .publish ∨ q = .sendUnassign us) := by
  refine ⟨if us.isEmpty then .publish else .sendUnassign us, ?_⟩
  cases us with
  | nil => simp [phaseStep, hphase, h, left]
  | cons u us => simp [phaseStep, hphase, h, left]

/-- A goroutine that has not ended can get closer to its end. -/
theorem exists_phaseStep (h : g.phase ≠ .ended) :
    ∃ t p, d.phaseStep g t = some p ∧ left p.1 < left g.phase := by
  obtain ⟨b, phase, done⟩ := g
  cases phase with
  | getUsers =>
    -- Where nobody is asked for the users that does not fail.
    by_cases hfail : d.routingMode = .assignment ∨ d.redis
    · exact ⟨.fail, (.unlock, d.store), if_pos hfail, by simp [left]⟩
    · rw [not_or, Bool.not_eq_true] at hfail
      obtain ⟨us, hus⟩ := exists_finds (d := d) (g := ⟨b, .getUsers, done⟩)
        (fun _ => Or.inl hfail.2) (fun hmode => absurd hmode hfail.1)
      obtain ⟨q, hq, hlt, -⟩ := phaseStep_users rfl hus
      exact ⟨.users us, _, hq, hlt⟩
  | checkCtx => exact ⟨.next, _, rfl, by cases done <;> simp [left]⟩
  | removeBackend =>
    cases hctx : d.ignoresCtx with
    | true => exact ⟨.next, _, if_pos hctx, by simp [left]⟩
    | false => exact ⟨.next, _, if_neg (by simp [hctx]), by cases done <;> simp [left]⟩
  | ended => exact absurd rfl h
  | _ => exact ⟨.next, _, rfl, by simp [left]⟩

/-- A goroutine that may remove its backend can get to where that is what
it does next. -/
theorem exists_phaseStep_mayRemove (h : d.mayRemove g = true) (hnext : d.removes g .next = false) :
    ∃ t p, d.phaseStep g t = some p ∧ left p.1 < left g.phase ∧
      d.mayRemove { g with phase := p.1 } = true := by
  obtain ⟨b, phase, done⟩ := g
  cases phase with
  | checkCtx =>
    obtain ⟨rfl, hfind⟩ : done = false ∧ d.mayFind ⟨b, .checkCtx, done⟩ = true := by
      simpa [mayRemove] using h
    exact ⟨.next, _, rfl, by simp [left], hfind⟩
  | lock | retry => exact ⟨.next, _, rfl, by simp [left], h⟩
  | getUsers =>
    have hfind : d.mayFind ⟨b, .getUsers, done⟩ = true := h
    obtain ⟨us, hus⟩ : ∃ us, d.finds ⟨b, .getUsers, done⟩ us = true := by
      apply exists_finds <;> intro hmode <;> simp_all only [mayFind] <;> grind
    obtain ⟨q, hq, hlt, hqs⟩ := phaseStep_users rfl hus
    refine ⟨.users us, _, hq, hlt, ?_⟩
    have hgoes : (d.ignoresCtx || !done) = true := by
      cases hmode : d.routingMode <;> grind [mayFind]
    rcases hqs with rfl | rfl <;> exact hgoes
  | sendUnassign us | bulkDelete us | invalidate us | publish =>
    exact ⟨.next, _, rfl, by simp [left], h⟩
  | removeBackend =>
    have hctx : d.ignoresCtx = false := by simpa [removes] using hnext
    obtain rfl : done = false := by simpa [mayRemove, hctx] using h
    exact ⟨.next, _, if_neg (by simp [hctx]), by simp [left], rfl⟩
  | removing => simp [removes] at hnext
  | unlock | unmark | ended => simp [mayRemove] at h

theorem exists_phaseStep_removes (h : d.removes g .next = true) :
    ∃ p, d.phaseStep g .next = some p := by
  obtain ⟨b, phase, done⟩ := g
  rw [removes, decide_eq_true_eq] at h
  rcases h with ⟨-, ⟨rfl, hctx⟩ | rfl⟩
  · exact ⟨_, if_pos hctx⟩
  · exact ⟨_, rfl⟩

end DrainManager

end StickyProxy
