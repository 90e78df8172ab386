import StickyProxy.WebSocket.Model.Swaps
import StickyProxy.WebSocket.Effects
import StickyProxy.Common.Run
import StickyProxy.Common.Pool
/-!
# Which swap wins

The channel of `SwapBackend` has one place and the send does not wait, so
a call that finds a URL in it leaves nothing behind. What the loop ends up
connected to is the URL that was in the channel when the last call was
through: its own if it found the channel empty, and otherwise the one it
found. The last swap wins exactly when these are the same.
-/

namespace StickyProxy

namespace WebSocket

variable {M : Type*} {s s' : Bridge M} {c : Case}

/-! ## What a step of the loop does to a swap -/

/-- A step of the loop, as far as the channel and the swap go. -/
inductive SwapStep (s s' : Bridge M) : Prop
  /-- The URL is taken out of the channel, to be dialled or, if it is
  empty, for nothing. -/
  | take {newURL : Backend} : s.swapCh = some newURL → s.run.inSwap = false →
      s.run.running = true → s'.swapCh = none →
      s'.run.newURL = some newURL ∨ s'.run.running = false → SwapStep s s'
  /-- The swap goes on to the same URL. -/
  | proceed {newURL : Backend} : s.run.newURL = some newURL → (∀ u, s.run ≠ .dial u) →
      s'.run.newURL = some newURL → s'.swapCh = s.swapCh → SwapStep s s'
  | dial {newURL : Backend} : s.run = .dial newURL →
      s'.run = .closeOld ∨ s'.run.running = false → s'.swapCh = s.swapCh → SwapStep s s'
  | closeOld : s.run = .closeOld → s'.run = .install → s'.swapCh = s.swapCh → SwapStep s s'
  | install : s.run = .install → s'.run = .forward → s'.swapCh = s.swapCh → SwapStep s s'
  | outside : s.run.inSwap = false → s'.run.inSwap = false →
      (s'.run.running = true → s.run.running = true) → s'.swapCh = s.swapCh → SwapStep s s'

theorem swapStep_swapOrReturn (hrun : s.run.inSwap = false) (hrunning : s.run.running = true) :
    SwapStep s s.swapOrReturn := by
  rcases hch : s.swapCh with - | newURL
  · have hnone : s.pendingSwap = none := by rw [Bridge.pendingSwap, hch]; rfl
    refine .outside hrun ?_ ?_ (hch ▸ rfl)
    · simp only [Bridge.swapOrReturn, hnone]
      rfl
    · simp only [Bridge.swapOrReturn, hnone]
      exact fun h => absurd h Bool.false_ne_true
  · refine .take hch hrun hrunning rfl ?_
    by_cases hempty : newURL = ""
    · have hnone : s.pendingSwap = none := by simp [Bridge.pendingSwap, hch, hempty]
      exact .inr (by simp only [Bridge.swapOrReturn, hnone]; rfl)
    · have hsome : s.pendingSwap = some newURL := by simp [Bridge.pendingSwap, hch, hempty]
      exact .inl (by simp only [Bridge.swapOrReturn, hsome]; rfl)

/-- The channel and the phase are all a swap step looks at. -/
theorem SwapStep.congr {t t' : Bridge M} (h : SwapStep t t') (hch : s.swapCh = t.swapCh)
    (hrun : s.run = t.run) (hch' : s'.swapCh = t'.swapCh) (hrun' : s'.run = t'.run) :
    SwapStep s s' := by
  cases h with
  | take h₁ h₂ h₃ h₄ h₅ =>
    exact .take (hch.trans h₁) (hrun ▸ h₂) (hrun ▸ h₃) (hch'.trans h₄) (hrun' ▸ h₅)
  | proceed h₁ h₂ h₃ h₄ =>
    exact .proceed (hrun ▸ h₁) (hrun ▸ h₂) (hrun' ▸ h₃) (by rw [hch, hch', h₄])
  | dial h₁ h₂ h₃ => exact .dial (hrun.trans h₁) (hrun' ▸ h₂) (by rw [hch, hch', h₃])
  | closeOld h₁ h₂ h₃ => exact .closeOld (hrun.trans h₁) (hrun'.trans h₂) (by rw [hch, hch', h₃])
  | install h₁ h₂ h₃ => exact .install (hrun.trans h₁) (hrun'.trans h₂) (by rw [hch, hch', h₃])
  | outside h₁ h₂ h₃ h₄ =>
    exact .outside (hrun ▸ h₁) (hrun' ▸ h₂) (hrun ▸ hrun' ▸ h₃) (by rw [hch, hch', h₄])

/-- A step between phases that have nothing to do with a swap. -/
theorem swapStep_outside {ph ph' : RunPhase M} (hrun : s.run = ph) (hrun' : s'.run = ph')
    (hph : ph.inSwap = false) (hph' : ph'.inSwap = false) (hrunning : ph.running = true)
    (hch : s'.swapCh = s.swapCh) : SwapStep s s' :=
  .outside (hrun ▸ hph) (hrun' ▸ hph') (fun _ => hrun ▸ hrunning) hch

theorem stopPumpStep_swapCh_run (s : Bridge M) (q : RunPhase M) :
    (s.stopPumpStep q).swapCh = s.swapCh ∧
      ((s.stopPumpStep q).run = s.run ∨ (s.stopPumpStep q).run = q) := by
  unfold Bridge.stopPumpStep
  split
  · exact ⟨rfl, .inl rfl⟩
  · exact ⟨rfl, .inr rfl⟩

theorem forwardStep_swapCh_run (s : Bridge M) :
    s.forwardStep.swapCh = s.swapCh ∧ (s.forwardStep.run = s.run ∨
      s.forwardStep.run = .returning ∨ s.forwardStep.run = .select) := by
  unfold Bridge.forwardStep
  split
  · dsimp only
    split
    · exact ⟨rfl, .inl rfl⟩
    · exact ⟨rfl, .inr (.inl rfl)⟩
  · exact ⟨rfl, .inr (.inl rfl)⟩
  · exact ⟨rfl, .inr (.inr rfl)⟩

theorem swapStep_of_runs (h : Runs s c s') : SwapStep s s' := by
  cases h with
  | client hrun | clientError hrun | backend hrun | clientWriteErr hrun | toBackend hrun
  | toClient hrun | toClientErr hrun => exact swapStep_outside hrun rfl rfl rfl rfl rfl
  | @backendError rest hrun _ =>
    exact (swapStep_swapOrReturn (s := s.setBackendCh rest) (hrun ▸ rfl) (hrun ▸ rfl)).congr
      rfl rfl rfl rfl
  | backendWriteErr hrun _ =>
    exact (swapStep_swapOrReturn (s := s.takeErr) (hrun ▸ rfl) (hrun ▸ rfl)).congr rfl rfl rfl rfl
  | swap hrun hch => exact .take hch (hrun ▸ rfl) (hrun ▸ rfl) rfl (.inl rfl)
  | toBackendErr hrun _ =>
    exact (swapStep_swapOrReturn (s := s.takeErr) (hrun ▸ rfl) (hrun ▸ rfl)).congr rfl rfl rfl rfl
  | closeBackend hrun | drainReader hrun | stopReader hrun =>
    exact .proceed (hrun ▸ rfl) (fun u h => by rw [hrun] at h; cases h) rfl rfl
  | @stopPump newURL hrun =>
    have hnewURL : s.run.newURL = some newURL := hrun ▸ rfl
    obtain ⟨hch, hrun'⟩ := stopPumpStep_swapCh_run s (.dial newURL)
    refine .proceed hnewURL (fun u h => by rw [hrun] at h; cases h) ?_ hch
    rcases hrun' with hrun' | hrun' <;> rw [hrun']
    · exact hnewURL
    · rfl
  | @dial newURL ok hrun =>
    refine .dial hrun ?_ rfl
    cases ok
    · exact .inr rfl
    · exact .inl rfl
  | closeOld hrun => exact .closeOld hrun rfl rfl
  | install hrun _ => exact .install hrun rfl rfl
  | forward hrun =>
    obtain ⟨hch, hrun'⟩ := forwardStep_swapCh_run s
    refine .outside (hrun ▸ rfl) ?_ (fun _ => hrun ▸ rfl) hch
    rcases hrun' with hrun' | hrun' | hrun' <;> rw [hrun']
    · rw [hrun]
      rfl
    · rfl
    · rfl
  | returning hrun =>
    dsimp only
    split
    · exact .outside (hrun ▸ rfl) rfl (fun h => absurd h Bool.false_ne_true) rfl
    · exact .outside (hrun ▸ rfl) rfl (fun h => absurd h Bool.false_ne_true) rfl
  | releasing hrun =>
    obtain ⟨hch, hrun'⟩ := stopPumpStep_swapCh_run s .closing
    rw [hrun] at hrun'
    refine .outside (hrun ▸ rfl) ?_ ?_ hch
    · rcases hrun' with hrun' | hrun' <;> rw [hrun'] <;> rfl
    · rcases hrun' with hrun' | hrun' <;> rw [hrun'] <;> exact fun h => absurd h Bool.false_ne_true
  | closing hrun => exact .outside (hrun ▸ rfl) rfl (fun h => absurd h Bool.false_ne_true) rfl

/-- Readers and pumps leave the channel and the loop alone. -/
theorem goroutine_swapCh_run {a : Action M} (ha : a.isGoroutine = true)
    (h : step s a = some s') : s'.swapCh = s.swapCh ∧ s'.run = s.run := by
  cases steps_of_step h with
  | run | swapBackend | closeBackend => cases ha
  | clientReader | clientPump | reader | pump | pastReader | pastPump => exact ⟨rfl, rfl⟩

/-! ## The books -/

/-- The URLs the calls were made with, and the calls they await. -/
def Swaps.urls (s : Swaps M) : List Backend := s.calls.map Call.url

def Swaps.awaited (s : Swaps M) : List ℕ := s.calls.map Call.awaits

/-- For each call, whom it awaits and the URL that was in the channel once
it had offered its own. -/
def Swaps.offers (s : Swaps M) : List (ℕ × Backend) :=
  s.calls.map fun call => (call.awaits, call.found.getD call.url)

/-- What the books say of the bridge: a request passes from the channel to
the loop and from the loop to the connection, with its URL. -/
structure Booked (s : Swaps M) : Prop where
  waiting : s.waiting.isSome = s.bridge.swapCh.isSome
  serving : s.bridge.run.running = true → s.serving.isSome = s.bridge.run.inSwap
  own : ∀ i, s.waiting = some i ∨ s.serving = some i ∨ s.requester = some i →
    s.awaited[i]? = some i
  apart : ∀ i, s.requester = some i → s.waiting ≠ some i ∧ s.serving ≠ some i
  once : ∀ i, s.serving = some i → s.waiting ≠ some i
  channel : ∀ i, s.waiting = some i → s.urls[i]? = s.bridge.swapCh
  dialling : ∀ i u, s.serving = some i → s.bridge.run.newURL = some u → s.urls[i]? = some u
  dialled : ∀ i, s.serving = some i → s.bridge.run = .closeOld ∨ s.bridge.run = .install →
    s.urls[i]? = some s.dialled
  connected : ∀ i, s.requester = some i → s.urls[i]? = some s.backendURL
  newest : ∀ i, s.awaited.getLast? = some i →
    s.waiting.or (s.serving.or s.requester) = some i
  offers : ∀ e ∈ s.offers, s.urls[e.1]? = some e.2

theorem booked_start (url : Backend) : Booked (.start url : Swaps M) := by
  refine ⟨rfl, fun _ => rfl, fun i h => ?_, fun i h => ?_, fun i h => ?_, fun i h => ?_,
    fun i u h => ?_, fun i h => ?_, fun i h => ?_, fun i h => ?_, fun e he => ?_⟩
  · rcases h with h | h | h <;> cases h
  all_goals first | cases h | cases he

section Books

variable {t t' : Swaps M} {b : Bridge M}

theorem Booked.waiting_eq_none (h : Booked t) (hch : t.bridge.swapCh = none) :
    t.waiting = none := by
  have hnone := h.waiting
  rw [hch] at hnone
  exact Option.isNone_iff_eq_none.1 (Option.isSome_eq_false_iff.1 hnone)

theorem Booked.serving_eq_none (h : Booked t) (hrunning : t.bridge.run.running = true)
    (hin : t.bridge.run.inSwap = false) : t.serving = none := by
  have hnone := h.serving hrunning
  rw [hin] at hnone
  exact Option.isNone_iff_eq_none.1 (Option.isSome_eq_false_iff.1 hnone)

theorem Booked.exists_serving (h : Booked t) (hrunning : t.bridge.run.running = true)
    (hin : t.bridge.run.inSwap = true) : ∃ i, t.serving = some i :=
  Option.isSome_iff_exists.1 ((h.serving hrunning).trans hin)

/-- A step that leaves the channel alone, when the loop is still doing what
the books say of it. -/
theorem Booked.keep (h : Booked t) (hch : b.swapCh = t.bridge.swapCh)
    (hserving : b.run.running = true → t.serving.isSome = b.run.inSwap)
    (hdialling : ∀ i u, t.serving = some i → b.run.newURL = some u → t.urls[i]? = some u)
    (hdialled : ∀ i, t.serving = some i → b.run = .closeOld ∨ b.run = .install →
      t.urls[i]? = some t.dialled) : Booked { t with bridge := b } where
  waiting := hch ▸ h.waiting
  serving := hserving
  own := h.own
  apart := h.apart
  once := h.once
  channel i hi := (h.channel i hi).trans hch.symm
  dialling := hdialling
  dialled := hdialled
  connected := h.connected
  newest := h.newest
  offers := h.offers

/-- Steps that leave the channel and the loop alone. -/
theorem Booked.set_bridge (h : Booked t) (hch : b.swapCh = t.bridge.swapCh)
    (hrun : b.run = t.bridge.run) : Booked { t with bridge := b } :=
  h.keep hch (hrun ▸ h.serving) (hrun ▸ h.dialling) (hrun ▸ h.dialled)

/-- A call that closes the connection changes nothing in the books. -/
theorem Booked.set_closed {i : ℕ} {call : Call} {own : Bool} (h : Booked t)
    (hi : t.calls[i]? = some call) :
    Booked { t with calls := t.calls.set i { call with closed := true }, ownClosed := own } := by
  have hurls : (t.calls.set i { call with closed := true }).map Call.url = t.calls.map Call.url :=
    Pool.map_set_of_eq _ hi rfl
  have hawaited : (t.calls.set i { call with closed := true }).map Call.awaits =
      t.calls.map Call.awaits := Pool.map_set_of_eq _ hi rfl
  have hoffers : (t.calls.set i { call with closed := true }).map
      (fun call => (call.awaits, call.found.getD call.url)) =
      t.calls.map fun call => (call.awaits, call.found.getD call.url) :=
    Pool.map_set_of_eq _ hi rfl
  refine ⟨h.waiting, h.serving, fun j hj => ?_, h.apart, h.once, fun j hj => ?_,
    fun j u hj hu => ?_, fun j hj hr => ?_, fun j hj => ?_, fun j hj => ?_, fun e he => ?_⟩
  · rw [Swaps.awaited, hawaited]
    exact h.own j hj
  · rw [Swaps.urls, hurls]
    exact h.channel j hj
  · rw [Swaps.urls, hurls]
    exact h.dialling j u hj hu
  · rw [Swaps.urls, hurls]
    exact h.dialled j hj hr
  · rw [Swaps.urls, hurls]
    exact h.connected j hj
  · rw [Swaps.awaited, hawaited] at hj
    exact h.newest j hj
  · rw [Swaps.offers, hoffers] at he
    rw [Swaps.urls, hurls]
    exact h.offers e he

/-- One more call, after which the request of call `w` is in the channel,
with URL `v`. -/
theorem Booked.append {call : Call} {v : Backend} (h : Booked t) (hrun : b.run = t.bridge.run)
    (hch : b.swapCh = some v) (hurl : (t.urls ++ [call.url])[call.awaits]? = some v)
    (hown : (t.awaited ++ [call.awaits])[call.awaits]? = some call.awaits)
    (hnew : ∀ i, t.serving = some i ∨ t.requester = some i → i ≠ call.awaits)
    (hoffer : call.found.getD call.url = v) :
    Booked { t with
      bridge := b, calls := t.calls ++ [call], waiting := some call.awaits } := by
  have hurls : (t.calls ++ [call]).map Call.url = t.urls ++ [call.url] := List.map_append
  have hawaited : (t.calls ++ [call]).map Call.awaits = t.awaited ++ [call.awaits] :=
    List.map_append
  -- What was said of the calls of before is still said of them.
  have hold : ∀ {α : Type} {l : List α} {i : ℕ} {x y : α}, l[i]? = some x →
      (l ++ [y])[i]? = some x := fun hi => by
    rw [List.getElem?_append_left (List.getElem?_eq_some_iff.1 hi).1, hi]
  refine ⟨?_, hrun ▸ h.serving, fun i hi => ?_, fun i hi => ⟨?_, (h.apart i hi).2⟩, fun i hi => ?_,
    fun i hi => ?_, fun i u hi hu => ?_, fun i hi hr => ?_, fun i hi => ?_, fun i hi => ?_,
    fun e he => ?_⟩
  · rw [hch]
    rfl
  · rw [Swaps.awaited, hawaited]
    rcases hi with hi | hi | hi
    · obtain rfl := Option.some.inj hi
      exact hown
    · exact hold (h.own i (.inr (.inl hi)))
    · exact hold (h.own i (.inr (.inr hi)))
  · exact fun heq => hnew i (.inr hi) (Option.some.inj heq).symm
  · exact fun heq => hnew i (.inl hi) (Option.some.inj heq).symm
  · obtain rfl := Option.some.inj hi
    rw [Swaps.urls, hurls, hurl, hch]
  · rw [Swaps.urls, hurls]
    exact hold (h.dialling i u hi (hrun ▸ hu))
  · rw [Swaps.urls, hurls]
    exact hold (h.dialled i hi (hrun ▸ hr))
  · rw [Swaps.urls, hurls]
    exact hold (h.connected i hi)
  · rw [Swaps.awaited, hawaited, List.getLast?_append, List.getLast?_singleton,
      Option.some_or] at hi
    exact hi
  · rw [Swaps.urls, hurls]
    rw [Swaps.offers, List.map_append, List.mem_append] at he
    rcases he with he | he
    · exact hold (h.offers e he)
    · obtain rfl := List.mem_singleton.1 he
      exact hurl.trans (congrArg some hoffer.symm)

/-- A call offers its URL: to an empty channel, or in vain. -/
theorem Booked.swapBackend {newURL : Backend} (h : Booked t)
    (hstep : t.step (.swapBackend newURL) = some t') : Booked t' := by
  obtain rfl := Option.some.inj hstep
  have hlen : t.awaited.length = t.calls.length := List.length_map _
  have hlen' : t.urls.length = t.calls.length := List.length_map _
  have hwaiting := h.waiting
  rcases hw : t.waiting with - | w
  · have hch : t.bridge.swapCh = none := by
      rw [hw] at hwaiting
      exact Option.isSome_eq_false_iff.1 hwaiting.symm |> Option.isNone_iff_eq_none.1
    refine h.append (v := newURL) rfl ?_ ?_ ?_ (fun i hi heq => ?_) ?_
    · rw [hch]
      rfl
    · show (t.urls ++ [newURL])[t.calls.length]? = some newURL
      rw [← hlen', List.getElem?_concat_length]
    · show (t.awaited ++ [t.calls.length])[t.calls.length]? = some t.calls.length
      nth_rewrite 2 [← hlen]
      rw [List.getElem?_concat_length]
    · -- The new call is none of those there are.
      obtain rfl : i = t.calls.length := heq
      exact absurd (List.getElem?_eq_some_iff.1 (h.own _ (.inr hi))).1 (by rw [hlen]; omega)
    · rw [hch]
      rfl
  · obtain ⟨v, hv⟩ : ∃ v, t.bridge.swapCh = some v := by
      rw [hw] at hwaiting
      exact Option.isSome_iff_exists.1 hwaiting.symm
    have hurl : t.urls[w]? = some v := (h.channel w hw).trans hv
    have hown : t.awaited[w]? = some w := h.own w (.inl hw)
    refine h.append (v := v) rfl ?_ ?_ ?_ (fun i hi heq => ?_) ?_
    · rw [hv]
      rfl
    · show (t.urls ++ [newURL])[w]? = some v
      rw [List.getElem?_append_left (List.getElem?_eq_some_iff.1 hurl).1, hurl]
    · show (t.awaited ++ [w])[w]? = some w
      rw [List.getElem?_append_left (List.getElem?_eq_some_iff.1 hown).1, hown]
    · obtain rfl : i = w := heq
      rcases hi with hi | hi
      · exact h.once i hi hw
      · exact (h.apart i hi).1 hw
    · rw [hv]
      rfl

/-! ### The loop -/

theorem after_of_take (hrun : t.bridge.run.inSwap = false) (hch : t.bridge.swapCh.isSome)
    (hb : b.swapCh = none) :
    t.after b = { t with bridge := b, serving := t.waiting, waiting := none } := by
  unfold Swaps.after
  split
  · rename_i heq
    rw [heq] at hrun
    cases hrun
  · rename_i heq
    rw [heq] at hrun
    cases hrun
  · exact if_pos ⟨hch, by rw [hb]; rfl⟩

theorem after_of_swapCh_eq (hdial : ∀ u, t.bridge.run ≠ .dial u)
    (hinstall : t.bridge.run ≠ .install) (hch : b.swapCh = t.bridge.swapCh) :
    t.after b = { t with bridge := b } := by
  unfold Swaps.after
  split
  · rename_i u heq
    exact absurd heq (hdial u)
  · rename_i heq
    exact absurd heq hinstall
  · refine if_neg ?_
    rw [hch]
    rintro ⟨hsome, hnone⟩
    exact Option.not_isSome_iff_eq_none.2 (Option.isNone_iff_eq_none.1 hnone) hsome

theorem RunPhase.inSwap_of_newURL {ph : RunPhase M} {u : Backend} (h : ph.newURL = some u) :
    ph.inSwap = true ∧ ph.running = true ∧ ph ≠ .closeOld ∧ ph ≠ .install := by
  cases ph <;> cases h <;> exact ⟨rfl, rfl, nofun, nofun⟩

theorem Booked.take {u : Backend} (h : Booked t) (hch : t.bridge.swapCh = some u)
    (hrun : t.bridge.run.inSwap = false) (hrunning : t.bridge.run.running = true)
    (hb : b.swapCh = none) (hb' : b.run.newURL = some u ∨ b.run.running = false) :
    Booked (t.after b) := by
  have hserving : t.serving = none := h.serving_eq_none hrunning hrun
  obtain ⟨w, hw⟩ : ∃ w, t.waiting = some w := by
    have hsome := h.waiting
    rw [hch] at hsome
    exact Option.isSome_iff_exists.1 hsome
  rw [after_of_take hrun (by rw [hch]; rfl) hb]
  refine ⟨(congrArg Option.isSome hb).symm, fun hr => ?_, fun i hi => ?_,
    fun i hi => ⟨nofun, (h.apart i hi).1⟩, fun i _ => nofun, fun i => nofun, fun i v hi hv => ?_,
    fun i hi hr => ?_, h.connected, fun i hi => ?_, h.offers⟩
  · have hu := hb'.resolve_right (by rw [hr]; exact Bool.noConfusion)
    rw [hw]
    exact (RunPhase.inSwap_of_newURL hu).1.symm
  · rcases hi with hi | hi | hi
    · cases hi
    · exact h.own i (.inl hi)
    · exact h.own i (.inr (.inr hi))
  · have hu := hb'.resolve_right (by
      rw [(RunPhase.inSwap_of_newURL hv).2.1]; exact Bool.noConfusion)
    exact (h.channel i hi).trans (hch.trans (hu.symm.trans hv))
  · -- It has not been dialled yet.
    rcases hb' with hu | hstop
    · exact absurd hr (not_or.2 (RunPhase.inSwap_of_newURL hu).2.2)
    · rcases hr with hr | hr <;> rw [hr] at hstop <;> cases hstop
  · have hnewest := h.newest i hi
    rw [hserving, Option.none_or] at hnewest
    exact hnewest

/-- The URL has been dialled. -/
theorem Booked.dial {u : Backend} (h : Booked t) (hrun : t.bridge.run = .dial u)
    (hb : b.run = .closeOld ∨ b.run.running = false) (hch : b.swapCh = t.bridge.swapCh) :
    Booked (t.after b) := by
  have hafter : t.after b = { t with bridge := b, dialled := u } := by
    unfold Swaps.after
    rw [hrun]
  rw [hafter]
  refine ⟨hch ▸ h.waiting, fun hr => ?_, h.own, h.apart, h.once,
    fun i hi => (h.channel i hi).trans hch.symm, fun i v hi hv => ?_,
    fun i hi _ => h.dialling i u hi (hrun ▸ rfl), h.connected, h.newest, h.offers⟩
  · rw [hb.resolve_right (by rw [hr]; exact Bool.noConfusion)]
    exact (h.serving (hrun ▸ rfl)).trans (hrun ▸ rfl)
  · have hin := RunPhase.inSwap_of_newURL hv
    rcases hb with hb | hb
    · exact absurd hb hin.2.2.1
    · exact absurd (hb.symm.trans hin.2.1) Bool.false_ne_true

/-- The connection is put in place. -/
theorem Booked.install (h : Booked t) (hrun : t.bridge.run = .install) (hrun' : b.run = .forward)
    (hch : b.swapCh = t.bridge.swapCh) : Booked (t.after b) := by
  have hafter : t.after b = { t with
      bridge := b, requester := t.serving, serving := none, backendURL := t.dialled } := by
    unfold Swaps.after
    rw [hrun]
  obtain ⟨j, hj⟩ := h.exists_serving (hrun ▸ rfl) (hrun ▸ rfl)
  rw [hafter]
  refine ⟨hch ▸ h.waiting, fun _ => hrun' ▸ rfl, fun i hi => ?_,
    fun i hi => ⟨h.once i hi, nofun⟩, nofun, fun i hi => (h.channel i hi).trans hch.symm, nofun,
    nofun, fun i hi => h.dialled i hi (.inr hrun), fun i hi => ?_, h.offers⟩
  · rcases hi with hi | hi | hi
    · exact h.own i (.inl hi)
    · cases hi
    · exact h.own i (.inr (.inl hi))
  · have hnewest := h.newest i hi
    rw [hj, Option.some_or] at hnewest
    rw [Option.none_or, hj]
    exact hnewest

/-- **A step of the loop keeps the books.** -/
theorem Booked.run (h : Booked t) (hruns : Runs t.bridge c b) : Booked (t.after b) := by
  cases swapStep_of_runs hruns with
  | take hch hrun hrunning hb hb' => exact h.take hch hrun hrunning hb hb'
  | @proceed u hu hdial hu' hch =>
    obtain ⟨hin, hrunning, hne⟩ := RunPhase.inSwap_of_newURL hu
    obtain ⟨hin', -, hne'⟩ := RunPhase.inSwap_of_newURL hu'
    rw [after_of_swapCh_eq hdial hne.2 hch]
    refine h.keep hch (fun _ => (h.serving hrunning).trans (hin.trans hin'.symm))
      (fun i v hi hv => ?_) fun i hi hr => absurd hr (not_or.2 hne')
    exact h.dialling i v hi (hu.trans (hu'.symm.trans hv))
  | dial hrun hb hch => exact h.dial hrun hb hch
  | closeOld hrun hrun' hch =>
    rw [after_of_swapCh_eq (fun u heq => by rw [hrun] at heq; cases heq)
      (fun heq => by rw [hrun] at heq; cases heq) hch]
    refine h.keep hch (fun _ => ?_) (fun i v _ hv => ?_) fun i hi _ => h.dialled i hi (.inl hrun)
    · rw [hrun']
      exact (h.serving (hrun ▸ rfl)).trans (hrun ▸ rfl)
    · rw [hrun'] at hv
      cases hv
  | install hrun hrun' hch => exact h.install hrun hrun' hch
  | outside hin hin' hrunning hch =>
    rw [after_of_swapCh_eq (fun u heq => by rw [heq] at hin; cases hin)
      (fun heq => by rw [heq] at hin; cases hin) hch]
    refine h.keep hch (fun hr => (h.serving (hrunning hr)).trans (hin.trans hin'.symm))
      (fun i v _ hv => ?_) fun i _ hr => ?_
    · exact absurd (hin'.symm.trans (RunPhase.inSwap_of_newURL hv).1) Bool.false_ne_true
    · rcases hr with hr | hr <;> rw [hr] at hin' <;> cases hin'

/-- **Every step keeps the books.** -/
theorem Booked.step {a : SwapAction M} (h : Booked t) (hstep : t.step a = some t') :
    Booked t' := by
  cases a with
  | run c =>
    obtain ⟨b, hb, rfl⟩ := Option.map_eq_some_iff.1 hstep
    exact h.run (runs_of_runStep hb)
  | goroutine a =>
    obtain ⟨ha, hstep⟩ := Option.ite_none_right_eq_some.1 hstep
    obtain ⟨b, hb, rfl⟩ := Option.map_eq_some_iff.1 hstep
    obtain ⟨hch, hrun⟩ := goroutine_swapCh_run ha hb
    exact h.set_bridge hch hrun
  | swapBackend newURL => exact h.swapBackend hstep
  | close i =>
    obtain ⟨call, hi, hstep⟩ := Option.bind_eq_some_iff.1 hstep
    obtain ⟨-, hstep⟩ := Option.ite_none_left_eq_some.1 hstep
    obtain ⟨b, hb, rfl⟩ := Option.map_eq_some_iff.1 hstep
    have hbridge : b.swapCh = t.bridge.swapCh ∧ b.run = t.bridge.run := by
      cases steps_of_step hb with
      | closeBackend => exact ⟨rfl, rfl⟩
    exact (h.set_bridge hbridge.1 hbridge.2).set_closed hi

theorem booked_of_exec {url : Backend} {schedule : List (SwapAction M)}
    (hrun : Run.exec Swaps.step (.start url) schedule = some t) : Booked t :=
  Run.exec_invariant_of_forall (fun _ _ _ ht hst => ht.step hst) (booked_start url) hrun

/-! ## Which swap wins -/

/-- **What the bridge ends up connected to.** Whenever it is running, with
no URL in the channel and no swap going on, its connection is to the URL
that was in the channel once the last call had offered its own. So it is
to the last URL exactly when the last call found the channel empty or
holding that URL. -/
theorem backendURL_eq_last_iff {url : Backend} {schedule : List (SwapAction M)} {call : Call}
    (hrun : Run.exec Swaps.step (.start url) schedule = some t)
    (hrunning : t.bridge.run.running = true) (hch : t.bridge.swapCh = none)
    (hswap : t.bridge.run.inSwap = false) (hlast : t.calls.getLast? = some call) :
    t.backendURL = call.url ↔ call.found = none ∨ call.found = some call.url := by
  have h := booked_of_exec hrun
  have hwaiting : t.waiting = none := h.waiting_eq_none hch
  have hserving : t.serving = none := h.serving_eq_none hrunning hswap
  have hrequester : t.requester = some call.awaits := by
    have hnewest := h.newest call.awaits (by rw [Swaps.awaited, List.getLast?_map, hlast]; rfl)
    rwa [hwaiting, hserving, Option.none_or, Option.none_or] at hnewest
  have hoffer := h.offers (call.awaits, call.found.getD call.url)
    (List.mem_map_of_mem (List.mem_of_getLast? hlast))
  have hurl : t.backendURL = call.found.getD call.url :=
    Option.some.inj ((h.connected _ hrequester).symm.trans hoffer)
  rw [hurl]
  rcases call.found with - | u <;> simp

end Books

/-- The loop swaps to the URL in the channel, up to the new reader. -/
def loopSwaps : List (SwapAction M) :=
  [.run .swap, .run .next, .goroutine (.reader (.read none)), .goroutine (.reader .send),
    .run .next, .run .next, .run .next, .run (.dial true), .run .next, .run .next, .run .next]

/-- The second call comes after the first swap. -/
theorem backendURL_eq_last_iff_swapped :
    ∃ (t : Swaps Unit) (call : Call),
      Run.exec Swaps.step (.start "b1") ([.swapBackend "b2", .close 0] ++ loopSwaps ++
        [.swapBackend "b3", .close 1] ++ loopSwaps) = some t ∧
      t.calls.getLast? = some call ∧ call.url = "b3" ∧ t.backendURL = call.url := by
  obtain ⟨t, hrun⟩ : ∃ t : Swaps Unit, Run.exec Swaps.step (.start "b1")
      ([.swapBackend "b2", .close 0] ++ loopSwaps ++ [.swapBackend "b3", .close 1] ++
        loopSwaps) = some t :=
    Option.isSome_iff_exists.1 (by decide +kernel)
  have hrest : (some t).map (fun t => (t.bridge.run.running, t.bridge.swapCh,
      t.bridge.run.inSwap, t.calls.getLast?)) =
        some (true, none, false, some ⟨"b3", none, 1, true⟩) := by
    rw [← hrun]
    decide +kernel
  simp only [Option.map_some, Option.some.injEq, Prod.mk.injEq] at hrest
  obtain ⟨hrunning, hch, hswap, hlast⟩ := hrest
  exact ⟨t, _, hrun, hlast, rfl,
    (backendURL_eq_last_iff hrun hrunning hch hswap hlast).2 (.inl rfl)⟩

/-- **The last swap is forgotten.** The loop has not looked at the channel
when the second call finds the first URL there: both calls are through,
the channel is empty, and the bridge is connected to the first. -/
theorem second_swap_dropped :
    (Run.exec Swaps.step (.start "b1" : Swaps Unit)
      ([.swapBackend "b2", .close 0, .swapBackend "b3", .close 1] ++ loopSwaps)).map
        (fun t => (t.bridge.run.running, t.bridge.swapCh, t.bridge.run.inSwap, t.backendURL)) =
      some (true, none, false, "b2") := by
  decide +kernel

end WebSocket

end StickyProxy
