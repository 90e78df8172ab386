import StickyProxy.Common.Machine
import StickyProxy.Proxy.Model.PoisonPill
import Mathlib.Data.Finset.Card
import Mathlib.Algebra.Order.Group.Int
import Mathlib.Data.Int.ConditionallyCompleteOrder
/-!
# The detector counts in a sliding window

What the detector is for is a ledger: for every account the times of all its
reassignments since it last left quarantine, and never a time forgotten. A
reassignment is answered by counting those that lie in the window up to now.
The detector keeps less, for it drops what has left the window, when it
records and when it prunes. It answers as the ledger does, and pruning is
something the ledger knows nothing of.
-/

namespace StickyProxy

namespace PoisonPillDetector

open Machine

variable {d : PoisonPillDetector} {m : Monitored} {t now : Time} {k k' : RoutingKey}
  {threshold : ℤ} {window : Time}

/-! ## Windows on sorted lists -/

/-- Of a sorted list, what is dropped from the front is what is too
early. -/
theorem dropWhile_eq_filter {c : Time} {l : List Time} (hl : l.Pairwise (· ≤ ·)) :
    l.dropWhile (· < c) = l.filter (c ≤ ·) := by
  induction l with
  | nil => rfl
  | cons x l ih =>
    obtain ⟨hx, hl⟩ := List.pairwise_cons.1 hl
    by_cases hc : x < c
    · rw [List.dropWhile_cons_of_pos (by simpa using hc), ih hl,
        List.filter_cons_of_neg (by simpa using hc)]
    · -- Everything after it is as late.
      have hall : ∀ y ∈ x :: l, decide (c ≤ y) = true := by
        intro y hy
        rcases List.mem_cons.1 hy with rfl | hy
        · exact decide_eq_true (not_lt.1 hc)
        · exact decide_eq_true ((not_lt.1 hc).trans (hx y hy))
      rw [List.dropWhile_cons_of_neg (by simpa using hc), List.filter_eq_self.2 hall]

/-- A narrower window does not see what a wider one has dropped. -/
theorem filter_filter_of_le {c c' : Time} (h : c ≤ c') (l : List Time) :
    (l.filter (c ≤ ·)).filter (c' ≤ ·) = l.filter (c' ≤ ·) := by
  rw [List.filter_filter]
  refine List.filter_congr fun x _ => ?_
  by_cases hx : c' ≤ x
  · simp [hx, h.trans hx]
  · simp [hx]

/-- The time itself is in the window that ends there. -/
theorem filter_append_now (hw : 0 ≤ window) (l : List Time) :
    (l ++ [now]).filter (now - window ≤ ·) = l.filter (now - window ≤ ·) ++ [now] := by
  have hnow : decide (now - window ≤ now) = true := decide_eq_true (sub_le_self now hw)
  rw [List.filter_append, List.filter_cons, hnow]
  rfl

/-! ## The ledger -/

/-- For every account the times of its reassignments since it last left
quarantine, or nothing while it is in. -/
abbrev Ledger := RoutingKey → Option (List Time)

/-- The times in the window up to `now`. -/
def inWindow (window now : Time) (times : List Time) : List Time :=
  times.filter fun x => now - window ≤ x ∧ x ≤ now

namespace Ledger

/-- Nobody is in quarantine, and nothing has happened. -/
def new : Ledger := fun _ => some []

/-- What a reassignment makes of the entry of its account, and the
answer. -/
def record (threshold : ℤ) (window now : Time) : Option (List Time) → Bool × Option (List Time)
  | none => (true, none)
  | some times =>
    if threshold ≤ (inWindow window now (times ++ [now])).length then (true, none)
    else (false, some (times ++ [now]))

/-- A call of the ledger. -/
def step (threshold : ℤ) (window : Time) (l : Ledger) : Call → Option Bool × Ledger
  | .recordReassignment now k =>
    let (blocked, entry) := record threshold window now (l k)
    (some blocked, Function.update l k entry)
  | .unquarantine _ k => (none, Function.update l k (some ((l k).getD [])))
  | .prune _ => (none, l)

end Ledger

/-! ## The detector keeps to the ledger -/

/-- What the detector has of a key that counts in a window that ends at
`T`. -/
def recent (d : PoisonPillDetector) (k : RoutingKey) (T : Time) : List Time :=
  ((d.events.lookup k).getD []).filter (T - d.window ≤ ·)

/-- The events of a key are sorted, and none is later than `t`. -/
def Sorted (t : Time) (l : List Time) : Prop := l.Pairwise (· ≤ ·) ∧ ∀ x ∈ l, x ≤ t

theorem Sorted.append {l : List Time} (h : Sorted t l) (ht : t ≤ now) :
    Sorted now (l ++ [now]) := by
  constructor
  · refine List.pairwise_append.2 ⟨h.1, List.pairwise_singleton _ _, fun x hx y hy => ?_⟩
    rw [List.mem_singleton.1 hy]
    exact (h.2 x hx).trans ht
  · intro x hx
    rcases List.mem_append.1 hx with hx | hx
    · exact (h.2 x hx).trans ht
    · exact (List.mem_singleton.1 hx).le

theorem Sorted.mono {l : List Time} (h : Sorted t l) (ht : t ≤ now) : Sorted now l :=
  ⟨h.1, fun x hx => (h.2 x hx).trans ht⟩

theorem Sorted.filter {l : List Time} (h : Sorted t l) (p : Time → Bool) : Sorted t (l.filter p) :=
  ⟨h.1.filter p, fun x hx => h.2 x (List.mem_of_mem_filter hx)⟩

/-- The detector has of a key, from time `t` on, what the ledger has in any
window. -/
structure Entered (d : PoisonPillDetector) (t : Time) (k : RoutingKey) (times : List Time) :
    Prop where
  sorted : Sorted t ((d.events.lookup k).getD [])
  past : ∀ x ∈ times, x ≤ t
  recent : ∀ T, t ≤ T → d.recent k T = times.filter (T - d.window ≤ ·)

/-- The detector keeps to the ledger, key by key. -/
structure Keeps (threshold : ℤ) (window : Time) (t : Time) (m : Monitored) (l : Ledger) :
    Prop where
  threshold_eq : m.detector.threshold = threshold
  window_eq : m.detector.window = window
  quarantine : ∀ k, k ∈ m.detector.quarantine ↔ l k = none
  entered : ∀ k times, l k = some times → m.detector.Entered t k times

theorem Entered.mono {times : List Time} (h : d.Entered t k times) (ht : t ≤ now) :
    d.Entered now k times :=
  ⟨h.sorted.mono ht, fun x hx => (h.past x hx).trans ht, fun T hT => h.recent T (ht.trans hT)⟩

/-- What recording keeps of a key that is not in quarantine. -/
theorem dropWhile_append (h : Sorted t ((d.events.lookup k).getD [])) (ht : t ≤ now)
    (hw : 0 ≤ d.window) :
    ((d.events.lookup k).getD [] ++ [now]).dropWhile (· < now - d.window) =
      d.recent k now ++ [now] := by
  rw [dropWhile_eq_filter (h.append ht).1, filter_append_now hw]
  rfl

/-- The count of the ledger is the length of what is kept. -/
theorem Entered.inWindow_append {times : List Time} (h : d.Entered t k times) (ht : t ≤ now)
    (hw : 0 ≤ d.window) : inWindow d.window now (times ++ [now]) = d.recent k now ++ [now] := by
  have hpast : ∀ x ∈ times ++ [now], x ≤ now := by
    intro x hx
    rcases List.mem_append.1 hx with hx | hx
    · exact (h.past x hx).trans ht
    · exact (List.mem_singleton.1 hx).le
  have hwindow : inWindow d.window now (times ++ [now]) =
      (times ++ [now]).filter (now - d.window ≤ ·) := by
    refine List.filter_congr fun x hx => ?_
    simp only [hpast x hx, and_true]
  rw [hwindow, filter_append_now hw, h.recent now ht]

/-- The events of the key are all it depends on. -/
theorem Entered.congr {d' : PoisonPillDetector} {times : List Time} (h : d.Entered t k times)
    (hevents : d'.events.lookup k = d.events.lookup k) (hwindow : d'.window = d.window) :
    d'.Entered t k times := by
  obtain ⟨hsorted, hpast, hrecent⟩ := h
  refine ⟨by rwa [hevents], hpast, fun T hT => ?_⟩
  rw [hwindow, ← hrecent T hT, PoisonPillDetector.recent, PoisonPillDetector.recent, hevents,
    hwindow]

/-- A reassignment that is counted. -/
theorem Entered.counted {times : List Time} (h : d.Entered t k times) (ht : t ≤ now) :
    Entered { d with events := d.events.insert k (d.recent k now ++ [now]) } now k
      (times ++ [now]) := by
  have hlook : (d.events.insert k (d.recent k now ++ [now])).lookup k =
      some (d.recent k now ++ [now]) := AList.lookup_insert _
  refine ⟨?_, fun x hx => ?_, fun T hT => ?_⟩
  · dsimp only
    rw [hlook]
    exact (h.sorted.filter _).append ht
  · rcases List.mem_append.1 hx with hx | hx
    · exact (h.past x hx).trans ht
    · exact (List.mem_singleton.1 hx).le
  · rw [PoisonPillDetector.recent]
    dsimp only
    rw [hlook, Option.getD_some, List.filter_append, List.filter_append,
      ← h.recent T (ht.trans hT), PoisonPillDetector.recent, PoisonPillDetector.recent,
      filter_filter_of_le (sub_le_sub_right hT _)]

/-- What pruning drops has left every window from now on. -/
theorem Entered.prune {times : List Time} (h : d.Entered t k times) (ht : t ≤ now) :
    (d.prune now).Entered now k times := by
  have hlook : ((d.prune now).events.lookup k).getD [] =
      ((d.events.lookup k).getD []).filter (now - d.window ≤ ·) := by
    have hsorted := h.sorted.1
    rw [PoisonPillDetector.prune, Table.lookup_mapPartial]
    rcases hk : d.events.lookup k with - | events
    · rfl
    · rw [hk, Option.getD_some] at hsorted
      rw [Option.bind_some, Option.getD_some, dropWhile_eq_filter hsorted]
      rcases events.filter (now - d.window ≤ ·) with - | ⟨x, rest⟩ <;> rfl
  refine ⟨?_, fun x hx => (h.past x hx).trans ht, fun T hT => ?_⟩
  · rw [hlook]
    exact (h.sorted.filter _).mono ht
  · have hwindow : (d.prune now).window = d.window := rfl
    rw [PoisonPillDetector.recent, hlook, hwindow, filter_filter_of_le (sub_le_sub_right hT _),
      ← h.recent T (ht.trans hT)]
    rfl

section Steps

variable {l : Ledger} (h : Keeps threshold window t m l) (ht : t ≤ now)

include h ht

theorem Keeps.mono : Keeps threshold window now m l :=
  ⟨h.threshold_eq, h.window_eq, h.quarantine, fun k times hk => (h.entered k times hk).mono ht⟩

/-- What `RecordReassignment` makes of a key that is not in quarantine. -/
theorem Keeps.recordReassignment_eq (hw : 0 ≤ window) {times : List Time} (hk : l k = some times) :
    m.recordReassignment now k =
      if threshold ≤ (inWindow window now (times ++ [now])).length then
        (true, ⟨{ m.detector with
          quarantine := insert k m.detector.quarantine
          events := m.detector.events.erase k }, m.quarantinedAccounts + 1⟩)
      else (false, ⟨{ m.detector with
        events := m.detector.events.insert k (m.detector.recent k now ++ [now]) },
          m.quarantinedAccounts⟩) := by
  obtain ⟨rfl, rfl, hquarantine, hentered⟩ := h
  have hq : k ∉ m.detector.quarantine := by
    rw [hquarantine, hk]
    exact Option.some_ne_none times
  have hkept := hentered k times hk
  rw [Monitored.recordReassignment, if_neg hq, PoisonPillDetector.recordReassignment, if_neg hq,
    dropWhile_append hkept.sorted ht hw, hkept.inWindow_append ht hw]
  dsimp only
  split <;> rfl

/-- A key that goes into quarantine loses its events. -/
theorem Keeps.quarantined (k : RoutingKey) (gauge : ℤ) :
    Keeps threshold window now ⟨{ m.detector with
      quarantine := insert k m.detector.quarantine
      events := m.detector.events.erase k }, gauge⟩ (Function.update l k none) := by
  refine ⟨h.threshold_eq, h.window_eq, fun k' => ?_, fun k' times' hk' => ?_⟩
  · by_cases heq : k' = k
    · simp [heq]
    · simp [heq, h.quarantine k']
  · have hne : k' ≠ k := by
      rintro rfl
      simp at hk'
    rw [Function.update_of_ne hne] at hk'
    exact ((h.entered k' times' hk').mono ht).congr
      ((Table.lookup_erase_eq _ _ _).trans (if_neg hne)) rfl

/-- A key that does not has one event more, of those in the window. -/
theorem Keeps.counted {times : List Time} (hk : l k = some times) (gauge : ℤ) :
    Keeps threshold window now ⟨{ m.detector with
      events := m.detector.events.insert k (m.detector.recent k now ++ [now]) }, gauge⟩
      (Function.update l k (some (times ++ [now]))) := by
  refine ⟨h.threshold_eq, h.window_eq, fun k' => ?_, fun k' times' hk' => ?_⟩
  · by_cases heq : k' = k
    · subst heq
      simp [h.quarantine, hk]
    · simp [heq, h.quarantine k']
  · by_cases heq : k' = k
    · subst heq
      rw [Function.update_self, Option.some.injEq] at hk'
      rw [← hk']
      exact (h.entered k' times hk).counted ht
    · rw [Function.update_of_ne heq] at hk'
      exact ((h.entered k' times' hk').mono ht).congr
        ((Table.lookup_insert_eq _ _ _ _).trans (if_neg heq)) rfl

/-- **Recording**: one answer, and the detector keeps to the ledger. -/
theorem Keeps.recordReassignment (hw : 0 ≤ window) (k : RoutingKey) :
    (m.step (.recordReassignment now k)).1 =
        (l.step threshold window (.recordReassignment now k)).1 ∧
      Keeps threshold window now (m.step (.recordReassignment now k)).2
        (l.step threshold window (.recordReassignment now k)).2 := by
  rcases hk : l k with - | times
  · have hq : k ∈ m.detector.quarantine := (h.quarantine k).2 hk
    have hsame : Function.update l k none = l := hk ▸ Function.update_eq_self k l
    simp only [Monitored.step, Monitored.recordReassignment, if_pos hq, Ledger.step, hk,
      Ledger.record, hsame]
    exact ⟨trivial, h.mono ht⟩
  · simp only [Monitored.step, h.recordReassignment_eq ht hw hk, Ledger.step, hk, Ledger.record]
    split
    · exact ⟨rfl, h.quarantined ht k _⟩
    · exact ⟨rfl, h.counted ht hk _⟩

/-- **Letting out**: the key begins anew, and has no events. -/
theorem Keeps.unquarantine (hfree : ∀ k ∈ m.detector.quarantine, m.detector.events.lookup k = none)
    (k : RoutingKey) : Keeps threshold window now (m.unquarantine k)
      (l.step threshold window (.unquarantine now k)).2 := by
  rw [Monitored.unquarantine, Ledger.step]
  by_cases hk : k ∈ m.detector.quarantine
  · rw [if_pos hk, (h.quarantine k).1 hk]
    change Keeps _ _ _ _ (Function.update l k (some []))
    refine ⟨h.threshold_eq, h.window_eq, fun k' => ?_, fun k' times' hk' => ?_⟩
    · by_cases heq : k' = k
      · simp [heq]
      · simp [heq, h.quarantine k']
    · by_cases heq : k' = k
      · subst heq
        rw [Function.update_self, Option.some.injEq] at hk'
        have hnone := hfree k' hk
        subst hk'
        refine ⟨?_, fun x hx => (List.not_mem_nil hx).elim, fun T _ => ?_⟩
        · dsimp only
          rw [hnone]
          exact ⟨List.Pairwise.nil, fun x hx => (List.not_mem_nil hx).elim⟩
        · rw [recent]
          dsimp only
          rw [hnone]
          rfl
      · rw [Function.update_of_ne heq] at hk'
        exact ((h.entered k' times' hk').mono ht).congr rfl rfl
  · rw [if_neg hk]
    obtain ⟨times, htimes⟩ := Option.ne_none_iff_exists'.1 (mt (h.quarantine k).2 hk)
    have hsame : Function.update l k (some ((l k).getD [])) = l := by
      rw [htimes, Option.getD_some, ← htimes, Function.update_eq_self]
    rw [hsame]
    exact h.mono ht

/-- **Pruning** is nothing to the ledger. -/
theorem Keeps.prune : Keeps threshold window now { m with detector := m.detector.prune now } l :=
  ⟨h.threshold_eq, h.window_eq, h.quarantine, fun k times hk => (h.entered k times hk).prune ht⟩

end Steps

/-! ## No events in quarantine, and the gauge -/

/-- No key in quarantine has events, and the gauge is the number of keys in
quarantine. -/
structure WellKept (m : Monitored) : Prop where
  apart : ∀ k ∈ m.detector.quarantine, m.detector.events.lookup k = none
  gauge : m.quarantinedAccounts = m.detector.quarantine.card

theorem WellKept.recordReassignment (h : WellKept m) (now : Time) (k : RoutingKey) :
    WellKept (m.recordReassignment now k).2 := by
  rw [Monitored.recordReassignment]
  by_cases hk : k ∈ m.detector.quarantine
  · rw [if_pos hk]
    exact h
  · rw [if_neg hk, PoisonPillDetector.recordReassignment, if_neg hk]
    dsimp only
    split
    · refine ⟨fun k' hk' => ?_, ?_⟩
      · dsimp only at hk' ⊢
        rw [Table.lookup_erase_eq]
        split
        · rfl
        · rename_i hne
          exact h.apart k' (Finset.mem_of_mem_insert_of_ne hk' hne)
      · simp [Finset.card_insert_of_notMem hk, h.gauge]
    · refine ⟨fun k' hk' => ?_, h.gauge⟩
      have hne : k' ≠ k := fun heq => hk (heq ▸ hk')
      dsimp only
      rw [Table.lookup_insert_eq, if_neg hne]
      exact h.apart k' hk'

theorem WellKept.unquarantine (h : WellKept m) (k : RoutingKey) : WellKept (m.unquarantine k) := by
  rw [Monitored.unquarantine]
  split
  · rename_i hk
    refine ⟨fun k' hk' => h.apart k' (Finset.mem_of_mem_erase hk'), ?_⟩
    have hpos := Finset.card_pos.2 ⟨k, hk⟩
    have hgauge := h.gauge
    simp only [Finset.card_erase_of_mem hk]
    omega
  · exact h

theorem WellKept.prune (h : WellKept m) (now : Time) :
    WellKept { m with detector := m.detector.prune now } := by
  refine ⟨fun k hk => ?_, h.gauge⟩
  dsimp only [PoisonPillDetector.prune]
  rw [Table.lookup_mapPartial, h.apart k hk]
  rfl

theorem WellKept.step (h : WellKept m) (c : Call) : WellKept (m.step c).2 := by
  cases c with
  | recordReassignment now k => exact h.recordReassignment now k
  | unquarantine now k => exact h.unquarantine k
  | prune now => exact h.prune now

/-! ## Runs -/

/-- A new detector, and its gauge at zero. -/
def Monitored.new (threshold : ℤ) (window : Time) : Monitored := ⟨.new threshold window, 0⟩

/-- Well kept, and in keeping with the ledger. -/
def Refines (threshold : ℤ) (window t : Time) (m : Monitored) (l : Ledger) : Prop :=
  WellKept m ∧ Keeps threshold window t m l

theorem wellKept_new (threshold : ℤ) (window : Time) : WellKept (.new threshold window) :=
  ⟨fun k hk => (Finset.notMem_empty k hk).elim, rfl⟩

theorem refines_new (threshold : ℤ) (window t : Time) :
    Refines threshold window t (.new threshold window) .new := by
  refine ⟨wellKept_new threshold window, rfl, rfl, fun k => ?_, fun k times hk => ?_⟩
  · exact iff_of_false (Finset.notMem_empty k) (Option.some_ne_none _)
  · obtain rfl := Option.some.inj hk
    exact ⟨⟨List.Pairwise.nil, fun x hx => (List.not_mem_nil hx).elim⟩,
      fun x hx => (List.not_mem_nil hx).elim, fun T _ => rfl⟩

/-- **Every call is answered as by the ledger**, from then on as well. -/
theorem Refines.step {l : Ledger} (h : Refines threshold window t m l) (hw : 0 ≤ window) (c : Call)
    (ht : t ≤ c.time) :
    (m.step c).1 = (l.step threshold window c).1 ∧
      Refines threshold window c.time (m.step c).2 (l.step threshold window c).2 := by
  have hwell := h.1.step c
  cases c with
  | recordReassignment now k =>
    obtain ⟨hanswer, hkeeps⟩ := h.2.recordReassignment ht hw k
    exact ⟨hanswer, hwell, hkeeps⟩
  | unquarantine now k => exact ⟨rfl, hwell, h.2.unquarantine ht h.1.apart k⟩
  | prune now => exact ⟨rfl, hwell, h.2.prune ht⟩

/-- **The answers of the detector are those of the ledger.** -/
theorem replies_eq_ledger (threshold : ℤ) (hw : 0 ≤ window) {calls : List Call}
    (hcalls : InOrder Call.time calls) :
    replies Monitored.step (.new threshold window) calls =
      replies (Ledger.step threshold window) .new calls := by
  obtain ⟨t, hfrom⟩ := hcalls.exists_from
  exact replies_eq (fun t m l c hR ht => hR.step hw c ht) (refines_new threshold window t) hfrom

/-- The call prunes. -/
def Call.isPrune : Call → Bool
  | .prune _ => true
  | _ => false

/-- The call is one for the key. -/
def Call.concerns (k : RoutingKey) : Call → Bool
  | .recordReassignment _ k' | .unquarantine _ k' => k' = k
  | .prune _ => false

theorem ledger_filter_prune (threshold : ℤ) (window : Time) {calls : List Call}
    (hcalls : InOrder Call.time calls) :
    ((replies (Ledger.step threshold window) .new calls).filter fun p => !p.1.isPrune) =
      replies (Ledger.step threshold window) .new (calls.filter fun c => !c.isPrune) := by
  obtain ⟨t, hfrom⟩ := hcalls.exists_from
  refine replies_filter (R := fun _ (l l' : Ledger) => l = l') (fun c => !c.isPrune) ?_ ?_ rfl hfrom
  · rintro t l - c rfl - -
    exact ⟨rfl, rfl⟩
  · rintro t l - c rfl - hprune
    cases c with
    | prune now => rfl
    | recordReassignment now k => cases hprune
    | unquarantine now k => cases hprune

/-- A call of the ledger reads and writes one key. -/
theorem ledger_step_of_concerns {l l' : Ledger} (h : l k = l' k) {c : Call}
    (hc : c.concerns k = true) : (l.step threshold window c).1 = (l'.step threshold window c).1 ∧
      (l.step threshold window c).2 k = (l'.step threshold window c).2 k := by
  cases c with
  | prune now => cases hc
  | recordReassignment now k' | unquarantine now k' =>
    obtain rfl : k' = k := of_decide_eq_true hc
    simp [Ledger.step, h]

theorem ledger_step_of_not_concerns {l : Ledger} {c : Call} (hc : c.concerns k = false) :
    (l.step threshold window c).2 k = l k := by
  cases c with
  | prune now => rfl
  | recordReassignment now k' | unquarantine now k' =>
    have hne : k ≠ k' := fun heq => of_decide_eq_false hc heq.symm
    exact Function.update_of_ne hne _ _

theorem ledger_filter_concerns (threshold : ℤ) (window : Time) (k : RoutingKey)
    {calls : List Call} (hcalls : InOrder Call.time calls) :
    ((replies (Ledger.step threshold window) .new calls).filter fun p => p.1.concerns k) =
      replies (Ledger.step threshold window) .new (calls.filter fun c => c.concerns k) := by
  obtain ⟨t, hfrom⟩ := hcalls.exists_from
  refine replies_filter (R := fun _ l l' => l k = l' k) (Call.concerns k) ?_ ?_ rfl hfrom
  · intro t l l' c hR _ hc
    exact ledger_step_of_concerns hR hc
  · intro t l l' c hR _ hc
    exact (ledger_step_of_not_concerns hc).trans hR

/-! ## Since it last left quarantine -/

/-- The times of the calls for a key since it last left quarantine, of the
calls so far and one more. -/
def sinceStep (k : RoutingKey) (m : Monitored) (since : List Time) : Call → List Time
  | .recordReassignment now k' => if k' = k then since ++ [now] else since
  | .unquarantine _ k' => if k' = k ∧ k ∈ m.detector.quarantine then [] else since
  | .prune _ => since

/-- And of all the calls. -/
def sinceLeft (k : RoutingKey) : Monitored → List Time → List Call → List Time
  | _, since, [] => since
  | m, since, c :: calls => sinceLeft k (m.step c).2 (sinceStep k m since c) calls

/-- A call for another key does not count. -/
theorem sinceStep_of_not_concerns {since : List Time} {c : Call} (hc : c.concerns k = false) :
    sinceStep k m since c = since := by
  cases c with
  | prune now => rfl
  | recordReassignment now k' => exact if_neg (of_decide_eq_false hc)
  | unquarantine now k' => exact if_neg fun hand => of_decide_eq_false hc hand.1

/-- The ledger has those times. -/
theorem sinceStep_eq {l : Ledger} {since : List Time} (h : Refines threshold window t m l)
    (hsince : ∀ times, l k = some times → since = times) (c : Call) :
    ∀ times, (l.step threshold window c).2 k = some times → sinceStep k m since c = times := by
  intro times
  rcases hc : c.concerns k with - | -
  · rw [ledger_step_of_not_concerns hc, sinceStep_of_not_concerns hc]
    exact hsince times
  · cases c with
    | prune now => cases hc
    | recordReassignment now k' =>
      obtain rfl : k' = k := of_decide_eq_true hc
      simp only [Ledger.step, Function.update_self, sinceStep, if_pos]
      rcases hl : l k' with - | old
      · exact fun hnone => by cases hnone
      · rw [Ledger.record]
        split
        · exact fun hnone => by cases hnone
        · rw [hsince old hl]
          exact Option.some.inj
    | unquarantine now k' =>
      obtain rfl : k' = k := of_decide_eq_true hc
      simp only [Ledger.step, Function.update_self, sinceStep, true_and]
      by_cases hq : k' ∈ m.detector.quarantine
      · rw [if_pos hq, (h.2.quarantine k').1 hq]
        exact Option.some.inj
      · obtain ⟨old, hold⟩ := Option.ne_none_iff_exists'.1 (mt (h.2.quarantine k').2 hq)
        rw [if_neg hq, hold, hsince old hold]
        exact Option.some.inj

/-- **Whenever a further call is made**, the detector keeps to the ledger,
and the ledger has of a key the calls since it last left quarantine. -/
theorem refines_at {l : Ledger} {since : List Time} (hw : 0 ≤ window)
    (h : Refines threshold window t m l) (hsince : ∀ times, l k = some times → since = times)
    {calls : List Call} {c : Call} (hfrom : From Call.time t (calls ++ [c])) :
    ∃ t' ≤ c.time, ∃ l', Refines threshold window t' (final Monitored.step m calls) l' ∧
      ∀ times, l' k = some times → sinceLeft k m since calls = times := by
  induction calls generalizing t m l since with
  | nil => exact ⟨t, hfrom.1, l, h, hsince⟩
  | cons b calls ih =>
    exact ih (h.step hw b hfrom.1).2 (sinceStep_eq h hsince b) hfrom.2

/-- **The poison pill detector.** For every threshold and window, and calls
of any kind for any keys at nondecreasing times: a reassignment is answered
with true exactly if the key is in quarantine, or as many reassignments of it
as the threshold, this one included, lie in the window up to now, of those
since it last left quarantine. Pruning changes no answer, calls for other
keys change none, no key in quarantine has events, and the gauge is the
number of keys in quarantine. -/
theorem detector_exact (threshold : ℤ) (window : Time) (hw : 0 ≤ window) :
    (∀ (calls : List Call) (now : Time) (k : RoutingKey),
      InOrder Call.time (calls ++ [.recordReassignment now k]) →
      (((final Monitored.step (.new threshold window) calls).recordReassignment now k).1 = true ↔
        k ∈ (final Monitored.step (.new threshold window) calls).detector.quarantine ∨
          threshold ≤ (inWindow window now
            (sinceLeft k (.new threshold window) [] calls ++ [now])).length)) ∧
    ∀ calls : List Call, InOrder Call.time calls →
      ((replies Monitored.step (.new threshold window) calls).filter fun p => !p.1.isPrune) =
        replies Monitored.step (.new threshold window) (calls.filter fun c => !c.isPrune) ∧
      (∀ k, ((replies Monitored.step (.new threshold window) calls).filter fun p =>
          p.1.concerns k) =
        replies Monitored.step (.new threshold window) (calls.filter fun c => c.concerns k)) ∧
      (∀ k ∈ (final Monitored.step (.new threshold window) calls).detector.quarantine,
        (final Monitored.step (.new threshold window) calls).detector.events.lookup k = none) ∧
      (final Monitored.step (.new threshold window) calls).quarantinedAccounts =
        (final Monitored.step (.new threshold window) calls).detector.quarantine.card := by
  refine ⟨fun calls now k horder => ?_, fun calls horder => ⟨?_, fun k => ?_, ?_⟩⟩
  · obtain ⟨t, hfrom⟩ := horder.exists_from
    obtain ⟨t', ht', l, href, hsince⟩ := refines_at (k := k) hw (refines_new threshold window t)
      (fun times htimes => Option.some.inj htimes) hfrom
    rcases hl : l k with - | times
    · have hq := (href.2.quarantine k).2 hl
      rw [Monitored.recordReassignment, if_pos hq]
      exact iff_of_true rfl (Or.inl hq)
    · have hq : k ∉ _ := fun hmem => Option.some_ne_none times (hl ▸ (href.2.quarantine k).1 hmem)
      have hbefore : t' ≤ now := ht'
      rw [href.2.recordReassignment_eq hbefore hw hl, hsince times hl]
      split
      · rename_i hcount
        exact iff_of_true rfl (Or.inr hcount)
      · rename_i hcount
        exact iff_of_false Bool.false_ne_true (not_or.2 ⟨hq, hcount⟩)
  · rw [replies_eq_ledger threshold hw horder, ledger_filter_prune threshold window horder,
      replies_eq_ledger threshold hw (horder.filter _)]
  · rw [replies_eq_ledger threshold hw horder, ledger_filter_concerns threshold window k horder,
      replies_eq_ledger threshold hw (horder.filter _)]
  · have hwell := final_invariant (I := WellKept) (fun _ c h => h.step c)
      (wellKept_new threshold window) calls
    exact ⟨hwell.apart, hwell.gauge⟩

/-- Two reassignments in a window of ten; the one at 0 has left it. -/
theorem detector_exact_twoInTen :
    ((final Monitored.step (.new 2 10) [.recordReassignment 0 "u", .prune 5,
        .recordReassignment 11 "u"]).recordReassignment 21 "u").1 = true ∧
      (final Monitored.step (.new 2 10) [.recordReassignment 0 "u", .prune 5,
        .recordReassignment 11 "u", .recordReassignment 21 "u"]).quarantinedAccounts = 1 :=
  ⟨((detector_exact 2 10 (by decide)).1 _ 21 "u" (by decide)).2 (Or.inr (by decide +kernel)),
    ((detector_exact 2 10 (by decide)).2 _ (by decide)).2.2.2.trans (by decide +kernel)⟩

end PoisonPillDetector

end StickyProxy
