import StickyProxy.Discovery.Model.Watch
import StickyProxy.Discovery.Convergence
/-!
# No change of a slice is lost

Handlers drop signals and the loop collapses bursts, but between a change of
the informer's store and the reconcile that sees it there is always a handler
to be called, a signal, or a loop that is going to look. So when everything
is at rest the discovery knows what is in the store, provided that the
informer has ever had anything to announce. If it has not, what
`SeedBackends` found before stays.
-/

namespace StickyProxy.Kubernetes.Watch

open Run

variable {portName : String} {s s' : Watch} {a : Action} {st : Store} {b : Backend}

/-- The discovery knows what is in the informer's store. -/
def Current (portName : String) (s : Watch) : Prop :=
  ∃ names, Enumerates names s.slices.keys.toFinset ∧
    s.system.discovery.known = buildDesiredState portName (listing names s.slices)

/-- A handler is going to be called for it. -/
def Action.announces : Action → Bool
  | .start slices => slices.keys ≠ []
  | .update _ _ => true
  | _ => false

/-- It moves the channel and the loop only. -/
def Action.moves : Action → Bool
  | .enqueue | .wake | .expire | .finish | .stop => true
  | _ => false

theorem announces_of_moves (h : a.moves = true) : a.announces = false := by
  cases a <;> first | rfl | cases h

/-- What a reconcile leaves of the rest. -/
theorem apply_cases {desired : Table Backend EpState} {order gone : List Backend}
    {sys sys' : System} (h : apply desired order gone sys = some sys') :
    sys'.discovery.known = desired ∧
      ∃ d, Discovery.reconcile order gone { sys.discovery with desired := [desired] } = some d ∧
        sys' = { sys with discovery := d } := by
  obtain ⟨d, hd, rfl⟩ := Option.map_eq_some_iff.1 h
  obtain ⟨desired', hdes, -, -, -, hknown, -⟩ := reconcile_cases hd
  rw [← (List.cons.inj hdes).1] at hknown
  exact ⟨hknown, d, hd, rfl⟩

/-- What a step can do. -/
inductive Steps (portName : String) (s : Watch) : Action → Watch → Prop
  | seed {slices order gone system} : s.stage = .unseeded →
      apply (buildDesiredState portName slices) order gone s.system = some system →
      Steps portName s (.seed slices order gone) { s with stage := .seeded, system }
  | seedFailed : s.stage = .unseeded → Steps portName s .seedFailed { s with stage := .seeded }
  | start {slices signal} : s.stage = .seeded →
      Signal.step s.signal (.change slices.keys.length) = some signal →
      Steps portName s (.start slices) { s with stage := .started, slices, signal }
  | update {name slice signal slices} : s.stage = .started →
      Signal.step s.signal (.change 1) = some signal →
      Steps portName s (.update name slice) { s with slices, signal }
  /-- The channel and the loop, but for a look. -/
  | signal {a : Action} {act signal} : Signal.step s.signal act = some signal → act ≠ .look →
      (∀ n, act ≠ .change n) → a.moves = true → Steps portName s a { s with signal }
  | reconcile {names order gone signal system} : Enumerates names s.slices.keys.toFinset →
      Signal.step s.signal .look = some signal →
      apply (buildDesiredState portName (listing names s.slices)) order gone s.system =
        some system →
      Steps portName s (.reconcile names order gone) { s with signal, system }
  | call {outcome system} : Kubernetes.step s.system (.call outcome) = some system →
      Steps portName s (.call outcome) { s with system, drains := s.drainsAfterCall }
  | drained {b : Backend} : b ∈ s.drains → Steps portName s (.drained b)
      { s with system := { s.system with store := s.system.store.removeBackend b } }

theorem steps_of_step (h : step portName s a = some s') : Steps portName s a s' := by
  cases a with
  | seed slices order gone =>
    simp only [step, Option.ite_none_right_eq_some, Option.map_eq_some_iff] at h
    obtain ⟨hstage, system, hsystem, rfl⟩ := h
    exact .seed hstage hsystem
  | seedFailed =>
    simp only [step, Option.ite_none_right_eq_some, Option.some.injEq] at h
    obtain ⟨hstage, rfl⟩ := h
    exact .seedFailed hstage
  | start slices =>
    simp only [step, Option.ite_none_right_eq_some, Option.map_eq_some_iff] at h
    obtain ⟨⟨hstage, -⟩, signal, hsignal, rfl⟩ := h
    exact .start hstage hsignal
  | update name slice =>
    simp only [step, Option.ite_none_right_eq_some, Option.map_eq_some_iff] at h
    obtain ⟨hstage, signal, hsignal, rfl⟩ := h
    exact .update hstage hsignal
  | enqueue | wake | expire | stop =>
    obtain ⟨signal, hsignal, rfl⟩ := Option.map_eq_some_iff.1 h
    exact .signal hsignal nofun nofun rfl
  | reconcile names order gone =>
    simp only [step, Option.ite_none_right_eq_some, Option.bind_eq_some_iff,
      Option.map_eq_some_iff] at h
    obtain ⟨hnames, signal, hsignal, system, hsystem, rfl⟩ := h
    exact .reconcile hnames hsignal hsystem
  | call outcome =>
    obtain ⟨system, hsystem, rfl⟩ := Option.map_eq_some_iff.1 h
    exact .call hsystem
  | drained b =>
    simp only [step, Option.ite_none_right_eq_some, Option.some.injEq] at h
    obtain ⟨hb, rfl⟩ := h
    exact .drained hb
  | finish =>
    simp only [step, Option.ite_none_right_eq_some, Option.map_eq_some_iff] at h
    obtain ⟨-, signal, hsignal, rfl⟩ := h
    exact .signal hsignal nofun nofun rfl

/-- A call leaves what the discovery knows. -/
theorem known_call {outcome : CallOutcome} {sys sys' : System}
    (h : Kubernetes.step sys (.call outcome) = some sys') :
    sys'.discovery.known = sys.discovery.known := by
  rcases hcalls : sys.discovery.calls with - | ⟨x, rest⟩ <;>
    simp only [Kubernetes.step, hcalls, reduceCtorEq, Option.some.injEq] at h
  rw [← h]

/-! ## Following the informer's store -/

/-- The discovery knows what is in the informer's store, or the loop is still
going to look. -/
structure Follows (portName : String) (s : Watch) : Prop where
  started : s.stage = .started
  current : Current portName s ∨ s.signal.Owes

/-- **Whatever is announced makes the loop look.** -/
theorem follows_of_announces (h : Steps portName s a s') (ha : a.announces = true) :
    Follows portName s' := by
  cases h with
  | @start slices signal hstage hsignal =>
    refine ⟨rfl, Or.inr (Signal.owes_change (List.length_pos_iff.2 ?_) hsignal)⟩
    exact of_decide_eq_true ha
  | update hstage hsignal => exact ⟨hstage, Or.inr (Signal.owes_change Nat.one_pos hsignal)⟩
  | signal _ _ _ hmoves =>
    rw [announces_of_moves hmoves] at ha
    cases ha
  | seed | seedFailed | reconcile | call | drained => cases ha

theorem Follows.step (hs : Follows portName s) (h : Steps portName s a s') :
    Follows portName s' := by
  cases h with
  | seed hstage | seedFailed hstage | start hstage =>
    rw [hs.started] at hstage
    cases hstage
  | update hstage hsignal => exact ⟨hstage, Or.inr (Signal.owes_change Nat.one_pos hsignal)⟩
  | signal hsignal hlook =>
    exact ⟨hs.started, hs.current.imp id fun howes => howes.step hsignal hlook⟩
  | reconcile hnames hsignal hsystem =>
    exact ⟨hs.started, Or.inl ⟨_, hnames, (apply_cases hsystem).1⟩⟩
  | call hsystem =>
    refine ⟨hs.started, hs.current.imp (fun hcurrent => ?_) id⟩
    obtain ⟨names, hnames, hknown⟩ := hcurrent
    exact ⟨names, hnames, (known_call hsystem).trans hknown⟩
  | drained => exact ⟨hs.started, hs.current⟩

/-- A run in which something is announced. -/
theorem follows_of_exec {as : List Action} (hrun : exec (step portName) s as = some s')
    (hannounced : ∃ a ∈ as, a.announces = true) : Follows portName s' := by
  obtain ⟨a, ha, hann⟩ := hannounced
  obtain ⟨before, after, rfl⟩ := List.append_of_mem ha
  obtain ⟨t, -, hrest⟩ := exec_append_eq_some.1 hrun
  obtain ⟨u, hstep, hafter⟩ := exec_cons_eq_some.1 hrest
  exact exec_invariant_of_forall (fun _ _ _ hs h => hs.step (steps_of_step h))
    (follows_of_announces (steps_of_step hstep) hann) hafter

theorem Follows.current_of_atRest (hs : Follows portName s) (hrest : s.AtRest) :
    Current portName s :=
  hs.current.resolve_right hrest.signal.not_owes

/-! ## When nothing is announced -/

/-- The informer's store is empty, and the loop has had nothing to do. -/
structure Silent (d : Table Backend EpState) (s : Watch) : Prop where
  slices : s.slices = ∅
  pending : s.signal.pending = 0
  full : s.signal.full = false
  phase : s.signal.phase = .idle ∨ s.signal.phase = .stopped
  known : s.system.discovery.known = d

/-- The loop only ever stops then. -/
theorem Silent.signal {d : Table Backend EpState} {act : Signal.Action} {signal : Signal.State}
    (hs : Silent d s) (hchange : ∀ n, act ≠ .change n)
    (h : Signal.step s.signal act = some signal) : Silent d { s with signal } := by
  have hidle : s.signal.phase ≠ .woken ∧ s.signal.phase ≠ .cleared ∧
      s.signal.phase ≠ .working := by
    rcases hs.phase with hphase | hphase <;> rw [hphase] <;> exact ⟨nofun, nofun, nofun⟩
  cases act with
  | change n => exact absurd rfl (hchange n)
  | stop =>
    simp only [Signal.step, Option.ite_none_right_eq_some, Option.some.injEq] at h
    obtain ⟨-, rfl⟩ := h
    exact ⟨hs.slices, hs.pending, hs.full, Or.inr rfl, hs.known⟩
  | announce => simp [Signal.step, hs.pending] at h
  | wake => simp [Signal.step, hs.full] at h
  | clear => simp [Signal.step, hidle.1] at h
  | look => simp [Signal.step, hidle.2.1] at h
  | finish => simp [Signal.step, hidle.2.2] at h

theorem Silent.step {d : Table Backend EpState} (hs : Silent d s) (h : Steps portName s a s')
    (hquiet : a.announces = false) (hseeded : s.stage ≠ .unseeded) : Silent d s' := by
  cases h with
  | seed hstage | seedFailed hstage => exact absurd hstage hseeded
  | @start slices signal hstage hsignal =>
    have hkeys : slices.keys = [] := not_not.1 (of_decide_eq_false hquiet)
    have hslices : slices = ∅ := AList.ext (List.map_eq_nil_iff.1 hkeys)
    rw [hkeys] at hsignal
    cases hsignal
    exact ⟨hslices, hs.pending, hs.full, hs.phase, hs.known⟩
  | update => cases hquiet
  | signal hsignal _ hchange => exact hs.signal hchange hsignal
  | reconcile hnames hsignal hsystem =>
    have hphase : s.signal.phase = .cleared := by
      simp only [Signal.step, Option.ite_none_right_eq_some] at hsignal
      exact hsignal.1
    rcases hs.phase with hidle | hidle <;> rw [hphase] at hidle <;> cases hidle
  | call hsystem =>
    exact ⟨hs.slices, hs.pending, hs.full, hs.phase, (known_call hsystem).trans hs.known⟩
  | drained => exact ⟨hs.slices, hs.pending, hs.full, hs.phase, hs.known⟩

/-- Until the informer is started, there is nothing to announce. -/
def Waiting (s : Watch) : Prop := s.stage ≠ .started → Silent s.system.discovery.known s

theorem waiting_init (drain : Bool) (st : Store) : Waiting (init drain st) :=
  fun _ => ⟨rfl, rfl, rfl, Or.inl rfl, rfl⟩

theorem Waiting.step (hs : Waiting s) (h : Steps portName s a s') : Waiting s' := by
  intro hstage'
  cases h with
  | seed hstage hsystem =>
    have hsilent := hs (by rw [hstage]; nofun)
    exact ⟨hsilent.slices, hsilent.pending, hsilent.full, hsilent.phase, rfl⟩
  | seedFailed hstage =>
    have hsilent := hs (by rw [hstage]; nofun)
    exact ⟨hsilent.slices, hsilent.pending, hsilent.full, hsilent.phase, rfl⟩
  | start => exact absurd rfl hstage'
  | update hstage => exact absurd hstage hstage'
  | signal hsignal _ hchange => exact (hs hstage').signal hchange hsignal
  | reconcile hnames hsignal hsystem =>
    have hsilent := hs hstage'
    have hphase : s.signal.phase = .cleared := by
      simp only [Signal.step, Option.ite_none_right_eq_some] at hsignal
      exact hsignal.1
    rcases hsilent.phase with hidle | hidle <;> rw [hphase] at hidle <;> cases hidle
  | call | drained =>
    have hsilent := hs hstage'
    exact ⟨hsilent.slices, hsilent.pending, hsilent.full, hsilent.phase, rfl⟩

/-- Once something is seeded it stays so. -/
theorem Steps.seeded (h : Steps portName s a s') (hs : s.stage ≠ .unseeded) :
    s'.stage ≠ .unseeded := by
  cases h with
  | seed | seedFailed | start => nofun
  | update | signal | reconcile | call | drained => exact hs

theorem current_iff_of_silent {d : Table Backend EpState} (hs : Silent d s) :
    Current portName s ↔ d = ∅ := by
  have hempty : s.slices.keys.toFinset = ∅ := by
    rw [hs.slices]
    rfl
  constructor
  · rintro ⟨names, ⟨hnodup, hnames⟩, hknown⟩
    rw [hempty, List.toFinset_eq_empty_iff] at hnames
    rw [← hs.known, hknown, hnames]
    rfl
  · intro hd
    refine ⟨[], ⟨List.nodup_nil, hempty.symm⟩, ?_⟩
    rw [hs.known, hd]
    rfl

/-- **When the discovery knows what is there.** Once everything is at rest
after `SeedBackends`, the discovery knows what is in the informer's store
exactly if the informer has had something to announce, or `SeedBackends` had
found nothing. -/
theorem current_iff_announced {drain : Bool} {before as : List Action} {s₀ : Watch}
    (hbefore : exec (step portName) (init drain st) before = some s₀)
    (hseeded : s₀.stage = .seeded) (hrun : exec (step portName) s₀ as = some s)
    (hrest : s.AtRest) :
    Current portName s ↔ (∃ a ∈ as, a.announces = true) ∨ s₀.system.discovery.known = ∅ := by
  by_cases hannounced : ∃ a ∈ as, a.announces = true
  · have hcurrent := (follows_of_exec hrun hannounced).current_of_atRest hrest
    exact iff_of_true hcurrent (Or.inl hannounced)
  · have hwaiting : Waiting s₀ := exec_invariant_of_forall
      (fun _ _ _ hs h => hs.step (steps_of_step h)) (waiting_init drain st) hbefore
    have hsilent : Silent s₀.system.discovery.known s₀ := hwaiting (by rw [hseeded]; nofun)
    have hquiet : Meets (step portName) (fun _ a => a.announces = false) s₀ as := by
      refine meets_of_forall_mem (fun a ha t => ?_) s₀
      exact Bool.eq_false_iff.2 fun h => hannounced ⟨a, ha, h⟩
    have hend : Silent s₀.system.discovery.known s ∧ s.stage ≠ .unseeded := by
      refine exec_invariant (I := fun t => Silent s₀.system.discovery.known t ∧
        t.stage ≠ .unseeded) (fun t a t' ht ha hst => ?_) ⟨hsilent, by rw [hseeded]; nofun⟩
        hquiet hrun
      have hsteps := steps_of_step hst
      exact ⟨ht.1.step hsteps ha ht.2, hsteps.seeded ht.2⟩
    rw [current_iff_of_silent hend.1]
    exact ⟨Or.inr, fun h => h.resolve_left hannounced⟩

/-- A slice with one endpoint. -/
def oneEndpoint (addr : String) : EndpointSlice :=
  ⟨[⟨some "http", some 8080⟩], [⟨[addr], some true, some true, some false⟩]⟩

/-- `SeedBackends` finds a pod, and it is gone before the informer lists the
slices: nothing is announced, and the pod stays. -/
def goneUnseen : List Action := [.call .ok, .start ∅]

theorem current_iff_announced_goneUnseen :
    ∃ s₀ s, exec (step "http") (init false (.memory ∅))
        [.seed [oneEndpoint "10.0.0.1"] ["http://10.0.0.1:8080"] []] = some s₀ ∧
      exec (step "http") s₀ goneUnseen = some s ∧ "http://10.0.0.1:8080" ∈ s.system.store.active ∧
      ¬ Current "http" s := by
  have hrun : ∃ s₀ s, exec (step "http") (init false (.memory ∅))
        [.seed [oneEndpoint "10.0.0.1"] ["http://10.0.0.1:8080"] []] = some s₀ ∧
      s₀.stage = .seeded ∧ s₀.system.discovery.known.lookup "http://10.0.0.1:8080" = some .active ∧
      exec (step "http") s₀ goneUnseen = some s ∧ s.stage = .started ∧
      s.signal = ⟨0, false, .idle⟩ ∧ s.system.discovery.calls = [] ∧
      "http://10.0.0.1:8080" ∈ s.system.store.active :=
    ⟨_, _, rfl, rfl, rfl, rfl, rfl, rfl, rfl, by decide⟩
  obtain ⟨s₀, s, hbefore, hseeded, hknown, hrun, hstarted, hsignal, hcalls, hactive⟩ := hrun
  refine ⟨s₀, s, hbefore, hrun, hactive, fun hcurrent => ?_⟩
  have hrest : s.AtRest := ⟨hstarted, by rw [hsignal]; exact ⟨rfl, rfl, rfl⟩, hcalls⟩
  rcases (current_iff_announced hbefore hseeded hrun hrest).1 hcurrent with ⟨a, ha, hann⟩ | hempty
  · simp only [goneUnseen, List.mem_cons, List.not_mem_nil, or_false] at ha
    obtain rfl | rfl := ha <;> cases hann
  · rw [hempty] at hknown
    cases hknown

/-! ## The active set -/

/-- The reconciles so far, what they have left alone, and what the store
would hold had no drain removed anything. -/
structure Traced (st : Store) (done : List (Table Backend EpState)) (undrained : Store)
    (s : Watch) : Prop where
  tracks : Tracks done { s.system with store := undrained }
  untouched : ∀ b, ¬ Seen done b → (b ∈ undrained.active ↔ b ∈ st.active)
  missed : s.system.missed = ∅
  /-- Drains take out their own backends, and put nothing in. -/
  kept : ∀ b ∉ s.drains, (b ∈ s.system.store.active ↔ b ∈ undrained.active)
  active : ∀ b ∈ s.system.store.active, b ∈ undrained.active

theorem traced_init (drain : Bool) (st : Store) : Traced st [] st (init drain st) :=
  have hfresh : (init drain st).system.Fresh [] := ⟨rfl, rfl, rfl, rfl⟩
  ⟨tracks_fresh hfresh, fun _ _ => Iff.rfl, rfl, fun _ _ => Iff.rfl, fun _ hb => hb⟩

/-- A reconcile makes no call yet. -/
theorem Traced.apply {done : List (Table Backend EpState)} {undrained : Store}
    {desired : Table Backend EpState} {order gone : List Backend} {system : System}
    (hs : Traced st done undrained s) (h : apply desired order gone s.system = some system)
    (stage : Stage) (signal : Signal.State) :
    Traced st (done ++ [desired]) undrained { s with stage, signal, system } := by
  obtain ⟨-, d, hd, rfl⟩ := apply_cases h
  have htracks : Tracks done { s.system with
      store := undrained, discovery := { s.system.discovery with desired := [desired] } } :=
    ⟨hs.tracks.known, hs.tracks.add, hs.tracks.remove, hs.tracks.active, hs.tracks.gone,
      hs.tracks.missed⟩
  obtain ⟨desired', hdes, htracks'⟩ := htracks.reconcile hd
  obtain rfl := (List.cons.inj hdes).1
  refine ⟨htracks', fun b hb => hs.untouched b fun hseen => hb ?_, hs.missed, hs.kept, hs.active⟩
  exact seen_append.2 (Or.inl hseen)

/-- A call that takes effect leaves its backend as it asks. -/
theorem record_eq_empty {store : Store} {x : DiscoveryCall} {o : CallOutcome} (ho : o ≠ .failed) :
    record (o.run store x) ∅ x = ∅ := by
  rw [CallOutcome.run, if_neg ho]
  cases x with
  | addBackend b =>
    rw [DiscoveryCall.run, record, if_pos (Store.mem_active_addBackend.2 (Or.inl rfl))]
    rfl
  | removeBackend b =>
    rw [DiscoveryCall.run, record, if_neg fun hb => (Store.mem_active_removeBackend.1 hb).2 rfl]
    rfl
  | cancelDrain | startDrain => rfl

/-- A call does the same to a backend in any two stores. -/
theorem mem_active_run_imp {store store' : Store} {x : DiscoveryCall} (o : CallOutcome)
    (h : b ∈ store.active → b ∈ store'.active) (hb : b ∈ (o.run store x).active) :
    b ∈ (o.run store' x).active := by
  unfold CallOutcome.run at hb ⊢
  split at hb
  · rename_i ho
    rw [if_pos ho]
    exact h hb
  · rename_i ho
    rw [if_neg ho]
    cases x with
    | addBackend c =>
      exact Store.mem_active_addBackend.2 ((Store.mem_active_addBackend.1 hb).imp_right h)
    | removeBackend c =>
      have hb := Store.mem_active_removeBackend.1 hb
      exact Store.mem_active_removeBackend.2 ⟨h hb.1, hb.2⟩
    | cancelDrain c | startDrain c => exact h hb

theorem drains_subset_drainsAfterCall (s : Watch) : s.drains ⊆ s.drainsAfterCall := by
  unfold drainsAfterCall
  split
  · exact Finset.subset_insert _ _
  · exact Finset.Subset.refl _

theorem Traced.call {done : List (Table Backend EpState)} {undrained : Store} {o : CallOutcome}
    {system : System} (hs : Traced st done undrained s) (ho : o ≠ .failed)
    (h : Kubernetes.step s.system (.call o) = some system) :
    ∃ undrained', Traced st done undrained' { s with system, drains := s.drainsAfterCall } := by
  rcases hcalls : s.system.discovery.calls with - | ⟨x, rest⟩ <;>
    simp only [Kubernetes.step, hcalls, reduceCtorEq, Option.some.injEq] at h
  subst h
  refine ⟨o.run undrained x, ?_, fun b hb => ?_, ?_, fun b hb => ?_, fun b hb => ?_⟩
  · have htracks := hs.tracks.call hcalls fun b hb => DiscoveryCall.mem_active_run_of_ne o hb
    dsimp only at htracks ⊢
    rw [hs.missed, record_eq_empty ho] at htracks ⊢
    exact htracks
  · -- what the call writes has been seen
    have hx : x.writes ≠ some b := by
      intro hx
      have hmem : x ∈ s.system.discovery.calls := hcalls ▸ List.mem_cons_self
      rcases DiscoveryCall.writes_eq_some.1 hx with rfl | rfl
      · exact hb (hs.tracks.seen (by rw [hs.tracks.add b hmem]; rfl))
      · exact hb (hs.tracks.remove b hmem).2
    exact (DiscoveryCall.mem_active_run_of_ne o hx).trans (hs.untouched b hb)
  · dsimp only
    rw [hs.missed]
    exact record_eq_empty ho
  · have hiff := hs.kept b fun hmem => hb (drains_subset_drainsAfterCall s hmem)
    exact ⟨mem_active_run_imp o hiff.1, mem_active_run_imp o hiff.2⟩
  · exact mem_active_run_imp o (hs.active b) hb

theorem Traced.drained {done : List (Table Backend EpState)} {undrained : Store}
    (hs : Traced st done undrained s) (hb : b ∈ s.drains) :
    Traced st done undrained
      { s with system := { s.system with store := s.system.store.removeBackend b } } := by
  refine ⟨hs.tracks, hs.untouched, hs.missed, fun c hc => ?_, fun c hc => ?_⟩
  · have hcb : c ≠ b := fun hcb => hc (hcb ▸ hb)
    rw [← hs.kept c hc]
    exact Store.mem_active_removeBackend.trans (and_iff_left hcb)
  · exact hs.active c (Store.mem_active_removeBackend.1 hc).1

theorem Traced.step {done : List (Table Backend EpState)} {undrained : Store}
    (hs : Traced st done undrained s) (h : Steps portName s a s') (ha : a ≠ .call .failed) :
    ∃ done' undrained', Traced st done' undrained' s' := by
  cases h with
  | seed hstage hsystem => exact ⟨_, _, hs.apply hsystem _ s.signal⟩
  | reconcile hnames hsignal hsystem => exact ⟨_, _, hs.apply hsystem s.stage _⟩
  | call hsystem => exact ⟨done, hs.call (fun ho => ha (by rw [ho])) hsystem⟩
  | drained hb => exact ⟨done, undrained, hs.drained hb⟩
  | seedFailed | start | update | signal =>
    exact ⟨done, undrained, hs.tracks, hs.untouched, hs.missed, hs.kept, hs.active⟩

/-- **The active set follows the slices.** Whatever the slices go through, and
whichever way handlers, signals, waits, reconciles and the removals by drains
interleave: once everything but the drains is at rest, the informer has
announced something and no call of the store has failed, the active set has
every endpoint that is active in the slices and was never drained, and of
those that are not in the slices none but what was there before the
discovery and that it has never seen. -/
theorem active_of_atRest {drain : Bool} {as : List Action}
    (hrun : exec (step portName) (init drain st) as = some s)
    (hcalls : ∀ a ∈ as, a ≠ .call .failed) (hannounced : ∃ a ∈ as, a.announces = true)
    (hrest : s.AtRest) :
    ∃ names, Enumerates names s.slices.keys.toFinset ∧ ∀ b,
      let state := (buildDesiredState portName (listing names s.slices)).lookup b
      (state = some .active → b ∉ s.drains → b ∈ s.system.store.active) ∧
      (state = none → b ∈ s.system.store.active → b ∈ st.active) := by
  obtain ⟨names, hnames, hknown⟩ := (follows_of_exec hrun hannounced).current_of_atRest hrest
  have htraced : ∃ done undrained, Traced st done undrained s := by
    have hok : Meets (step portName) (fun _ a => a ≠ .call .failed) (init drain st) as :=
      meets_of_forall_mem (fun a ha _ => hcalls a ha) _
    refine exec_invariant (I := fun t => ∃ done undrained, Traced st done undrained t)
      (fun t a t' ht ha hst => ?_) ⟨[], st, traced_init drain st⟩ hok hrun
    obtain ⟨done, undrained, ht⟩ := ht
    exact ht.step (steps_of_step hst) ha
  obtain ⟨done, undrained, ht⟩ := htraced
  have hquiet : ∀ b, ∀ x ∈ s.system.discovery.calls, x.writes ≠ some b := by
    intro b x hx
    rw [hrest.calls] at hx
    cases hx
  refine ⟨names, hnames, fun b => ?_⟩
  dsimp only
  rw [← hknown]
  refine ⟨fun hactive hdrains => (ht.kept b hdrains).2 ?_, fun hnone hb => ?_⟩
  · by_contra hb
    have hmissed := (ht.tracks.active b (hquiet b) hactive).2 hb
    rw [ht.missed] at hmissed
    cases hmissed
  · have hb := ht.active b hb
    by_cases hseen : Seen done b
    · have hmissed := (ht.tracks.gone b (hquiet b) hnone hseen).2 hb
      rw [ht.missed] at hmissed
      cases hmissed
    · exact (ht.untouched b hseen).1 hb

/-- A pod terminates, and another has come in its place. -/
def replaced : EndpointSlice :=
  ⟨[⟨some "http", some 8080⟩], [⟨["10.0.0.1"], some false, some true, some true⟩,
    ⟨["10.0.0.2"], some true, some true, some false⟩]⟩

/-- The old pod is drained, which removes its backend before the reconcile has
added the new one. -/
def rolling : List Action :=
  [.seed [] [] [], .start ((∅ : Table String EndpointSlice).insert "a" (oneEndpoint "10.0.0.1")),
    .enqueue, .wake, .expire, .reconcile ["a"] ["http://10.0.0.1:8080"] [], .call .ok, .finish,
    .update "a" none, .enqueue, .wake, .update "a" (some replaced), .enqueue, .expire,
    .reconcile ["a"] ["http://10.0.0.1:8080", "http://10.0.0.2:8080"] ["http://10.0.0.1:8080"],
    .call .ok, .drained "http://10.0.0.1:8080", .call .ok, .finish]

theorem active_of_atRest_rolling :
    ∃ s, exec (step "http") (init true (.memory ∅)) rolling = some s ∧
      s.drains = {"http://10.0.0.1:8080"} ∧
      "http://10.0.0.2:8080" ∈ s.system.store.active := by
  have hrun : ∃ s, exec (step "http") (init true (.memory ∅)) rolling = some s ∧
      s.stage = .started ∧ s.signal = ⟨0, false, .idle⟩ ∧ s.system.discovery.calls = [] ∧
      s.drains = {"http://10.0.0.1:8080"} ∧
      s.slices = (∅ : Table String EndpointSlice).insert "a" replaced :=
    ⟨_, rfl, rfl, rfl, rfl, rfl, rfl⟩
  obtain ⟨s, hrun, hstarted, hsignal, hcalls, hdrains, hslices⟩ := hrun
  have hrest : s.AtRest := ⟨hstarted, by rw [hsignal]; exact ⟨rfl, rfl, rfl⟩, hcalls⟩
  have hok : ∀ a ∈ rolling, a ≠ .call .failed := by
    simp [rolling]
  have hann : ∃ a ∈ rolling, a.announces = true := ⟨.update "a" none, by simp [rolling], rfl⟩
  obtain ⟨names, hnames, hactive⟩ := active_of_atRest hrun hok hann hrest
  rw [hslices] at hnames
  -- there is one slice only
  obtain rfl : names = ["a"] := List.perm_singleton.1
    (List.perm_of_nodup_nodup_toFinset_eq hnames.1 (List.nodup_singleton _) hnames.2)
  refine ⟨s, hrun, hdrains, (hactive "http://10.0.0.2:8080").1 ?_ (by rw [hdrains]; decide)⟩
  rw [hslices]
  decide +kernel

end StickyProxy.Kubernetes.Watch
