import StickyProxy.Common.Run
/-!
# Forward simulation

A system that answers is a partial step function whose steps show an
event, and a specification is a relation that says which events may
follow which states. The system is simulated when every step of it, from
related states, is matched by a step of the specification with the same
event; then so is every run.
-/

namespace StickyProxy

namespace Simulation

variable {S A E Q : Type*}

/-- The events a schedule shows and the state it leads to. -/
def events (step : S → A → Option (E × S)) : S → List A → Option (List E × S)
  | s, [] => some ([], s)
  | s, a :: as => (step s a).bind fun p => (events step p.2 as).map fun q => (p.1 :: q.1, q.2)

/-- The step function without what it shows. -/
def silent (step : S → A → Option (E × S)) (s : S) (a : A) : Option S := (step s a).map Prod.snd

/-- The specification allows the events, one after the other. -/
inductive Allows (T : Q → E → Q → Prop) : Q → List E → Q → Prop
  | nil (q : Q) : Allows T q [] q
  | cons {q q' q'' : Q} {e : E} {es : List E} :
      T q e q' → Allows T q' es q'' → Allows T q (e :: es) q''

variable {step : S → A → Option (E × S)} {T : Q → E → Q → Prop} {ok : S → A → Prop}
  {R : S → Q → Prop}

theorem events_cons_eq_some {s s' : S} {a : A} {as : List A} {es : List E}
    (h : events step s (a :: as) = some (es, s')) :
    ∃ e t es', step s a = some (e, t) ∧ events step t as = some (es', s') ∧ es = e :: es' := by
  obtain ⟨⟨e, t⟩, hst, h⟩ := Option.bind_eq_some_iff.1 h
  obtain ⟨⟨es', u⟩, hrun, heq⟩ := Option.map_eq_some_iff.1 h
  obtain ⟨rfl, rfl⟩ := Prod.mk.inj heq
  exact ⟨e, t, es', hst, hrun, rfl⟩

/-- **Runs are simulated when steps are.** -/
theorem allows_of_events
    (hsim : ∀ s q a e s', R s q → ok s a → step s a = some (e, s') → ∃ q', T q e q' ∧ R s' q')
    {as : List A} {s s' : S} {q : Q} {es : List E} (hR : R s q)
    (hok : Run.Meets (silent step) ok s as) (hrun : events step s as = some (es, s')) :
    ∃ q', Allows T q es q' ∧ R s' q' := by
  induction as generalizing s q es with
  | nil =>
    obtain ⟨rfl, rfl⟩ := Prod.mk.inj (Option.some.inj hrun)
    exact ⟨q, .nil q, hR⟩
  | cons a as ih =>
    obtain ⟨e, t, es', hst, hrest, rfl⟩ := events_cons_eq_some hrun
    obtain ⟨q₁, hT, hR₁⟩ := hsim s q a e t hR hok.1 hst
    obtain ⟨q', hallows, hR'⟩ := ih hR₁ (hok.2 t (by rw [silent, hst]; rfl)) hrest
    exact ⟨q', .cons hT hallows, hR'⟩

end Simulation

end StickyProxy
