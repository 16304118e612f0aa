import CppGo.Lib.Machine

/-!
# Machines with a record of what they show

A history is carried along with the state and read by proofs only: the machine takes the
same steps with it and without it.  An observer is the history that lists what the steps
show.
-/

namespace CppGo.Lib.Machine

variable {σ α ω η : Type*}

/-- Take a step and bring a history up to date. -/
def recorded (step : σ → α → Option σ) (next : σ → η → α → η) (w : σ × η) (a : α) :
    Option (σ × η) :=
  (step w.1 a).map fun t => (t, next w.1 w.2 a)

def observed (step : σ → α → Option σ) (shown : σ → α → List ω) :
    σ × List ω → α → Option (σ × List ω) :=
  recorded step fun s os a => os ++ shown s a

variable {step : σ → α → Option σ} {shown : σ → α → List ω} {C : σ → α → Prop}

theorem recorded_eq_some {next : σ → η → α → η} {s t : σ} {g g' : η} {a : α} :
    recorded step next (s, g) a = some (t, g') ↔ step s a = some t ∧ g' = next s g a := by
  unfold recorded
  rw [Option.map_eq_some_iff]
  constructor
  · rintro ⟨u, hu, heq⟩
    cases heq
    exact ⟨hu, rfl⟩
  · rintro ⟨ht, rfl⟩
    exact ⟨t, ht, rfl⟩

theorem observed_eq_some {s t : σ} {os os' : List ω} {a : α} :
    observed step shown (s, os) a = some (t, os') ↔
      step s a = some t ∧ os' = os ++ shown s a :=
  recorded_eq_some

/-- If an abstract machine can take what every step shows, it can take the whole record. -/
theorem Reach.accepted {τ : Type*} {accept : τ → ω → Option τ} {R : σ → τ → Prop} {l : τ}
    {s t : σ} {os : List ω}
    (hstep : ∀ s l a t, R s l → C s a → step s a = some t →
      ∃ l', run accept Free l (shown s a) = some l' ∧ R t l')
    (h₀ : R s l) (h : Reach (observed step shown) (fun w a => C w.1 a) (s, []) (t, os)) :
    ∃ l', run accept Free l os = some l' ∧ R t l' := by
  refine h.invariant (I := fun w => ∃ l', run accept Free l w.2 = some l' ∧ R w.1 l')
    ⟨l, rfl, h₀⟩ ?_
  rintro ⟨u, os⟩ a ⟨v, os'⟩ ⟨l', hrun, hR⟩ hc hs
  obtain ⟨hstep', rfl⟩ := observed_eq_some.mp hs
  obtain ⟨l'', hrun', hR'⟩ := hstep u l' a v hR hc hstep'
  exact ⟨l'', run_append.mpr ⟨l', hrun, hrun'⟩, hR'⟩

/-! ## Machines whose steps return something -/

def answering (step : σ → α → Option (σ × ω)) (w : σ × List ω) (a : α) : Option (σ × List ω) :=
  (step w.1 a).map fun r => (r.1, w.2 ++ [r.2])

/-- Forward simulation by steps that return the same. -/
theorem run_answers {τ : Type*} {step : σ → α → Option (σ × ω)} {step' : τ → α → Option (τ × ω)}
    {R : σ → τ → Prop}
    (hstep : ∀ s t a r', R s t → step' t a = some r' →
      ∃ r, step s a = some r ∧ R r.1 r'.1 ∧ r.2 = r'.2)
    {s : σ} {t t' : τ} {as : List α} {os os' : List ω} (h₀ : R s t)
    (h : run (answering step') Free (t, os) as = some (t', os')) :
    ∃ s', run (answering step) Free (s, os) as = some (s', os') ∧ R s' t' := by
  have hsim : ∀ w v a v', R w.1 v.1 ∧ w.2 = v.2 → answering step' v a = some v' →
      ∃ w', answering step w a = some w' ∧ R w'.1 v'.1 ∧ w'.2 = v'.2 := by
    intro w v a v' hR hv
    obtain ⟨r', hr', rfl⟩ := Option.map_eq_some_iff.mp hv
    obtain ⟨r, hr, hR', heq⟩ := hstep w.1 v.1 a r' hR.1 hr'
    refine ⟨(r.1, w.2 ++ [r.2]), ?_, hR', by rw [hR.2, heq]⟩
    unfold answering
    rw [hr]
    rfl
  obtain ⟨⟨s', os''⟩, hrun, hR', rfl⟩ := run_refines (s := (s, os)) hsim ⟨h₀, rfl⟩ h
  exact ⟨s', hrun, hR'⟩

end CppGo.Lib.Machine
