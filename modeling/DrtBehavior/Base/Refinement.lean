import DrtBehavior.Base.EventMachine

/-!
# One machine refines another

Two event machines, one above the other: the machine below is what a program does, the machine above
says what it is for.

* `trace` — the events of the machine above that a run of the machine below stands for;
  `log_eq_trace` — a log that every step extends by its label holds them.
* `Simulation` — every step below that meets a guard is matched above; `Simulation.run`: so is every
  run.  `Simulation.always`: what always holds above holds below.
* `Realisation` — every event above can be brought about below; `refines_iff`: then the runs above
  are exactly the traces of the runs below.
-/

set_option autoImplicit false

namespace Refinement

open EventMachine

variable {σ ε τ δ : Type*}

/-- What a run of the machine below looks like from above; `label s e` is what the event `e` in the
    state `s` stands for. -/
def trace (step : σ → ε → Option σ) (label : σ → ε → List δ) : σ → List ε → List δ
  | _, [] => []
  | s, e :: es =>
    match step s e with
    | none => []
    | some s' => label s e ++ trace step label s' es

/-- Steps below that meet the guard `G` are matched above, along `R`. -/
structure Simulation (step : σ → ε → Option σ) (above : τ → δ → Option τ)
    (label : σ → ε → List δ) (G : σ → ε → σ → Prop) (R : σ → τ → Prop) : Prop where
  matched : ∀ s e s' t, R s t → step s e = some s' → G s e s' →
    ∃ t', run above t (label s e) = some t' ∧ R s' t'

/-- Every event above is what some guarded run below stands for, along `R`. -/
structure Realisation (step : σ → ε → Option σ) (above : τ → δ → Option τ)
    (label : σ → ε → List δ) (G : σ → ε → σ → Prop) (R : σ → τ → Prop) : Prop where
  realised : ∀ s t d t', R s t → above t d = some t' →
    ∃ es s', run step s es = some s' ∧ EachStep step G s es ∧ trace step label s es = [d] ∧ R s' t'

variable {step : σ → ε → Option σ} {above : τ → δ → Option τ} {label : σ → ε → List δ}
  {G : σ → ε → σ → Prop} {R R' : σ → τ → Prop}

theorem trace_cons_of_step {s s' : σ} {e : ε} (h : step s e = some s') (es : List ε) :
    trace step label s (e :: es) = label s e ++ trace step label s' es := by
  rw [trace, h]

theorem trace_append {s s' : σ} {es : List ε} (h : run step s es = some s') (fs : List ε) :
    trace step label s (es ++ fs) = trace step label s es ++ trace step label s' fs := by
  induction es generalizing s with
  | nil =>
    obtain rfl : s = s' := Option.some.inj h
    rfl
  | cons e es ih =>
    obtain ⟨t, hs, hr⟩ := Option.bind_eq_some_iff.mp h
    rw [List.cons_append, trace_cons_of_step hs, trace_cons_of_step hs, ih hr, List.append_assoc]

/-- A log that every step extends by its label. -/
theorem log_eq_trace (log : σ → List δ) {I : σ → Prop}
    (hI : ∀ s e s', I s → step s e = some s' → I s')
    (hlog : ∀ s e s', I s → step s e = some s' → log s' = log s ++ label s e) {s s' : σ}
    {es : List ε} (h0 : I s) (hr : run step s es = some s') :
    log s' = log s ++ trace step label s es := by
  induction es generalizing s with
  | nil =>
    obtain rfl : s = s' := Option.some.inj hr
    exact (List.append_nil _).symm
  | cons e es ih =>
    obtain ⟨t, hs, hr'⟩ := Option.bind_eq_some_iff.mp hr
    rw [ih (hI s e t h0 hs) hr', hlog s e t h0 hs, trace_cons_of_step hs, List.append_assoc]

/-- **A run below is a run above.** -/
theorem Simulation.run (hsim : Simulation step above label G R) {s s' : σ} {t : τ} {es : List ε}
    (hG : EachStep step G s es) (hR : R s t) (hr : EventMachine.run step s es = some s') :
    ∃ t', EventMachine.run above t (trace step label s es) = some t' ∧ R s' t' := by
  induction es generalizing s t with
  | nil =>
    obtain rfl : s = s' := Option.some.inj hr
    exact ⟨t, rfl, hR⟩
  | cons e es ih =>
    obtain ⟨s₁, hs, hr'⟩ := Option.bind_eq_some_iff.mp hr
    obtain ⟨hg, hG'⟩ := (eachStep_cons s e es).mp hG s₁ hs
    obtain ⟨t₁, ht₁, hR₁⟩ := hsim.matched s e s₁ t hR hs hg
    obtain ⟨t', ht', hR'⟩ := ih hG' hR₁ hr'
    refine ⟨t', ?_, hR'⟩
    rw [trace_cons_of_step hs, run_append, ht₁, Option.bind_some, ht']

/-- A run below that shows a single event reaches what that event reaches above. -/
theorem Simulation.of_trace (hsim : Simulation step above label G R) {s s' : σ} {t t' : τ} {d : δ}
    {es : List ε} (hG : EachStep step G s es) (hR : R s t)
    (hr : EventMachine.run step s es = some s') (htrace : trace step label s es = [d])
    (ht : above t d = some t') : R s' t' := by
  obtain ⟨t₁, ht₁, hR₁⟩ := hsim.run hG hR hr
  rw [htrace, run_cons_of_step ht, run_nil] at ht₁
  exact Option.some.inj ht₁ ▸ hR₁

/-- **What always holds above holds below.** -/
theorem Simulation.always (hsim : Simulation step above label G R) {P : σ → Prop} {Q : τ → Prop}
    {s : σ} {t : τ} {es : List ε} (hG : EachStep step G s es) (hR : R s t)
    (hQ : ∀ ds, Always above Q t ds) (hPQ : ∀ s t, R s t → Q t → P s) : Always step P s es := by
  intro pre s' hpre hr
  have hGpre : EachStep step G s pre := fun p e s₁ s₂ hp => hG p e s₁ s₂ (hp.trans hpre)
  obtain ⟨t', ht', hR'⟩ := hsim.run hGpre hR hr
  exact hPQ s' t' hR' ((hQ _).last ht')

/-- A run above is brought about event by event. -/
theorem Realisation.run (hreal : Realisation step above label G R) {s : σ} {t t' : τ}
    {ds : List δ} (hR : R s t) (hr : EventMachine.run above t ds = some t') :
    ∃ es s', EventMachine.run step s es = some s' ∧ EachStep step G s es ∧
      trace step label s es = ds ∧ R s' t' := by
  induction ds generalizing s t with
  | nil =>
    cases hr
    exact ⟨[], s, rfl, eachStep_nil s, rfl, hR⟩
  | cons d ds ih =>
    obtain ⟨t₁, ht, hr'⟩ := Option.bind_eq_some_iff.mp hr
    obtain ⟨es, s₁, hes, hG, htrace, hR₁⟩ := hreal.realised s t d t₁ hR ht
    obtain ⟨fs, s', hfs, hG', htrace', hR'⟩ := ih hR₁ hr'
    refine ⟨es ++ fs, s', ?_, (eachStep_append hes fs).mpr ⟨hG, hG'⟩, ?_, hR'⟩
    · rw [run_append, hes, Option.bind_some, hfs]
    · rw [trace_append hes, htrace, htrace']
      rfl

/-- **The runs above are exactly the traces of the guarded runs below.**  The relation along which
    events are realised may be narrower than the one along which steps are matched. -/
theorem refines_iff (hsim : Simulation step above label G R)
    (hreal : Realisation step above label G R') {s : σ} {t : τ} (hR : R s t) (hR' : R' s t)
    (ds : List δ) :
    (∃ t', EventMachine.run above t ds = some t') ↔
      ∃ es s', EventMachine.run step s es = some s' ∧ EachStep step G s es ∧
        trace step label s es = ds := by
  constructor
  · rintro ⟨t', ht'⟩
    obtain ⟨es, s', hes, hG, htrace, _⟩ := hreal.run hR' ht'
    exact ⟨es, s', hes, hG, htrace⟩
  · rintro ⟨es, s', hes, hG, rfl⟩
    obtain ⟨t', ht', _⟩ := hsim.run hG hR hes
    exact ⟨t', ht'⟩

end Refinement
