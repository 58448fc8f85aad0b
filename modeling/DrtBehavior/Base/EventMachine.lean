import Mathlib.Data.List.Infix

/-!
# Runs of a partial event machine

A machine is a partial step function `step : σ → ε → Option σ`: `step s e = none` means that
the event `e` cannot be delivered in the state `s`.  This file fixes what it means for a
property to hold along a run and gives the induction rules every later protocol proof uses.

* `run` — the state after a list of events, `none` as soon as one cannot be delivered.
* `Always P s es` — `P` holds in every state the run passes through, the first included.
* `EachStep T s es` — every step `s₁ -e-> s₂` of the run satisfies `T s₁ e s₂`.
* `always_of_invariant`, `EachStep.always` — the invariant rule, without and with a guard that
  the steps of the run are assumed to meet.
* `always_and_eachStep_iff` — the exact-guard rule: a guard that keeps the invariant, and whose
  first violation breaks the property, characterises the runs that have the property.
* `exists_step_of_run` — the step of a run that made a property true.
* `run_whole_eq_kept` — events that leave the state unchanged can be inserted or deleted.
* `tally`, `tally_le` — amortised counting with a potential; `tally_eq` — exact counting.
-/

set_option autoImplicit false

namespace EventMachine

variable {σ ε : Type*}

/-- The state reached from `s` along `es`. -/
def run (step : σ → ε → Option σ) : σ → List ε → Option σ
  | s, [] => some s
  | s, e :: es => (step s e).bind fun s' => run step s' es

/-- `P` holds in every state the run from `s` along `es` passes through. -/
def Always (step : σ → ε → Option σ) (P : σ → Prop) (s : σ) (es : List ε) : Prop :=
  ∀ pre s', pre <+: es → run step s pre = some s' → P s'

/-- Every step `s₁ -e-> s₂` of the run from `s` along `es` satisfies `T s₁ e s₂`. -/
def EachStep (step : σ → ε → Option σ) (T : σ → ε → σ → Prop) (s : σ) (es : List ε) : Prop :=
  ∀ pre e s₁ s₂, pre ++ [e] <+: es → run step s pre = some s₁ → step s₁ e = some s₂ → T s₁ e s₂

/-- The sum of `c s₁ e s₂` over the steps of the run. -/
def tally (step : σ → ε → Option σ) (c : σ → ε → σ → Nat) : σ → List ε → Nat
  | _, [] => 0
  | s, e :: es =>
    match step s e with
    | none => 0
    | some s' => c s e s' + tally step c s' es

variable {step : σ → ε → Option σ} {P Q I : σ → Prop} {T U G : σ → ε → σ → Prop}

@[simp] theorem run_nil (s : σ) : run step s [] = some s := rfl

theorem run_cons (s : σ) (e : ε) (es : List ε) :
    run step s (e :: es) = (step s e).bind fun s' => run step s' es := rfl

theorem run_cons_of_step {s s' : σ} {e : ε} (h : step s e = some s') (es : List ε) :
    run step s (e :: es) = run step s' es := by
  rw [run_cons, h, Option.bind_some]

theorem run_append (s : σ) (es fs : List ε) :
    run step s (es ++ fs) = (run step s es).bind fun s' => run step s' fs := by
  induction es generalizing s with
  | nil => rfl
  | cons e es ih =>
    simp only [List.cons_append, run_cons]
    cases step s e with
    | none => rfl
    | some s' => exact ih s'

/-! ## Unfolding along the run -/

theorem always_nil (s : σ) : Always step P s [] ↔ P s := by
  constructor
  · intro h; exact h [] s (List.prefix_refl _) rfl
  · intro h pre s' hp hr
    rw [List.prefix_nil.mp hp] at hr
    cases hr; exact h

theorem always_cons (s : σ) (e : ε) (es : List ε) :
    Always step P s (e :: es) ↔ P s ∧ ∀ s', step s e = some s' → Always step P s' es := by
  constructor
  · intro h
    refine ⟨h [] s List.nil_prefix rfl, fun s' hs pre s'' hp hr => ?_⟩
    exact h (e :: pre) s'' (List.cons_prefix_cons.mpr ⟨rfl, hp⟩) (by rw [run_cons_of_step hs, hr])
  · rintro ⟨h0, h1⟩ pre s'' hp hr
    cases pre with
    | nil => cases hr; exact h0
    | cons a pre =>
      obtain ⟨rfl, hp'⟩ := List.cons_prefix_cons.mp hp
      obtain ⟨s', hs, hr'⟩ := Option.bind_eq_some_iff.mp hr
      exact h1 s' hs pre s'' hp' hr'

theorem eachStep_nil (s : σ) : EachStep step T s [] := by
  intro pre e s₁ s₂ hp
  simp at hp

theorem eachStep_cons (s : σ) (e : ε) (es : List ε) :
    EachStep step T s (e :: es) ↔
      ∀ s', step s e = some s' → T s e s' ∧ EachStep step T s' es := by
  constructor
  · intro h s' hs
    refine ⟨h [] e s s' (by simp) rfl hs, fun pre a s₁ s₂ hp hr ha => ?_⟩
    exact h (e :: pre) a s₁ s₂ (List.cons_prefix_cons.mpr ⟨rfl, hp⟩)
      (by rw [run_cons_of_step hs, hr]) ha
  · intro h pre a s₁ s₂ hp hr ha
    cases pre with
    | nil =>
      cases hr
      obtain ⟨rfl, _⟩ := List.cons_prefix_cons.mp hp
      exact (h s₂ ha).1
    | cons b pre =>
      obtain ⟨rfl, hp'⟩ := List.cons_prefix_cons.mp hp
      obtain ⟨s', hs, hr'⟩ := Option.bind_eq_some_iff.mp hr
      exact (h s' hs).2 pre a s₁ s₂ hp' hr' ha

instance EachStep.decidable [∀ s₁ e s₂, Decidable (T s₁ e s₂)] :
    ∀ (s : σ) (es : List ε), Decidable (EachStep step T s es)
  | s, [] => isTrue (eachStep_nil s)
  | s, e :: es =>
    match h : step s e with
    | none => isTrue <| (eachStep_cons s e es).mpr fun s' hs => by rw [h] at hs; cases hs
    | some s' =>
      have : Decidable (EachStep step T s' es) := EachStep.decidable s' es
      decidable_of_iff (T s e s' ∧ EachStep step T s' es) <| by simp [eachStep_cons, h]

theorem eachStep_append {s s' : σ} {es : List ε} (hr : run step s es = some s') (fs : List ε) :
    EachStep step T s (es ++ fs) ↔ EachStep step T s es ∧ EachStep step T s' fs := by
  induction es generalizing s with
  | nil =>
    obtain rfl : s = s' := Option.some.inj hr
    exact ⟨fun h => ⟨eachStep_nil s, h⟩, And.right⟩
  | cons e es ih =>
    obtain ⟨t, hs, hr'⟩ := Option.bind_eq_some_iff.mp hr
    have hall : ∀ P : σ → Prop, (∀ s₁, step s e = some s₁ → P s₁) ↔ P t := by
      intro P
      rw [hs]
      simp
    rw [List.cons_append, eachStep_cons, eachStep_cons, hall, hall, ih hr', and_assoc]

theorem Always.mono {s : σ} {es : List ε} (h : Always step P s es) (hPQ : ∀ s, P s → Q s) :
    Always step Q s es :=
  fun pre s' hp hr => hPQ s' (h pre s' hp hr)

theorem EachStep.mono {s : σ} {es : List ε} (h : EachStep step T s es)
    (hTU : ∀ s₁ e s₂, T s₁ e s₂ → U s₁ e s₂) : EachStep step U s es :=
  fun pre e s₁ s₂ hp hr hs => hTU s₁ e s₂ (h pre e s₁ s₂ hp hr hs)

/-- The last state of a run is one it passes through. -/
theorem Always.last {s s' : σ} {es : List ε} (h : Always step P s es)
    (hr : run step s es = some s') : P s' :=
  h es s' (List.prefix_refl es) hr

/-- A run that reaches a state without the property. -/
theorem not_always {s s' : σ} {es : List ε} (hr : run step s es = some s') (hP : ¬ P s') :
    ¬ Always step P s es :=
  fun h => hP (h.last hr)

/-- A run whose last step violates the law. -/
theorem not_eachStep {s s₁ s₂ : σ} {es : List ε} {e : ε} (hr : run step s es = some s₁)
    (hs : step s₁ e = some s₂) (hT : ¬ T s₁ e s₂) : ¬ EachStep step T s (es ++ [e]) :=
  fun h => hT (h es e s₁ s₂ (List.prefix_refl _) hr hs)

/-! ## The invariant rule -/

/-- **Guarded invariant rule.**  If every step that meets the guard `G` keeps `I`, then `I`
    holds throughout every run whose steps all meet `G`. -/
theorem EachStep.always {s : σ} {es : List ε} (hG : EachStep step G s es) (h0 : I s)
    (hstep : ∀ s e s', I s → step s e = some s' → G s e s' → I s') :
    Always step I s es := by
  induction es generalizing s with
  | nil => exact (always_nil s).mpr h0
  | cons e es ih =>
    rw [eachStep_cons] at hG
    rw [always_cons]
    refine ⟨h0, fun s' hs => ?_⟩
    obtain ⟨hg, hG'⟩ := hG s' hs
    exact ih hG' (hstep s e s' h0 hs hg)

/-- **Invariant rule.** -/
theorem always_of_invariant {s : σ} (es : List ε) (h0 : I s)
    (hstep : ∀ s e s', I s → step s e = some s' → I s') : Always step I s es :=
  EachStep.always (G := fun _ _ _ => True) (fun _ _ _ _ _ _ _ => trivial) h0
    fun s e s' hi hs _ => hstep s e s' hi hs

/-- What holds of a step taken in a state where `I` holds, holds of every step of a run along
    which `I` always holds. -/
theorem Always.eachStep {s : σ} {es : List ε} (hI : Always step I s es)
    (hT : EachStep step T s es)
    (hstep : ∀ s e s', I s → step s e = some s' → T s e s' → U s e s') :
    EachStep step U s es := by
  intro pre e s₁ s₂ hp hr hs
  have hi : I s₁ := hI pre s₁ ((List.prefix_append pre [e]).trans hp) hr
  exact hstep s₁ e s₂ hi hs (hT pre e s₁ s₂ hp hr hs)

/-- Step laws of an invariant. -/
theorem eachStep_of_invariant {s : σ} (es : List ε) (h0 : I s)
    (hstep : ∀ s e s', I s → step s e = some s' → I s' ∧ T s e s') : EachStep step T s es :=
  (always_of_invariant es h0 fun s e s' hi hs => (hstep s e s' hi hs).1).eachStep
    (T := fun _ _ _ => True) (fun _ _ _ _ _ _ _ => trivial)
    fun s e s' hi hs _ => (hstep s e s' hi hs).2

/-- Two step laws that agree in every state where an invariant holds agree on runs. -/
theorem eachStep_congr {s : σ} (es : List ε) (h0 : I s)
    (hstep : ∀ s e s', I s → step s e = some s' → I s')
    (hTU : ∀ s e s', I s → step s e = some s' → (T s e s' ↔ U s e s')) :
    EachStep step T s es ↔ EachStep step U s es := by
  have hI := always_of_invariant es h0 hstep
  constructor
  · intro h; exact hI.eachStep h fun s e s' hi hs ht => (hTU s e s' hi hs).mp ht
  · intro h; exact hI.eachStep h fun s e s' hi hs hu => (hTU s e s' hi hs).mpr hu

/-- A condition on events alone holds of every step if it holds of every event. -/
theorem eachStep_of_forall_mem {G : ε → Prop} (s : σ) {es : List ε} (h : ∀ e ∈ es, G e) :
    EachStep step (fun _ e _ => G e) s es := by
  intro pre e s₁ s₂ hp _ _
  exact h e (hp.subset (List.mem_append_right pre List.mem_cons_self))

/-- **The step that established it.**  What holds at the end of a run and not at its start was
    made true by one step of the run. -/
theorem exists_step_of_run {s s' : σ} {es : List ε} (hr : run step s es = some s') (h0 : ¬ P s)
    (h1 : P s') :
    ∃ pre e post s₁ s₂, es = pre ++ e :: post ∧ run step s pre = some s₁ ∧
      step s₁ e = some s₂ ∧ ¬ P s₁ ∧ P s₂ := by
  induction es generalizing s with
  | nil =>
    cases hr
    exact absurd h1 h0
  | cons e es ih =>
    obtain ⟨t, hs, hr'⟩ := Option.bind_eq_some_iff.mp hr
    by_cases ht : P t
    · exact ⟨[], e, es, s, t, rfl, rfl, hs, h0, ht⟩
    · obtain ⟨pre, a, post, s₁, s₂, rfl, hpre, ha, hn, hp⟩ := ih hr' ht
      refine ⟨e :: pre, a, post, s₁, s₂, rfl, ?_, ha, hn, hp⟩
      rw [run_cons_of_step hs, hpre]

/-! ## The exact-guard rule -/

/-- **Exact-guard rule.**  `I` gives the state law `P`; a step that meets the guard `G` keeps
    `I` and satisfies the step law `T`; a step from `I` that violates `G` breaks `P` in the
    state it reaches, or `T`.  Then a run has both laws iff every step of it meets `G`. -/
theorem always_and_eachStep_iff {s : σ} (es : List ε) (h0 : I s) (hP : ∀ s, I s → P s)
    (hkeep : ∀ s e s', I s → step s e = some s' → G s e s' → I s' ∧ T s e s')
    (hbreak : ∀ s e s', I s → step s e = some s' → ¬ G s e s' → P s' → ¬ T s e s') :
    (Always step P s es ∧ EachStep step T s es) ↔ EachStep step G s es := by
  constructor
  · rintro ⟨hA, hT⟩
    induction es generalizing s with
    | nil => exact eachStep_nil s
    | cons e es ih =>
      rw [always_cons] at hA
      rw [eachStep_cons] at hT ⊢
      intro s' hs
      have hA' := hA.2 s' hs
      obtain ⟨ht, hT'⟩ := hT s' hs
      have hp' : P s' := hA' [] s' List.nil_prefix rfl
      have hg : G s e s' := by
        refine Classical.byContradiction fun hg => hbreak s e s' h0 hs hg hp' ht
      exact ⟨hg, ih (hkeep s e s' h0 hs hg).1 hA' hT'⟩
  · intro hG
    have hI : Always step I s es :=
      hG.always h0 fun s e s' hi hs hg => (hkeep s e s' hi hs hg).1
    exact ⟨hI.mono hP, hI.eachStep hG fun s e s' hi hs hg => (hkeep s e s' hi hs hg).2⟩

/-- The exact-guard rule for a state law alone. -/
theorem always_iff_eachStep {s : σ} (es : List ε) (h0 : I s) (hP : ∀ s, I s → P s)
    (hkeep : ∀ s e s', I s → step s e = some s' → G s e s' → I s')
    (hbreak : ∀ s e s', I s → step s e = some s' → ¬ G s e s' → ¬ P s') :
    Always step P s es ↔ EachStep step G s es := by
  have h := always_and_eachStep_iff (T := fun _ _ _ => True) es h0 hP
    (fun s e s' hi hs hg => ⟨hkeep s e s' hi hs hg, trivial⟩)
    fun s e s' hi hs hg hp _ => hbreak s e s' hi hs hg hp
  rw [← h]
  exact ⟨fun hA => ⟨hA, fun _ _ _ _ _ _ _ => trivial⟩, And.left⟩

/-! ## Runs with marked events -/

/-- The events of a marked list. -/
def whole (m : List (ε × Bool)) : List ε := m.map Prod.fst

/-- The events without the marked ones. -/
def kept (m : List (ε × Bool)) : List ε := (m.filter fun x => !x.2).map Prod.fst

/-- Each marked event occurs in a state where `C` holds, as seen in the run of the kept events or
    in the run of all events. -/
def MarkedIn (step : σ → ε → Option σ) (C : σ → ε → Prop) (s : σ) (m : List (ε × Bool)) : Prop :=
  ∀ i : Fin m.length, (m.get i).2 = true →
    (∀ s' ∈ run step s (kept (m.take i)), C s' (m.get i).1) ∨
      ∀ s' ∈ run step s (whole (m.take i)), C s' (m.get i).1

instance MarkedIn.decidable {C : σ → ε → Prop} [∀ s e, Decidable (C s e)] (s : σ)
    (m : List (ε × Bool)) : Decidable (MarkedIn step C s m) :=
  inferInstanceAs (Decidable (∀ _ : Fin m.length, _ → _ ∨ _))

theorem whole_concat (m : List (ε × Bool)) (e : ε) (b : Bool) :
    whole (m ++ [(e, b)]) = whole m ++ [e] := by
  simp [whole]

theorem kept_concat_marked (m : List (ε × Bool)) (e : ε) : kept (m ++ [(e, true)]) = kept m := by
  simp [kept]

theorem kept_concat_unmarked (m : List (ε × Bool)) (e : ε) :
    kept (m ++ [(e, false)]) = kept m ++ [e] := by
  simp [kept]

/-- **Stuttering.**  Where every marked event leaves the state unchanged, a run and the same run
    without the marked events are in the same state at every corresponding point. -/
theorem run_whole_eq_kept {C : σ → ε → Prop} {s : σ} {m : List (ε × Bool)} (h0 : I s)
    (hI : ∀ s e s', I s → step s e = some s' → I s')
    (hstutter : ∀ s e, I s → C s e → step s e = some s) (hm : MarkedIn step C s m) (i : Nat) :
    run step s (whole (m.take i)) = run step s (kept (m.take i)) := by
  induction i with
  | zero => rfl
  | succ i ih =>
    rcases Nat.lt_or_ge i m.length with hi | hi
    · have hmark := hm ⟨i, hi⟩
      rw [List.take_succ_eq_append_getElem hi]
      simp only [List.get_eq_getElem] at hmark
      generalize m[i] = x at hmark ⊢
      obtain ⟨e, b⟩ := x
      cases b with
      | false => rw [whole_concat, kept_concat_unmarked, run_append, run_append, ih]
      | true =>
        rw [whole_concat, kept_concat_marked, run_append, ih]
        cases hr : run step s (kept (m.take i)) with
        | none => rfl
        | some s' =>
          have hC : C s' e := by
            rcases hmark rfl with h | h
            · exact h s' hr
            · exact h s' (ih.trans hr)
          have hs' : I s' :=
            always_of_invariant (kept (m.take i)) h0 hI _ s' (List.prefix_refl _) hr
          rw [Option.bind_some, run_cons_of_step (hstutter s' e hs' hC), run_nil]
    · rw [List.take_of_length_le (by omega)]
      rwa [List.take_of_length_le hi] at ih

/-! ## Counting along a run -/

/-- **Amortised counting.**  If every step pays its cost `c` out of the potential `φ` and the
    credit `d` it earns, the total cost is bounded by the initial potential and the total
    credit. -/
theorem tally_le {c d : σ → ε → σ → Nat} {φ : σ → Nat}
    (hstep : ∀ s e s', step s e = some s' → c s e s' + φ s' ≤ φ s + d s e s') :
    ∀ (es : List ε) (s : σ), tally step c s es ≤ φ s + tally step d s es
  | [], _ => Nat.zero_le _
  | e :: es, s => by
    cases hs : step s e with
    | none => simp only [tally, hs]; omega
    | some s' =>
      have h1 := hstep s e s' hs
      have h2 := tally_le hstep es s'
      simp only [tally, hs]
      omega

/-- **Exact counting.**  If every step raises `f` by its cost and by what it raises `g`, the total
    cost of a run is what `f` has gained over `g`. -/
theorem tally_eq {c : σ → ε → σ → Nat} {f g : σ → Nat}
    (hstep : ∀ s e s', step s e = some s' → f s' + g s = f s + g s' + c s e s') {s s' : σ}
    {es : List ε} (hr : run step s es = some s') :
    f s' + g s = f s + g s' + tally step c s es := by
  induction es generalizing s with
  | nil =>
    obtain rfl : s = s' := Option.some.inj hr
    simp only [tally, Nat.add_zero]
  | cons e es ih =>
    obtain ⟨t, hs, hr'⟩ := Option.bind_eq_some_iff.mp hr
    have h1 := hstep s e t hs
    have h2 := ih hr'
    simp only [tally, hs]
    omega

end EventMachine
