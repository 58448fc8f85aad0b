import Mathlib.Logic.Basic

/-!
# Polling loops

A loop that asks the same question turn after turn and ends with the first answer.

* `poll observe turns i` — at most `turns` turns from turn `i` on, `none` when none has answered.
* `poll_eq_some_iff` — the result is the first answer.
* `exists_poll_iff` — the loop ends iff some turn would answer.
-/

set_option autoImplicit false

namespace Polling

variable {R : Type*}

/-- The loop from turn `i` on; `none` when it has not ended after the given number of turns. -/
def poll (observe : Nat → Option R) : Nat → Nat → Option R
  | 0, _ => none
  | turns + 1, i =>
    match observe i with
    | some r => some r
    | none => poll observe turns (i + 1)

/-- Turn `n` gives the first answer, `r`. -/
def FirstAnswer (observe : Nat → Option R) (n : Nat) (r : R) : Prop :=
  observe n = some r ∧ ∀ k < n, observe k = none

variable {observe : Nat → Option R}

theorem poll_eq_some_iff {r : R} : ∀ {turns i : Nat}, poll observe turns i = some r ↔
    ∃ n, i ≤ n ∧ n < i + turns ∧ observe n = some r ∧ ∀ k, i ≤ k → k < n → observe k = none
  | 0, i => by
    constructor
    · intro h
      cases h
    · rintro ⟨n, hi, hn, -⟩
      omega
  | turns + 1, i => by
    unfold poll
    cases hobs : observe i with
    | some r' =>
      constructor
      · intro h
        cases h
        exact ⟨i, Nat.le_refl i, by omega, hobs, fun k hk hki => (by omega)⟩
      · rintro ⟨n, hi, -, hn, hbefore⟩
        rcases Nat.lt_or_eq_of_le hi with hlt | rfl
        · have := hbefore i (Nat.le_refl i) hlt
          rw [hobs] at this
          cases this
        · exact hobs.symm.trans hn
    | none =>
      refine poll_eq_some_iff.trans ?_
      constructor
      · rintro ⟨n, hi, hn, hr, hbefore⟩
        refine ⟨n, by omega, by omega, hr, fun k hk hkn => ?_⟩
        rcases Nat.lt_or_eq_of_le hk with hlt | rfl
        · exact hbefore k hlt hkn
        · exact hobs
      · rintro ⟨n, hi, hn, hr, hbefore⟩
        have hne : n ≠ i := fun he => by rw [he, hobs] at hr; cases hr
        exact ⟨n, by omega, by omega, hr, fun k hk hkn => hbefore k (by omega) hkn⟩

/-- **The loop returns the first answer.** -/
theorem poll_zero_eq_some_iff {turns : Nat} {r : R} :
    poll observe turns 0 = some r ↔ ∃ n < turns, FirstAnswer observe n r := by
  refine poll_eq_some_iff.trans ?_
  constructor
  · rintro ⟨n, -, hn, hr, hbefore⟩
    exact ⟨n, by omega, hr, fun k hk => hbefore k (Nat.zero_le k) hk⟩
  · rintro ⟨n, hn, hr, hbefore⟩
    exact ⟨n, Nat.zero_le n, by omega, hr, fun k _ hk => hbefore k hk⟩

/-- More turns do not change the result. -/
theorem poll_mono {turns turns' : Nat} {r : R} (hle : turns ≤ turns')
    (h : poll observe turns 0 = some r) : poll observe turns' 0 = some r := by
  obtain ⟨n, hn, hfirst⟩ := poll_zero_eq_some_iff.mp h
  exact poll_zero_eq_some_iff.mpr ⟨n, Nat.lt_of_lt_of_le hn hle, hfirst⟩

theorem firstAnswer_unique {n m : Nat} {r r' : R} (h : FirstAnswer observe n r)
    (h' : FirstAnswer observe m r') : r = r' := by
  rcases Nat.lt_trichotomy n m with hlt | rfl | hlt
  · have := h'.2 n hlt
    rw [h.1] at this
    cases this
  · exact Option.some.inj (h.1.symm.trans h'.1)
  · have := h.2 m hlt
    rw [h'.1] at this
    cases this

/-- The loop has one result. -/
theorem poll_unique {turns turns' : Nat} {r r' : R} (h : poll observe turns 0 = some r)
    (h' : poll observe turns' 0 = some r') : r = r' := by
  obtain ⟨n, -, hfirst⟩ := poll_zero_eq_some_iff.mp h
  obtain ⟨m, -, hfirst'⟩ := poll_zero_eq_some_iff.mp h'
  exact firstAnswer_unique hfirst hfirst'

/-- Where a turn would answer, there is a first answer. -/
theorem exists_firstAnswer {n : Nat} {r : R} (h : observe n = some r) :
    ∃ m r', FirstAnswer observe m r' := by
  induction n using Nat.strongRecOn generalizing r with
  | _ n ih =>
    by_cases hbefore : ∀ k < n, observe k = none
    · exact ⟨n, r, h, hbefore⟩
    · simp only [not_forall] at hbefore
      obtain ⟨k, hk, hsome⟩ := hbefore
      obtain ⟨r', hr'⟩ := Option.ne_none_iff_exists'.mp hsome
      exact ih k hk hr'

/-- **The loop ends iff some turn would answer.** -/
theorem exists_poll_iff :
    (∃ turns r, poll observe turns 0 = some r) ↔ ∃ n r, observe n = some r := by
  constructor
  · rintro ⟨turns, r, h⟩
    obtain ⟨n, -, hr, -⟩ := poll_zero_eq_some_iff.mp h
    exact ⟨n, r, hr⟩
  · rintro ⟨n, r, h⟩
    obtain ⟨m, r', hfirst⟩ := exists_firstAnswer h
    exact ⟨m + 1, r', poll_zero_eq_some_iff.mpr ⟨m, Nat.lt_succ_self m, hfirst⟩⟩

end Polling
