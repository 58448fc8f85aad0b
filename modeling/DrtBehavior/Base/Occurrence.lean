import Mathlib.Data.List.Infix

/-!
# Where words occur in a text

* `OccursAt w x i` — the word `w` starts at position `i` of `x`.
* `lastIndex w x` — the last such position: `lastIndex_cases`.
* `infix_append_cons_iff`, `infix_join_iff` — a word does not reach over a symbol it does not
  contain: where texts are joined by such a symbol, it occurs in one of them.
-/

set_option autoImplicit false

namespace Occurrence

variable {α : Type*}

/-- The word `w` starts at position `i` of `x`. -/
def OccursAt (w x : List α) (i : Nat) : Prop := w <+: x.drop i

/-! ## Occurrences -/

theorem exists_occursAt_iff {w x : List α} : (∃ i, OccursAt w x i) ↔ w <:+: x := by
  constructor
  · rintro ⟨i, h⟩
    exact h.isInfix.trans (List.drop_suffix i x).isInfix
  · rintro ⟨a, b, rfl⟩
    refine ⟨a.length, ?_⟩
    rw [OccursAt, List.append_assoc, List.drop_left]
    exact List.prefix_append w b

/-- Text in front moves an occurrence. -/
theorem occursAt_append {w b : List α} (a : List α) {j : Nat} :
    OccursAt w (a ++ b) (a.length + j) ↔ OccursAt w b j := by
  rw [OccursAt, OccursAt, ← List.drop_drop, List.drop_left]

theorem occursAt_self (a w b : List α) : OccursAt w (a ++ (w ++ b)) a.length := by
  rw [OccursAt, List.drop_left]
  exact List.prefix_append w b

/-- A word that starts in front of a symbol it does not contain ends there too. -/
theorem prefix_append_cons_iff {s : α} {w : List α} (hs : s ∉ w) (a b : List α) :
    w <+: a ++ s :: b ↔ w <+: a := by
  constructor
  · intro h
    rcases List.prefix_or_prefix_of_prefix h (List.prefix_append a (s :: b)) with h' | ⟨c, rfl⟩
    · exact h'
    · rw [List.prefix_append_right_inj] at h
      cases c with
      | nil => rw [List.append_nil]
      | cons y c =>
        obtain rfl := (List.cons_prefix_cons.mp h).1
        exact absurd (by simp) hs
  · exact fun h => h.trans (List.prefix_append a (s :: b))

/-- **A word without the symbol `s` occurs on one side of it.** -/
theorem infix_append_cons_iff {s : α} {w : List α} (hne : w ≠ []) (hs : s ∉ w) (a b : List α) :
    w <:+: a ++ s :: b ↔ w <:+: a ∨ w <:+: b := by
  constructor
  · intro h
    induction a with
    | nil =>
      rcases List.infix_cons_iff.mp h with h | h
      · rw [← List.nil_append (s :: b), prefix_append_cons_iff hs] at h
        exact absurd (List.prefix_nil.mp h) hne
      · exact .inr h
    | cons c a ih =>
      rcases List.infix_cons_iff.mp h with h | h
      · have hpre : w <+: (c :: a) ++ s :: b := h
        exact .inl ((prefix_append_cons_iff hs (c :: a) b).mp hpre).isInfix
      · rcases ih h with h | h
        · exact .inl (List.infix_cons h)
        · exact .inr h
  · rintro (h | h)
    · exact h.trans (List.prefix_append a (s :: b)).isInfix
    · exact (List.infix_cons h).trans (List.suffix_append a (s :: b)).isInfix

theorem not_infix_nil {w : List α} (hne : w ≠ []) : ¬ w <:+: ([] : List α) :=
  fun h => hne (List.infix_nil.mp h)

/-- The same for a text followed by others, each behind the symbol. -/
theorem infix_join_iff {s : α} {w : List α} (hne : w ≠ []) (hs : s ∉ w) (xs : List (List α)) :
    ∀ x : List α, w <:+: x ++ xs.flatMap (s :: ·) ↔ w <:+: x ∨ ∃ y ∈ xs, w <:+: y := by
  induction xs with
  | nil => simp
  | cons y xs ih =>
    intro x
    rw [List.flatMap_cons, List.cons_append, infix_append_cons_iff hne hs, ih y]
    simp

/-- Leading copies of the symbol do not matter. -/
theorem infix_replicate_append_iff {s : α} {w : List α} (hne : w ≠ []) (hs : s ∉ w) (x : List α) :
    ∀ n, w <:+: List.replicate n s ++ x ↔ w <:+: x
  | 0 => Iff.rfl
  | n + 1 => by
    rw [List.replicate_succ, List.cons_append, ← List.nil_append (s :: _),
      infix_append_cons_iff hne hs, infix_replicate_append_iff hne hs x n]
    exact or_iff_right (not_infix_nil hne)

/-! ## The last occurrence -/

variable [DecidableEq α]

/-- The position of the last occurrence. -/
def lastIndex (w : List α) : List α → Option Nat
  | [] => if w = [] then some 0 else none
  | c :: cs =>
    match lastIndex w cs with
    | some i => some (i + 1)
    | none => if w.isPrefixOf (c :: cs) then some 0 else none

/-- **Everything the search can find** for a word that is not empty. -/
theorem lastIndex_cases {w : List α} (hne : w ≠ []) : ∀ x : List α,
    (lastIndex w x = none ∧ ∀ i, ¬ OccursAt w x i) ∨
      ∃ i, lastIndex w x = some i ∧ OccursAt w x i ∧ ∀ j, OccursAt w x j → j ≤ i
  | [] => by
    refine .inl ⟨if_neg hne, fun i h => ?_⟩
    rw [OccursAt, List.drop_nil] at h
    exact hne (List.prefix_nil.mp h)
  | c :: cs => by
    unfold lastIndex
    rcases lastIndex_cases hne cs with ⟨hnone, hno⟩ | ⟨i, hsome, hocc, hmax⟩
    · rw [hnone]
      by_cases hpre : w <+: c :: cs
      · refine .inr ⟨0, if_pos (List.isPrefixOf_iff_prefix.mpr hpre), hpre, fun j hj => ?_⟩
        cases j with
        | zero => exact Nat.le_refl 0
        | succ j => exact absurd hj (hno j)
      · refine .inl ⟨if_neg (fun h => hpre (List.isPrefixOf_iff_prefix.mp h)), fun i h => ?_⟩
        cases i with
        | zero => exact hpre h
        | succ i => exact hno i h
    · rw [hsome]
      refine .inr ⟨i + 1, rfl, hocc, fun j hj => ?_⟩
      cases j with
      | zero => exact Nat.zero_le _
      | succ j => exact Nat.succ_le_succ (hmax j hj)

end Occurrence
