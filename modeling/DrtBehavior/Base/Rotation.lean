import Mathlib.Algebra.Quaternion
import Mathlib.LinearAlgebra.Matrix.Notation
import Mathlib.LinearAlgebra.UnitaryGroup
import Mathlib.Tactic.FinCases
import Mathlib.Tactic.Linarith
import Mathlib.Tactic.LinearCombination

/-!
# Rotation matrices and quaternions

The two conversions between quaternions and 3 by 3 matrices that geometry libraries use, in exact
arithmetic over a field; proper rotations are Mathlib's `Matrix.specialOrthogonalGroup`.

* `toRotationMatrix` — the matrix of a quaternion, without normalisation.  It is multiplicative on
  unit quaternions and a rotation exactly for unit quaternions and for those without a vector part:
  `toRotationMatrix_mul`, `toRotationMatrix_mem_iff`.
* `toQuaternion` — the quaternion of a matrix by its trace or its largest diagonal element.
* `toRotationMatrix_toQuaternion`, `normSq_toQuaternion` — the round trip for rotations: the
  products of the components are read off the matrix (`HasProducts`), because the entries of a
  rotation satisfy the products' quadratic identities (`trace_mul_diagonal` and those behind it).
-/

set_option autoImplicit false

namespace Rotation

open Matrix Quaternion

-- the indices and the numeral 2 elaborate to the same terms wherever this module is imported

instance neZeroThree : NeZero 3 := ⟨by decide⟩

instance atLeastTwoTwo : Nat.AtLeastTwo 2 := ⟨le_rfl⟩

variable {K : Type*} [Field K]

/-! ## The matrix of a quaternion -/

def toRotationMatrix (q : ℍ[K]) : Matrix (Fin 3) (Fin 3) K :=
  !![1 - 2 * (q.imJ * q.imJ + q.imK * q.imK), 2 * (q.imI * q.imJ - q.re * q.imK),
      2 * (q.imI * q.imK + q.re * q.imJ);
    2 * (q.imI * q.imJ + q.re * q.imK), 1 - 2 * (q.imI * q.imI + q.imK * q.imK),
      2 * (q.imJ * q.imK - q.re * q.imI);
    2 * (q.imI * q.imK - q.re * q.imJ), 2 * (q.imJ * q.imK + q.re * q.imI),
      1 - 2 * (q.imI * q.imI + q.imJ * q.imJ)]

/-- The quadratic form of the matrix, the same on unit quaternions. -/
def homogeneous (q : ℍ[K]) : Matrix (Fin 3) (Fin 3) K :=
  !![q.re ^ 2 + q.imI ^ 2 - q.imJ ^ 2 - q.imK ^ 2, 2 * (q.imI * q.imJ - q.re * q.imK),
      2 * (q.imI * q.imK + q.re * q.imJ);
    2 * (q.imI * q.imJ + q.re * q.imK), q.re ^ 2 - q.imI ^ 2 + q.imJ ^ 2 - q.imK ^ 2,
      2 * (q.imJ * q.imK - q.re * q.imI);
    2 * (q.imI * q.imK - q.re * q.imJ), 2 * (q.imJ * q.imK + q.re * q.imI),
      q.re ^ 2 - q.imI ^ 2 - q.imJ ^ 2 + q.imK ^ 2]

theorem toRotationMatrix_eq {q : ℍ[K]} (h : normSq q = 1) : toRotationMatrix q = homogeneous q := by
  rw [normSq_def'] at h
  ext i j
  fin_cases i <;> fin_cases j <;> simp [toRotationMatrix, homogeneous] <;> linear_combination -h

theorem homogeneous_mul (p q : ℍ[K]) : homogeneous (p * q) = homogeneous p * homogeneous q := by
  ext i j
  fin_cases i <;> fin_cases j <;>
    simp [homogeneous, Matrix.mul_apply, Fin.sum_univ_three] <;> ring

/-- **Products of unit quaternions are products of their matrices.** -/
theorem toRotationMatrix_mul {p q : ℍ[K]} (hp : normSq p = 1) (hq : normSq q = 1) :
    toRotationMatrix (p * q) = toRotationMatrix p * toRotationMatrix q := by
  have hpq : normSq (p * q) = 1 := by rw [map_mul, hp, hq, one_mul]
  rw [toRotationMatrix_eq hpq, toRotationMatrix_eq hp, toRotationMatrix_eq hq, homogeneous_mul]

theorem toRotationMatrix_one : toRotationMatrix (1 : ℍ[K]) = 1 := by
  ext i j
  fin_cases i <;> fin_cases j <;> simp [toRotationMatrix]

theorem mem_rotation_iff {M : Matrix (Fin 3) (Fin 3) K} :
    M ∈ specialOrthogonalGroup (Fin 3) K ↔ Mᵀ * M = 1 ∧ M.det = 1 := by
  rw [mem_specialOrthogonalGroup_iff, mem_orthogonalGroup_iff']

theorem toRotationMatrix_mem {q : ℍ[K]} (h : normSq q = 1) :
    toRotationMatrix q ∈ specialOrthogonalGroup (Fin 3) K := by
  have hn : q.re ^ 2 + q.imI ^ 2 + q.imJ ^ 2 + q.imK ^ 2 = 1 := by rw [← normSq_def', h]
  have htranspose : (toRotationMatrix q)ᵀ = toRotationMatrix (star q) := by
    ext i j
    fin_cases i <;> fin_cases j <;> simp [toRotationMatrix, -mul_eq_mul_left_iff] <;> ring
  rw [mem_rotation_iff]
  constructor
  · have hstar : normSq (star q) = 1 := by rw [normSq_star, h]
    rw [htranspose, ← toRotationMatrix_mul hstar h, star_mul_self, h, coe_one,
      toRotationMatrix_one]
  · rw [toRotationMatrix_eq h, det_fin_three]
    simp only [homogeneous, of_apply, cons_val', cons_val_zero, cons_val_one, cons_val]
    have hcube : (q.re ^ 2 + q.imI ^ 2 + q.imJ ^ 2 + q.imK ^ 2) ^ 3 = 1 := by rw [hn, one_pow]
    linear_combination hcube

/-- A rotation can be cancelled from the left. -/
theorem mul_mem_rotation_iff {M N : Matrix (Fin 3) (Fin 3) K}
    (hM : M ∈ specialOrthogonalGroup (Fin 3) K) :
    M * N ∈ specialOrthogonalGroup (Fin 3) K ↔ N ∈ specialOrthogonalGroup (Fin 3) K := by
  obtain ⟨horth, hdet⟩ := mem_rotation_iff.mp hM
  constructor
  · intro h
    obtain ⟨horth', hdet'⟩ := mem_rotation_iff.mp h
    refine mem_rotation_iff.mpr ⟨?_, ?_⟩
    · calc Nᵀ * N = Nᵀ * (Mᵀ * M) * N := by rw [horth, mul_one]
        _ = (M * N)ᵀ * (M * N) := by simp only [transpose_mul, mul_assoc]
        _ = 1 := horth'
    · rw [det_mul, hdet, one_mul] at hdet'
      exact hdet'
  · exact fun hN => mul_mem hM hN

/-! ## Indices in cyclic order -/

theorem succ_succ (i : Fin 3) : i + 1 + 1 = i + 2 := by revert i; decide

theorem succ_last (i : Fin 3) : i + 1 + 2 = i := by revert i; decide

theorem last_succ (i : Fin 3) : i + 2 + 1 = i := by revert i; decide

theorem last_last (i : Fin 3) : i + 2 + 2 = i + 1 := by revert i; decide

theorem ne_succ (i : Fin 3) : i ≠ i + 1 := by revert i; decide

theorem ne_last (i : Fin 3) : i ≠ i + 2 := by revert i; decide

theorem succ_ne_last (i : Fin 3) : i + 1 ≠ i + 2 := by revert i; decide

theorem forall_cyclic {P : Fin 3 → Prop} (i : Fin 3) (h : P i) (h' : P (i + 1))
    (h'' : P (i + 2)) : ∀ n, P n := by
  intro n
  have hn : ∀ i n : Fin 3, n = i ∨ n = i + 1 ∨ n = i + 2 := by decide
  rcases hn i n with rfl | rfl | rfl
  · exact h
  · exact h'
  · exact h''

theorem sum_cyclic (f : Fin 3 → K) (i : Fin 3) : ∑ n, f n = f i + f (i + 1) + f (i + 2) := by
  fin_cases i <;> simp [Fin.sum_univ_three] <;> ring

theorem trace_cyclic (M : Matrix (Fin 3) (Fin 3) K) (i : Fin 3) :
    M.trace = M i i + M (i + 1) (i + 1) + M (i + 2) (i + 2) :=
  sum_cyclic (fun n => M n n) i

/-! ## The entries of a rotation -/

/-- Four times the product of the real part and the `i`-th component of the quaternion. -/
def axial (M : Matrix (Fin 3) (Fin 3) K) (i : Fin 3) : K := M (i + 2) (i + 1) - M (i + 1) (i + 2)

/-- Four times the product of the components other than the `i`-th. -/
def mixed (M : Matrix (Fin 3) (Fin 3) K) (i : Fin 3) : K := M (i + 2) (i + 1) + M (i + 1) (i + 2)

/-- Four times the square of the `i`-th component. -/
def diagonal (M : Matrix (Fin 3) (Fin 3) K) (i : Fin 3) : K :=
  1 + M i i - M (i + 1) (i + 1) - M (i + 2) (i + 2)

section

variable {M : Matrix (Fin 3) (Fin 3) K} (h : M ∈ specialOrthogonalGroup (Fin 3) K)

include h

theorem adjugate_eq : M.adjugate = Mᵀ := by
  obtain ⟨horth, hdet⟩ := mem_rotation_iff.mp h
  calc M.adjugate = Mᵀ * M * M.adjugate := by rw [horth, one_mul]
    _ = Mᵀ := by rw [mul_assoc, mul_adjugate, hdet, one_smul, mul_one]

/-- Every entry is its own cofactor. -/
theorem cofactor_eq (a b : Fin 3) :
    M a b = M (a + 1) (b + 1) * M (a + 2) (b + 2) - M (a + 1) (b + 2) * M (a + 2) (b + 1) := by
  have hab : M.adjugate b a = M a b := by rw [adjugate_eq h, transpose_apply]
  rw [← hab, adjugate_fin_three]
  fin_cases a <;> fin_cases b <;> simp <;> ring

theorem column_dot (a b i : Fin 3) :
    M i a * M i b + M (i + 1) a * M (i + 1) b + M (i + 2) a * M (i + 2) b =
      (1 : Matrix (Fin 3) (Fin 3) K) a b := by
  rw [← (mem_rotation_iff.mp h).1, mul_apply, sum_cyclic _ i]
  rfl

theorem row_dot (a b i : Fin 3) :
    M a i * M b i + M a (i + 1) * M b (i + 1) + M a (i + 2) * M b (i + 2) =
      (1 : Matrix (Fin 3) (Fin 3) K) a b := by
  rw [← mul_eq_one_comm.mp (mem_rotation_iff.mp h).1, mul_apply, sum_cyclic _ i]
  rfl

variable (i : Fin 3)

theorem trace_mul_diagonal : (1 + M.trace) * diagonal M i = axial M i * axial M i := by
  have hc := cofactor_eq h i i
  have hcol := column_dot h i i i
  have hj := row_dot h (i + 1) (i + 1) i
  have hk := row_dot h (i + 2) (i + 2) i
  rw [one_apply_eq] at hcol hj hk
  rw [trace_cyclic M i, diagonal, axial]
  linear_combination hcol - hj - hk + 2 * hc

theorem trace_mul_mixed : (1 + M.trace) * mixed M i = axial M (i + 1) * axial M (i + 2) := by
  have hc := cofactor_eq h (i + 2) (i + 1)
  have hc' := cofactor_eq h (i + 1) (i + 2)
  have hcol := column_dot h (i + 1) (i + 2) i
  have hrow := row_dot h (i + 1) (i + 2) i
  rw [one_apply_ne (succ_ne_last i)] at hcol hrow
  simp only [succ_succ, succ_last, last_succ, last_last] at hc hc'
  rw [trace_cyclic M i, mixed, axial, axial]
  simp only [succ_succ, succ_last, last_succ, last_last]
  linear_combination hc + hc' + hcol + hrow

theorem diagonal_mul_mixed : diagonal M i * mixed M i = mixed M (i + 1) * mixed M (i + 2) := by
  have hc := cofactor_eq h (i + 2) (i + 1)
  have hc' := cofactor_eq h (i + 1) (i + 2)
  have hcol := column_dot h (i + 1) (i + 2) i
  have hrow := row_dot h (i + 1) (i + 2) i
  rw [one_apply_ne (succ_ne_last i)] at hcol hrow
  simp only [succ_succ, succ_last, last_succ, last_last] at hc hc'
  rw [diagonal, mixed, mixed, mixed]
  simp only [succ_succ, succ_last, last_succ, last_last]
  linear_combination hc + hc' - hcol - hrow

theorem diagonal_mul_diagonal :
    diagonal M i * diagonal M (i + 1) = mixed M (i + 2) * mixed M (i + 2) := by
  have hc := cofactor_eq h (i + 2) (i + 2)
  have hcol := column_dot h (i + 2) (i + 2) i
  have hi := row_dot h i i i
  have hj := row_dot h (i + 1) (i + 1) i
  rw [one_apply_eq] at hcol hi hj
  simp only [last_succ, last_last] at hc
  rw [diagonal, diagonal, mixed]
  simp only [succ_succ, succ_last, last_succ, last_last]
  linear_combination hcol - hi - hj - 2 * hc

theorem diagonal_mul_axial_succ :
    diagonal M i * axial M (i + 1) = axial M i * mixed M (i + 2) := by
  have hc := cofactor_eq h i (i + 2)
  have hc' := cofactor_eq h (i + 2) i
  have hcol := column_dot h i (i + 2) i
  have hrow := row_dot h i (i + 2) i
  rw [one_apply_ne (ne_last i)] at hcol hrow
  simp only [last_succ, last_last] at hc hc'
  rw [diagonal, axial, axial, mixed]
  simp only [succ_succ, succ_last, last_succ, last_last]
  linear_combination hc - hc' + hcol - hrow

theorem diagonal_mul_axial_last :
    diagonal M i * axial M (i + 2) = axial M i * mixed M (i + 1) := by
  have hc := cofactor_eq h i (i + 1)
  have hc' := cofactor_eq h (i + 1) i
  have hcol := column_dot h i (i + 1) i
  have hrow := row_dot h i (i + 1) i
  rw [one_apply_ne (ne_succ i)] at hcol hrow
  simp only [succ_succ, succ_last] at hc hc'
  rw [diagonal, axial, axial, mixed]
  simp only [succ_succ, succ_last, last_succ, last_last]
  linear_combination hc' - hc - hcol + hrow

end

/-! ## The quaternion of a matrix -/

variable [LinearOrder K]

/-- The index of the largest diagonal element, the first one if there are several. -/
def pivot (M : Matrix (Fin 3) (Fin 3) K) : Fin 3 :=
  let i : Fin 3 := if M 0 0 < M 1 1 then 1 else 0
  if M i i < M 2 2 then 2 else i

/-- The vector part when the `i`-th component is computed first, as `t / 2`. -/
def vectorPart (M : Matrix (Fin 3) (Fin 3) K) (i : Fin 3) (s t : K) (n : Fin 3) : K :=
  if n = i then 1 / 2 * t
  else if n = i + 1 then (M (i + 1) i + M i (i + 1)) * s
  else (M (i + 2) i + M i (i + 2)) * s

def toQuaternion (sqrt : K → K) (M : Matrix (Fin 3) (Fin 3) K) : ℍ[K] :=
  if 0 < M.trace then
    let t := sqrt (M.trace + 1)
    let s := 1 / 2 / t
    ⟨1 / 2 * t, (M 2 1 - M 1 2) * s, (M 0 2 - M 2 0) * s, (M 1 0 - M 0 1) * s⟩
  else
    let i := pivot M
    let t := sqrt (M i i - M (i + 1) (i + 1) - M (i + 2) (i + 2) + 1)
    let s := 1 / 2 / t
    let v := vectorPart M i s t
    ⟨(M (i + 2) (i + 1) - M (i + 1) (i + 2)) * s, v 0, v 1, v 2⟩

/-- The branch for matrices without a positive trace. -/
theorem toQuaternion_of_pivot (sqrt : K → K) {M : Matrix (Fin 3) (Fin 3) K} {i : Fin 3}
    (htrace : ¬ 0 < M.trace) (hi : pivot M = i) {t : K}
    (ht : sqrt (M i i - M (i + 1) (i + 1) - M (i + 2) (i + 2) + 1) = t) :
    toQuaternion sqrt M =
      ⟨axial M i * (1 / 2 / t), vectorPart M i (1 / 2 / t) t 0, vectorPart M i (1 / 2 / t) t 1,
        vectorPart M i (1 / 2 / t) t 2⟩ := by
  subst hi ht
  exact if_neg htrace

/-- The products of the real part `w` and the components `v` of a quaternion are what the entries
    of the matrix say. -/
structure HasProducts (w : K) (v : Fin 3 → K) (M : Matrix (Fin 3) (Fin 3) K) : Prop where
  real : 4 * (w * w) = 1 + M.trace
  axial : ∀ i, 4 * (w * v i) = axial M i
  square : ∀ i, 4 * (v i * v i) = diagonal M i
  mixed : ∀ i, 4 * (v (i + 1) * v (i + 2)) = mixed M i

variable [IsStrictOrderedRing K]

theorem HasProducts.toRotationMatrix_eq {w : K} {v : Fin 3 → K} {M : Matrix (Fin 3) (Fin 3) K}
    (h : HasProducts w v M) : toRotationMatrix ⟨w, v 0, v 1, v 2⟩ = M := by
  have a0 := h.axial 0
  have a1 := h.axial 1
  have a2 := h.axial 2
  have s0 := h.square 0
  have s1 := h.square 1
  have s2 := h.square 2
  have m0 := h.mixed 0
  have m1 := h.mixed 1
  have m2 := h.mixed 2
  simp only [Rotation.axial, Rotation.diagonal, Rotation.mixed, Fin.isValue, Fin.reduceAdd] at *
  ext i j
  fin_cases i <;> fin_cases j <;> simp [toRotationMatrix, -mul_eq_mul_left_iff] <;> linarith

theorem HasProducts.normSq_eq {w : K} {v : Fin 3 → K} {M : Matrix (Fin 3) (Fin 3) K}
    (h : HasProducts w v M) : normSq (⟨w, v 0, v 1, v 2⟩ : ℍ[K]) = 1 := by
  have hw := h.real
  have s0 := h.square 0
  have s1 := h.square 1
  have s2 := h.square 2
  rw [trace_cyclic M 0] at hw
  simp only [Rotation.diagonal, Fin.isValue, Fin.reduceAdd, zero_add] at *
  refine (normSq_def' _).trans ?_
  show w ^ 2 + v 0 ^ 2 + v 1 ^ 2 + v 2 ^ 2 = 1
  linarith

omit [Field K] [IsStrictOrderedRing K] in
theorem le_pivot (M : Matrix (Fin 3) (Fin 3) K) (n : Fin 3) : M n n ≤ M (pivot M) (pivot M) := by
  unfold pivot
  refine forall_cyclic (P := fun n => M n n ≤ _) 0 ?_ ?_ ?_ n
  all_goals
    simp only [Fin.isValue, zero_add]
    split_ifs <;> order

/-- **The trace branch.** -/
theorem hasProducts_of_trace {M : Matrix (Fin 3) (Fin 3) K}
    (h : M ∈ specialOrthogonalGroup (Fin 3) K) {s t : K} (hst : 2 * (s * t) = 1)
    (ht : t * t = 1 + M.trace) : HasProducts (1 / 2 * t) (fun i => axial M i * s) M := by
  have hsq : 4 * (s * s * (1 + M.trace)) = 1 := by
    rw [← ht]
    linear_combination (2 * (s * t) + 1) * hst
  refine ⟨?_, fun i => ?_, fun i => ?_, fun i => ?_⟩
  · linear_combination ht
  · linear_combination axial M i * hst
  · linear_combination (-4) * s * s * trace_mul_diagonal h i + diagonal M i * hsq
  · linear_combination (-4) * s * s * trace_mul_mixed h i + mixed M i * hsq

/-- **The diagonal branch**, for any diagonal element as the pivot. -/
theorem hasProducts_of_diagonal {M : Matrix (Fin 3) (Fin 3) K}
    (h : M ∈ specialOrthogonalGroup (Fin 3) K) (i : Fin 3) {s t : K} (hst : 2 * (s * t) = 1)
    (ht : t * t = diagonal M i) {v : Fin 3 → K} (hi : v i = 1 / 2 * t)
    (hj : v (i + 1) = mixed M (i + 2) * s) (hk : v (i + 2) = mixed M (i + 1) * s) :
    HasProducts (axial M i * s) v M := by
  have hsq : 4 * (s * s * diagonal M i) = 1 := by
    rw [← ht]
    linear_combination (2 * (s * t) + 1) * hst
  have hdiag := diagonal_mul_diagonal h (i + 2)
  rw [last_succ, last_last] at hdiag
  refine ⟨?_, forall_cyclic i ?_ ?_ ?_, forall_cyclic i ?_ ?_ ?_, forall_cyclic i ?_ ?_ ?_⟩
  · linear_combination (-4) * s * s * trace_mul_diagonal h i + (1 + M.trace) * hsq
  · rw [hi]
    linear_combination axial M i * hst
  · rw [hj]
    linear_combination (-4) * s * s * diagonal_mul_axial_succ h i + axial M (i + 1) * hsq
  · rw [hk]
    linear_combination (-4) * s * s * diagonal_mul_axial_last h i + axial M (i + 2) * hsq
  · rw [hi]
    linear_combination ht
  · rw [hj]
    linear_combination (-4) * s * s * diagonal_mul_diagonal h i + diagonal M (i + 1) * hsq
  · rw [hk]
    linear_combination (-4) * s * s * hdiag + diagonal M (i + 2) * hsq
  · rw [hj, hk]
    linear_combination (-4) * s * s * diagonal_mul_mixed h i + mixed M i * hsq
  · rw [succ_succ, succ_last, hi, hk]
    linear_combination mixed M (i + 1) * hst
  · rw [last_succ, last_last, hi, hj]
    linear_combination mixed M (i + 2) * hst

/-- The components of the quaternion of a rotation have the products of its entries. -/
theorem toQuaternion_products {sqrt : K → K} (hsqrt : ∀ x, 0 < x → sqrt x * sqrt x = x)
    {M : Matrix (Fin 3) (Fin 3) K} (h : M ∈ specialOrthogonalGroup (Fin 3) K) :
    ∃ w v, toQuaternion sqrt M = ⟨w, v 0, v 1, v 2⟩ ∧ HasProducts w v M := by
  have hhalf : ∀ x, 0 < x → 2 * (1 / 2 / sqrt x * sqrt x) = 1 := by
    intro x hx
    have hne : sqrt x ≠ 0 := by
      intro h0
      have hxx := hsqrt x hx
      rw [h0, zero_mul] at hxx
      exact hx.ne hxx
    field_simp
  by_cases htr : 0 < M.trace
  · have hpos : 0 < M.trace + 1 := by linarith
    refine ⟨_, fun n => axial M n * (1 / 2 / sqrt (M.trace + 1)), if_pos htr, ?_⟩
    refine hasProducts_of_trace h (hhalf _ hpos) ?_
    rw [hsqrt _ hpos]
    ring
  · have htrace := trace_cyclic M (pivot M)
    have hj := le_pivot M (pivot M + 1)
    have hk := le_pivot M (pivot M + 2)
    have hdiag : M (pivot M) (pivot M) - M (pivot M + 1) (pivot M + 1) -
        M (pivot M + 2) (pivot M + 2) + 1 = diagonal M (pivot M) := by
      unfold diagonal
      ring
    have hpos : 0 < diagonal M (pivot M) := by
      rw [← hdiag]
      linarith
    refine ⟨_, vectorPart M (pivot M) _ _, if_neg htr, ?_⟩
    simp only [hdiag]
    refine hasProducts_of_diagonal h (pivot M) (hhalf _ hpos) (hsqrt _ hpos) (if_pos rfl) ?_ ?_
    · rw [vectorPart, if_neg (ne_succ _).symm, if_pos rfl, mixed, last_last, last_succ]
    · rw [vectorPart, if_neg (ne_last _).symm, if_neg (succ_ne_last _).symm, mixed, succ_last,
        succ_succ, add_comm]

/-- **Round trip.**  Converting a rotation to a quaternion and back gives the rotation. -/
theorem toRotationMatrix_toQuaternion {sqrt : K → K} (hsqrt : ∀ x, 0 < x → sqrt x * sqrt x = x)
    {M : Matrix (Fin 3) (Fin 3) K} (h : M ∈ specialOrthogonalGroup (Fin 3) K) :
    toRotationMatrix (toQuaternion sqrt M) = M := by
  obtain ⟨w, v, hq, hp⟩ := toQuaternion_products hsqrt h
  rw [hq, hp.toRotationMatrix_eq]

theorem normSq_toQuaternion {sqrt : K → K} (hsqrt : ∀ x, 0 < x → sqrt x * sqrt x = x)
    {M : Matrix (Fin 3) (Fin 3) K} (h : M ∈ specialOrthogonalGroup (Fin 3) K) :
    normSq (toQuaternion sqrt M) = 1 := by
  obtain ⟨w, v, hq, hp⟩ := toQuaternion_products hsqrt h
  rw [hq, hp.normSq_eq]

/-! ## Quaternions that are not unit -/

omit [LinearOrder K] [IsStrictOrderedRing K] in
theorem trace_transpose_mul (q : ℍ[K]) :
    ((toRotationMatrix q)ᵀ * toRotationMatrix q).trace =
      3 - 8 * ((1 - normSq q) * (q.imI ^ 2 + q.imJ ^ 2 + q.imK ^ 2)) := by
  rw [normSq_def', trace_fin_three]
  simp [toRotationMatrix, Matrix.mul_apply, Fin.sum_univ_three]
  ring

/-- **Which quaternions have a rotation matrix**: the unit ones, and those without a vector part,
    whose matrix is the identity. -/
theorem toRotationMatrix_mem_iff (q : ℍ[K]) :
    toRotationMatrix q ∈ specialOrthogonalGroup (Fin 3) K ↔
      normSq q = 1 ∨ (q.imI = 0 ∧ q.imJ = 0 ∧ q.imK = 0) := by
  constructor
  · intro h
    have htrace := trace_transpose_mul q
    rw [(mem_rotation_iff.mp h).1, trace_one, Fintype.card_fin] at htrace
    have hzero : (1 - normSq q) * (q.imI ^ 2 + q.imJ ^ 2 + q.imK ^ 2) = 0 := by
      push_cast at htrace
      linarith
    rcases mul_eq_zero.mp hzero with hn | hv
    · exact .inl (sub_eq_zero.mp hn).symm
    · refine .inr ⟨?_, ?_, ?_⟩ <;> nlinarith [sq_nonneg q.imI, sq_nonneg q.imJ, sq_nonneg q.imK]
  · rintro (hn | ⟨hI, hJ, hK⟩)
    · exact toRotationMatrix_mem hn
    · have hone : toRotationMatrix q = 1 := by
        ext i j
        fin_cases i <;> fin_cases j <;> simp [toRotationMatrix, hI, hJ, hK]
      rw [hone]
      exact one_mem _

end Rotation
