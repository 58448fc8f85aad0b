import Mathlib.LinearAlgebra.CrossProduct
import DrtBehavior.Geometry.Eigen

/-!
# AlignTransform

`AlignTransform` of `geometry_behavior` turns a stamped transform so that its Z axis points straight
down and its X axis keeps its heading.

* `alignedMatrix`, `tick` — the columns are rebuilt from the horizontal part of the X axis, and the
  matrix goes through a quaternion.
* `downward` — the rotation that points down with a given heading.  It is what the matrix is, unless
  the X axis is vertical (`alignedMatrix_eq`); then the conversion turns a singular matrix into a
  half turn about X (`linear_of_vertical`).
* `points_down` — direction, heading, and that a second tick changes nothing.
-/

set_option autoImplicit false

section

open scoped Quaternion Matrix

namespace DrtBehavior

open Rotation

namespace AlignTransform

variable {K : Type} [Field K] [LinearOrder K] [Elementary K]

/-- `rotation_matrix` after its three columns are overwritten. -/
def alignedMatrix (rotationMatrix : Matrix (Fin 3) (Fin 3) K) : Matrix (Fin 3) (Fin 3) K :=
  let xAxis := normalize (Function.update (rotationMatrix.col 0) 2 0)
  let zAxis := ![0, 0, -1]
  let yAxis := crossProduct zAxis xAxis
  ((rotationMatrix.updateCol 0 xAxis).updateCol 1 yAxis).updateCol 2 ![0, 0, -1]

/-- `aligned_quat.toRotationMatrix()`. -/
def alignedLinear (rotationMatrix : Matrix (Fin 3) (Fin 3) K) : Matrix (Fin 3) (Fin 3) K :=
  toRotationMatrix
    (normalizeQuaternion (toQuaternion Elementary.sqrt (alignedMatrix rotationMatrix)))

/-- `tick`: the status and the value set on port `aligned_transform`. -/
def tick (transformStamped : Option (TransformStamped K)) :
    Except Fault (NodeStatus × TransformStamped K) := do
  let tStamped ← required (bytes "Could not access blackboard input [transform_stamped]")
    transformStamped
  let eigenTransform := transformToEigen tStamped
  let alignedTransform := eigenToTransform
    { eigenTransform with linear := alignedLinear eigenTransform.linear }
  return (.success, { alignedTransform with header := tStamped.header })

/-! ## Pointing down -/

omit [LinearOrder K] [Elementary K]

/-- The X axis is `(a, b, 0)`, the Z axis `(0, 0, -1)`, and the Y axis completes the frame. -/
def downward (a b : K) : Matrix (Fin 3) (Fin 3) K := !![a, b, 0; b, -a, 0; 0, 0, -1]

theorem downward_mem {a b : K} (h : a ^ 2 + b ^ 2 = 1) :
    downward a b ∈ Matrix.specialOrthogonalGroup (Fin 3) K := by
  rw [mem_rotation_iff]
  constructor
  · ext i j
    fin_cases i <;> fin_cases j <;> simp [downward, Matrix.mul_apply, Fin.sum_univ_three]
    · linear_combination h
    · ring
    · ring
    · linear_combination h
  · rw [Matrix.det_fin_three]
    simp [downward]
    linear_combination h

/-- The horizontal part of the X axis. -/
def horizontal (M : Matrix (Fin 3) (Fin 3) K) : Fin 3 → K := ![M 0 0, M 1 0, 0]

theorem update_col (M : Matrix (Fin 3) (Fin 3) K) :
    Function.update (M.col 0) 2 0 = horizontal M := by
  funext i
  fin_cases i <;> rfl

theorem horizontal_downward (a b : K) : horizontal (downward a b) = ![a, b, 0] := by
  funext i
  fin_cases i <;> rfl

theorem alignedMatrix_eq [LinearOrder K] [Elementary K] (M : Matrix (Fin 3) (Fin 3) K) :
    alignedMatrix M =
      downward (normalize (horizontal M) 0) (normalize (horizontal M) 1) := by
  have h2 : normalize (horizontal M) 2 = 0 := normalize_apply_zero rfl
  unfold alignedMatrix
  rw [update_col]
  ext i j
  fin_cases i <;> fin_cases j <;> simp [downward, cross_apply, h2]

/-! ## The way through the quaternion -/

theorem linear_of_heading {a b : ℝ} (h : a ^ 2 + b ^ 2 = 1) :
    toRotationMatrix (normalizeQuaternion (toQuaternion Elementary.sqrt (downward a b))) =
      downward a b := by
  have hmem := downward_mem h
  rw [normalizeQuaternion_of_unit (normSq_toQuaternion sqrt_mul_self hmem),
    toRotationMatrix_toQuaternion sqrt_mul_self hmem]

/-- A vertical X axis leaves a singular matrix.  It has a negative trace and the first diagonal
    element as its pivot, so that of the quaternion only the first component is not zero. -/
theorem toQuaternion_of_vertical :
    toQuaternion Elementary.sqrt (downward (0 : ℝ) 0) = ⟨0, 1 / 2 * √2, 0, 0⟩ := by
  have htrace : ¬ 0 < (downward (0 : ℝ) 0).trace := by
    rw [Matrix.trace_fin_three]
    simp [downward]
  have hpivot : pivot (downward (0 : ℝ) 0) = 0 := by simp [pivot, downward]
  have hroot : (Elementary.sqrt (0 - -0 - -1 + 1) : ℝ) = √2 := by
    show √(0 - -0 - -1 + 1) = √2
    norm_num
  rw [toQuaternion_of_pivot _ htrace hpivot hroot]
  ext <;> simp [axial, vectorPart, downward]

/-- Normalised, such a quaternion is a half turn about X. -/
theorem toRotationMatrix_normalize_x {x : ℝ} (hx : x ≠ 0) :
    toRotationMatrix (normalizeQuaternion ⟨0, x, 0, 0⟩) = downward 1 0 := by
  have hne : ![x, 0, 0, 0] ≠ 0 := fun h => hx (congrFun h 0)
  have hunit := normalize_dotProduct_self hne
  have hy : normalize ![x, 0, 0, 0] 1 = 0 := normalize_apply_zero rfl
  have hz : normalize ![x, 0, 0, 0] 2 = 0 := normalize_apply_zero rfl
  have hw : normalize ![x, 0, 0, 0] 3 = 0 := normalize_apply_zero rfl
  simp only [dotProduct, Fin.sum_univ_four, hy, hz, hw, mul_zero, add_zero] at hunit
  unfold normalizeQuaternion
  simp only [hy, hz, hw]
  ext i j
  fin_cases i <;> fin_cases j <;> simp [toRotationMatrix, downward]
  · linear_combination (-2) * hunit
  · linear_combination (-2) * hunit

theorem linear_of_vertical :
    toRotationMatrix (normalizeQuaternion (toQuaternion Elementary.sqrt (downward (0 : ℝ) 0))) =
      downward 1 0 := by
  rw [toQuaternion_of_vertical]
  exact toRotationMatrix_normalize_x (by simp)

/-! ## The tick -/

/-- The linear part points down, with the heading of the X axis if that is not vertical. -/
theorem alignedLinear_cases (M : Matrix (Fin 3) (Fin 3) ℝ) :
    ∃ a b, a ^ 2 + b ^ 2 = 1 ∧ alignedLinear M = downward a b ∧
      (horizontal M ≠ 0 →
        ![a, b, 0] = (√(horizontal M ⬝ᵥ horizontal M))⁻¹ • horizontal M) := by
  unfold alignedLinear
  rw [alignedMatrix_eq]
  have h2 : normalize (horizontal M) 2 = 0 := normalize_apply_zero rfl
  by_cases hzero : horizontal M = 0
  · have h0 : normalize (0 : Fin 3 → ℝ) = 0 := funext fun _ => normalize_apply_zero rfl
    refine ⟨1, 0, by norm_num, ?_, fun hne => absurd hzero hne⟩
    rw [hzero, h0]
    exact linear_of_vertical
  · have hunit := normalize_dotProduct_self hzero
    rw [dotProduct, Fin.sum_univ_three, h2, mul_zero, add_zero, ← sq, ← sq] at hunit
    refine ⟨_, _, hunit, linear_of_heading hunit, fun _ => ?_⟩
    rw [← normalize_of_ne_zero hzero]
    funext i
    fin_cases i
    · rfl
    · rfl
    · exact h2.symm

theorem alignedLinear_downward {a b : ℝ} (h : a ^ 2 + b ^ 2 = 1) :
    alignedLinear (downward a b) = downward a b := by
  have hunit : ![a, b, 0] ⬝ᵥ ![a, b, 0] = 1 := by
    rw [dotProduct, Fin.sum_univ_three]
    show a * a + b * b + 0 * 0 = 1
    linear_combination h
  unfold alignedLinear
  rw [alignedMatrix_eq, horizontal_downward, normalize_of_unit hunit]
  exact linear_of_heading h

/-- The output for a tick whose port is read. -/
theorem tick_some [LinearOrder K] [Elementary K] {tStamped : TransformStamped K}
    {T : Isometry3d K} (h : transformToEigen tStamped = T) :
    tick (some tStamped) = .ok (.success,
      { eigenToTransform ⟨alignedLinear T.linear, T.translation⟩ with
        header := tStamped.header }) := by
  subst h
  rfl

/-- **The tool points straight down and keeps its heading.**  For every input, also with a
    quaternion that is not unit or a vertical X axis: the output has a proper rotation whose Z axis
    is `(0, 0, -1)` and whose X axis is the horizontal part of the input's, scaled to length 1, if
    that is not zero; translation and header are those of the input; and a second tick changes
    neither rotation nor translation. -/
theorem points_down (tStamped : TransformStamped ℝ) :
    let heading := horizontal (transformToEigen tStamped).linear
    ∃ output again, tick (some tStamped) = .ok (.success, output) ∧
      output.header = tStamped.header ∧
      output.transform.translation = tStamped.transform.translation ∧
      output.transform.rotation.IsUnit ∧
      (transformToEigen output).linear ∈ Matrix.specialOrthogonalGroup (Fin 3) ℝ ∧
      (transformToEigen output).linear.col 2 = ![0, 0, -1] ∧
      (heading ≠ 0 →
        (transformToEigen output).linear.col 0 = (√(heading ⬝ᵥ heading))⁻¹ • heading) ∧
      tick (some output) = .ok (.success, again) ∧ again.transform = output.transform := by
  intro heading
  obtain ⟨a, b, hunit, hlinear, hheading⟩ := alignedLinear_cases (transformToEigen tStamped).linear
  let T : Isometry3d ℝ := ⟨downward a b, tStamped.transform.translation.toEigen⟩
  have hmem : T.linear ∈ Matrix.specialOrthogonalGroup (Fin 3) ℝ := downward_mem hunit
  have htick := tick_some (Eq.refl (transformToEigen tStamped))
  rw [hlinear] at htick
  have hback := transformToEigen_eigenToTransform hmem
    (t := { eigenToTransform T with header := tStamped.header }) rfl
  have hagain := tick_some hback
  rw [alignedLinear_downward hunit] at hagain
  refine ⟨_, _, htick, rfl, Vector3.ofEigen_toEigen _, eigenToTransform_isUnit hmem, ?_, ?_, ?_,
    hagain, rfl⟩
  · exact hback ▸ hmem
  · refine (congrArg (fun U : Isometry3d ℝ => U.linear.col 2) hback).trans ?_
    funext i
    fin_cases i <;> rfl
  · intro hne
    refine (congrArg (fun U : Isometry3d ℝ => U.linear.col 0) hback).trans ?_
    refine Eq.trans ?_ (hheading hne)
    funext i
    fin_cases i <;> rfl

end AlignTransform

end DrtBehavior

end
