import Mathlib.Analysis.SpecialFunctions.Trigonometric.Basic
import Mathlib.LinearAlgebra.Matrix.DotProduct
import DrtBehavior.Base.Rotation
import DrtBehavior.Blackboard

/-!
# What the geometry behaviours use of Eigen and tf2_eigen

In exact arithmetic, over a field with the three functions of `Elementary`; over `ℝ` these are the
real ones.

* `element`, `vector3d` — `xs[i]` of a `std::vector` and `Eigen::Vector3d(xs.data())`;
  `vector3d_cases`.
* `normalize` — `normalize()`, which leaves a zero vector as it is; also of a quaternion.
* `angleAxis` — the matrix of `Eigen::AngleAxisd`, which is that of the quaternion of the half
  angle: `angleAxis_eq`.
* `Isometry3d` — a linear part and a translation, with the product of `Eigen::Isometry3d`.
* `transformToEigen`, `eigenToTransform` — between messages and isometries; the first does not
  normalise the quaternion, the second returns a message with an empty header and child frame.
-/

set_option autoImplicit false

section

open scoped Quaternion Matrix

namespace DrtBehavior

open Rotation

/-- `std::sqrt`, `std::cos` and `std::sin`. -/
class Elementary (K : Type) where
  sqrt : K → K
  cos : K → K
  sin : K → K

noncomputable instance : Elementary ℝ := ⟨Real.sqrt, Real.cos, Real.sin⟩

variable {K : Type}

/-! ## Vectors -/

def Vector3.toEigen (v : Vector3 K) : Fin 3 → K := ![v.x, v.y, v.z]

def Vector3.ofEigen (v : Fin 3 → K) : Vector3 K := ⟨v 0, v 1, v 2⟩

@[simp] theorem Vector3.toEigen_ofEigen (v : Fin 3 → K) : (Vector3.ofEigen v).toEigen = v := by
  funext i
  fin_cases i <;> rfl

@[simp] theorem Vector3.ofEigen_toEigen (v : Vector3 K) : Vector3.ofEigen v.toEigen = v := rfl

/-- `xs[i]` of a `std::vector`. -/
def element (xs : List K) (i : Nat) : Except Fault K :=
  match xs[i]? with
  | some x => .ok x
  | none => .error .outOfBounds

/-- `Eigen::Vector3d(xs.data())` and `Eigen::Vector3d(xs[0], xs[1], xs[2])`. -/
def vector3d (xs : List K) : Except Fault (Fin 3 → K) := do
  let x ← element xs 0
  let y ← element xs 1
  let z ← element xs 2
  return ![x, y, z]

/-- The `std::vector` with the coefficients of an `Eigen::Vector3d`. -/
def coefficients (v : Fin 3 → K) : List K := [v 0, v 1, v 2]

theorem coefficients_eta (v : Fin 3 → K) : ![v 0, v 1, v 2] = v := by
  funext i
  fin_cases i <;> rfl

theorem vector3d_coefficients (v : Fin 3 → K) : vector3d (coefficients v) = .ok v :=
  congrArg Except.ok (coefficients_eta v)

theorem vector3d_of_three (x y z : K) (rest : List K) :
    vector3d (x :: y :: z :: rest) = .ok ![x, y, z] := rfl

theorem vector3d_cases (xs : List K) :
    (3 ≤ xs.length ∧ ∃ v, vector3d xs = .ok v) ∨
      (xs.length < 3 ∧ vector3d xs = .error .outOfBounds) := by
  match xs with
  | x :: y :: z :: rest => exact .inl ⟨by simp, _, vector3d_of_three x y z rest⟩
  | [] => exact .inr ⟨by simp, rfl⟩
  | [_] => exact .inr ⟨by simp, rfl⟩
  | [_, _] => exact .inr ⟨by simp, rfl⟩

/-! ## Normalisation -/

section

variable {n : Type} [Fintype n] [Field K] [LinearOrder K] [Elementary K]

/-- `v.normalize()`. -/
def normalize (v : n → K) : n → K :=
  if 0 < v ⬝ᵥ v then fun i => v i / Elementary.sqrt (v ⬝ᵥ v) else v

/-- `q.normalize()`. -/
def normalizeQuaternion (q : ℍ[K]) : ℍ[K] :=
  let coeffs := normalize ![q.imI, q.imJ, q.imK, q.re]
  ⟨coeffs 3, coeffs 0, coeffs 1, coeffs 2⟩

theorem normalize_apply_zero {v : n → K} {i : n} (h : v i = 0) : normalize v i = 0 := by
  unfold normalize
  split
  · show v i / _ = 0
    rw [h, zero_div]
  · exact h

end

theorem sqrt_mul_self (x : ℝ) (hx : 0 < x) : Elementary.sqrt x * Elementary.sqrt x = x :=
  Real.mul_self_sqrt hx.le

section

variable {n : Type} [Fintype n]

theorem dotProduct_self_pos {v : n → ℝ} (h : v ≠ 0) : 0 < v ⬝ᵥ v := by
  have hne : v ⬝ᵥ v ≠ 0 := fun h0 => h (dotProduct_self_eq_zero.mp h0)
  have hnonneg : 0 ≤ v ⬝ᵥ v := Finset.sum_nonneg fun i _ => mul_self_nonneg (v i)
  exact lt_of_le_of_ne hnonneg hne.symm

theorem normalize_of_ne_zero {v : n → ℝ} (h : v ≠ 0) : normalize v = (√(v ⬝ᵥ v))⁻¹ • v := by
  refine (if_pos (dotProduct_self_pos h)).trans ?_
  funext i
  exact div_eq_inv_mul (v i) (√(v ⬝ᵥ v))

/-- What is not zero has length 1 afterwards. -/
theorem normalize_dotProduct_self {v : n → ℝ} (h : v ≠ 0) : normalize v ⬝ᵥ normalize v = 1 := by
  have hpos := dotProduct_self_pos h
  have hsqrt : √(v ⬝ᵥ v) ≠ 0 := (Real.sqrt_pos.mpr hpos).ne'
  rw [normalize_of_ne_zero h, smul_dotProduct, dotProduct_smul, smul_eq_mul, smul_eq_mul,
    ← mul_assoc]
  nth_rewrite 3 [← Real.mul_self_sqrt hpos.le]
  field_simp

/-- What has length 1 stays as it is. -/
theorem normalize_of_unit {v : n → ℝ} (h : v ⬝ᵥ v = 1) : normalize v = v := by
  have hne : v ≠ 0 := by
    rintro rfl
    simp at h
  rw [normalize_of_ne_zero hne, h, Real.sqrt_one]
  simp

theorem normalizeQuaternion_of_unit {q : ℍ[ℝ]} (h : Quaternion.normSq q = 1) :
    normalizeQuaternion q = q := by
  have hcoeffs : ![q.imI, q.imJ, q.imK, q.re] ⬝ᵥ ![q.imI, q.imJ, q.imK, q.re] = 1 := by
    rw [Quaternion.normSq_def'] at h
    simp only [dotProduct, Fin.sum_univ_four]
    show q.imI * q.imI + q.imJ * q.imJ + q.imK * q.imK + q.re * q.re = 1
    linarith
  unfold normalizeQuaternion
  rw [normalize_of_unit hcoeffs]
  rfl

end

/-! ## Isometries -/

/-- `Eigen::Isometry3d`. -/
@[ext] structure Isometry3d (K : Type) where
  linear : Matrix (Fin 3) (Fin 3) K
  translation : Fin 3 → K

variable [Field K]

instance : Mul (Isometry3d K) :=
  ⟨fun a b => ⟨a.linear * b.linear, a.linear *ᵥ b.translation + a.translation⟩⟩

/-- `Eigen::Isometry3d::Identity()`. -/
instance : One (Isometry3d K) := ⟨⟨1, 0⟩⟩

@[simp] theorem Isometry3d.mul_linear (a b : Isometry3d K) :
    (a * b).linear = a.linear * b.linear := rfl

@[simp] theorem Isometry3d.mul_translation (a b : Isometry3d K) :
    (a * b).translation = a.linear *ᵥ b.translation + a.translation := rfl

@[simp] theorem Isometry3d.one_linear : (1 : Isometry3d K).linear = 1 := rfl

@[simp] theorem Isometry3d.one_translation : (1 : Isometry3d K).translation = 0 := rfl

instance : Monoid (Isometry3d K) where
  mul_assoc a b c := by
    ext1
    · exact Matrix.mul_assoc a.linear b.linear c.linear
    · simp [Matrix.mulVec_add, add_assoc]
  one_mul a := by ext1 <;> simp
  mul_one a := by ext1 <;> simp

/-! ## Rotations about an axis -/

/-- `Eigen::AngleAxisd(angle, axis)` as a matrix. -/
def angleAxis [Elementary K] (angle : K) (axis : Fin 3 → K) : Matrix (Fin 3) (Fin 3) K :=
  let c := Elementary.cos angle
  let sinAxis := fun i => Elementary.sin angle * axis i
  let cos1Axis := fun i => (1 - c) * axis i
  !![cos1Axis 0 * axis 0 + c, cos1Axis 0 * axis 1 - sinAxis 2, cos1Axis 0 * axis 2 + sinAxis 1;
    cos1Axis 0 * axis 1 + sinAxis 2, cos1Axis 1 * axis 1 + c, cos1Axis 1 * axis 2 - sinAxis 0;
    cos1Axis 0 * axis 2 - sinAxis 1, cos1Axis 1 * axis 2 + sinAxis 0, cos1Axis 2 * axis 2 + c]

/-- `c` and `s` are a cosine and a sine of half the angle. -/
structure HalfAngle [Elementary K] (angle c s : K) : Prop where
  norm : c * c + s * s = 1
  cos : Elementary.cos angle = c * c - s * s
  sin : Elementary.sin angle = 2 * c * s

/-- The quaternion with the cosine as its real part and the sine on the axis. -/
def halfAngleQuaternion (c s : K) (axis : Fin 3 → K) : ℍ[K] :=
  ⟨c, s * axis 0, s * axis 1, s * axis 2⟩

theorem halfAngle (angle : ℝ) :
    HalfAngle angle (Real.cos (angle / 2)) (Real.sin (angle / 2)) where
  norm := by
    rw [← sq, ← sq]
    exact Real.cos_sq_add_sin_sq (angle / 2)
  cos := by
    have h := Real.cos_two_mul' (angle / 2)
    rw [mul_div_cancel₀ angle two_ne_zero] at h
    linear_combination h
  sin := by
    have h := Real.sin_two_mul (angle / 2)
    rw [mul_div_cancel₀ angle two_ne_zero] at h
    linear_combination h

section

variable [Elementary K] {angle c s : K} {axis : Fin 3 → K} (h : HalfAngle angle c s)
  (haxis : axis ⬝ᵥ axis = 1)

include haxis

omit [Elementary K] in
theorem normSq_halfAngle (hcs : c * c + s * s = 1) :
    Quaternion.normSq (halfAngleQuaternion c s axis) = 1 := by
  rw [dotProduct, Fin.sum_univ_three] at haxis
  refine (Quaternion.normSq_def' _).trans ?_
  show c ^ 2 + (s * axis 0) ^ 2 + (s * axis 1) ^ 2 + (s * axis 2) ^ 2 = 1
  linear_combination hcs + s ^ 2 * haxis

include h

/-- **The matrix of an angle about a unit axis is that of the quaternion of the half angle.** -/
theorem angleAxis_eq :
    angleAxis angle axis = toRotationMatrix (halfAngleQuaternion c s axis) := by
  obtain ⟨hcs, hcos, hsin⟩ := h
  rw [dotProduct, Fin.sum_univ_three] at haxis
  ext i j
  unfold angleAxis toRotationMatrix halfAngleQuaternion
  rw [hcos, hsin]
  fin_cases i <;> fin_cases j <;> simp
  · linear_combination (1 - axis 0 ^ 2) * hcs + 2 * s ^ 2 * haxis
  · linear_combination (-axis 0 * axis 1) * hcs
  · linear_combination (-axis 0 * axis 2) * hcs
  · linear_combination (-axis 0 * axis 1) * hcs
  · linear_combination (1 - axis 1 ^ 2) * hcs + 2 * s ^ 2 * haxis
  · linear_combination (-axis 1 * axis 2) * hcs
  · linear_combination (-axis 0 * axis 2) * hcs
  · linear_combination (-axis 1 * axis 2) * hcs
  · linear_combination (1 - axis 2 ^ 2) * hcs + 2 * s ^ 2 * haxis

end

/-- `Eigen::Quaterniond(q.w, q.x, q.y, q.z)`. -/
def Quaternion.toEigen (q : Quaternion K) : ℍ[K] := ⟨q.w, q.x, q.y, q.z⟩

def Quaternion.ofEigen (q : ℍ[K]) : Quaternion K := ⟨q.imI, q.imJ, q.imK, q.re⟩

@[simp] theorem Quaternion.toEigen_ofEigen (q : ℍ[K]) : (Quaternion.ofEigen q).toEigen = q := rfl

/-- `tf2::transformToEigen`. -/
def transformToEigen (t : TransformStamped K) : Isometry3d K where
  linear := toRotationMatrix t.transform.rotation.toEigen
  translation := t.transform.translation.toEigen

/-- `tf2::eigenToTransform`. -/
def eigenToTransform [LinearOrder K] [Elementary K] (T : Isometry3d K) : TransformStamped K where
  header := Header.empty
  childFrameId := []
  transform :=
    { translation := Vector3.ofEigen T.translation
      rotation := Quaternion.ofEigen (toQuaternion Elementary.sqrt T.linear) }

/-! ## Unit quaternions and rotations -/

/-- The quaternion of a message has norm 1. -/
def Quaternion.IsUnit (q : Quaternion K) : Prop :=
  q.x ^ 2 + q.y ^ 2 + q.z ^ 2 + q.w ^ 2 = 1

theorem Quaternion.isUnit_iff (q : Quaternion K) :
    q.IsUnit ↔ Quaternion.normSq q.toEigen = 1 := by
  have hnorm : q.x ^ 2 + q.y ^ 2 + q.z ^ 2 + q.w ^ 2 = Quaternion.normSq q.toEigen := by
    rw [Quaternion.normSq_def', Quaternion.toEigen]
    ring
  rw [Quaternion.IsUnit, hnorm]

theorem transformToEigen_mem {t : TransformStamped ℝ} (h : t.transform.rotation.IsUnit) :
    (transformToEigen t).linear ∈ Matrix.specialOrthogonalGroup (Fin 3) ℝ :=
  toRotationMatrix_mem ((Quaternion.isUnit_iff _).mp h)

theorem angleAxis_mem (angle : ℝ) {axis : Fin 3 → ℝ} (haxis : axis ⬝ᵥ axis = 1) :
    angleAxis angle axis ∈ Matrix.specialOrthogonalGroup (Fin 3) ℝ := by
  rw [angleAxis_eq (halfAngle angle) haxis]
  exact toRotationMatrix_mem (normSq_halfAngle haxis (halfAngle angle).norm)

section

variable {T : Isometry3d ℝ} (h : T.linear ∈ Matrix.specialOrthogonalGroup (Fin 3) ℝ)

include h

/-- A rotation is what its message converts back to. -/
theorem eigenToTransform_rotation :
    toRotationMatrix (eigenToTransform T).transform.rotation.toEigen = T.linear :=
  toRotationMatrix_toQuaternion sqrt_mul_self h

theorem eigenToTransform_isUnit : (eigenToTransform T).transform.rotation.IsUnit :=
  (Quaternion.isUnit_iff _).mpr (normSq_toQuaternion sqrt_mul_self h)

/-- **Round trip.**  A message with the transform of an isometry converts back to it. -/
theorem transformToEigen_eigenToTransform {t : TransformStamped ℝ}
    (ht : t.transform = (eigenToTransform T).transform) : transformToEigen t = T := by
  unfold transformToEigen
  rw [ht, eigenToTransform_rotation h]
  ext1
  · rfl
  · exact Vector3.toEigen_ofEigen T.translation

end

end DrtBehavior

end
