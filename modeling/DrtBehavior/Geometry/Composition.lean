import DrtBehavior.Geometry.ApplyTransform

/-!
# Successive applied transforms

What `ApplyTransform` computes does not depend on how a motion is written down or split up.

* `Applied` — a translation and a unit quaternion; they form a monoid that acts from the right:
  `Applied.isometry_mul`, `tick_ports`.
* `successive_applications_compose`, `chain_eq_prod` — two nodes, and a chain of nodes, do what one
  node does with the product; the declared defaults are the neutral element.
* `rpy_eq_quaternion` — the two forms of the rotation vector agree.
-/

set_option autoImplicit false

section

open scoped Quaternion Matrix

namespace DrtBehavior

open Rotation

namespace ApplyTransform

variable {K J : Type}

/-! ## Vectors of a translation and a quaternion -/

/-- In the order x, y, z, w. -/
def rotationVector [Field K] (q : ℍ[K]) : List K := [q.imI, q.imJ, q.imK, q.re]

variable [Field K] [LinearOrder K] [Elementary K]

omit [LinearOrder K] in
theorem rotation_rotationVector (q : ℍ[K]) :
    rotation (rotationVector q) = .ok (toRotationMatrix q) := rfl

omit [LinearOrder K] [Elementary K] in
/-- The ports that the XML does not bind hold no translation and no rotation. -/
theorem readPorts_defaults (c : Conversions K) {xml : NodeXml} (blackboard : Blackboard K J)
    (htranslation : xml.lookup (bytes "applied_transform_translation") = none)
    (hrotation : xml.lookup (bytes "applied_transform_rotation") = none) :
    (readPorts c xml blackboard).appliedTransformTranslation = some (coefficients 0) ∧
      (readPorts c xml blackboard).appliedTransformRotation = some (rotationVector 1) := by
  unfold readPorts getInput
  rw [htranslation, hrotation]
  exact ⟨rfl, rfl⟩

/-! ## The monoid of applied transforms -/

/-- A translation and a rotation given as a unit quaternion. -/
@[ext] structure Applied (K : Type) [Field K] where
  translation : Fin 3 → K
  rotation : ℍ[K]
  unit : Quaternion.normSq rotation = 1

namespace Applied

omit [LinearOrder K] [Elementary K]

/-- The isometry that `tick` multiplies with. -/
def isometry (A : Applied K) : Isometry3d K := ⟨toRotationMatrix A.rotation, A.translation⟩

def ports (A : Applied K) (tStamped : TransformStamped K) : Ports K :=
  ⟨some tStamped, some (coefficients A.translation), some (rotationVector A.rotation)⟩

instance : Mul (Applied K) :=
  ⟨fun A B =>
    { translation := A.translation + toRotationMatrix A.rotation *ᵥ B.translation
      rotation := A.rotation * B.rotation
      unit := by rw [map_mul, A.unit, B.unit, one_mul] }⟩

instance : One (Applied K) := ⟨⟨0, 1, map_one _⟩⟩

theorem isometry_mul (A B : Applied K) : (A * B).isometry = A.isometry * B.isometry := by
  ext1
  · exact toRotationMatrix_mul A.unit B.unit
  · exact add_comm _ _

theorem isometry_one : (1 : Applied K).isometry = 1 := by
  ext1
  · exact toRotationMatrix_one
  · rfl

theorem isometry_mem (A : Applied K) :
    A.isometry.linear ∈ Matrix.specialOrthogonalGroup (Fin 3) K :=
  toRotationMatrix_mem A.unit

instance : Monoid (Applied K) where
  mul_assoc A B C := by
    have h := congrArg Isometry3d.translation
      (mul_assoc A.isometry B.isometry C.isometry)
    rw [← isometry_mul, ← isometry_mul, ← isometry_mul, ← isometry_mul] at h
    ext1
    · exact h
    · exact mul_assoc A.rotation B.rotation C.rotation
  one_mul A := by
    have h := congrArg Isometry3d.translation (one_mul A.isometry)
    rw [← isometry_one, ← isometry_mul] at h
    ext1
    · exact h
    · exact one_mul A.rotation
  mul_one A := by
    have h := congrArg Isometry3d.translation (mul_one A.isometry)
    rw [← isometry_one, ← isometry_mul] at h
    ext1
    · exact h
    · exact mul_one A.rotation

end Applied

theorem tick_ports (A : Applied K) (tStamped : TransformStamped K) :
    tick (A.ports tStamped) =
      .ok (.success, res tStamped (transformToEigen tStamped * A.isometry)) :=
  (tick_of_rotation tStamped A.translation (rotation_rotationVector A.rotation)).2

/-- The output converts back to the isometry it was made from. -/
theorem transformToEigen_res (tStamped : TransformStamped ℝ) {T : Isometry3d ℝ}
    (h : T.linear ∈ Matrix.specialOrthogonalGroup (Fin 3) ℝ) :
    transformToEigen (res tStamped T) = T :=
  transformToEigen_eigenToTransform h rfl

theorem res_mul_mem {tStamped : TransformStamped ℝ} (hunit : tStamped.transform.rotation.IsUnit)
    (A : Applied ℝ) :
    (transformToEigen tStamped * A.isometry).linear ∈ Matrix.specialOrthogonalGroup (Fin 3) ℝ :=
  mul_mem (transformToEigen_mem hunit) A.isometry_mem

/-- Two nodes in a row do what one node does with the product. -/
theorem tick_tick {tStamped : TransformStamped ℝ} (hunit : tStamped.transform.rotation.IsUnit)
    (A B : Applied ℝ) :
    ∃ mid, tick (A.ports tStamped) = .ok (.success, mid) ∧ mid.transform.rotation.IsUnit ∧
      tick (B.ports mid) = tick ((A * B).ports tStamped) := by
  have hmem := res_mul_mem hunit A
  refine ⟨_, tick_ports A tStamped, eigenToTransform_isUnit hmem, ?_⟩
  rw [tick_ports B, tick_ports (A * B), transformToEigen_res tStamped hmem, A.isometry_mul,
    mul_assoc]
  rfl

/-- Ticking with the defaults keeps translation and rotation. -/
theorem tick_one (tStamped : TransformStamped K) :
    tick (Applied.ports 1 tStamped) =
      .ok (.success, res tStamped (transformToEigen tStamped)) := by
  rw [tick_ports, Applied.isometry_one, mul_one]

/-- The nodes of a chain tick one after the other, each on the output of the one before. -/
def chain : List (Applied K) → TransformStamped K → Except Fault (TransformStamped K)
  | [], tStamped => .ok tStamped
  | A :: rest, tStamped => do
    let (_, output) ← tick (A.ports tStamped)
    chain rest output

/-- **A chain of nodes does what one node does with the product.** -/
theorem chain_eq_prod {tStamped : TransformStamped ℝ}
    (hunit : tStamped.transform.rotation.IsUnit) (A : Applied ℝ) (rest : List (Applied ℝ)) :
    chain (A :: rest) tStamped = chain [(A :: rest).prod] tStamped := by
  induction rest generalizing A tStamped with
  | nil => rw [List.prod_singleton]
  | cons B rest ih =>
    obtain ⟨mid, hA, hmid, hB⟩ := tick_tick hunit A (B :: rest).prod
    calc chain (A :: B :: rest) tStamped = chain (B :: rest) mid := by
          rw [chain, hA]
          rfl
      _ = chain [(B :: rest).prod] mid := ih hmid B
      _ = chain [(A :: B :: rest).prod] tStamped := by
          rw [chain, chain, hB, ← List.prod_cons]

/-- **Successive applied transforms compose.**  On an input with a unit quaternion, ticking with
    `A` and then with `B` on the output gives the same message as ticking once with the translation
    `tA + R(qA) tB` and the quaternion `qA qB`.  The declared defaults are the neutral element: on
    their own they keep the frames, the translation and the rotation; before or after `A` they
    change nothing of its output. -/
theorem successive_applications_compose (J : Type) (tStamped : TransformStamped ℝ)
    (A B : Applied ℝ) (hunit : tStamped.transform.rotation.IsUnit) :
    (∃ mid output, tick (A.ports tStamped) = .ok (.success, mid) ∧
      tick (B.ports mid) = .ok (.success, output) ∧
      tick ⟨some tStamped,
          some (coefficients (A.translation + toRotationMatrix A.rotation *ᵥ B.translation)),
          some (rotationVector (A.rotation * B.rotation))⟩ = .ok (.success, output) ∧
      output.header = tStamped.header ∧ output.childFrameId = tStamped.childFrameId) ∧
    (∀ (c : Conversions ℝ) (xml : NodeXml) (blackboard : Blackboard ℝ J),
      xml.lookup (bytes "applied_transform_translation") = none →
      xml.lookup (bytes "applied_transform_rotation") = none →
      (readPorts c xml blackboard).appliedTransformTranslation = some (coefficients 0) ∧
      (readPorts c xml blackboard).appliedTransformRotation = some (rotationVector 1)) ∧
    (∃ same, tick (Applied.ports 1 tStamped) = .ok (.success, same) ∧
      same.header = tStamped.header ∧ same.childFrameId = tStamped.childFrameId ∧
      same.transform.translation = tStamped.transform.translation ∧
      toRotationMatrix same.transform.rotation.toEigen =
        toRotationMatrix tStamped.transform.rotation.toEigen ∧
      tick (A.ports same) = tick (A.ports tStamped)) ∧
    ∃ output, tick (A.ports tStamped) = .ok (.success, output) ∧
      tick (Applied.ports 1 output) = .ok (.success, output) := by
  refine ⟨?_, ?_, ?_, ?_⟩
  · obtain ⟨mid, hA, _, hB⟩ := tick_tick hunit A B
    have hAB := tick_ports (A * B) tStamped
    exact ⟨mid, _, hA, hB.trans hAB, hAB, rfl, rfl⟩
  · exact fun c xml blackboard ht hr => readPorts_defaults c blackboard ht hr
  · obtain ⟨same, hone, _, hA⟩ := tick_tick hunit 1 A
    rw [one_mul] at hA
    have hres := tick_one tStamped
    obtain rfl : same = res tStamped (transformToEigen tStamped) := by
      rw [hone] at hres
      simpa using hres
    refine ⟨_, hone, rfl, rfl, Vector3.ofEigen_toEigen _, ?_, hA⟩
    exact eigenToTransform_rotation (transformToEigen_mem hunit)
  · obtain ⟨output, hA, _, hone⟩ := tick_tick hunit A 1
    rw [mul_one, hA] at hone
    exact ⟨output, hA, hone⟩

/-- A half turn about z and then a half turn about x are a half turn about y; the second
    translation is turned by the first half turn. -/
theorem half_turns_compose :
    let tStamped : TransformStamped ℝ := ⟨Header.empty, [], ⟨⟨1, 2, 3⟩, Quaternion.identity⟩⟩
    ∃ A B : Applied ℝ, A.translation = ![1, 0, 0] ∧ A.rotation = ⟨0, 0, 0, 1⟩ ∧
      B.translation = ![0, 1, 0] ∧ B.rotation = ⟨0, 1, 0, 0⟩ ∧
      ∃ mid output, tick (A.ports tStamped) = .ok (.success, mid) ∧
        tick (B.ports mid) = .ok (.success, output) ∧ output.header = Header.empty ∧
        output.transform.translation = ⟨2, 1, 3⟩ ∧
        toRotationMatrix output.transform.rotation.toEigen = !![-1, 0, 0; 0, 1, 0; 0, 0, -1] := by
  intro tStamped
  have hz : Quaternion.normSq (⟨0, 0, 0, 1⟩ : ℍ[ℝ]) = 1 :=
    (Quaternion.isUnit_iff ⟨0, 0, 1, 0⟩).mp (by norm_num [Quaternion.IsUnit])
  have hx : Quaternion.normSq (⟨0, 1, 0, 0⟩ : ℍ[ℝ]) = 1 :=
    (Quaternion.isUnit_iff ⟨1, 0, 0, 0⟩).mp (by norm_num [Quaternion.IsUnit])
  have hunit : tStamped.transform.rotation.IsUnit := by
    norm_num [tStamped, Quaternion.IsUnit, Quaternion.identity]
  let A : Applied ℝ := ⟨![1, 0, 0], _, hz⟩
  let B : Applied ℝ := ⟨![0, 1, 0], _, hx⟩
  obtain ⟨mid, output, hA, hB, hAB, hheader, -⟩ :=
    (successive_applications_compose Nat tStamped A B hunit).1
  obtain rfl : res tStamped (transformToEigen tStamped * (A * B).isometry) = output := by
    simpa using (tick_ports (A * B) tStamped).symm.trans hAB
  -- the product of the three isometries, evaluated
  have hinput : transformToEigen tStamped = ⟨1, ![1, 2, 3]⟩ := by
    ext1
    · exact toRotationMatrix_one
    · rfl
  have hA' : A.isometry = ⟨!![-1, 0, 0; 0, -1, 0; 0, 0, 1], ![1, 0, 0]⟩ := by
    norm_num [A, Applied.isometry, toRotationMatrix]
  have hB' : B.isometry = ⟨!![1, 0, 0; 0, -1, 0; 0, 0, -1], ![0, 1, 0]⟩ := by
    norm_num [B, Applied.isometry, toRotationMatrix]
  have hprod : transformToEigen tStamped * (A * B).isometry =
      ⟨!![-1, 0, 0; 0, 1, 0; 0, 0, -1], ![2, 1, 3]⟩ := by
    rw [hinput, Applied.isometry_mul, hA', hB']
    ext1
    · simp
    · have hturned : (!![-1, 0, 0; 0, -1, 0; 0, 0, 1] : Matrix (Fin 3) (Fin 3) ℝ) *ᵥ ![0, 1, 0] =
          ![0, -1, 0] := by
        ext i
        fin_cases i <;> simp [Matrix.vecHead, Matrix.vecTail]
      simp only [Isometry3d.mul_translation, Matrix.one_mulVec, hturned]
      norm_num
  have hrot := eigenToTransform_rotation (res_mul_mem hunit (A * B))
  refine ⟨A, B, rfl, rfl, rfl, rfl, mid, _, hA, hB, hheader, ?_, hrot.trans ?_⟩
  · have ht := congrArg (fun T => Vector3.ofEigen T.translation) hprod
    simpa [res, eigenToTransform, Vector3.ofEigen] using ht
  · exact congrArg Isometry3d.linear hprod

/-! ## Roll, pitch and yaw -/

omit [LinearOrder K] in
theorem rotation_rpy_eq {roll pitch yaw cr sr cp sp cy sy : K} (hroll : HalfAngle roll cr sr)
    (hpitch : HalfAngle pitch cp sp) (hyaw : HalfAngle yaw cy sy) :
    rotation [roll, pitch, yaw] =
      rotation (rotationVector (halfAngleQuaternion cy sy ![0, 0, 1] *
        halfAngleQuaternion cp sp ![0, 1, 0] * halfAngleQuaternion cr sr ![1, 0, 0])) := by
  have hx : ![1, 0, 0] ⬝ᵥ ![(1 : K), 0, 0] = 1 := by simp
  have hy : ![0, 1, 0] ⬝ᵥ ![(0 : K), 1, 0] = 1 := by simp
  have hz : ![0, 0, 1] ⬝ᵥ ![(0 : K), 0, 1] = 1 := by simp
  have hqx := normSq_halfAngle hx hroll.norm
  have hqy := normSq_halfAngle hy hpitch.norm
  have hqz := normSq_halfAngle hz hyaw.norm
  have hqzy : Quaternion.normSq (halfAngleQuaternion cy sy ![0, 0, 1] *
      halfAngleQuaternion cp sp ![0, 1, 0]) = 1 := by rw [map_mul, hqz, hqy, one_mul]
  rw [rotation_rpy, rotation_rotationVector, toRotationMatrix_mul hqzy hqx,
    toRotationMatrix_mul hqz hqy, angleAxis_eq hyaw hz, angleAxis_eq hpitch hy,
    angleAxis_eq hroll hx]

/-- Only the rotation that the vector stands for matters. -/
theorem tick_congr (input : Option (TransformStamped K)) (translation : Option (List K))
    {applied applied' : List K} (h : rotation applied = rotation applied') :
    tick ⟨input, translation, some applied⟩ = tick ⟨input, translation, some applied'⟩ := by
  have happlied : ∀ t, appliedTransform t applied = appliedTransform t applied' := by
    intro t
    unfold appliedTransform
    rw [h]
  unfold tick resultingTransform readInput required
  simp only [happlied, bind, Except.bind]

/-- **The two forms of the rotation vector agree.**  For every input, every translation and all
    angles, roll, pitch and yaw give the same outcome as the quaternion
    `qz(yaw) qy(pitch) qx(roll)`, whichever cosine and sine of half of each angle it is made
    from. -/
theorem rpy_eq_quaternion (input : Option (TransformStamped K)) (translation : Option (List K))
    (roll pitch yaw cr sr cp sp cy sy : K) (hroll : HalfAngle roll cr sr)
    (hpitch : HalfAngle pitch cp sp) (hyaw : HalfAngle yaw cy sy) :
    tick ⟨input, translation, some [roll, pitch, yaw]⟩ =
      tick ⟨input, translation, some (rotationVector (halfAngleQuaternion cy sy ![0, 0, 1] *
        halfAngleQuaternion cp sp ![0, 1, 0] * halfAngleQuaternion cr sr ![1, 0, 0]))⟩ :=
  tick_congr input translation (rotation_rpy_eq hroll hpitch hyaw)

/-- A yaw of `π`, with the half angles of roll and pitch on either side of zero. -/
theorem half_turn_eq_quaternion :
    let tStamped : TransformStamped ℝ := ⟨Header.empty, [], ⟨⟨1, 2, 3⟩, Quaternion.identity⟩⟩
    tick ⟨some tStamped, some [4, 5, 6], some [0, 0, Real.pi]⟩ =
      tick ⟨some tStamped, some [4, 5, 6],
        some (rotationVector (halfAngleQuaternion 0 1 ![0, 0, 1] *
          halfAngleQuaternion (-1) 0 ![0, 1, 0] * halfAngleQuaternion 1 0 ![1, 0, 0]))⟩ :=
  rpy_eq_quaternion _ _ 0 0 Real.pi 1 0 (-1) 0 0 1
    ⟨by norm_num, by norm_num [Elementary.cos], by norm_num [Elementary.sin]⟩
    ⟨by norm_num, by norm_num [Elementary.cos], by norm_num [Elementary.sin]⟩
    ⟨by norm_num, by norm_num [Elementary.cos], by norm_num [Elementary.sin]⟩

end ApplyTransform

end DrtBehavior

end
