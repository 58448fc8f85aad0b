import DrtBehavior.Geometry.Eigen

/-!
# ApplyTransform

`ApplyTransform` of `geometry_behavior` multiplies a stamped transform from the right by a
translation and a rotation given as vectors of three and of three or four numbers.

* `rotation` — the two forms of the rotation, told apart by the length of the vector.
* `resultingTransform`, `tick` — the product, converted back with the frames of the input.
* `tick_cases` — the outcome for every outcome of the reads.
* `rigid_iff` — the rotation vectors for which the result is a rigid transform.
-/

set_option autoImplicit false

section

open scoped Quaternion Matrix

namespace DrtBehavior

open Rotation

namespace ApplyTransform

variable {K J : Type} [Field K] [LinearOrder K] [Elementary K]

/-- What the reads of `tick` give; `none` is a failed read. -/
structure Ports (K : Type) where
  inputTransform : Option (TransformStamped K)
  appliedTransformTranslation : Option (List K)
  appliedTransformRotation : Option (List K)

/-- The defaults of `providedPorts`. -/
def defaults : List (StdString × Value K J) :=
  [(bytes "applied_transform_translation", .doubles [0, 0, 0]),
    (bytes "applied_transform_rotation", .doubles [0, 0, 0, 1])]

def readPorts (c : Conversions K) (xml : NodeXml) (blackboard : Blackboard K J) : Ports K where
  inputTransform :=
    getInput Value.asTransformStamped defaults xml (bytes "input_transform") blackboard
  appliedTransformTranslation :=
    getInput (Value.asDoubles c) defaults xml (bytes "applied_transform_translation") blackboard
  appliedTransformRotation :=
    getInput (Value.asDoubles c) defaults xml (bytes "applied_transform_rotation") blackboard

def readInput {T : Type} (port : StdString) (input : Option T) : Except Fault T :=
  required (bytes "Could not access blackboard input [" ++ port ++ bytes "]") input

def wrongSize (port : StdString) : Fault :=
  .runtimeError (port ++ bytes " blackboard input is not of the right size")

/-- `rotation`, from a quaternion or from roll, pitch and yaw. -/
def rotation (applied : List K) : Except Fault (Matrix (Fin 3) (Fin 3) K) :=
  if applied.length = 4 then do
    let w ← element applied 3
    let x ← element applied 0
    let y ← element applied 1
    let z ← element applied 2
    return toRotationMatrix ⟨w, x, y, z⟩
  else if applied.length = 3 then do
    let yaw ← element applied 2
    let pitch ← element applied 1
    let roll ← element applied 0
    -- Eigen multiplies the quaternions of the half angles, with the same matrix: `rotation_rpy_eq`
    return angleAxis yaw ![0, 0, 1] * angleAxis pitch ![0, 1, 0] * angleAxis roll ![1, 0, 0]
  else throw (wrongSize (bytes "applied_transform_rotation"))

/-- `applied_transform`. -/
def appliedTransform (translation applied : List K) : Except Fault (Isometry3d K) := do
  if translation.length ≠ 3 then
    throw (wrongSize (bytes "applied_transform_translation"))
  let x ← element translation 0
  let y ← element translation 1
  let z ← element translation 2
  let rotation ← rotation applied
  return ⟨rotation, ![x, y, z]⟩

/-- `t_stamped` and `resulting_transform`. -/
def resultingTransform (ports : Ports K) : Except Fault (TransformStamped K × Isometry3d K) := do
  let tStamped ← readInput (bytes "input_transform") ports.inputTransform
  let translation ←
    readInput (bytes "applied_transform_translation") ports.appliedTransformTranslation
  let applied ← readInput (bytes "applied_transform_rotation") ports.appliedTransformRotation
  let appliedTransform ← appliedTransform translation applied
  return (tStamped, transformToEigen tStamped * appliedTransform)

/-- `res`. -/
def res (tStamped : TransformStamped K) (resultingTransform : Isometry3d K) : TransformStamped K :=
  { eigenToTransform resultingTransform with
    header := tStamped.header
    childFrameId := tStamped.childFrameId }

/-- `tick`: the status and the value set on port `resulting_transform`. -/
def tick (ports : Ports K) : Except Fault (NodeStatus × TransformStamped K) := do
  let (tStamped, resultingTransform) ← resultingTransform ports
  return (.success, res tStamped resultingTransform)

/-! ## What a tick can do -/

omit [LinearOrder K] in
theorem rotation_quaternion (x y z w : K) :
    rotation [x, y, z, w] = .ok (toRotationMatrix ⟨w, x, y, z⟩) := rfl

omit [LinearOrder K] in
theorem rotation_rpy (roll pitch yaw : K) :
    rotation [roll, pitch, yaw] =
      .ok (angleAxis yaw ![0, 0, 1] * angleAxis pitch ![0, 1, 0] * angleAxis roll ![1, 0, 0]) := rfl

omit [LinearOrder K] in
theorem rotation_cases (applied : List K) :
    (∃ x y z w, applied = [x, y, z, w]) ∨ (∃ roll pitch yaw, applied = [roll, pitch, yaw]) ∨
      (applied.length ≠ 3 ∧ applied.length ≠ 4 ∧
        rotation applied = .error (wrongSize (bytes "applied_transform_rotation"))) := by
  rcases eq_or_ne applied.length 4 with h4 | h4
  · obtain ⟨x, y, z, w, rfl⟩ := List.length_eq_four.mp h4
    exact .inl ⟨x, y, z, w, rfl⟩
  · rcases eq_or_ne applied.length 3 with h3 | h3
    · obtain ⟨roll, pitch, yaw, rfl⟩ := List.length_eq_three.mp h3
      exact .inr (.inl ⟨roll, pitch, yaw, rfl⟩)
    · refine .inr (.inr ⟨h3, h4, ?_⟩)
      unfold rotation
      rw [if_neg h4, if_neg h3]
      rfl

/-- The lengths that are accepted. -/
def RightSizes (translation applied : List K) : Prop :=
  translation.length = 3 ∧ (applied.length = 3 ∨ applied.length = 4)

omit [LinearOrder K] in
theorem appliedTransform_of_rotation (t : Fin 3 → K) {applied : List K}
    {R : Matrix (Fin 3) (Fin 3) K} (h : rotation applied = .ok R) :
    appliedTransform (coefficients t) applied = .ok ⟨R, t⟩ := by
  unfold appliedTransform
  rw [h]
  exact congrArg (fun v => Except.ok (⟨R, v⟩ : Isometry3d K)) (coefficients_eta t)

omit [LinearOrder K] in
theorem appliedTransform_cases (translation applied : List K) :
    (¬ RightSizes translation applied ∧
      ∃ port, appliedTransform translation applied = .error (wrongSize port)) ∨
    (RightSizes translation applied ∧ ∃ t R, translation = coefficients t ∧
      rotation applied = .ok R) := by
  rcases eq_or_ne translation.length 3 with h3 | h3
  · obtain ⟨x, y, z, rfl⟩ := List.length_eq_three.mp h3
    rcases rotation_cases applied with ⟨x', y', z', w, rfl⟩ | ⟨roll, pitch, yaw, rfl⟩ |
      ⟨hne3, hne4, hsize⟩
    · exact .inr ⟨⟨h3, .inr rfl⟩, ![x, y, z], _, rfl, rotation_quaternion x' y' z' w⟩
    · exact .inr ⟨⟨h3, .inl rfl⟩, ![x, y, z], _, rfl, rotation_rpy roll pitch yaw⟩
    · refine .inl ⟨fun h => h.2.elim hne3 hne4, bytes "applied_transform_rotation", ?_⟩
      unfold appliedTransform
      rw [hsize]
      rfl
  · refine .inl ⟨fun h => h3 h.1, bytes "applied_transform_translation", ?_⟩
    unfold appliedTransform
    rw [if_pos h3]
    rfl

theorem tick_of_rotation (tStamped : TransformStamped K) (t : Fin 3 → K) {applied : List K}
    {R : Matrix (Fin 3) (Fin 3) K} (h : rotation applied = .ok R) :
    resultingTransform ⟨some tStamped, some (coefficients t), some applied⟩ =
        .ok (tStamped, transformToEigen tStamped * ⟨R, t⟩) ∧
      tick ⟨some tStamped, some (coefficients t), some applied⟩ =
        .ok (.success, res tStamped (transformToEigen tStamped * ⟨R, t⟩)) := by
  have happlied := appliedTransform_of_rotation t h
  unfold tick resultingTransform
  simp [readInput, required, happlied, bind, Except.bind, pure, Except.pure]

/-- Every port is read, the vectors with lengths that are accepted. -/
def Accepted (ports : Ports K) : Prop :=
  ports.inputTransform.isSome ∧ ∃ translation ∈ ports.appliedTransformTranslation,
    ∃ applied ∈ ports.appliedTransformRotation, RightSizes translation applied

/-- **Everything `tick` can do**, for every outcome of the reads: throw for a missing port or for a
    vector of the wrong size, or multiply. -/
theorem tick_cases (ports : Ports K) :
    (¬ Accepted ports ∧ ∃ what, tick ports = .error (.runtimeError what)) ∨
    (Accepted ports ∧ ∃ tStamped t applied R,
      ports = ⟨some tStamped, some (coefficients t), some applied⟩ ∧ rotation applied = .ok R ∧
      resultingTransform ports = .ok (tStamped, transformToEigen tStamped * ⟨R, t⟩) ∧
      tick ports = .ok (.success, res tStamped (transformToEigen tStamped * ⟨R, t⟩))) := by
  unfold Accepted
  obtain ⟨_ | tStamped, _ | translation, _ | applied⟩ := ports
  case some.some.some =>
    rcases appliedTransform_cases translation applied with
      ⟨hsizes, port, hthrow⟩ | ⟨hsizes, t, R, rfl, hR⟩
    · refine .inl ⟨by simpa using hsizes,
        port ++ bytes " blackboard input is not of the right size", ?_⟩
      simp [tick, resultingTransform, readInput, required, hthrow, wrongSize, bind, Except.bind]
    · exact .inr ⟨by simpa using hsizes, tStamped, t, applied, R, rfl, hR,
        tick_of_rotation tStamped t hR⟩
  all_goals exact .inl ⟨by simp, _, rfl⟩

/-! ## Rigid transforms -/

/-- A quaternion in the vector has norm 1 or no vector part. -/
def RotationGiven (applied : List ℝ) : Prop :=
  ∀ x y z w, applied = [x, y, z, w] →
    Quaternion.IsUnit ⟨x, y, z, w⟩ ∨ (x = 0 ∧ y = 0 ∧ z = 0)

/-- If the tick succeeds, `resulting_transform` has a proper rotation as its linear part and the
    quaternion of the output has norm 1. -/
def YieldsRigid (ports : Ports ℝ) : Prop :=
  ∀ output, tick ports = .ok (.success, output) →
    output.transform.rotation.IsUnit ∧
      ∀ tStamped T, resultingTransform ports = .ok (tStamped, T) →
        T.linear ∈ Matrix.specialOrthogonalGroup (Fin 3) ℝ

theorem rotation_mem_iff {applied : List ℝ} {R : Matrix (Fin 3) (Fin 3) ℝ}
    (h : rotation applied = .ok R) :
    R ∈ Matrix.specialOrthogonalGroup (Fin 3) ℝ ↔ RotationGiven applied := by
  rcases rotation_cases applied with ⟨x, y, z, w, rfl⟩ | ⟨roll, pitch, yaw, rfl⟩ | ⟨_, _, hsize⟩
  · obtain rfl := Except.ok.inj h
    refine (toRotationMatrix_mem_iff _).trans ?_
    constructor
    · rintro hq x' y' z' w' hvec
      obtain ⟨rfl, rfl, rfl, rfl⟩ : x = x' ∧ y = y' ∧ z = z' ∧ w = w' := by simpa using hvec
      exact hq.imp_left (Quaternion.isUnit_iff _).mpr
    · exact fun hq => (hq x y z w rfl).imp_left (Quaternion.isUnit_iff _).mp
  · obtain rfl := Except.ok.inj h
    refine iff_of_true ?_ (fun x y z w hvec => ?_)
    · refine mul_mem (mul_mem ?_ ?_) ?_ <;> exact angleAxis_mem _ (by simp)
    · simp at hvec
  · rw [hsize] at h
    cases h

/-- The result is rigid when the applied rotation is one. -/
theorem yieldsRigid_iff {tStamped : TransformStamped ℝ} (hunit : tStamped.transform.rotation.IsUnit)
    {translation : List ℝ} (h3 : translation.length = 3) (applied : List ℝ) :
    YieldsRigid ⟨some tStamped, some translation, some applied⟩ ↔ RotationGiven applied := by
  rcases tick_cases ⟨some tStamped, some translation, some applied⟩ with
    ⟨hsizes, what, hthrow⟩ | ⟨_, tStamped', t, applied', R, hports, hR, hresult, htick⟩
  · have h4 : applied.length ≠ 4 := fun h4 =>
      hsizes ⟨rfl, translation, rfl, applied, rfl, h3, .inr h4⟩
    refine iff_of_true (fun output houtput => ?_) (fun x y z w hvec => ?_)
    · rw [hthrow] at houtput
      cases houtput
    · rw [hvec] at h4
      exact absurd rfl h4
  · obtain ⟨rfl, rfl, rfl⟩ : tStamped = tStamped' ∧ translation = coefficients t ∧
        applied = applied' := by simpa using hports
    rw [← rotation_mem_iff hR, ← mul_mem_rotation_iff (transformToEigen_mem hunit)]
    constructor
    · exact fun h => (h _ htick).2 _ _ hresult
    · intro hmem output houtput
      rw [htick] at houtput
      cases houtput
      refine ⟨eigenToTransform_isUnit hmem, fun _ T hT => ?_⟩
      rw [hresult] at hT
      cases hT
      exact hmem

/-- **Exactly when the result is a rigid transform.**  For an input with a unit quaternion, every
    translation of length 3 and every rotation vector: if the tick succeeds, the linear part of
    `resulting_transform` is a proper rotation and the quaternion of the output has norm 1, if and
    only if a rotation vector of length 4 has norm 1 or no vector part. -/
theorem rigid_iff (tStamped : TransformStamped ℝ) (translation applied : List ℝ)
    (hunit : tStamped.transform.rotation.IsUnit) (h3 : translation.length = 3) :
    YieldsRigid ⟨some tStamped, some translation, some applied⟩ ↔ RotationGiven applied :=
  yieldsRigid_iff hunit h3 applied

/-- Roll, pitch and yaw are always rigid. -/
theorem rigid_iff_of_rpy :
    YieldsRigid ⟨some ⟨Header.empty, [], ⟨⟨1, 2, 3⟩, Quaternion.identity⟩⟩, some [4, 5, 6],
      some [1, 2, 3]⟩ :=
  (rigid_iff _ [4, 5, 6] [1, 2, 3] (by norm_num [Quaternion.IsUnit, Quaternion.identity]) rfl).mpr
    (fun _ _ _ _ h => by simp at h)

/-- A quarter turn written with two digits scales the plane of the rotation. -/
theorem quarter_turn_not_rigid :
    let tStamped : TransformStamped ℝ := ⟨Header.empty, [], ⟨⟨0, 0, 0⟩, Quaternion.identity⟩⟩
    let ports : Ports ℝ := ⟨some tStamped, some [0, 0, 0], some [0, 0, 7 / 10, 7 / 10]⟩
    tStamped.transform.rotation.IsUnit ∧
      (∃ T, resultingTransform ports = .ok (tStamped, T) ∧
        T.linear = !![1 / 50, -49 / 50, 0; 49 / 50, 1 / 50, 0; 0, 0, 1]) ∧
      ¬ YieldsRigid ports := by
  intro tStamped ports
  have hunit : tStamped.transform.rotation.IsUnit := by
    norm_num [tStamped, Quaternion.IsUnit, Quaternion.identity]
  refine ⟨hunit, ⟨_, rfl, ?_⟩, fun h => ?_⟩
  · show toRotationMatrix 1 * toRotationMatrix ⟨7 / 10, 0, 0, 7 / 10⟩ = _
    rw [toRotationMatrix_one, one_mul]
    ext i j
    fin_cases i <;> fin_cases j <;> norm_num [toRotationMatrix]
  · rcases (yieldsRigid_iff hunit rfl _).mp h 0 0 (7 / 10) (7 / 10) rfl with hnorm | ⟨_, _, hz⟩
    · norm_num [Quaternion.IsUnit] at hnorm
    · norm_num at hz

end ApplyTransform

end DrtBehavior

end
