import DrtBehavior.Planning.PlanToPose

/-!
# PlanToJointState

`PlanToJointState` of `moveit_behavior` asks MoveIt's planning service for a trajectory to a joint
state.

* `Ports`, `setRequest` — the request and the member `target_js_`, from what the ports give.
* `setRequest_cases` — the outcome for every outcome of the reads.
-/

set_option autoImplicit false

namespace DrtBehavior

namespace PlanToJointState

variable {K J : Type} [Field K]

/-- What the reads of `setRequest` give; `none` is a failed read. -/
structure Ports (K : Type) where
  groupName : Option StdString
  jointNames : Option (List StdString)
  jointPositions : Option (List K)
  tolerance : Option K

/-- The default of `providedPorts`. -/
def defaults : List (StdString × Value K J) :=
  [(bytes "tolerance", .double (436332 / 10000000))]

/-- `jc`. -/
def jointConstraint (tolerance : K) (joint : StdString × K) : JointConstraint K where
  jointName := joint.1
  position := joint.2
  toleranceAbove := tolerance
  toleranceBelow := tolerance
  weight := 1

/-- `setRequest`: the member `target_js_` and the request.  `uninitialized` is the value of the
    local `tolerance` before its read, whose outcome nobody looks at. -/
def setRequest (uninitialized : K) (ports : Ports K) (request : MotionPlanRequest K) :
    Except Fault (JointState K × MotionPlanRequest K) := do
  let groupName ← PlanToPose.requiredInput (bytes "group_name") ports.groupName
  let jointNames ← PlanToPose.requiredInput (bytes "joint_names") ports.jointNames
  let jointPositions ← PlanToPose.requiredInput (bytes "joint_positions") ports.jointPositions
  let tolerance := ports.tolerance.getD uninitialized
  if jointNames.length ≠ jointPositions.length then
    throw (.runtimeError
      (bytes "Number of [joint_names] and [joint_positions] are not the same"))
  let joints := jointNames.zip jointPositions
  let constraints : Constraints K :=
    { jointConstraints := joints.map (jointConstraint tolerance)
      positionConstraints := []
      orientationConstraints := [] }
  return (⟨joints.map Prod.fst, joints.map Prod.snd⟩,
    { request with
      groupName := groupName
      goalConstraints := request.goalConstraints ++ [constraints] })

/-! ## What becomes of the port reads -/

/-- The reads whose failure is looked at give as many joint names as positions. -/
def JointsRead (ports : Ports K) : Prop :=
  ports.groupName.isSome ∧ ∃ names positions, ports.jointNames = some names ∧
    ports.jointPositions = some positions ∧ names.length = positions.length

/-- The tolerances above and below of the joint constraints. -/
def jointTolerances (request : MotionPlanRequest K) : List (K × K) :=
  request.goalConstraints.flatMap fun constraints =>
    constraints.jointConstraints.map fun joint => (joint.toleranceAbove, joint.toleranceBelow)

omit [Field K] in
theorem not_jointsRead_of_none {ports : Ports K}
    (h : ports.groupName = none ∨ ports.jointNames = none ∨ ports.jointPositions = none) :
    ¬ JointsRead ports := by
  rintro ⟨hgroup, names, positions, hnames, hpositions, _⟩
  rcases h with h | h | h
  · rw [h] at hgroup
    cases hgroup
  · rw [h] at hnames
    cases hnames
  · rw [h] at hpositions
    cases hpositions

/-- **Everything `setRequest` can do**, for every outcome of the reads: throw, or build a request
    in which every joint has the tolerance that was read or left in the local. -/
theorem setRequest_cases (uninitialized : K) (ports : Ports K) (request : MotionPlanRequest K) :
    (¬ JointsRead ports ∧
      ∃ what, setRequest uninitialized ports request = .error (.runtimeError what)) ∨
    (JointsRead ports ∧ ∃ names, ports.jointNames = some names ∧
      ∃ target built, setRequest uninitialized ports request = .ok (target, built) ∧
        jointTolerances built = jointTolerances request ++ List.replicate names.length
          (ports.tolerance.getD uninitialized, ports.tolerance.getD uninitialized)) := by
  unfold setRequest
  cases hgroup : ports.groupName with
  | none => exact .inl ⟨not_jointsRead_of_none (.inl hgroup), _, rfl⟩
  | some groupName =>
    cases hnames : ports.jointNames with
    | none => exact .inl ⟨not_jointsRead_of_none (.inr (.inl hnames)), _, rfl⟩
    | some names =>
      cases hpositions : ports.jointPositions with
      | none => exact .inl ⟨not_jointsRead_of_none (.inr (.inr hpositions)), _, rfl⟩
      | some positions =>
        simp only [PlanToPose.requiredInput, required, bind, Except.bind]
        by_cases hlen : names.length = positions.length
        · have hread : JointsRead ports :=
            ⟨by rw [hgroup]; rfl, names, positions, hnames, hpositions, hlen⟩
          refine .inr ⟨hread, names, rfl, _, _, if_neg (not_not_intro hlen), ?_⟩
          simp [jointTolerances, jointConstraint, Function.comp_def, hlen]
        · refine .inl ⟨?_, _, if_pos hlen⟩
          rintro ⟨_, names', positions', hnames', hpositions', hlen'⟩
          rw [hnames, Option.some.injEq] at hnames'
          rw [hpositions, Option.some.injEq] at hpositions'
          subst hnames' hpositions'
          exact hlen hlen'

end PlanToJointState

end DrtBehavior
