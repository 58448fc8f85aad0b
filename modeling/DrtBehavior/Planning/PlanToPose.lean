import Mathlib.Algebra.Order.Field.Basic
import DrtBehavior.Blackboard

/-!
# PlanToPose

`PlanToPose` of `moveit_behavior` asks MoveIt's planning service for a trajectory to a pose.

* `readPorts`, `setRequest` — the request, from what the ports give.
* `onResponseReceived`, `onFailure` — a trajectory is written only for a SUCCESS response.
* `setRequest_cases` — the outcome for every outcome of the reads.
* `AimsAt` — what it means for a request to plan to a pose; `setRequest_aimsAt`.
-/

set_option autoImplicit false

namespace DrtBehavior

namespace PlanToPose

variable {K J : Type} [Field K]

/-- What the reads of `setRequest` give; `none` is a failed read. -/
structure Ports (K : Type) where
  groupName : Option StdString
  endEffectorName : Option StdString
  goalPose : Option (PoseStamped K)
  positionTolerance : Option K
  orientationTolerance : Option (List K)
  velocityScaling : Option K
  accelerationScaling : Option K
  planner : Option StdString
  pipeline : Option StdString

/-- The defaults of `providedPorts`. -/
def defaults : List (StdString × Value K J) :=
  [(bytes "position_tolerance", .double (1 / 100)),
    (bytes "velocity_scaling", .double 1),
    (bytes "acceleration_scaling", .double 1),
    (bytes "planner", .string (bytes "RRTstarkConfigDefault")),
    (bytes "pipeline", .string (bytes "ompl"))]

def readPorts (c : Conversions K) (xml : NodeXml) (blackboard : Blackboard K J) : Ports K where
  groupName := getInput Value.asString defaults xml (bytes "group_name") blackboard
  endEffectorName := getInput Value.asString defaults xml (bytes "end_effector_name") blackboard
  goalPose := getInput Value.asPoseStamped defaults xml (bytes "goal_pose") blackboard
  positionTolerance :=
    getInput (Value.asDouble c) defaults xml (bytes "position_tolerance") blackboard
  orientationTolerance :=
    getInput (Value.asDoubles c) defaults xml (bytes "orientation_tolerance") blackboard
  velocityScaling := getInput (Value.asDouble c) defaults xml (bytes "velocity_scaling") blackboard
  accelerationScaling :=
    getInput (Value.asDouble c) defaults xml (bytes "acceleration_scaling") blackboard
  planner := getInput Value.asString defaults xml (bytes "planner") blackboard
  pipeline := getInput Value.asString defaults xml (bytes "pipeline") blackboard

/-- `wp`. -/
def workspaceParameters : WorkspaceParameters K where
  header := { Header.empty with frameId := bytes "world" }
  minCorner := ⟨-10, -10, -10⟩
  maxCorner := ⟨10, 10, 10⟩

/-- `pos_con`: a sphere around the goal position. -/
def positionConstraint (goalPose : PoseStamped K) (endEffectorName : StdString)
    (positionTolerance : K) : PositionConstraint K where
  header := { Header.empty with frameId := goalPose.header.frameId }
  linkName := endEffectorName
  constraintRegion :=
    { primitives := [⟨.sphere, [positionTolerance]⟩]
      primitivePoses := [⟨goalPose.pose.position, Quaternion.identity⟩] }
  weight := 1

/-- `ori_con`; it reads `orientation_tolerance[0]`, `[1]` and `[2]`. -/
def orientationConstraint (goalPose : PoseStamped K) (endEffectorName : StdString)
    (orientationTolerance : List K) : Except Fault (OrientationConstraint K) :=
  match orientationTolerance[0]?, orientationTolerance[1]?, orientationTolerance[2]? with
  | some x, some y, some z =>
    .ok
      { header := { Header.empty with frameId := goalPose.header.frameId }
        orientation := goalPose.pose.orientation
        linkName := endEffectorName
        absoluteXAxisTolerance := x
        absoluteYAxisTolerance := y
        absoluteZAxisTolerance := z
        parameterization := .xyzEulerAngles }
  | _, _, _ => .error .outOfBounds

/-- `constraints.orientation_constraints`: only if the tolerance can be read. -/
def orientationConstraints (goalPose : PoseStamped K) (endEffectorName : StdString) :
    Option (List K) → Except Fault (List (OrientationConstraint K))
  | some tolerance => (orientationConstraint goalPose endEffectorName tolerance).map ([·])
  | none => .ok []

def requiredInput {T : Type} (port : StdString) (input : Option T) : Except Fault T :=
  required (bytes "Could not access required blackboard input [" ++ port ++ bytes "]") input

/-- `setRequest`.  `uninitialized` is the value of the local `position_tolerance` before its
    read, whose outcome nobody looks at. -/
def setRequest (uninitialized : K) (ports : Ports K) (request : MotionPlanRequest K) :
    Except Fault (MotionPlanRequest K) := do
  let groupName ← requiredInput (bytes "group_name") ports.groupName
  let endEffectorName ← requiredInput (bytes "end_effector_name") ports.endEffectorName
  let goalPose ← requiredInput (bytes "goal_pose") ports.goalPose
  let positionTolerance := ports.positionTolerance.getD uninitialized
  let orientation ← orientationConstraints goalPose endEffectorName ports.orientationTolerance
  let constraints : Constraints K :=
    { jointConstraints := []
      positionConstraints := [positionConstraint goalPose endEffectorName positionTolerance]
      orientationConstraints := orientation }
  return {
    numPlanningAttempts := 10
    workspaceParameters := workspaceParameters
    groupName := groupName
    goalConstraints := request.goalConstraints ++ [constraints]
    allowedPlanningTime := 10
    maxVelocityScalingFactor := ports.velocityScaling.getD request.maxVelocityScalingFactor
    maxAccelerationScalingFactor :=
      ports.accelerationScaling.getD request.maxAccelerationScalingFactor
    plannerId := ports.planner.getD request.plannerId
    pipelineId := ports.pipeline.getD request.pipelineId }

/-- `onResponseReceived`: the status and the value set on port `trajectory`. -/
def onResponseReceived (response : MotionPlanResponse J) : NodeStatus × Option J :=
  if response.errorCode = moveItSuccess then (.success, some response.trajectory)
  else (.failure, none)

def onFailure : NodeStatus := .failure

/-! ## What becomes of the port reads -/

/-- The reads whose failure is looked at. -/
def RequiredRead (ports : Ports K) : Prop :=
  ports.groupName.isSome ∧ ports.endEffectorName.isSome ∧ ports.goalPose.isSome

instance (ports : Ports K) : Decidable (RequiredRead ports) :=
  inferInstanceAs (Decidable (_ ∧ _ ∧ _))

/-- `orientation_tolerance` is not read, or has the three elements that are looked at. -/
def OrientationUsable (ports : Ports K) : Prop :=
  ∀ tolerance ∈ ports.orientationTolerance, 3 ≤ tolerance.length

/-- The dimensions of the spheres around the goal positions. -/
def positionTolerances (request : MotionPlanRequest K) : List (List K) :=
  request.goalConstraints.flatMap fun constraints =>
    constraints.positionConstraints.flatMap fun position =>
      position.constraintRegion.primitives.map (·.dimensions)

omit [Field K] in
theorem orientationConstraint_of_three (goalPose : PoseStamped K) (endEffectorName : StdString)
    {tolerance : List K} (h : 3 ≤ tolerance.length) :
    ∃ o, orientationConstraint goalPose endEffectorName tolerance = .ok o := by
  match tolerance, h with
  | x :: y :: z :: _, _ => exact ⟨_, rfl⟩

omit [Field K] in
theorem orientationConstraint_of_short (goalPose : PoseStamped K) (endEffectorName : StdString)
    {tolerance : List K} (h : tolerance.length < 3) :
    orientationConstraint goalPose endEffectorName tolerance = .error .outOfBounds := by
  match tolerance, h with
  | [], _ => rfl
  | [_], _ => rfl
  | [_, _], _ => rfl

omit [Field K] in
theorem orientationConstraints_cases (goalPose : PoseStamped K) (endEffectorName : StdString)
    (tolerance : Option (List K)) :
    ((∀ xs ∈ tolerance, 3 ≤ xs.length) ∧
      ∃ os, orientationConstraints goalPose endEffectorName tolerance = .ok os) ∨
    (¬ (∀ xs ∈ tolerance, 3 ≤ xs.length) ∧
      orientationConstraints goalPose endEffectorName tolerance = .error .outOfBounds) := by
  cases tolerance with
  | none => exact .inl ⟨fun _ h => (by cases h), _, rfl⟩
  | some xs =>
    rcases Nat.lt_or_ge xs.length 3 with hlen | hlen
    · refine .inr ⟨fun h => ?_, ?_⟩
      · have := h xs rfl
        omega
      · simp only [orientationConstraints, orientationConstraint_of_short _ _ hlen]
        rfl
    · obtain ⟨o, ho⟩ := orientationConstraint_of_three goalPose endEffectorName hlen
      refine .inl ⟨fun ys h => ?_, [o], ?_⟩
      · obtain rfl := Option.some.inj h
        exact hlen
      · simp only [orientationConstraints, ho]
        rfl

/-- **Everything `setRequest` can do**, for every outcome of the reads: throw for a required port,
    read past the end of the tolerance, or build a request from what was read. -/
theorem setRequest_cases (uninitialized : K) (ports : Ports K) (request : MotionPlanRequest K) :
    (¬ RequiredRead ports ∧
      ∃ what, setRequest uninitialized ports request = .error (.runtimeError what)) ∨
    (RequiredRead ports ∧ ¬ OrientationUsable ports ∧
      setRequest uninitialized ports request = .error .outOfBounds) ∨
    (RequiredRead ports ∧ OrientationUsable ports ∧
      ∃ built, setRequest uninitialized ports request = .ok built ∧
        positionTolerances built = positionTolerances request ++
          [[ports.positionTolerance.getD uninitialized]] ∧
        built.maxVelocityScalingFactor =
          ports.velocityScaling.getD request.maxVelocityScalingFactor ∧
        built.maxAccelerationScalingFactor =
          ports.accelerationScaling.getD request.maxAccelerationScalingFactor ∧
        built.plannerId = ports.planner.getD request.plannerId ∧
        built.pipelineId = ports.pipeline.getD request.pipelineId) := by
  unfold setRequest RequiredRead OrientationUsable
  cases ports.groupName with
  | none => exact .inl ⟨by simp, _, rfl⟩
  | some groupName =>
    cases ports.endEffectorName with
    | none => exact .inl ⟨by simp, _, rfl⟩
    | some endEffectorName =>
      cases ports.goalPose with
      | none => exact .inl ⟨by simp, _, rfl⟩
      | some goalPose =>
        refine .inr ?_
        rcases orientationConstraints_cases goalPose endEffectorName ports.orientationTolerance with
          ⟨husable, os, hos⟩ | ⟨hshort, hos⟩
        · refine .inr ⟨⟨rfl, rfl, rfl⟩, husable, ?_⟩
          simp only [requiredInput, required, bind, Except.bind, hos]
          refine ⟨_, rfl, ?_, rfl, rfl, rfl, rfl⟩
          simp [positionTolerances, positionConstraint]
        · refine .inl ⟨⟨rfl, rfl, rfl⟩, hshort, ?_⟩
          simp only [requiredInput, required, bind, Except.bind, hos]

/-! ## The pose a request plans to -/

/-- The one goal of the request is the pose, in its frame: the position and, if the tolerance could
    be read, the orientation of the same link. -/
def AimsAt (tolerance : Option (List K)) (pose : PoseStamped K) (request : MotionPlanRequest K) :
    Prop :=
  ∃ position orientation, request.goalConstraints = [⟨[], [position], orientation⟩] ∧
    position.header.frameId = pose.header.frameId ∧
    position.constraintRegion.primitivePoses.map (·.position) = [pose.pose.position] ∧
    orientation.map (fun o => (o.linkName, o.header.frameId, o.orientation)) =
      if tolerance.isSome then
        [(position.linkName, pose.header.frameId, pose.pose.orientation)]
      else []

omit [Field K] in
theorem orientationConstraints_aim {goalPose : PoseStamped K} {endEffectorName : StdString}
    {tolerance : Option (List K)} {orientation : List (OrientationConstraint K)}
    (h : orientationConstraints goalPose endEffectorName tolerance = .ok orientation) :
    orientation.map (fun o => (o.linkName, o.header.frameId, o.orientation)) =
      if tolerance.isSome then
        [(endEffectorName, goalPose.header.frameId, goalPose.pose.orientation)]
      else [] := by
  cases tolerance with
  | none => cases h; rfl
  | some xs =>
    simp only [orientationConstraints, orientationConstraint] at h
    split at h
    · cases h
      rfl
    · cases h

/-- A request that is built plans to the pose read from `goal_pose`. -/
theorem setRequest_aimsAt {uninitialized : K} {ports : Ports K} {request : MotionPlanRequest K}
    (h : setRequest uninitialized ports MotionPlanRequest.empty = .ok request) :
    ∃ pose, ports.goalPose = some pose ∧ AimsAt ports.orientationTolerance pose request := by
  unfold setRequest at h
  obtain ⟨groupName, _, h⟩ := bind_eq_ok h
  obtain ⟨endEffectorName, _, h⟩ := bind_eq_ok h
  obtain ⟨goalPose, hgoal, h⟩ := bind_eq_ok h
  obtain ⟨orientation, ho, h⟩ := bind_eq_ok h
  cases h
  refine ⟨goalPose, required_eq_ok.mp hgoal, ?_⟩
  exact ⟨_, orientation, rfl, rfl, rfl, orientationConstraints_aim ho⟩

end PlanToPose

end DrtBehavior
