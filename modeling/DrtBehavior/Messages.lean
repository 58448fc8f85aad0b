import DrtBehavior.Platform

/-!
# ROS messages

The message types of `std_msgs`, `geometry_msgs`, `sensor_msgs`, `shape_msgs` and `moveit_msgs`
with the fields the modelled behaviours read or write.  `K` is the type of a `float64` field; the
value of a field nobody writes is the default of its message definition.
-/

set_option autoImplicit false

namespace DrtBehavior

/-- `builtin_interfaces::msg::Time`. -/
structure Time where
  sec : Int
  nanosec : Nat
  deriving DecidableEq, Repr

/-- `std_msgs::msg::Header`. -/
structure Header where
  stamp : Time
  frameId : StdString
  deriving DecidableEq, Repr

def Header.empty : Header := ⟨⟨0, 0⟩, []⟩

/-! ## geometry_msgs -/

/-- `Point` and `Vector3`. -/
structure Vector3 (K : Type) where
  x : K
  y : K
  z : K
  deriving DecidableEq, Repr

structure Quaternion (K : Type) where
  x : K
  y : K
  z : K
  w : K
  deriving DecidableEq, Repr

structure Pose (K : Type) where
  position : Vector3 K
  orientation : Quaternion K
  deriving DecidableEq, Repr

structure PoseStamped (K : Type) where
  header : Header
  pose : Pose K
  deriving DecidableEq, Repr

structure Transform (K : Type) where
  translation : Vector3 K
  rotation : Quaternion K
  deriving DecidableEq, Repr

structure TransformStamped (K : Type) where
  header : Header
  childFrameId : StdString
  transform : Transform K
  deriving DecidableEq, Repr

/-- The default quaternion, no rotation. -/
def Quaternion.identity {K : Type} [Zero K] [One K] : Quaternion K := ⟨0, 0, 0, 1⟩

/-- `sensor_msgs::msg::JointState`. -/
structure JointState (K : Type) where
  name : List StdString
  position : List K
  deriving DecidableEq, Repr

/-! ## shape_msgs and moveit_msgs -/

/-- `SolidPrimitive::type`. -/
inductive SolidPrimitiveType where
  | box
  | sphere
  | cylinder
  | cone
  deriving DecidableEq, Repr

structure SolidPrimitive (K : Type) where
  type : SolidPrimitiveType
  dimensions : List K
  deriving DecidableEq, Repr

structure BoundingVolume (K : Type) where
  primitives : List (SolidPrimitive K)
  primitivePoses : List (Pose K)
  deriving DecidableEq, Repr

structure PositionConstraint (K : Type) where
  header : Header
  linkName : StdString
  constraintRegion : BoundingVolume K
  weight : K
  deriving DecidableEq, Repr

/-- `OrientationConstraint::parameterization`. -/
inductive OrientationParameterization where
  | xyzEulerAngles
  | rotationVector
  deriving DecidableEq, Repr

structure OrientationConstraint (K : Type) where
  header : Header
  orientation : Quaternion K
  linkName : StdString
  absoluteXAxisTolerance : K
  absoluteYAxisTolerance : K
  absoluteZAxisTolerance : K
  parameterization : OrientationParameterization
  deriving DecidableEq, Repr

structure JointConstraint (K : Type) where
  jointName : StdString
  position : K
  toleranceAbove : K
  toleranceBelow : K
  weight : K
  deriving DecidableEq, Repr

structure Constraints (K : Type) where
  jointConstraints : List (JointConstraint K)
  positionConstraints : List (PositionConstraint K)
  orientationConstraints : List (OrientationConstraint K)
  deriving DecidableEq, Repr

structure WorkspaceParameters (K : Type) where
  header : Header
  minCorner : Vector3 K
  maxCorner : Vector3 K
  deriving DecidableEq, Repr

structure MotionPlanRequest (K : Type) where
  workspaceParameters : WorkspaceParameters K
  goalConstraints : List (Constraints K)
  pipelineId : StdString
  plannerId : StdString
  groupName : StdString
  numPlanningAttempts : Int
  allowedPlanningTime : K
  maxVelocityScalingFactor : K
  maxAccelerationScalingFactor : K
  deriving DecidableEq, Repr

/-- A request as `std::make_shared` leaves it. -/
def MotionPlanRequest.empty {K : Type} [Zero K] : MotionPlanRequest K where
  workspaceParameters := ⟨Header.empty, ⟨0, 0, 0⟩, ⟨0, 0, 0⟩⟩
  goalConstraints := []
  pipelineId := []
  plannerId := []
  groupName := []
  numPlanningAttempts := 0
  allowedPlanningTime := 0
  maxVelocityScalingFactor := 0
  maxAccelerationScalingFactor := 0

/-- `MotionPlanResponse`.  `J` is the type of a `RobotTrajectory`, which the behaviours only pass
    on. -/
structure MotionPlanResponse (J : Type) where
  trajectory : J
  errorCode : Int
  deriving DecidableEq, Repr

/-- `MoveItErrorCodes::SUCCESS`. -/
def moveItSuccess : Int := 1

end DrtBehavior
