import DrtBehavior.Planning.PlanToJointState
import DrtBehavior.Planning.PlanningTrees

/-!
# Requests from unread ports

Both planning nodes look at the outcome of some port reads and ignore that of others.

* `FromPort` — a field holds what its port gave, or the default the port declares.
* `built_from_ports_iff` — the reads for which this holds of `PlanToPose` and `PlanToJointState`.
* `scaling_unread` — the shipped tree with no `velocity_scaling` on the blackboard asks for the
  scaling 0.
-/

set_option autoImplicit false

namespace DrtBehavior

variable {K T : Type} [Field K] (J : Type)

/-- The value read from a port or, where the read failed, the default the port declares. -/
def FromPort (defaults : List (StdString × Value K J)) (port : StdString) (inject : T → Value K J)
    (read : Option T) (x : T) : Prop :=
  read = some x ∨ (read = none ∧ defaults.lookup port = some (inject x))

/-- The position tolerance, the scalings, the planner and the pipeline of the request are those of
    the ports of `PlanToPose`. -/
structure PlanToPose.BuiltFromPorts (ports : Ports K) (request : MotionPlanRequest K) : Prop where
  positionTolerance : ∃ x, positionTolerances request = [[x]] ∧
    FromPort (K := K) J defaults (bytes "position_tolerance") .double ports.positionTolerance x
  velocityScaling : FromPort (K := K) J defaults (bytes "velocity_scaling") .double
    ports.velocityScaling request.maxVelocityScalingFactor
  accelerationScaling : FromPort (K := K) J defaults (bytes "acceleration_scaling") .double
    ports.accelerationScaling request.maxAccelerationScalingFactor
  planner : FromPort (K := K) J defaults (bytes "planner") .string ports.planner request.plannerId
  pipeline : FromPort (K := K) J defaults (bytes "pipeline") .string ports.pipeline
    request.pipelineId

/-- The joint tolerances of the request are those of the port of `PlanToJointState`. -/
def PlanToJointState.BuiltFromPorts (ports : Ports K) (request : MotionPlanRequest K) : Prop :=
  ∀ x ∈ jointTolerances request,
    FromPort (K := K) J defaults (bytes "tolerance") .double ports.tolerance x.1 ∧
      FromPort (K := K) J defaults (bytes "tolerance") .double ports.tolerance x.2

/-- The reads whose failure nobody looks at. -/
def PlanToPose.IgnoredReadsSucceed (ports : Ports K) : Prop :=
  ports.positionTolerance.isSome ∧ ports.velocityScaling.isSome ∧
    ports.accelerationScaling.isSome ∧ ports.planner.isSome ∧ ports.pipeline.isSome

variable {J} {defaults : List (StdString × Value K J)} {port : StdString} {inject : T → Value K J}
  {read : Option T} {x : T}

omit [Field K] in
/-- A read that gives a value leaves it in its target. -/
theorem fromPort_getD (target : T) (h : read.isSome) :
    FromPort J defaults port inject read (read.getD target) := by
  obtain ⟨v, rfl⟩ := Option.isSome_iff_exists.mp h
  exact .inl rfl

omit [Field K] in
/-- A read that fails leaves in its target something other than the declared default. -/
theorem isSome_of_fromPort {declared : Value K J} {target : T}
    (hdeclared : defaults.lookup port = some declared) (hne : declared ≠ inject target)
    (h : FromPort J defaults port inject read (read.getD target)) : read.isSome := by
  cases read with
  | some v => rfl
  | none =>
    rcases h with h | ⟨_, h⟩
    · cases h
    · rw [hdeclared, Option.some.injEq] at h
      exact absurd h hne

variable (J) in
theorem PlanToPose.builtFromPorts_iff (ports : Ports K) :
    (∀ uninitialized, ThrowsOr (BuiltFromPorts J ports)
        (setRequest uninitialized ports MotionPlanRequest.empty)) ↔
      (RequiredRead ports → OrientationUsable ports ∧ IgnoredReadsSucceed ports) := by
  constructor
  · intro h hrequired
    -- the stack holds a value that is not the default
    have hstack := h (1 / 100 + 1)
    rcases setRequest_cases (1 / 100 + 1) ports MotionPlanRequest.empty with
      ⟨hmissing, _⟩ | ⟨_, _, hout⟩ | ⟨_, husable, built, hok, htol, hvel, hacc, hplan, hpipe⟩
    · exact absurd hrequired hmissing
    · rw [hout] at hstack
      exact hstack.elim
    · rw [hok] at hstack
      obtain ⟨⟨x, hx, hpos⟩, hvel', hacc', hplan', hpipe'⟩ := hstack
      rw [htol] at hx
      obtain rfl : x = ports.positionTolerance.getD (1 / 100 + 1) := by
        simpa [positionTolerances, MotionPlanRequest.empty] using hx.symm
      rw [hvel] at hvel'
      rw [hacc] at hacc'
      rw [hplan] at hplan'
      rw [hpipe] at hpipe'
      have hplanner : bytes "RRTstarkConfigDefault" ≠ [] := by decide
      have hpipeline : bytes "ompl" ≠ [] := by decide
      refine ⟨husable, isSome_of_fromPort rfl ?_ hpos, isSome_of_fromPort rfl ?_ hvel',
        isSome_of_fromPort rfl ?_ hacc', isSome_of_fromPort rfl ?_ hplan',
        isSome_of_fromPort rfl ?_ hpipe'⟩
      · simp
      · simp [MotionPlanRequest.empty]
      · simp [MotionPlanRequest.empty]
      · exact fun h => hplanner (Value.string.inj h)
      · exact fun h => hpipeline (Value.string.inj h)
  · intro h uninitialized
    rcases setRequest_cases uninitialized ports MotionPlanRequest.empty with
      ⟨_, what, hthrow⟩ | ⟨hrequired, hshort, _⟩ |
      ⟨hrequired, _, built, hok, htol, hvel, hacc, hplan, hpipe⟩
    · rw [hthrow]
      exact trivial
    · exact absurd (h hrequired).1 hshort
    · obtain ⟨hpos, hv, ha, hpl, hpi⟩ := (h hrequired).2
      rw [hok]
      exact ⟨⟨_, htol, fromPort_getD _ hpos⟩, hvel ▸ fromPort_getD _ hv, hacc ▸ fromPort_getD _ ha,
        hplan ▸ fromPort_getD _ hpl, hpipe ▸ fromPort_getD _ hpi⟩

variable (J) in
theorem PlanToJointState.builtFromPorts_iff (ports : Ports K) :
    (∀ uninitialized, ThrowsOr (fun result => BuiltFromPorts J ports result.2)
        (setRequest uninitialized ports MotionPlanRequest.empty)) ↔
      (JointsRead ports → ports.jointNames = some [] ∨ ports.tolerance.isSome) := by
  constructor
  · intro h hread
    have hstack := h (436332 / 10000000 + 1)
    rcases setRequest_cases (436332 / 10000000 + 1) ports MotionPlanRequest.empty with
      ⟨hmissing, _⟩ | ⟨_, names, hnames, target, built, hok, htol⟩
    · exact absurd hread hmissing
    · rw [hok] at hstack
      cases names with
      | nil => exact .inl hnames
      | cons name names =>
        refine .inr ?_
        have hmem := hstack (ports.tolerance.getD _, ports.tolerance.getD _)
          (by rw [htol]; exact List.mem_append_right _ List.mem_cons_self)
        exact isSome_of_fromPort rfl (by simp) hmem.1
  · intro h uninitialized
    rcases setRequest_cases uninitialized ports MotionPlanRequest.empty with
      ⟨_, what, hthrow⟩ | ⟨hread, names, hnames, target, built, hok, htol⟩
    · rw [hthrow]
      exact trivial
    · rw [hok]
      intro x hx
      rw [htol] at hx
      rcases h hread with hnil | hsome
      · rw [hnames, Option.some.injEq] at hnil
        subst hnil
        cases hx
      · obtain rfl := List.eq_of_mem_replicate hx
        exact ⟨fromPort_getD _ hsome, fromPort_getD _ hsome⟩

/-- **Exactly when no request is built from an unread port.**  For every outcome of the port reads,
    whatever the stack holds: `PlanToPose::setRequest` throws or builds its request from the ports
    and their defaults if and only if a required read fails, or all five reads nobody looks at
    succeed and the orientation tolerance, if it is read, has three elements;
    `PlanToJointState::setRequest` if and only if a required read fails, the numbers of names and
    positions differ, there is no joint, or the tolerance is read. -/
theorem built_from_ports_iff (J : Type) :
    (∀ ports : PlanToPose.Ports K,
      (∀ uninitialized, ThrowsOr (PlanToPose.BuiltFromPorts J ports)
          (PlanToPose.setRequest uninitialized ports MotionPlanRequest.empty)) ↔
        (PlanToPose.RequiredRead ports →
          PlanToPose.OrientationUsable ports ∧ PlanToPose.IgnoredReadsSucceed ports)) ∧
    ∀ ports : PlanToJointState.Ports K,
      (∀ uninitialized, ThrowsOr (fun result => PlanToJointState.BuiltFromPorts J ports result.2)
          (PlanToJointState.setRequest uninitialized ports MotionPlanRequest.empty)) ↔
        (PlanToJointState.JointsRead ports →
          ports.jointNames = some [] ∨ ports.tolerance.isSome) :=
  ⟨PlanToPose.builtFromPorts_iff J, PlanToJointState.builtFromPorts_iff J⟩

/-- `rrt_to_transform` on a blackboard with a group, a link and a pose but no scalings: the request
    has the velocity scaling 0 of an empty message, not the declared default 1. -/
theorem scaling_unread :
    let pose : PoseStamped Rat := ⟨Header.empty, ⟨⟨1, 2, 3⟩, Quaternion.identity⟩⟩
    let blackboard : Blackboard Rat Nat := fun key =>
      if key = bytes "pose" then some (.poseStamped pose)
      else if key = bytes "group_name" ∨ key = bytes "end_effector_name" then
        some (.string (bytes "arm"))
      else none
    let ports := PlanToPose.readPorts Planning.treeConversions
      Planning.PlanningTree.rrtToTransform.xml.planToPose blackboard
    (PlanToPose.setRequest 0 ports MotionPlanRequest.empty).map
        (fun request => (request.maxVelocityScalingFactor, request.plannerId)) =
          .ok (0, bytes "RRTConnect") ∧
      ¬ ∀ uninitialized, ThrowsOr (PlanToPose.BuiltFromPorts Nat ports)
          (PlanToPose.setRequest uninitialized ports MotionPlanRequest.empty) := by
  intro pose blackboard ports
  have hrequired : PlanToPose.RequiredRead ports := by decide +kernel
  refine ⟨by decide +kernel, fun h => ?_⟩
  have hread := ((PlanToPose.builtFromPorts_iff Nat ports).mp h hrequired).2.2.1
  exact absurd hread (by decide +kernel)

end DrtBehavior
