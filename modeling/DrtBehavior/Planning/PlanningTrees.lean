import Mathlib.Algebra.Field.Rat
import DrtBehavior.Base.Trace
import DrtBehavior.Planning.PlanToPose

/-!
# Planning trees

The trees `rrt_to_transform`, `PILZ_LIN_to_transform` and `PILZ_LIN_to_position` of
`moveit_behavior`: a sequence of `TransformToPose`, `PlanToPose` and `ExecuteTrajectory` over one
blackboard, with the ROS service and action nodes of BehaviorTree.ROS2 around the last two.

* `PlanningTree.xml` — the three trees; they differ in the planner and the tolerance.
* `World`, `sequence` — the blackboard, the two ROS nodes and the trace of what was found, read,
  requested, answered and sent for execution.  Anyone may rewrite the blackboard between ticks.
* `Justified` — a goal is sent right after a SUCCESS response with its trajectory, to a request for
  the pose of the transform that was on the blackboard at the start of the same traversal.
* `no_stale_trajectory` — every goal of every run is justified.
-/

set_option autoImplicit false

namespace DrtBehavior

/-! ## The leaves besides PlanToPose -/

/-- The pose `TransformToPose::tick` computes. -/
def TransformToPose.toPose {K : Type} (t : TransformStamped K) : PoseStamped K where
  header := t.header
  pose := ⟨t.transform.translation, t.transform.rotation⟩

/-- `ExecuteTrajectory::setGoal`, with what port `trajectory` gives. -/
def ExecuteTrajectory.setGoal {J : Type} (trajectory : Option J) : Except Fault J :=
  required (bytes "Could not access global blackboard input [trajectory]") trajectory

/-- `ExecuteTrajectory::onResultReceived`. -/
def ExecuteTrajectory.onResultReceived (errorCode : Int) : NodeStatus :=
  if errorCode = moveItSuccess then .success else .failure

def ExecuteTrajectory.onFailure : NodeStatus := .failure

namespace Planning

open BehaviorTree

/-! ## The three trees -/

inductive PlanningTree where
  | rrtToTransform
  | pilzLinToTransform
  | pilzLinToPosition
  deriving DecidableEq, Repr

structure TreeXml where
  transformToPose : NodeXml
  planToPose : NodeXml
  executeTrajectory : NodeXml

/-- What the three trees share. -/
def planningXml (pipeline planner orientationTolerance : String) : TreeXml where
  transformToPose :=
    [(bytes "transform_stamped", .entry (bytes "transform")),
      (bytes "pose_stamped", .entry (bytes "pose"))]
  planToPose :=
    [(bytes "group_name", .entry (bytes "group_name")),
      (bytes "end_effector_name", .entry (bytes "end_effector_name")),
      (bytes "goal_pose", .entry (bytes "pose")),
      (bytes "pipeline", .literal (bytes pipeline)),
      (bytes "planner", .literal (bytes planner)),
      (bytes "orientation_tolerance", .literal (bytes orientationTolerance)),
      (bytes "velocity_scaling", .entry (bytes "velocity_scaling")),
      (bytes "acceleration_scaling", .entry (bytes "acceleration_scaling")),
      (bytes "trajectory", .entry (bytes "traj_to_pose"))]
  executeTrajectory := [(bytes "trajectory", .entry (bytes "traj_to_pose"))]

def PlanningTree.xml : PlanningTree → TreeXml
  | .rrtToTransform => planningXml "ompl" "RRTConnect" "0.05;0.05;0.05"
  | .pilzLinToTransform =>
    planningXml "pilz_industrial_motion_planner" "LIN" "0.0872665;0.10872665;0.0872665"
  | .pilzLinToPosition =>
    planningXml "pilz_industrial_motion_planner" "PTP" "0.0872665;0.10872665;0.0872665"

variable {K J : Type}

/-- The text at `orientation_tolerance`, converted. -/
def TreeXml.tolerance (c : Conversions K) (xml : TreeXml) : Option (List K) :=
  match xml.planToPose.lookup (bytes "orientation_tolerance") with
  | some (.literal text) => c.toDoubles text
  | _ => none

/-- `convertFromString` on the texts at `orientation_tolerance` of the three trees. -/
def treeConversions [Field K] : Conversions K where
  toDouble _ := none
  toDoubles text :=
    if text = bytes "0.05;0.05;0.05" then some [0.05, 0.05, 0.05]
    else if text = bytes "0.0872665;0.10872665;0.0872665" then
      some [0.0872665, 0.10872665, 0.0872665]
    else none

/-! ## One traversal after another -/

/-- What happens on the ROS side during one tick of a service node. -/
inductive ServiceEvent (J : Type) where
  | unreachable
  | pending
  | timeout
  | response (r : MotionPlanResponse J)

/-- The same for an action node; `failed` is a rejection, a timeout or an abort. -/
inductive ActionEvent where
  | unreachable
  | pending
  | failed
  | result (errorCode : Int)

/-- The environment of one tick; `uninitialized` is the stack value `PlanToPose::setRequest` may
    use. -/
structure TickInput (K J : Type) where
  service : ServiceEvent J
  action : ActionEvent
  uninitialized : K

/-- What the trace records; a traversal starts with the blackboard it finds. -/
inductive Occurrence (K J : Type) where
  | traversal (blackboard : Blackboard K J)
  | read (t : TransformStamped K)
  | requested (request : MotionPlanRequest K)
  | answered (request : MotionPlanRequest K) (response : MotionPlanResponse J)
  | goalSent (trajectory : J)

/-- The blackboard, the request `PlanToPose` waits for, whether `ExecuteTrajectory` has a goal, and
    the trace. -/
structure World (K J : Type) where
  blackboard : Blackboard K J
  request : Option (MotionPlanRequest K)
  executing : Bool
  trace : List (Occurrence K J)

/-! ## What precedes a goal -/

/-- The current traversal: at its start the entry `transform` holds `t`, then `t` is read, and
    `rest` is what has come after that. -/
def Traversed (t : TransformStamped K) (rest trace : List (Occurrence K J)) : Prop :=
  ∃ earlier blackboard, trace = earlier ++ .traversal blackboard :: .read t :: rest ∧
    blackboard (bytes "transform") = some (.transformStamped t)

/-- The trace of a traversal up to a SUCCESS response: the transform read, the request for its pose
    and the response to that request. -/
def Planned (tolerance : Option (List K)) (t : TransformStamped K) (request : MotionPlanRequest K)
    (response : MotionPlanResponse J) (trace : List (Occurrence K J)) : Prop :=
  Traversed t [.requested request, .answered request response] trace ∧
    PlanToPose.AimsAt tolerance (TransformToPose.toPose t) request ∧
    response.errorCode = moveItSuccess

/-- A goal sent after `trace` carries the trajectory planned in the current traversal. -/
def Justified (tolerance : Option (List K)) (trace : List (Occurrence K J)) (trajectory : J) :
    Prop :=
  ∃ t request response, Planned tolerance t request response trace ∧
    response.trajectory = trajectory

/-- Every goal of the trace is justified by what is before it. -/
def NoStaleGoal (tolerance : Option (List K)) (trace : List (Occurrence K J)) : Prop :=
  Trace.Explained (fun before o => ∀ trajectory, o = .goalSent trajectory →
    Justified tolerance before trajectory) trace

theorem Traversed.concat {t : TransformStamped K} {rest trace : List (Occurrence K J)}
    (h : Traversed t rest trace) (o : Occurrence K J) :
    Traversed t (rest ++ [o]) (trace ++ [o]) := by
  obtain ⟨earlier, blackboard, rfl, ht⟩ := h
  exact ⟨earlier, blackboard, by simp, ht⟩

/-- Only goals have to be justified. -/
theorem NoStaleGoal.concat {tolerance : Option (List K)} {trace : List (Occurrence K J)}
    {o : Occurrence K J} (h : NoStaleGoal tolerance trace)
    (ho : ∀ trajectory, o = .goalSent trajectory → Justified tolerance trace trajectory) :
    NoStaleGoal tolerance (trace ++ [o]) :=
  Trace.explained_concat_iff.mpr ⟨h, ho⟩

/-! ## The ticks of the three nodes -/

variable [Field K]

namespace World

variable (c : Conversions K) (xml : NodeXml) (input : TickInput K J) (w : World K J)

/-- `TransformToPose::tick`. -/
def tickTransformToPose : Except Fault NodeStatus × World K J :=
  match required (bytes "Could not access blackboard input [transform_stamped]")
      (getInput Value.asTransformStamped [] xml (bytes "transform_stamped") w.blackboard) with
  | .error fault => (.error fault, w)
  | .ok t =>
    (.ok .success,
      { w with
        blackboard :=
          setOutput xml (bytes "pose_stamped") (.poseStamped (TransformToPose.toPose t))
            w.blackboard
        trace := w.trace ++ [.read t] })

/-- The tick of the service node around `PlanToPose`. -/
def tickPlanToPose : Except Fault NodeStatus × World K J :=
  match w.request with
  | none =>
    match PlanToPose.setRequest input.uninitialized (PlanToPose.readPorts c xml w.blackboard)
        MotionPlanRequest.empty with
    | .error fault => (.error fault, w)
    | .ok request =>
      match input.service with
      | .unreachable => (.ok PlanToPose.onFailure, w)
      | _ =>
        (.ok .running, { w with request := some request, trace := w.trace ++ [.requested request] })
  | some request =>
    match input.service with
    | .response response =>
      let (status, output) := PlanToPose.onResponseReceived response
      (.ok status,
        { w with
          blackboard :=
            match output with
            | some trajectory =>
              setOutput xml (bytes "trajectory") (.robotTrajectory trajectory) w.blackboard
            | none => w.blackboard
          request := none
          trace := w.trace ++ [.answered request response] })
    | .timeout => (.ok PlanToPose.onFailure, { w with request := none })
    | _ => (.ok .running, w)

/-- The tick of the action node around `ExecuteTrajectory`. -/
def tickExecuteTrajectory : Except Fault NodeStatus × World K J :=
  if w.executing then
    match input.action with
    | .result errorCode =>
      (.ok (ExecuteTrajectory.onResultReceived errorCode), { w with executing := false })
    | .failed => (.ok ExecuteTrajectory.onFailure, { w with executing := false })
    | _ => (.ok .running, w)
  else
    match ExecuteTrajectory.setGoal
        (getInput Value.asRobotTrajectory [] xml (bytes "trajectory") w.blackboard) with
    | .error fault => (.error fault, w)
    | .ok trajectory =>
      match input.action with
      | .unreachable => (.ok ExecuteTrajectory.onFailure, w)
      | _ =>
        (.ok .running, { w with executing := true, trace := w.trace ++ [.goalSent trajectory] })

end World

/-- The `Sequence` of a planning tree.  Between ticks the blackboard may become any other one. -/
def sequence (c : Conversions K) (xml : TreeXml) :
    Sequence (TickInput K J) Fault (World K J) (Blackboard K J) where
  children :=
    [{ tick := fun _ w => w.tickTransformToPose xml.transformToPose
       halt := id },
      { tick := fun input w => w.tickPlanToPose c xml.planToPose input
        halt := fun w => { w with request := none } },
      { tick := fun input w => w.tickExecuteTrajectory xml.executeTrajectory input
        halt := fun w => { w with executing := false } }]
  start w := { w with trace := w.trace ++ [.traversal w.blackboard] }
  update blackboard w := { w with blackboard := blackboard }

/-- How the ports of the three nodes are connected: the first one reads `transform`, and what one
    node writes the next one reads. -/
structure Wired (xml : TreeXml) (pose trajectory : StdString) : Prop where
  transformStamped :
    xml.transformToPose.lookup (bytes "transform_stamped") = some (.entry (bytes "transform"))
  orientationTolerance :
    ∃ text, xml.planToPose.lookup (bytes "orientation_tolerance") = some (.literal text)
  poseStamped : xml.transformToPose.lookup (bytes "pose_stamped") = some (.entry pose)
  goalPose : xml.planToPose.lookup (bytes "goal_pose") = some (.entry pose)
  planned : xml.planToPose.lookup (bytes "trajectory") = some (.entry trajectory)
  executed : xml.executeTrajectory.lookup (bytes "trajectory") = some (.entry trajectory)

theorem wired (tree : PlanningTree) : Wired tree.xml (bytes "pose") (bytes "traj_to_pose") := by
  cases tree <;> exact ⟨rfl, ⟨_, rfl⟩, rfl, rfl, rfl, rfl⟩

theorem Wired.tolerance_eq {xml : TreeXml} {pose trajectory : StdString}
    (h : Wired xml pose trajectory) (c : Conversions K) (blackboard : Blackboard K J) :
    (PlanToPose.readPorts c xml.planToPose blackboard).orientationTolerance =
      xml.tolerance c := by
  obtain ⟨text, htext⟩ := h.orientationTolerance
  simp only [PlanToPose.readPorts, getInput, TreeXml.tolerance, htext, Value.asDoubles]

/-! ## The proof outline of a traversal -/

section Outline

variable (c : Conversions K) (xml : TreeXml)

/-- A reset tree: neither ROS node is active. -/
def Reset (w : World K J) : Prop :=
  NoStaleGoal (xml.tolerance c) w.trace ∧ w.request = none ∧ w.executing = false

/-- Before the first tick of each node: nothing is active, and the port the node reads holds what
    the node before it has written. -/
def Before : Nat → World K J → Prop
  | 0, w => Reset c xml w ∧ ∃ earlier, w.trace = earlier ++ [.traversal w.blackboard]
  | 1, w => Reset c xml w ∧ ∃ t, Traversed t [] w.trace ∧
      (PlanToPose.readPorts c xml.planToPose w.blackboard).goalPose =
        some (TransformToPose.toPose t)
  | 2, w => Reset c xml w ∧ ∃ t request response,
      Planned (xml.tolerance c) t request response w.trace ∧
      getInput Value.asRobotTrajectory [] xml.executeTrajectory (bytes "trajectory") w.blackboard =
        some response.trajectory
  | _, w => NoStaleGoal (xml.tolerance c) w.trace

/-- While a node is RUNNING.  Nothing is said of the blackboard. -/
def During : Nat → World K J → Prop
  | 1, w => NoStaleGoal (xml.tolerance c) w.trace ∧ w.executing = false ∧ ∃ t request,
      w.request = some request ∧ Traversed t [.requested request] w.trace ∧
      PlanToPose.AimsAt (xml.tolerance c) (TransformToPose.toPose t) request
  | 2, w => NoStaleGoal (xml.tolerance c) w.trace ∧ w.executing = true
  | _, _ => False

variable {c xml} {pose trajectory : StdString}

theorem transformToPose_answer (hx : Wired xml pose trajectory) {w : World K J}
    (h : Before c xml 0 w) :
    Answer (fun w => NoStaleGoal (xml.tolerance c) w.trace) (Before c xml) (During c xml) 0
      (w.tickTransformToPose xml.transformToPose) := by
  obtain ⟨⟨hstale, hrequest, hexecuting⟩, earlier, htrace⟩ := h
  unfold World.tickTransformToPose
  split
  · exact hstale
  · rename_i t hread
    have hentry : w.blackboard (bytes "transform") = some (.transformStamped t) :=
      getInput_transformStamped hx.transformStamped (required_eq_ok.mp hread)
    refine ⟨⟨hstale.concat nofun, hrequest, hexecuting⟩, t, ?_, ?_⟩
    · exact ⟨earlier, w.blackboard, by simp [htrace], hentry⟩
    · exact getInput_setOutput _ _ hx.goalPose hx.poseStamped

theorem planToPose_start (hx : Wired xml pose trajectory) {w : World K J} (h : Before c xml 1 w)
    (input : TickInput K J) :
    Answer (fun w => NoStaleGoal (xml.tolerance c) w.trace) (Before c xml) (During c xml) 1
      (w.tickPlanToPose c xml.planToPose input) := by
  obtain ⟨⟨hstale, hrequest, hexecuting⟩, t, htraversed, hpose⟩ := h
  unfold World.tickPlanToPose
  rw [hrequest]
  simp only
  split
  · exact hstale
  · rename_i request hset
    obtain ⟨goalPose, hgoal, haim⟩ := PlanToPose.setRequest_aimsAt hset
    rw [hpose, Option.some.injEq] at hgoal
    rw [← hgoal, hx.tolerance_eq] at haim
    split
    · exact hstale
    · exact ⟨hstale.concat nofun, hexecuting, t, request, rfl, htraversed.concat _, haim⟩

theorem planToPose_running (hx : Wired xml pose trajectory) {w : World K J}
    (h : During c xml 1 w) (input : TickInput K J) :
    Answer (fun w => NoStaleGoal (xml.tolerance c) w.trace) (Before c xml) (During c xml) 1
      (w.tickPlanToPose c xml.planToPose input) := by
  obtain ⟨hstale, hexecuting, t, request, hrequest, htraversed, haim⟩ := h
  unfold World.tickPlanToPose
  rw [hrequest]
  simp only
  split
  · rename_i response _
    have hstale' := hstale.concat (o := .answered request response) nofun
    have htraversed' := htraversed.concat (.answered request response)
    unfold PlanToPose.onResponseReceived
    split
    · -- the trajectory is written, then the node succeeds
      rename_i hsuccess
      refine ⟨⟨hstale', rfl, hexecuting⟩, t, request, response, ⟨htraversed', haim, hsuccess⟩, ?_⟩
      exact getInput_setOutput _ _ hx.executed hx.planned
    · exact hstale'
  · exact hstale
  · exact ⟨hstale, hexecuting, t, request, hrequest, htraversed, haim⟩

theorem executeTrajectory_start {w : World K J} (h : Before c xml 2 w) (input : TickInput K J) :
    Answer (fun w => NoStaleGoal (xml.tolerance c) w.trace) (Before c xml) (During c xml) 2
      (w.tickExecuteTrajectory xml.executeTrajectory input) := by
  obtain ⟨⟨hstale, _, hexecuting⟩, t, request, response, hplanned, hread⟩ := h
  unfold World.tickExecuteTrajectory
  rw [hexecuting, hread]
  simp only [ExecuteTrajectory.setGoal, required, Bool.false_eq_true, if_false]
  split
  · exact hstale
  · refine ⟨hstale.concat ?_, rfl⟩
    intro trajectory heq
    cases heq
    exact ⟨t, request, response, hplanned, rfl⟩

theorem executeTrajectory_running {w : World K J} (h : During c xml 2 w) (input : TickInput K J) :
    Answer (fun w => NoStaleGoal (xml.tolerance c) w.trace) (Before c xml) (During c xml) 2
      (w.tickExecuteTrajectory xml.executeTrajectory input) := by
  obtain ⟨hstale, hexecuting⟩ := h
  unfold World.tickExecuteTrajectory
  rw [if_pos hexecuting]
  split
  · unfold ExecuteTrajectory.onResultReceived
    split <;> exact hstale
  · exact hstale
  · exact ⟨hstale, hexecuting⟩

omit [Field K] in
theorem reset_initial (c : Conversions K) (xml : TreeXml) (blackboard : Blackboard K J) :
    Reset c xml ⟨blackboard, none, false, []⟩ := ⟨Trace.explained_nil, rfl, rfl⟩

theorem before_noStaleGoal :
    ∀ i (w : World K J), Before c xml i w → NoStaleGoal (xml.tolerance c) w.trace
  | 0, _, h => h.1.1
  | 1, _, h => h.1.1
  | 2, _, h => h.1.1
  | _ + 3, _, h => h

omit [Field K] in
theorem during_noStaleGoal : ∀ i (w : World K J), During c xml i w →
    NoStaleGoal (xml.tolerance c) w.trace
  | 1, _, h => h.1
  | 2, _, h => h.1

/-- The three leaves meet the outline. -/
theorem planning_outline (hx : Wired xml pose trajectory) :
    Outline (sequence c xml) (fun w : World K J => NoStaleGoal (xml.tolerance c) w.trace)
      (Reset c xml) (Before c xml) (During c xml) where
  start w h := ⟨⟨h.1.concat nofun, h.2⟩, w.trace, rfl⟩
  child i leaf hleaf input w hw := by
    match i, hleaf with
    | 0, hleaf =>
      cases hleaf
      exact transformToPose_answer hx (hw.resolve_right id)
    | 1, hleaf =>
      cases hleaf
      rcases hw with hw | hw
      · exact planToPose_start hx hw input
      · exact planToPose_running hx hw input
    | 2, hleaf =>
      cases hleaf
      rcases hw with hw | hw
      · exact executeTrajectory_start hw input
      · exact executeTrajectory_running hw input
  reset w h := ⟨h, rfl, rfl⟩
  update_reset _ _ h := h
  update_running
    | 1, _, _, h => h
    | 2, _, _, h => h
  inv_of_reset _ h := h.1
  inv_of_start := before_noStaleGoal
  inv_of_running := during_noStaleGoal

end Outline

/-- **No stale trajectory is ever executed.**  In each of the three trees, for every run of ticks,
    halts and rewrites of the blackboard, every goal sent carries the trajectory of a SUCCESS
    response of the same traversal, to a request for the pose of the transform that the entry
    `transform` held at its start: its position, and its orientation if the tolerance in the XML can
    be converted at all. -/
theorem no_stale_trajectory (tree : PlanningTree) (c : Conversions K) (blackboard : Blackboard K J)
    (es : List (Sequence.Event (TickInput K J) (Blackboard K J))) :
    EventMachine.Always (sequence c tree.xml).step
      (fun s => NoStaleGoal (tree.xml.tolerance c) s.world.trace)
      ⟨none, ⟨blackboard, none, false, []⟩⟩ es :=
  (planning_outline (wired tree)).always (reset_initial c tree.xml blackboard) es

/-- A traversal plans and executes trajectory 7; in the next one the planner answers with an error
    while the entry `traj_to_pose` still holds 7. -/
example :
    let blackboard : Blackboard Rat Nat := fun key =>
      if key = bytes "transform" then
        some (.transformStamped ⟨Header.empty, [], ⟨⟨1, 2, 3⟩, Quaternion.identity⟩⟩)
      else if key = bytes "group_name" ∨ key = bytes "end_effector_name" then
        some (.string (bytes "arm"))
      else none
    let tick (service : ServiceEvent Nat) (action : ActionEvent) :
        Sequence.Event (TickInput Rat Nat) (Blackboard Rat Nat) := .tick ⟨service, action, 0⟩
    (EventMachine.run (sequence treeConversions PlanningTree.rrtToTransform.xml).step
      ⟨none, ⟨blackboard, none, false, []⟩⟩
      [tick .pending .pending, tick (.response ⟨7, moveItSuccess⟩) .pending,
        tick .pending (.result moveItSuccess), tick .pending .pending,
        tick (.response ⟨8, -1⟩) .pending, tick .pending .pending, .halt]).map
      (fun s => s.world.trace.filterMap fun
        | .goalSent trajectory => some trajectory
        | _ => none) = some [7] := by
  decide +kernel

end Planning

end DrtBehavior
