import Mathlib.Algebra.Field.Rat
import Mathlib.Tactic.NormNum
import DrtBehavior.Planning.PlanToJointState

/-!
# The joint goal of PlanToJointState

`PlanToJointState` is one object for all its requests: `target_js_` stays from one request to the
next, and two members hold scalings.

* `Members`, `Action` — the members, and a member function that may throw half-way.
* `Members.setRequest` — `setRequest` statement by statement; `call_setRequest`: it does what
  `PlanToJointState.setRequest` says, and a throw comes before the first change.
* `joint_goal_built` — the goal and `target_js_` after any earlier requests.
* `joint_goal_iff` — the scalings of the members never reach the request.
-/

set_option autoImplicit false

namespace DrtBehavior

namespace PlanToJointState

/-- The members of the node. -/
structure Members (K : Type) where
  targetJs : JointState K
  velocityScaling : K
  accelerationScaling : K
  deriving DecidableEq, Repr

/-- What a call can change: the members of the node and the request it is given. -/
structure Call (K : Type) where
  node : Members K
  request : MotionPlanRequest K
  deriving DecidableEq, Repr

/-- A member function; when it throws, what it has changed stays changed. -/
abbrev Action (K : Type) := ExceptT Fault (StateM (Call K))

variable {K : Type}

/-- What an action returns or throws, and what it leaves. -/
def Action.call {R : Type} (action : Action K R) (c : Call K) : Except Fault R × Call K :=
  action.run.run c

theorem call_bind_of_ok {R S : Type} {x : Action K R} {f : R → Action K S} {c c' : Call K} {r : R}
    (h : x.call c = (.ok r, c')) : (x >>= f).call c = (f r).call c' := by
  have hrun : (x >>= f).call c = match x.call c with
    | (.ok r, c') => (f r).call c'
    | (.error fault, c') => (.error fault, c') := by
    show (ExceptT.bind x f) c = _
    unfold ExceptT.bind
    show (match x.call c with
      | (r, c') => ExceptT.bindCont f r c') = _
    rcases x.call c with ⟨_ | _, _⟩ <;> rfl
  rw [hrun, h]

theorem call_modify (f : Call K → Call K) (c : Call K) :
    Action.call (modify f) c = (.ok ⟨⟩, f c) := rfl

theorem call_requiredInput {T : Type} (port : StdString) (value : T) (c : Call K) :
    Action.call (ofExcept (PlanToPose.requiredInput port (some value))) c = (.ok value, c) := rfl

variable [Field K]

/-- A node as it is constructed: both scalings are 0.8. -/
def Members.initial : Members K := ⟨⟨[], []⟩, 4 / 5, 4 / 5⟩

/-- The body of the loop of `setRequest`, for the joint `i`; the constraints so far are a local. -/
def pushJoint (jointNames : List StdString) (jointPositions : List K) (tolerance : K)
    (jointConstraints : List (JointConstraint K)) (i : Nat) :
    Action K (List (JointConstraint K)) :=
  match jointNames[i]?, jointPositions[i]? with
  | some name, some position => do
    modify fun c => { c with node.targetJs.name := c.node.targetJs.name ++ [name] }
    modify fun c => { c with node.targetJs.position := c.node.targetJs.position ++ [position] }
    return jointConstraints ++ [jointConstraint tolerance (name, position)]
  | _, _ => throw .outOfBounds

/-- `setRequest`, statement by statement. -/
def Members.setRequest (uninitialized : K) (ports : Ports K) : Action K Bool := do
  let groupName ← ofExcept (PlanToPose.requiredInput (bytes "group_name") ports.groupName)
  let jointNames ← ofExcept (PlanToPose.requiredInput (bytes "joint_names") ports.jointNames)
  let jointPositions ←
    ofExcept (PlanToPose.requiredInput (bytes "joint_positions") ports.jointPositions)
  let tolerance := ports.tolerance.getD uninitialized
  if jointNames.length ≠ jointPositions.length then
    throw (.runtimeError
      (bytes "Number of [joint_names] and [joint_positions] are not the same"))
  modify fun c => { c with node.targetJs.name := [] }
  modify fun c => { c with node.targetJs.position := [] }
  let jointConstraints ←
    (List.range jointNames.length).foldlM (pushJoint jointNames jointPositions tolerance) []
  modify fun c => { c with request.groupName := groupName }
  modify fun c =>
    { c with request.goalConstraints := c.request.goalConstraints ++ [⟨jointConstraints, [], []⟩] }
  return true

/-! ## The loop -/

/-- The first `k` turns of the loop. -/
theorem call_pushJoints {jointNames : List StdString} {jointPositions : List K}
    (hlen : jointNames.length = jointPositions.length) (tolerance : K) (c : Call K) :
    ∀ k, k ≤ jointNames.length →
      Action.call ((List.range k).foldlM (pushJoint jointNames jointPositions tolerance) []) c =
        (.ok (((jointNames.zip jointPositions).take k).map (jointConstraint tolerance)),
          { c with node.targetJs := ⟨c.node.targetJs.name ++ jointNames.take k,
            c.node.targetJs.position ++ jointPositions.take k⟩ })
  | 0, _ => by
    simp only [List.take_zero, List.append_nil]
    rfl
  | k + 1, hk => by
    have hn : k < jointNames.length := hk
    have hp : k < jointPositions.length := by omega
    have hz : k < (jointNames.zip jointPositions).length := by
      rw [List.length_zip]
      omega
    have hname : jointNames[k]? = some jointNames[k] := List.getElem?_eq_getElem hn
    have hposition : jointPositions[k]? = some jointPositions[k] := List.getElem?_eq_getElem hp
    rw [List.range_succ, List.foldlM_append,
      call_bind_of_ok (call_pushJoints hlen tolerance c k (by omega)), List.foldlM_cons]
    rw [List.take_succ_eq_append_getElem hn, List.take_succ_eq_append_getElem hp,
      List.take_succ_eq_append_getElem hz, List.map_append, List.getElem_zip]
    unfold pushJoint
    rw [hname, hposition]
    simp only [← List.append_assoc]
    rfl

/-- The whole loop, on cleared members. -/
theorem call_loop {jointNames : List StdString} {jointPositions : List K}
    (hlen : jointNames.length = jointPositions.length) (tolerance : K) (c : Call K) :
    Action.call
        ((List.range jointNames.length).foldlM (pushJoint jointNames jointPositions tolerance) [])
        { c with node.targetJs := ⟨[], []⟩ } =
      (.ok ((jointNames.zip jointPositions).map (jointConstraint tolerance)),
        { c with node.targetJs := ⟨jointNames, jointPositions⟩ }) := by
  have hzip : (jointNames.zip jointPositions).length = jointNames.length := by
    rw [List.length_zip]
    omega
  have h := call_pushJoints hlen tolerance { c with node.targetJs := ⟨[], []⟩ } jointNames.length
    (Nat.le_refl _)
  rw [List.take_of_length_le (Nat.le_of_eq hzip), List.take_length,
    List.take_of_length_le (Nat.le_of_eq hlen.symm)] at h
  exact h

/-! ## The call -/

/-- The outcome when the numbers of names and positions agree. -/
theorem setRequest_read (uninitialized : K) (groupName : StdString) {names : List StdString}
    {positions : List K} (hlen : names.length = positions.length) (tolerance : Option K)
    (request : MotionPlanRequest K) :
    setRequest uninitialized ⟨some groupName, some names, some positions, tolerance⟩ request = .ok
      (⟨names, positions⟩, { request with
        groupName := groupName
        goalConstraints := request.goalConstraints ++ [⟨(names.zip positions).map
          (jointConstraint (tolerance.getD uninitialized)), [], []⟩] }) := by
  have hnames : (names.zip positions).map Prod.fst = names :=
    List.map_fst_zip (Nat.le_of_eq hlen)
  have hpositions : (names.zip positions).map Prod.snd = positions :=
    List.map_snd_zip (Nat.le_of_eq hlen.symm)
  unfold setRequest
  simp only [PlanToPose.requiredInput, required, bind, Except.bind, hnames, hpositions]
  exact if_neg (not_not_intro hlen)

/-- **The statements do what `PlanToJointState.setRequest` says**; a throw changes nothing. -/
theorem call_setRequest (uninitialized : K) (ports : Ports K) (c : Call K) :
    (Members.setRequest uninitialized ports).call c =
      match setRequest uninitialized ports c.request with
      | .ok (target, built) => (.ok true, ⟨{ c.node with targetJs := target }, built⟩)
      | .error fault => (.error fault, c) := by
  obtain ⟨groupName, jointNames, jointPositions, tolerance⟩ := ports
  cases groupName with
  | none => rfl
  | some groupName =>
    cases jointNames with
    | none => rfl
    | some names =>
      cases jointPositions with
      | none => rfl
      | some positions =>
        rw [Members.setRequest, call_bind_of_ok (call_requiredInput _ groupName c),
          call_bind_of_ok (call_requiredInput _ names c),
          call_bind_of_ok (call_requiredInput _ positions c)]
        by_cases hlen : names.length = positions.length
        · have hset := setRequest_read uninitialized groupName hlen tolerance c.request
          -- the loop runs on the cleared members
          have hloop := call_loop hlen (tolerance.getD uninitialized) c
          rw [hset, if_neg (not_not_intro hlen), call_bind_of_ok (call_modify _ _),
            call_bind_of_ok (call_modify _ _)]
          exact (call_bind_of_ok hloop).trans rfl
        · have hset : setRequest uninitialized
              ⟨some groupName, some names, some positions, tolerance⟩ c.request =
              .error (.runtimeError
                (bytes "Number of [joint_names] and [joint_positions] are not the same")) :=
            if_pos hlen
          rw [hset, if_pos hlen]
          rfl

/-! ## The joint goal -/

/-- The request has exactly one goal, with these joints, and the node holds exactly these joints. -/
structure JointGoal (groupName : StdString) (names : List StdString) (positions : List K)
    (tolerance : K) (c : Call K) : Prop where
  group : c.request.groupName = groupName
  goal : ∃ joints : List (JointConstraint K), c.request.goalConstraints = [⟨joints, [], []⟩] ∧
    joints.length = names.length ∧ ∀ (i : Nat) (joint : JointConstraint K),
      joints[i]? = some joint → names[i]? = some joint.jointName ∧
        positions[i]? = some joint.position ∧ joint.toleranceAbove = tolerance ∧
        joint.toleranceBelow = tolerance
  target : c.node.targetJs = ⟨names, positions⟩

/-- What a call on a fresh request should do: throw without touching `target_js_` where a required
    read fails or the lists differ in length, else build the goal with the scalings of the node. -/
def ExactGoal (ports : Ports K) (tolerance : K) (node : Members K) :
    Except Fault Bool × Call K → Prop
  | (.error fault, c) =>
    (∃ what, fault = .runtimeError what) ∧ ¬ JointsRead ports ∧ c.node.targetJs = node.targetJs
  | (.ok _, c) => ∃ groupName names positions,
    ports.groupName = some groupName ∧ ports.jointNames = some names ∧
      ports.jointPositions = some positions ∧ names.length = positions.length ∧
      JointGoal groupName names positions tolerance c ∧
      c.request.maxVelocityScalingFactor = node.velocityScaling ∧
      c.request.maxAccelerationScalingFactor = node.accelerationScaling

omit [Field K] in
/-- The joints of the goal, one by one. -/
theorem getElem?_joints {names : List StdString} {positions : List K} {i : Nat}
    {joint : StdString × K} (h : (names.zip positions)[i]? = some joint) :
    names[i]? = some joint.1 ∧ positions[i]? = some joint.2 :=
  List.getElem?_zip_eq_some.mp h

/-- **The goal of a call**, whatever `target_js_` holds from earlier requests. -/
theorem joint_goal_built (uninitialized tolerance : K) (groupName : Option StdString)
    (jointNames : Option (List StdString)) (jointPositions : Option (List K)) (node : Members K) :
    let ports : Ports K := ⟨groupName, jointNames, jointPositions, some tolerance⟩
    let outcome := (Members.setRequest uninitialized ports).call ⟨node, .empty⟩
    (¬ JointsRead ports ∧ ∃ what, outcome = (.error (.runtimeError what), ⟨node, .empty⟩)) ∨
    (JointsRead ports ∧ ∃ group names positions,
      groupName = some group ∧ jointNames = some names ∧ jointPositions = some positions ∧
      names.length = positions.length ∧ ∃ c, outcome = (.ok true, c) ∧
        JointGoal group names positions tolerance c ∧
        c.request.maxVelocityScalingFactor = 0 ∧
        c.request.maxAccelerationScalingFactor = 0) := by
  intro ports outcome
  have hcall := call_setRequest uninitialized ports ⟨node, .empty⟩
  rcases setRequest_cases uninitialized ports .empty with ⟨hmissing, what, hthrow⟩ | ⟨hread, -⟩
  · rw [hthrow] at hcall
    exact .inl ⟨hmissing, what, hcall⟩
  · obtain ⟨hgroup, names, positions, hnames, hpositions, hlen⟩ := id hread
    obtain ⟨group, hgroup⟩ := Option.isSome_iff_exists.mp hgroup
    obtain rfl : groupName = some group := hgroup
    obtain rfl : jointNames = some names := hnames
    obtain rfl : jointPositions = some positions := hpositions
    rw [setRequest_read uninitialized group hlen] at hcall
    refine .inr ⟨hread, group, names, positions, rfl, rfl, rfl, hlen, _, hcall, ⟨rfl, ?_, rfl⟩,
      rfl, rfl⟩
    refine ⟨_, rfl, ?_, fun i joint hi => ?_⟩
    · rw [List.length_map, List.length_zip]
      omega
    · rw [List.getElem?_map] at hi
      obtain ⟨read, hzip, rfl⟩ := Option.map_eq_some_iff.mp hi
      obtain ⟨hname, hposition⟩ := getElem?_joints hzip
      exact ⟨hname, hposition, rfl, rfl⟩

/-- One call does what it should iff it throws, or both scalings of the node are the 0 a fresh
    request has. -/
theorem exactGoal_iff (uninitialized tolerance : K) (groupName : Option StdString)
    (jointNames : Option (List StdString)) (jointPositions : Option (List K)) (node : Members K) :
    let ports : Ports K := ⟨groupName, jointNames, jointPositions, some tolerance⟩
    ExactGoal ports tolerance node
        ((Members.setRequest uninitialized ports).call ⟨node, .empty⟩) ↔
      (JointsRead ports → node.velocityScaling = 0 ∧ node.accelerationScaling = 0) := by
  intro ports
  rcases joint_goal_built uninitialized tolerance groupName jointNames jointPositions node with
    ⟨hmissing, what, hout⟩ |
    ⟨hread, group, names, positions, hgroup, hnames, hpositions, hlen, c, hout, hgoal, hvel, hacc⟩
  · rw [hout]
    exact iff_of_true ⟨⟨what, rfl⟩, hmissing, rfl⟩ (fun hread => absurd hread hmissing)
  · rw [hout]
    constructor
    · rintro ⟨_, _, _, _, _, _, _, _, hvel', hacc'⟩ _
      exact ⟨hvel'.symm.trans hvel, hacc'.symm.trans hacc⟩
    · intro hzero
      obtain ⟨hv, ha⟩ := hzero hread
      exact ⟨group, names, positions, hgroup, hnames, hpositions, hlen, hgoal, hvel.trans hv.symm,
        hacc.trans ha.symm⟩

/-! ## Over the life of a node -/

/-- The members after some requests, each with what the local and the ports then held. -/
def Members.after (node : Members K) (requests : List (K × Ports K)) : Members K :=
  requests.foldl (fun node request =>
    ((Members.setRequest request.1 request.2).call ⟨node, .empty⟩).2.node) node

/-- A call changes of the members only `target_js_`. -/
theorem call_scalings (uninitialized : K) (ports : Ports K) (c : Call K) :
    let node := ((Members.setRequest uninitialized ports).call c).2.node
    node.velocityScaling = c.node.velocityScaling ∧
      node.accelerationScaling = c.node.accelerationScaling := by
  rw [call_setRequest]
  split
  · exact ⟨rfl, rfl⟩
  · exact ⟨rfl, rfl⟩

theorem Members.after_scalings (requests : List (K × Ports K)) : ∀ node : Members K,
    (node.after requests).velocityScaling = node.velocityScaling ∧
      (node.after requests).accelerationScaling = node.accelerationScaling := by
  induction requests with
  | nil => exact fun _ => ⟨rfl, rfl⟩
  | cons request requests ih =>
    intro node
    obtain ⟨hv, ha⟩ := ih ((Members.setRequest request.1 request.2).call ⟨node, .empty⟩).2.node
    obtain ⟨hv', ha'⟩ := call_scalings request.1 request.2 ⟨node, .empty⟩
    exact ⟨hv.trans hv', ha.trans ha'⟩

/-- **Exactly when a call builds the requested joint goal.**  For every outcome of the required
    reads, every tolerance and whatever the members hold: the call does what it should iff it
    throws, or both scalings of the node are the 0 a fresh request has.  The scalings are those the
    constructor gives, after any requests; so such a node does what it should iff it throws. -/
theorem joint_goal_iff [CharZero K] (uninitialized tolerance : K) (groupName : Option StdString)
    (jointNames : Option (List StdString)) (jointPositions : Option (List K)) :
    let ports : Ports K := ⟨groupName, jointNames, jointPositions, some tolerance⟩
    (∀ node : Members K, ExactGoal ports tolerance node
        ((Members.setRequest uninitialized ports).call ⟨node, .empty⟩) ↔
      (JointsRead ports → node.velocityScaling = 0 ∧ node.accelerationScaling = 0)) ∧
    ∀ requests : List (K × Ports K),
      let node := Members.initial.after requests
      ExactGoal ports tolerance node
        ((Members.setRequest uninitialized ports).call ⟨node, .empty⟩) ↔ ¬ JointsRead ports := by
  intro ports
  have hexact := exactGoal_iff uninitialized tolerance groupName jointNames jointPositions
  refine ⟨hexact, fun requests => ?_⟩
  intro node
  have hvel : node.velocityScaling ≠ 0 := by
    rw [(Members.after_scalings requests Members.initial).1]
    show (4 / 5 : K) ≠ 0
    norm_num
  refine (hexact node).trans ?_
  exact ⟨fun h hread => hvel (h hread).1, fun h hread => absurd hread h⟩

/-- After a request for another joint, names and positions of different lengths. -/
theorem joint_goal_iff_lengths :
    let earlier : Ports Rat := ⟨some (bytes "arm"), some [bytes "wrist"], some [2], some 1⟩
    let ports : Ports Rat := ⟨some (bytes "arm"), some [bytes "elbow"], some [1, 2], some 1⟩
    let node := Members.initial.after [(0, earlier)]
    node.targetJs = ⟨[bytes "wrist"], [2]⟩ ∧
      (ExactGoal ports 1 node ((Members.setRequest 0 ports).call ⟨node, .empty⟩) ↔
        ¬ JointsRead ports) := by
  intro earlier ports node
  refine ⟨by decide +kernel, ?_⟩
  exact (joint_goal_iff 0 1 (some (bytes "arm")) (some [bytes "elbow"]) (some [1, 2])).2
    [(0, earlier)]

/-- One joint on a new node: the request has the velocity scaling 0, the node 0.8. -/
theorem joint_goal_unscaled :
    let ports : Ports Rat := ⟨some (bytes "arm"), some [bytes "elbow"], some [1], some (1 / 20)⟩
    let outcome := (Members.setRequest 0 ports).call ⟨.initial, .empty⟩
    outcome.1 = .ok true ∧ outcome.2.request.maxVelocityScalingFactor = 0 ∧
      outcome.2.node.velocityScaling = 4 / 5 ∧
      ¬ ∀ (ports : Ports Rat) (tolerance : Rat) (node : Members Rat),
        ports.tolerance = some tolerance →
        ExactGoal ports tolerance node ((Members.setRequest 0 ports).call ⟨node, .empty⟩) := by
  intro ports outcome
  refine ⟨by decide +kernel, by decide +kernel, by decide +kernel, fun h => ?_⟩
  have hgoal := h ports (1 / 20) .initial rfl
  obtain ⟨_, _, _, _, _, _, _, _, hvel, _⟩ : ExactGoal ports (1 / 20) .initial (.ok true, _) :=
    hgoal
  exact absurd hvel (by decide +kernel)

end PlanToJointState

end DrtBehavior
