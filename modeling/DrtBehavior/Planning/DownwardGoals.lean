import DrtBehavior.Geometry.Placements

/-!
# Goals straight down

The geometry leaves prepare the entry `transform`, a planning tree plans to it and executes what was
planned; both work on one blackboard, in any order.

* `Cell`, `step` — the leaves, a planning tree and the blackboard they share.
* `Sound` — every transform and pose is rigid, and those in some entries point straight down.
* `executed_point_down` — if `transform` is one of these entries, every goal that is executed was
  planned in the same traversal, to a request that asks for an orientation straight down.
-/

set_option autoImplicit false

namespace DrtBehavior

namespace DownwardGoals

open EventMachine BehaviorTree Planning SharedBlackboard Rotation

variable {J : Type}

/-- The geometry leaves and a planning tree. -/
structure Cell (J : Type) where
  leaves : SharedBlackboard.World ℝ J
  tree : Sequence.State (Planning.World ℝ J)

inductive Event (J : Type) where
  | leaf (e : SharedBlackboard.Event ℝ J)
  | tick (input : TickInput ℝ J)
  | halt

/-- The planning tree has not been ticked yet. -/
def Cell.initial (leaves : SharedBlackboard.World ℝ J) : Cell J :=
  ⟨leaves, ⟨none, ⟨leaves.blackboard, none, false, []⟩⟩⟩

section Step

variable (c : Conversions ℝ) (tree : PlanningTree)

/-- What one side writes, the other one finds. -/
noncomputable def step (s : Cell J) : Event J → Option (Cell J)
  | .leaf e =>
    (SharedBlackboard.step c s.leaves e).map fun leaves =>
      let world := (Planning.sequence c tree.xml).update leaves.blackboard s.tree.world
      ⟨leaves, { s.tree with world }⟩
  | .tick input =>
    let ticked := ((Planning.sequence c tree.xml).tick input s.tree).2
    some ⟨{ s.leaves with blackboard := ticked.world.blackboard }, ticked⟩
  | .halt => some { s with tree := ⟨none, (Planning.sequence c tree.xml).haltAll s.tree.world⟩ }

end Step

/-! ## Values that point down -/

/-- The Z axis of the orientation is `(0, 0, -1)`. -/
def ZDown (orientation : Quaternion ℝ) : Prop :=
  (toRotationMatrix orientation.toEigen).col 2 = ![0, 0, -1]

def IsDown : Value ℝ J → Prop
  | .transformStamped t => ZDown t.transform.rotation
  | .poseStamped p => ZDown p.pose.orientation
  | _ => True

structure Sound (entries : Set StdString) (blackboard : Blackboard ℝ J) : Prop where
  rigid : ∀ key value, blackboard key = some value → IsRigid value
  down : ∀ key ∈ entries, ∀ value, blackboard key = some value → IsDown value

variable {entries : Set StdString}

theorem holdsDown_iff {w : SharedBlackboard.World ℝ J} :
    HoldsDown entries w ↔
      ∀ key ∈ entries, ∀ value, w.blackboard key = some value → IsDown value := by
  constructor
  · intro h key hkey value hvalue
    cases value with
    | transformStamped t => exact (h key hkey).1 t hvalue
    | poseStamped p => exact (h key hkey).2 p hvalue
    | _ => trivial
  · exact fun h key hkey => ⟨fun t ht => h key hkey _ ht, fun p hp => h key hkey _ hp⟩

theorem sound_setOutput {blackboard : Blackboard ℝ J} (h : Sound entries blackboard) (xml : NodeXml)
    (port : StdString) {value : Value ℝ J} (hrigid : IsRigid value) (hdown : IsDown value) :
    Sound entries (setOutput xml port value blackboard) := by
  have hentry : ∀ key v, setOutput xml port value blackboard key = some v →
      v = value ∨ blackboard key = some v := by
    intro key v hv
    rw [setOutput_eq] at hv
    split at hv
    · simp only [put] at hv
      split at hv
      · exact .inl (Option.some.inj hv).symm
      · exact .inr hv
    · exact .inr hv
  constructor
  · intro key v hv
    rcases hentry key v hv with rfl | hv
    · exact hrigid
    · exact h.rigid key v hv
  · intro key hkey v hv
    rcases hentry key v hv with rfl | hv
    · exact hdown
    · exact h.down key hkey v hv

/-! ## What is asked of the planner -/

/-- The one goal of the request constrains the orientation, to straight down. -/
def AsksDown (request : MotionPlanRequest ℝ) : Prop :=
  ∃ constraints, request.goalConstraints = [constraints] ∧
    constraints.orientationConstraints ≠ [] ∧
    ∀ o ∈ constraints.orientationConstraints, ZDown o.orientation

theorem asksDown_of_aimsAt {tolerance : Option (List ℝ)} {t : TransformStamped ℝ}
    {request : MotionPlanRequest ℝ} (hread : tolerance.isSome)
    (haim : PlanToPose.AimsAt tolerance (TransformToPose.toPose t) request)
    (hdown : ZDown t.transform.rotation) : AsksDown request := by
  obtain ⟨position, orientation, hgoal, _, _, horientation⟩ := haim
  rw [if_pos hread] at horientation
  obtain ⟨o, rfl, ho⟩ := List.map_eq_singleton_iff.mp horientation
  refine ⟨_, hgoal, List.cons_ne_nil o [], fun o' ho' => ?_⟩
  rw [List.mem_singleton.mp ho']
  have horientation : o.orientation = t.transform.rotation :=
    congrArg (fun p : StdString × StdString × Quaternion ℝ => p.2.2) ho
  rw [horientation]
  exact hdown

/-! ## The ticks of the tree -/

/-- The transforms that were read point down. -/
def TraceDown (trace : List (Occurrence ℝ J)) : Prop :=
  ∀ t, .read t ∈ trace → ZDown t.transform.rotation

theorem TraceDown.concat {trace : List (Occurrence ℝ J)} {o : Occurrence ℝ J} (h : TraceDown trace)
    (hread : ∀ t, o = .read t → ZDown t.transform.rotation) : TraceDown (trace ++ [o]) := by
  intro t ht
  rcases List.mem_append.mp ht with ht | ht
  · exact h t ht
  · exact hread t (List.mem_singleton.mp ht).symm

/-- What the tree keeps. -/
def Kept (entries : Set StdString) (w : Planning.World ℝ J) : Prop :=
  Sound entries w.blackboard ∧ TraceDown w.trace

variable {c : Conversions ℝ} {tree : PlanningTree}

theorem kept_tickTransformToPose {xml : NodeXml} {w : Planning.World ℝ J} {key : StdString}
    (hentry : xml.lookup (bytes "transform_stamped") = some (.entry key)) (hkey : key ∈ entries)
    (hw : Kept entries w) : Kept entries (w.tickTransformToPose xml).2 := by
  unfold World.tickTransformToPose
  split
  · exact hw
  · rename_i t hread
    have hvalue : w.blackboard key = some (.transformStamped t) :=
      getInput_transformStamped hentry (required_eq_ok.mp hread)
    have hunit : t.transform.rotation.IsUnit := hw.1.rigid key _ hvalue
    have hdown : ZDown t.transform.rotation := hw.1.down key hkey _ hvalue
    exact ⟨sound_setOutput hw.1 xml _ hunit hdown,
      hw.2.concat fun _ heq => by cases heq; exact hdown⟩

theorem kept_tickPlanToPose {xml : NodeXml} {w : Planning.World ℝ J} {input : TickInput ℝ J}
    (hw : Kept entries w) : Kept entries (w.tickPlanToPose c xml input).2 := by
  unfold World.tickPlanToPose
  split
  · split
    · exact hw
    · split
      · exact hw
      · exact ⟨hw.1, hw.2.concat nofun⟩
  · split
    · rename_i request _ _ response _
      have htrace : TraceDown (w.trace ++ [.answered request response]) := hw.2.concat nofun
      have hwritten : Sound entries (setOutput xml (bytes "trajectory")
          (.robotTrajectory response.trajectory) w.blackboard) :=
        sound_setOutput hw.1 xml _ trivial trivial
      by_cases hsuccess : response.errorCode = moveItSuccess
      · simp only [PlanToPose.onResponseReceived, if_pos hsuccess]
        exact ⟨hwritten, htrace⟩
      · simp only [PlanToPose.onResponseReceived, if_neg hsuccess]
        exact ⟨hw.1, htrace⟩
    · exact hw
    · exact hw

theorem kept_tickExecuteTrajectory {xml : NodeXml} {w : Planning.World ℝ J}
    {input : TickInput ℝ J} (hw : Kept entries w) :
    Kept entries (w.tickExecuteTrajectory xml input).2 := by
  unfold World.tickExecuteTrajectory
  split
  · split <;> exact hw
  · split
    · exact hw
    · split
      · exact hw
      · exact ⟨hw.1, hw.2.concat nofun⟩

/-- The tolerances in the XML of the tree can be converted. -/
def Parses (c : Conversions ℝ) (tree : PlanningTree) : Prop :=
  ∀ text, tree.xml.planToPose.lookup (bytes "orientation_tolerance") = some (.literal text) →
    (c.toDoubles text).isSome

theorem parses_treeConversions (tree : PlanningTree) : Parses treeConversions tree := by
  intro text htext
  cases tree <;> cases htext <;> decide

theorem tolerance_isSome (hparse : Parses c tree) : (tree.xml.tolerance c).isSome := by
  obtain ⟨text, htext⟩ := (wired tree).orientationTolerance
  rw [TreeXml.tolerance, htext]
  exact hparse text htext

variable (c tree) in
/-- The three nodes keep it, if `transform` points down. -/
theorem sequence_keeps (htransform : bytes "transform" ∈ entries) :
    (Planning.sequence c tree.xml).Keeps (Kept (J := J) entries) where
  start w hw := ⟨hw.1, hw.2.concat nofun⟩
  tick child hchild input w hw := by
    simp only [Planning.sequence, List.mem_cons, List.not_mem_nil, or_false] at hchild
    rcases hchild with rfl | rfl | rfl
    · exact kept_tickTransformToPose (wired tree).transformStamped htransform hw
    · exact kept_tickPlanToPose hw
    · exact kept_tickExecuteTrajectory hw
  halt child hchild w hw := by
    simp only [Planning.sequence, List.mem_cons, List.not_mem_nil, or_false] at hchild
    rcases hchild with rfl | rfl | rfl <;> exact hw

/-! ## The invariant -/

structure Inv (c : Conversions ℝ) (tree : PlanningTree) (entries : Set StdString) (s : Cell J) :
    Prop where
  same : s.tree.world.blackboard = s.leaves.blackboard
  rigid : Rigid s.leaves
  down : HoldsDown entries s.leaves
  trace : TraceDown s.tree.world.trace
  outlined : Outline.Between (fun w => NoStaleGoal (tree.xml.tolerance c) w.trace)
    (Reset c tree.xml) (During c tree.xml) s.tree

theorem Inv.kept {s : Cell J} (h : Inv c tree entries s) : Kept entries s.tree.world := by
  refine ⟨⟨?_, ?_⟩, h.trace⟩
  · rw [h.same]
    exact h.rigid.blackboard
  · rw [h.same]
    exact holdsDown_iff.mp h.down

/-- What others write is rigid, and down where it has to be. -/
def Fed (c : Conversions ℝ) (entries : Set StdString) (s : Cell J) : Event J → Prop
  | .leaf e => FedRigid c s.leaves e ∧ ∀ i ∈ label c s.leaves e, KeepsDown entries i
  | _ => True

theorem inv_initial {leaves : SharedBlackboard.World ℝ J} (hrigid : Rigid leaves)
    (hdown : HoldsDown entries leaves) : Inv c tree entries (Cell.initial leaves) where
  same := rfl
  rigid := hrigid
  down := hdown
  trace := fun _ h => (by cases h)
  outlined := ⟨Trace.explained_nil, fun _ => reset_initial c tree.xml leaves.blackboard, nofun⟩

theorem inv_step (htransform : bytes "transform" ∈ entries) {s s' : Cell J} {e : Event J}
    (hi : Inv c tree entries s) (hs : step c tree s e = some s') (hfed : Fed c entries s e) :
    Inv c tree entries s' := by
  have houtline := planning_outline (c := c) (K := ℝ) (J := J) (wired tree)
  cases e with
  | leaf e =>
    obtain ⟨leaves, hleaves, rfl⟩ := Option.map_eq_some_iff.mp hs
    have hboth : Rigid leaves ∧ Down entries (view leaves) :=
      ⟨rigid_step hi.rigid hleaves hfed.1,
        down_run (down_view_iff.mpr hi.down) (run_label_of_step hi.rigid hfed.1 hleaves) hfed.2⟩
    exact ⟨rfl, hboth.1, down_view_iff.mp hboth.2, hi.trace,
      houtline.between_step (e := .update leaves.blackboard) hi.outlined rfl⟩
  | tick input =>
    cases hs
    have hkept := (sequence_keeps c tree htransform).world_tick input hi.kept
    exact ⟨rfl, ⟨hkept.1.rigid, hi.rigid.sent⟩, holdsDown_iff.mpr hkept.1.down, hkept.2,
      houtline.between_step (e := .tick input) hi.outlined rfl⟩
  | halt =>
    cases hs
    exact ⟨hi.same, hi.rigid, hi.down, hi.trace,
      houtline.between_step (e := .halt) hi.outlined rfl⟩

/-- What precedes a goal: the traversal, the transform that was read, the request for its pose,
    which asks for an orientation straight down, and the SUCCESS response with the trajectory. -/
def PlannedDown (tolerance : Option (List ℝ)) (trace : List (Occurrence ℝ J)) (trajectory : J) :
    Prop :=
  ∃ t request response, Planned tolerance t request response trace ∧
    response.trajectory = trajectory ∧ AsksDown request

theorem Inv.plannedDown (hparse : Parses c tree) {s : Cell J} (h : Inv c tree entries s)
    {before after : List (Occurrence ℝ J)} {trajectory : J}
    (htrace : s.tree.world.trace = before ++ .goalSent trajectory :: after) :
    PlannedDown (tree.xml.tolerance c) before trajectory := by
  obtain ⟨t, request, response, hplanned, htrajectory⟩ :=
    h.outlined.1 before _ after htrace trajectory rfl
  obtain ⟨earlier, blackboard, hbefore, _⟩ := hplanned.1
  have hread : .read t ∈ s.tree.world.trace := by simp [htrace, hbefore]
  exact ⟨t, request, response, hplanned, htrajectory,
    asksDown_of_aimsAt (tolerance_isSome hparse) hplanned.2.1 (h.trace t hread)⟩

/-- **What is executed was planned straight down.**  Take any set of entries, `transform` among
    them, whose transforms and poses point straight down.  In every run of the geometry leaves, of
    writes of others and of ticks and halts of a planning tree, in any order: while the leaves and
    the others are fed with rigid transforms and keep these entries pointing down, every goal that
    the tree sends carries the trajectory of a SUCCESS response of the same traversal, to a request
    whose one goal constrains the orientation to straight down. -/
theorem executed_point_down (c : Conversions ℝ) (tree : PlanningTree) (hparse : Parses c tree)
    (htransform : bytes "transform" ∈ entries) {leaves : SharedBlackboard.World ℝ J}
    (hrigid : Rigid leaves) (hdown : HoldsDown entries leaves) (es : List (Event J))
    (hfed : EachStep (step c tree) (fun s e _ => Fed c entries s e) (Cell.initial leaves) es) :
    Always (step c tree) (fun s => ∀ before trajectory after,
      s.tree.world.trace = before ++ .goalSent trajectory :: after →
        PlannedDown (tree.xml.tolerance c) before trajectory)
      (Cell.initial leaves) es := by
  have hinv : Always (step c tree) (Inv c tree entries) (Cell.initial leaves) es :=
    hfed.always (inv_initial hrigid hdown) fun _ _ _ hi hs hg =>
      inv_step htransform hi hs hg
  exact hinv.mono fun _ hi _ _ _ htrace => hi.plannedDown hparse htrace

/-- A transform is turned straight down, planned to and executed. -/
theorem executed_point_down_rrt :
    let c : Conversions ℝ := treeConversions
    let tf : Value ℝ Nat :=
      .transformStamped ⟨Header.empty, bytes "tool", ⟨⟨1, 2, 3⟩, Quaternion.identity⟩⟩
    let arm : Value ℝ Nat := .string (bytes "arm")
    let leaves : SharedBlackboard.World ℝ Nat :=
      ⟨put (bytes "tf") (some tf) (put (bytes "group_name") (some arm)
        (put (bytes "end_effector_name") (some arm) fun _ => none)), fun _ => none, []⟩
    let es : List (Event Nat) :=
      [.leaf (.tick .alignTransform
          [(bytes "transform_stamped", .entry (bytes "tf")),
            (bytes "aligned_transform", .entry (bytes "transform"))]),
        .tick ⟨.pending, .pending, 0⟩, .tick ⟨.response ⟨7, moveItSuccess⟩, .pending, 0⟩]
    ∃ s before, run (step c .rrtToTransform) (Cell.initial leaves) es = some s ∧
      s.tree.world.trace = before ++ [.goalSent 7] ∧
        PlannedDown (PlanningTree.rrtToTransform.xml.tolerance c) before 7 := by
  intro c tf arm leaves es
  have hrigid : Rigid leaves := by
    refine ⟨fun key value hvalue => ?_, fun _ h => (by cases h)⟩
    simp only [leaves, put] at hvalue
    split at hvalue
    · cases hvalue
      norm_num [tf, IsRigid, Quaternion.IsUnit, Quaternion.identity]
    · split at hvalue
      · cases hvalue
        trivial
      · split at hvalue
        · cases hvalue
          trivial
        · cases hvalue
  have hdown : HoldsDown {bytes "transform"} leaves := by
    rintro key rfl
    exact ⟨fun _ h => (by cases h), fun _ h => (by cases h)⟩
  have hfed : ∀ e ∈ es, ∀ s, Fed c {bytes "transform"} s e := by
    simp only [es, List.mem_cons, List.not_mem_nil, or_false]
    rintro e (rfl | rfl | rfl) s
    · refine ⟨trivial, fun i hi => ?_⟩
      obtain ⟨dst, _, hi⟩ := mem_label hi rfl
      cases hi
      trivial
    · trivial
    · trivial
  have halways := executed_point_down c .rrtToTransform (parses_treeConversions _)
    (Set.mem_singleton _) hrigid hdown es
    ((eachStep_of_forall_mem (Cell.initial leaves) hfed).mono fun s e _ h => h s)
  obtain ⟨s, hs, before, htrace⟩ : ∃ s, run (step c .rrtToTransform) (Cell.initial leaves) es =
      some s ∧ ∃ before, s.tree.world.trace = before ++ [.goalSent 7] :=
    ⟨_, rfl, [_, _, _, _], rfl⟩
  exact ⟨s, before, hs, htrace, halways.last hs before 7 [] htrace⟩

end DownwardGoals

end DrtBehavior
