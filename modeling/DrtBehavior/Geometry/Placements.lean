import DrtBehavior.Base.Refinement
import DrtBehavior.Geometry.Composition
import DrtBehavior.Geometry.SharedBlackboard

/-!
# What the geometry leaves compute

The leaves hand each other messages with quaternions.  What they are for has none: entries hold
placements in space, and a leaf moves one, turns one straight down, copies one or shows one.

* `Placement`, `Store`, `Instruction` — the store of placements and its machine.
* `view`, `label` — the placements of a blackboard, and the instruction that a step stands for.
* `leaves_compute_placements` — every run that is fed with rigid transforms is a run of the machine
  above: the way through messages and quaternions loses nothing.
* `PointsDown`, `stays_down` — which entries keep pointing straight down, whatever else runs.
-/

set_option autoImplicit false

section

open scoped Quaternion Matrix

namespace DrtBehavior

namespace SharedBlackboard

open EventMachine Rotation

/-! ## The machine above -/

/-- A coordinate frame in space, relative to the frame of a header. -/
structure Placement where
  header : Header
  isometry : Isometry3d ℝ

/-- The placements under their keys, and those that were shown. -/
structure Store where
  placements : StdString → Option Placement
  shown : List Placement

inductive Instruction where
  | place (dst : StdString) (p : Option Placement)
  | move (src dst : StdString) (motion : Isometry3d ℝ)
  | pointDown (src dst : StdString)
  | copy (src dst : StdString)
  | publish (src : StdString)

def Store.set (s : Store) (dst : StdString) (p : Option Placement) : Store :=
  { s with placements := fun k => if k = dst then p else s.placements k }

/-- The rotation that points straight down with the heading of `M`, or with heading X if the X axis
    of `M` is vertical. -/
noncomputable def pointDown (M : Matrix (Fin 3) (Fin 3) ℝ) : Matrix (Fin 3) (Fin 3) ℝ :=
  let heading := AlignTransform.horizontal M
  if heading = 0 then AlignTransform.downward 1 0
  else AlignTransform.downward (normalize heading 0) (normalize heading 1)

noncomputable def Store.step (s : Store) : Instruction → Option Store
  | .place dst p => some (s.set dst p)
  | .move src dst motion => (s.placements src).map fun p =>
    s.set dst (some { p with isometry := p.isometry * motion })
  | .pointDown src dst => (s.placements src).map fun p =>
    s.set dst (some { p with isometry := ⟨pointDown p.isometry.linear, p.isometry.translation⟩ })
  | .copy src dst => (s.placements src).map fun p => s.set dst (some p)
  | .publish src => (s.placements src).map fun p => { s with shown := s.shown ++ [p] }

/-! ## How a blackboard looks from above -/

variable {J : Type}

noncomputable def placementOfTransform (t : TransformStamped ℝ) : Placement :=
  ⟨t.header, transformToEigen t⟩

noncomputable def placementOf : Value ℝ J → Option Placement
  | .transformStamped t => some (placementOfTransform t)
  | .poseStamped p => some (placementOfTransform (PoseToTransform.toTransform p))
  | _ => none

noncomputable def view (w : World ℝ J) : Store where
  placements key := (w.blackboard key).bind placementOf
  shown := w.sent.map placementOfTransform

section Label

variable (c : Conversions ℝ) (w : World ℝ J)

/-- The isometry an `ApplyTransform` multiplies with. -/
noncomputable def appliedMotion (xml : NodeXml) : Isometry3d ℝ :=
  let ports := ApplyTransform.readPorts c xml w.blackboard
  match ApplyTransform.appliedTransform (ports.appliedTransformTranslation.getD [])
      (ports.appliedTransformRotation.getD []) with
  | .ok motion => motion
  | .error _ => 1

/-- The instruction a step stands for, given the entry it writes. -/
noncomputable def instruction (dst : StdString) : Event ℝ J → Option Instruction
  | .tick .applyTransform xml =>
    (entryOf xml (bytes "input_transform")).map fun src => .move src dst (appliedMotion c w xml)
  | .tick .alignTransform xml =>
    (entryOf xml (bytes "transform_stamped")).map fun src => .pointDown src dst
  | .tick .transformToPose xml =>
    (entryOf xml (bytes "transform_stamped")).map fun src => .copy src dst
  | .tick .poseToTransform xml =>
    (entryOf xml (bytes "pose_stamped")).map fun src => .copy src dst
  | e => some (.place dst ((step c w e).bind fun w' => (view w').placements dst))

/-- What a step stands for: a step that writes no entry and broadcasts nothing, for nothing. -/
noncomputable def label (e : Event ℝ J) : List Instruction :=
  match target c w e, broadcast w e, e with
  | some dst, _, e => (instruction c w dst e).toList
  | none, some _, .tick _ xml =>
    ((entryOf xml (bytes "input_transform")).map Instruction.publish).toList
  | none, _, _ => []

end Label

/-! ## The conversions lose nothing -/

theorem alignedLinear_eq (M : Matrix (Fin 3) (Fin 3) ℝ) :
    AlignTransform.alignedLinear M = pointDown M := by
  unfold AlignTransform.alignedLinear pointDown
  rw [AlignTransform.alignedMatrix_eq]
  by_cases hzero : AlignTransform.horizontal M = 0
  · have h0 : normalize (0 : Fin 3 → ℝ) = 0 := funext fun _ => normalize_apply_zero rfl
    rw [if_pos hzero, hzero, h0]
    exact AlignTransform.linear_of_vertical
  · have h2 : normalize (AlignTransform.horizontal M) 2 = 0 := normalize_apply_zero rfl
    have hunit := normalize_dotProduct_self hzero
    rw [dotProduct, Fin.sum_univ_three, h2, mul_zero, add_zero, ← sq, ← sq] at hunit
    rw [if_neg hzero]
    exact AlignTransform.linear_of_heading hunit

theorem exists_pointDown (M : Matrix (Fin 3) (Fin 3) ℝ) :
    ∃ a b, a ^ 2 + b ^ 2 = 1 ∧ pointDown M = AlignTransform.downward a b := by
  obtain ⟨a, b, hunit, hlinear, _⟩ := AlignTransform.alignedLinear_cases M
  exact ⟨a, b, hunit, (alignedLinear_eq M).symm.trans hlinear⟩

theorem placement_res (tStamped : TransformStamped ℝ) {T : Isometry3d ℝ}
    (hT : T.linear ∈ Matrix.specialOrthogonalGroup (Fin 3) ℝ) :
    placementOfTransform (ApplyTransform.res tStamped T) = ⟨tStamped.header, T⟩ := by
  have hisometry := ApplyTransform.transformToEigen_res tStamped hT
  exact congrArg (Placement.mk tStamped.header) hisometry

theorem placement_aligned (header : Header) (M : Matrix (Fin 3) (Fin 3) ℝ) (t : Fin 3 → ℝ) :
    placementOfTransform
        { eigenToTransform ⟨AlignTransform.alignedLinear M, t⟩ with header := header } =
      ⟨header, ⟨pointDown M, t⟩⟩ := by
  obtain ⟨a, b, hunit, hdown⟩ := exists_pointDown M
  have hmem : pointDown M ∈ Matrix.specialOrthogonalGroup (Fin 3) ℝ := by
    rw [hdown]
    exact AlignTransform.downward_mem hunit
  rw [alignedLinear_eq]
  exact congrArg (Placement.mk header)
    (transformToEigen_eigenToTransform (T := ⟨pointDown M, t⟩) hmem rfl)

variable {c : Conversions ℝ} {w w' : World ℝ J} {e : Event ℝ J}

theorem view_put {dst : StdString} {value : Option (Value ℝ J)}
    (hput : w'.blackboard = put dst value w.blackboard) (hsent : w'.sent = w.sent) :
    view w' = (view w).set dst (value.bind placementOf) := by
  have hplacements : ∀ k, (w'.blackboard k).bind placementOf =
      if k = dst then value.bind placementOf else (w.blackboard k).bind placementOf := by
    intro k
    rw [hput, put]
    split <;> rfl
  simp only [view, Store.set, hplacements, hsent]

theorem view_transform {key : StdString} {t : TransformStamped ℝ}
    (h : w.blackboard key = some (.transformStamped t)) :
    (view w).placements key = some (placementOfTransform t) := by
  show (w.blackboard key).bind placementOf = _
  rw [h]
  rfl

theorem view_pose {key : StdString} {p : PoseStamped ℝ}
    (h : w.blackboard key = some (.poseStamped p)) :
    (view w).placements key = some (placementOfTransform (PoseToTransform.toTransform p)) := by
  show (w.blackboard key).bind placementOf = _
  rw [h]
  rfl

theorem appliedMotion_eq {xml : NodeXml} {tStamped : TransformStamped ℝ} {t : Fin 3 → ℝ}
    {applied : List ℝ} {R : Matrix (Fin 3) (Fin 3) ℝ}
    (hports : ApplyTransform.readPorts c xml w.blackboard =
      ⟨some tStamped, some (coefficients t), some applied⟩)
    (hrotation : ApplyTransform.rotation applied = .ok R) : appliedMotion c w xml = ⟨R, t⟩ := by
  unfold appliedMotion
  rw [hports]
  simp only [Option.getD_some, ApplyTransform.appliedTransform_of_rotation t hrotation]

/-! ## One step below is its instruction above -/

theorem run_label {dst : StdString} {i : Instruction} (htarget : target c w e = some dst)
    (hi : instruction c w dst e = some i) (hstep : (view w).step i = some (view w')) :
    run Store.step (view w) (label c w e) = some (view w') := by
  unfold label
  rw [htarget]
  simp only [hi, Option.toList_some]
  rw [run_cons_of_step hstep, run_nil]

/-- A value that comes from outside is placed. -/
theorem run_label_place {dst : StdString} (htarget : target c w e = some dst)
    (hi : instruction c w dst e =
      some (.place dst ((step c w e).bind fun w' => (view w').placements dst)))
    (hs : step c w e = some w') {value : Option (Value ℝ J)}
    (hput : w'.blackboard = put dst value w.blackboard) (hsent : w'.sent = w.sent) :
    run Store.step (view w) (label c w e) = some (view w') := by
  refine run_label htarget hi ?_
  have hplaced : (view w').placements dst = value.bind placementOf := by
    rw [view_put hput hsent]
    exact if_pos rfl
  rw [hs, Option.bind_some, hplaced, view_put hput hsent]
  rfl

theorem run_label_of_yields {dst : StdString} {value : Option (Value ℝ J)} (hw : Rigid w)
    (hfed : FedRigid c w e) (hs : step c w e = some w') (htarget : target c w e = some dst)
    (hyields : Yields c w e value) (hput : w'.blackboard = put dst value w.blackboard)
    (hsent : w'.sent = w.sent) : run Store.step (view w) (label c w e) = some (view w') := by
  have hview := view_put hput hsent
  cases hyields with
  | written key value => exact run_label_place htarget rfl hs hput hsent
  | random name translation => exact run_label_place htarget rfl hs hput hsent
  | found hfound => exact run_label_place htarget rfl hs hput hsent
  | @applied xml tStamped t applied R hports hrotation =>
    obtain ⟨src, hsrc, hentry⟩ := applied_entry hports
    have hgiven := hfed _ (congrArg ApplyTransform.Ports.appliedTransformRotation hports)
    have hmem := mul_mem (transformToEigen_mem (hw.blackboard src _ hentry))
      ((ApplyTransform.rotation_mem_iff hrotation).mpr hgiven)
    have hi : instruction c w dst (.tick .applyTransform xml) = some (.move src dst ⟨R, t⟩) := by
      rw [instruction, hsrc, Option.map_some, appliedMotion_eq hports hrotation]
    refine run_label htarget hi ?_
    rw [Store.step, view_transform hentry, Option.map_some, hview, Option.bind_some, placementOf,
      placement_res tStamped hmem]
    rfl
  | @aligned xml tStamped hread =>
    obtain ⟨src, hsrc, hentry⟩ := transform_entry rfl hread
    have hi : instruction c w dst (.tick .alignTransform xml) = some (.pointDown src dst) := by
      rw [instruction, hsrc, Option.map_some]
    refine run_label htarget hi ?_
    rw [Store.step, view_transform hentry, Option.map_some, hview, Option.bind_some, placementOf,
      placement_aligned]
    rfl
  | @pose xml tStamped hread =>
    obtain ⟨src, hsrc, hentry⟩ := transform_entry rfl hread
    have hi : instruction c w dst (.tick .transformToPose xml) = some (.copy src dst) := by
      rw [instruction, hsrc, Option.map_some]
    refine run_label htarget hi ?_
    rw [Store.step, view_transform hentry, Option.map_some, hview, Option.bind_some, placementOf]
    rfl
  | @transform xml pStamped hread =>
    obtain ⟨src, hsrc, hentry⟩ := pose_entry hread
    have hi : instruction c w dst (.tick .poseToTransform xml) = some (.copy src dst) := by
      rw [instruction, hsrc, Option.map_some]
    refine run_label htarget hi ?_
    rw [Store.step, view_pose hentry, Option.map_some, hview, Option.bind_some, placementOf]

/-- A step that writes no entry shows a placement, or nothing happens above. -/
theorem run_label_of_unwritten (hs : step c w e = some w') (htarget : target c w e = none)
    (hsame : w'.blackboard = w.blackboard) :
    run Store.step (view w) (label c w e) = some (view w') := by
  have hsent := step_sent hs
  unfold label
  rw [htarget]
  cases hb : broadcast w e with
  | none =>
    rw [hb, Option.toList_none, List.append_nil] at hsent
    simp only [run_nil, view, hsame, hsent]
  | some t =>
    obtain ⟨node, xml, key, tStamped, rfl, hkey, hentry, hheader, htransform⟩ :=
      broadcast_entry hb
    have hshown : placementOfTransform t = placementOfTransform tStamped := by
      unfold placementOfTransform transformToEigen
      rw [hheader, htransform]
    rw [hb, Option.toList_some] at hsent
    simp only [hkey, Option.map_some, Option.toList_some]
    have hstep : (view w).step (.publish key) = some (view w') := by
      rw [Store.step, view_transform hentry, Option.map_some, ← hshown]
      simp only [view, hsame, hsent, List.map_append, List.map_cons, List.map_nil]
    rw [run_cons_of_step hstep, run_nil]

/-- **One step below is its instruction above**, while everything is rigid. -/
theorem run_label_of_step (hw : Rigid w) (hfed : FedRigid c w e) (hs : step c w e = some w') :
    run Store.step (view w) (label c w e) = some (view w') := by
  rcases step_writes hs with ⟨htarget, hsame⟩ | ⟨dst, value, htarget, hyields, hput⟩
  · exact run_label_of_unwritten hs htarget hsame
  · refine run_label_of_yields hw hfed hs htarget hyields hput ?_
    rw [step_sent hs]
    cases hyields <;> exact List.append_nil _

theorem placement_simulation (c : Conversions ℝ) :
    Refinement.Simulation (step c) Store.step (label (J := J) c) (fun w e _ => FedRigid c w e)
      fun w s => Rigid w ∧ s = view w where
  matched := by
    rintro w e w' s ⟨hw, rfl⟩ hs hfed
    exact ⟨view w', run_label_of_step hw hfed hs, rigid_step hw hs hfed, rfl⟩

/-- **The leaves compute placements.**  In every run that is fed with rigid transforms, whatever the
    wiring and the order, the placements on the blackboard and those broadcast are what the
    instructions of the steps make of the first ones: an `ApplyTransform` multiplies by an isometry
    from the right, an `AlignTransform` turns straight down, the two conversions copy, a
    `PublishTransform` shows.  Headers included; nothing is lost in a message or a quaternion. -/
theorem leaves_compute_placements (es : List (Event ℝ J)) (hw : Rigid w)
    (hfed : EachStep (step c) (fun w e _ => FedRigid c w e) w es)
    (hr : run (step c) w es = some w') :
    run Store.step (view w) (Refinement.trace (step c) (label c) w es) = some (view w') := by
  obtain ⟨s', hrun, _, rfl⟩ := (placement_simulation c).run hfed ⟨hw, rfl⟩ hr
  exact hrun

/-- A drawn transform is moved and turned straight down; the broadcast shows the result. -/
theorem leaves_compute_placements_approach :
    let c : Conversions ℝ := ⟨fun _ => none, fun _ => some [0, 0, 1]⟩
    let w : World ℝ Nat := ⟨fun _ => none, fun _ => none, []⟩
    let es : List (Event ℝ Nat) :=
      [.write (bytes "tf") (some (.transformStamped
          ⟨Header.empty, bytes "tool", ⟨⟨1, 2, 3⟩, Quaternion.identity⟩⟩)),
        .tick .applyTransform
          [(bytes "input_transform", .entry (bytes "tf")),
            (bytes "applied_transform_rotation", .literal (bytes "0;0;1")),
            (bytes "resulting_transform", .entry (bytes "turned"))],
        .tick .alignTransform
          [(bytes "transform_stamped", .entry (bytes "turned")),
            (bytes "aligned_transform", .entry (bytes "down"))],
        .tick (.publishTransform (.ok (.tree 0)))
          [(bytes "input_transform", .entry (bytes "down"))]]
    ∃ w', run (step c) w es = some w' ∧
      run Store.step (view w) (Refinement.trace (step c) (label c) w es) = some (view w') := by
  intro c w es
  have hfed : ∀ e ∈ es, ∀ w, FedRigid c w e := by
    simp only [es, List.mem_cons, List.not_mem_nil, or_false]
    rintro e (rfl | rfl | rfl | rfl) w
    · rintro v ⟨⟩
      norm_num [IsRigid, Quaternion.IsUnit, Quaternion.identity]
    · rintro applied ⟨⟩ x y z v h
      simp at h
    · trivial
    · trivial
  exact ⟨_, rfl, leaves_compute_placements es
    ⟨fun _ _ h => (by cases h), fun _ h => (by cases h)⟩
    ((eachStep_of_forall_mem w hfed).mono fun s e _ h => h s) rfl⟩

/-! ## Pointing straight down -/

/-- The Z axis is `(0, 0, -1)`. -/
def Placement.PointsDown (p : Placement) : Prop := p.isometry.linear.col 2 = ![0, 0, -1]

/-- The placements of these entries point straight down. -/
def Down (entries : Set StdString) (s : Store) : Prop :=
  ∀ key ∈ entries, ∀ p ∈ s.placements key, p.PointsDown

/-- An instruction that writes one of the entries points down, copies another of them, or moves one
    without tilting its Z axis. -/
def KeepsDown (entries : Set StdString) : Instruction → Prop
  | .place dst p => dst ∈ entries → ∀ q ∈ p, q.PointsDown
  | .move src dst motion => dst ∈ entries → src ∈ entries ∧ motion.linear.col 2 = ![0, 0, 1]
  | .pointDown _ _ => True
  | .copy src dst => dst ∈ entries → src ∈ entries
  | .publish _ => True

theorem pointDown_col (M : Matrix (Fin 3) (Fin 3) ℝ) : (pointDown M).col 2 = ![0, 0, -1] := by
  obtain ⟨a, b, _, hdown⟩ := exists_pointDown M
  rw [hdown]
  funext i
  fin_cases i <;> rfl

/-- Turning about the own Z axis keeps its direction. -/
theorem mul_col {L R : Matrix (Fin 3) (Fin 3) ℝ} (hR : R.col 2 = ![0, 0, 1]) :
    (L * R).col 2 = L.col 2 := by
  have h0 : R 0 2 = 0 := congrFun hR 0
  have h1 : R 1 2 = 0 := congrFun hR 1
  have h2 : R 2 2 = 1 := congrFun hR 2
  funext i
  show (L * R) i 2 = L i 2
  rw [Matrix.mul_apply, Fin.sum_univ_three, h0, h1, h2]
  ring

theorem Down.set {entries : Set StdString} {s : Store} (hs : Down entries s) {dst : StdString}
    {p : Option Placement} (hp : dst ∈ entries → ∀ q ∈ p, q.PointsDown) :
    Down entries (s.set dst p) := by
  intro key hkey q hq
  unfold Store.set at hq
  simp only at hq
  split at hq
  · rename_i heq
    exact hp (heq ▸ hkey) q hq
  · exact hs key hkey q hq

theorem down_step {entries : Set StdString} {s s' : Store} {i : Instruction} (hs : Down entries s)
    (hstep : s.step i = some s') (hi : KeepsDown entries i) : Down entries s' := by
  cases i with
  | place dst p =>
    cases hstep
    exact hs.set hi
  | move src dst motion =>
    obtain ⟨p, hp, rfl⟩ := Option.map_eq_some_iff.mp hstep
    refine hs.set fun hdst q hq => ?_
    cases hq
    obtain ⟨hsrc, hmotion⟩ := hi hdst
    exact (mul_col hmotion).trans (hs src hsrc p hp)
  | pointDown src dst =>
    obtain ⟨p, hp, rfl⟩ := Option.map_eq_some_iff.mp hstep
    refine hs.set fun _ q hq => ?_
    cases hq
    exact pointDown_col p.isometry.linear
  | copy src dst =>
    obtain ⟨p, hp, rfl⟩ := Option.map_eq_some_iff.mp hstep
    refine hs.set fun hdst q hq => ?_
    cases hq
    exact hs src (hi hdst) p hp
  | publish src =>
    obtain ⟨p, hp, rfl⟩ := Option.map_eq_some_iff.mp hstep
    exact hs

/-- Above: the entries point down throughout. -/
theorem down_run {entries : Set StdString} {s s' : Store} {is : List Instruction}
    (hs : Down entries s) (hr : run Store.step s is = some s')
    (his : ∀ i ∈ is, KeepsDown entries i) : Down entries s' :=
  ((eachStep_of_forall_mem s his).always hs fun _ _ _ hi hstep hg => down_step hi hstep hg).last hr

/-- Every transform and every pose in the entries points straight down. -/
def HoldsDown (entries : Set StdString) (w : World ℝ J) : Prop :=
  ∀ key ∈ entries,
    (∀ t, w.blackboard key = some (.transformStamped t) →
      (toRotationMatrix t.transform.rotation.toEigen).col 2 = ![0, 0, -1]) ∧
    ∀ p, w.blackboard key = some (.poseStamped p) →
      (toRotationMatrix p.pose.orientation.toEigen).col 2 = ![0, 0, -1]

theorem down_view_iff {entries : Set StdString} : Down entries (view w) ↔ HoldsDown entries w := by
  constructor
  · intro h key hkey
    exact ⟨fun t ht => h key hkey _ (view_transform ht), fun p hp => h key hkey _ (view_pose hp)⟩
  · intro h key hkey q hq
    obtain ⟨value, hvalue, hq⟩ := Option.bind_eq_some_iff.mp hq
    cases value with
    | transformStamped t =>
      cases hq
      exact (h key hkey).1 t hvalue
    | poseStamped p =>
      cases hq
      exact (h key hkey).2 p hvalue
    | string _ => cases hq
    | double _ => cases hq
    | doubles _ => cases hq
    | robotTrajectory _ => cases hq

/-- **What points down stays down.**  Take any set of entries whose transforms and poses point
    straight down.  In every run that is fed with rigid transforms, whatever happens to other
    entries: if each step that writes one of them is an `AlignTransform`, a conversion of another
    one of them, an `ApplyTransform` to one of them whose rotation keeps the Z axis, or places what
    points down, then every transform and every pose in them points straight down at all times. -/
theorem stays_down (entries : Set StdString) (es : List (Event ℝ J)) (hw : Rigid w)
    (hdown : HoldsDown entries w)
    (hfed : EachStep (step c)
      (fun w e _ => FedRigid c w e ∧ ∀ i ∈ label c w e, KeepsDown entries i) w es) :
    Always (step c) (HoldsDown entries) w es := by
  have hboth : Always (step c) (fun w => Rigid w ∧ Down entries (view w)) w es :=
    hfed.always ⟨hw, down_view_iff.mpr hdown⟩ fun w e w' hi hs hg =>
      ⟨rigid_step hi.1 hs hg.1, down_run hi.2 (run_label_of_step hi.1 hg.1 hs) hg.2⟩
  exact hboth.mono fun _ h => down_view_iff.mp h.2

/-! ## Wirings that keep pointing down -/

theorem mem_label {i : Instruction} (h : i ∈ label c w e) (hb : broadcast w e = none) :
    ∃ dst, target c w e = some dst ∧ instruction c w dst e = some i := by
  unfold label at h
  rw [hb] at h
  cases htarget : target c w e with
  | none =>
    rw [htarget] at h
    cases h
  | some dst =>
    rw [htarget] at h
    exact ⟨dst, rfl, Option.mem_toList.mp h⟩

/-- A yaw keeps the Z axis. -/
theorem rotation_yaw_col {yaw : ℝ} {R : Matrix (Fin 3) (Fin 3) ℝ}
    (h : ApplyTransform.rotation [0, 0, yaw] = .ok R) : R.col 2 = ![0, 0, 1] := by
  have hzero : ∀ axis : Fin 3 → ℝ, (angleAxis 0 axis).col 2 = ![0, 0, 1] := by
    intro axis
    funext i
    fin_cases i <;> simp [angleAxis, Elementary.cos, Elementary.sin]
  cases h
  rw [mul_col (hzero _), mul_col (hzero _)]
  funext i
  fin_cases i <;> simp [angleAxis]

/-- A transform is aligned, turned by a yaw and converted to a pose for the planner. -/
theorem stays_down_approach :
    let c : Conversions ℝ := ⟨fun _ => none, fun _ => some [0, 0, 1]⟩
    let tf : Value ℝ Nat :=
      .transformStamped ⟨Header.empty, bytes "tool", ⟨⟨1, 2, 3⟩, Quaternion.identity⟩⟩
    let w : World ℝ Nat := ⟨put (bytes "tf") (some tf) fun _ => none, fun _ => none, []⟩
    let es : List (Event ℝ Nat) :=
      [.tick .alignTransform
          [(bytes "transform_stamped", .entry (bytes "tf")),
            (bytes "aligned_transform", .entry (bytes "down"))],
        .tick .applyTransform
          [(bytes "input_transform", .entry (bytes "down")),
            (bytes "applied_transform_rotation", .literal (bytes "0;0;1")),
            (bytes "resulting_transform", .entry (bytes "turned"))],
        .tick .transformToPose
          [(bytes "transform_stamped", .entry (bytes "turned")),
            (bytes "pose_stamped", .entry (bytes "pose"))]]
    Always (step c) (HoldsDown {bytes "down", bytes "turned", bytes "pose"}) w es := by
  intro c tf w es
  have hw : Rigid w := by
    refine ⟨fun key value hvalue => ?_, fun _ h => (by cases h)⟩
    simp only [w, put] at hvalue
    split at hvalue
    · cases hvalue
      norm_num [tf, IsRigid, Quaternion.IsUnit, Quaternion.identity]
    · cases hvalue
  have hdown : HoldsDown {bytes "down", bytes "turned", bytes "pose"} w := by
    rintro key (rfl | rfl | rfl) <;> exact ⟨fun _ h => (by cases h), fun _ h => (by cases h)⟩
  have hfed : ∀ e ∈ es, ∀ w, FedRigid c w e ∧
      ∀ i ∈ label c w e, KeepsDown {bytes "down", bytes "turned", bytes "pose"} i := by
    simp only [es, List.mem_cons, List.not_mem_nil, or_false]
    rintro e (rfl | rfl | rfl) w
    · refine ⟨trivial, fun i hi => ?_⟩
      obtain ⟨dst, _, hi⟩ := mem_label hi rfl
      cases hi
      trivial
    · refine ⟨?_, fun i hi => ?_⟩
      · rintro applied ⟨⟩ x y z v h
        simp at h
      · obtain ⟨dst, _, hi⟩ := mem_label hi rfl
        cases hi
        exact fun _ => ⟨.inl rfl, rotation_yaw_col rfl⟩
    · refine ⟨trivial, fun i hi => ?_⟩
      obtain ⟨dst, _, hi⟩ := mem_label hi rfl
      cases hi
      exact fun _ => .inr (.inl rfl)
  exact stays_down _ es hw hdown ((eachStep_of_forall_mem w hfed).mono fun s e _ h => h s)

end SharedBlackboard

end DrtBehavior

end
