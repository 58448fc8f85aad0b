import DrtBehavior.Base.EventMachine
import DrtBehavior.Executor.TreeContext
import DrtBehavior.Geometry.CreateRandomTransform
import DrtBehavior.Geometry.EditChain
import DrtBehavior.Planning.PlanningTrees

/-!
# The leaves of geometry_behavior over one blackboard

Seven leaves that read and write stamped transforms and poses, in any number, connected to any
entries and ticked in any order, while anyone else may write the blackboard.

* `Leaf`, `World.tick` — one tick of each, with its ports as the XML connects them; `AsyncTfLookup`
  keeps the frames of its `onStart` while it is RUNNING.
* `Yields` — where a value that a step writes comes from; `step_writes`, `step_sent` — everything a
  step can do.
* `Rigid` — every transform and every pose on the blackboard, and every transform broadcast, has a
  unit quaternion.
* `transforms_stay_rigid` — so it remains in every run that is fed with rigid ones.
-/

set_option autoImplicit false

namespace DrtBehavior

variable {K J : Type}

/-- `TransformToPose::tick`: the status and the value set on port `pose_stamped`. -/
def TransformToPose.tick (transformStamped : Option (TransformStamped K)) :
    Except Fault (NodeStatus × PoseStamped K) := do
  let tStamped ← required (bytes "Could not access blackboard input [transform_stamped]")
    transformStamped
  return (.success, TransformToPose.toPose tStamped)

/-- The transform `PoseToTransform::tick` computes; the child frame stays empty. -/
def PoseToTransform.toTransform (p : PoseStamped K) : TransformStamped K where
  header := p.header
  childFrameId := []
  transform := ⟨p.pose.position, p.pose.orientation⟩

/-- `PoseToTransform::tick`: the status and the value set on port `transform_stamped`. -/
def PoseToTransform.tick (poseStamped : Option (PoseStamped K)) :
    Except Fault (NodeStatus × TransformStamped K) := do
  let pStamped ← required (bytes "Could not access blackboard input [pose_stamped]") poseStamped
  return (.success, PoseToTransform.toTransform pStamped)

namespace SharedBlackboard

open EventMachine

/-- What tf2 finds in a buffer for two frames, if anything. -/
abbrev LookupTransform (K : Type) := TfBuffer → StdString → StdString → Option (TransformStamped K)

/-- A leaf, with what its tick takes from elsewhere than the blackboard: the draw, the transforms
    known at that time and the context, or the node of the context. -/
inductive Leaf (K : Type) where
  | createRandomTransform (random : Fin 3 → K)
  | asyncTfLookup (uid : UInt16) (lookupTransform : LookupTransform K)
      (context : Option DRTTreeContext)
  | applyTransform
  | alignTransform
  | transformToPose
  | poseToTransform
  | publishTransform (node : Except Fault NodeId)

/-- The blackboard, the frames of each `AsyncTfLookup` that is RUNNING, and what was broadcast. -/
structure World (K J : Type) where
  blackboard : Blackboard K J
  lookups : UInt16 → Option (StdString × StdString)
  sent : List (TransformStamped K)

inductive Event (K J : Type) where
  | tick (leaf : Leaf K) (xml : NodeXml)
  | haltLookup (uid : UInt16)
  | write (key : StdString) (value : Option (Value K J))

/-- One entry is overwritten, or removed. -/
def put (key : StdString) (value : Option (Value K J)) (blackboard : Blackboard K J) :
    Blackboard K J := fun k => if k = key then value else blackboard k

/-- The entry a port is bound to. -/
def entryOf (xml : NodeXml) (port : StdString) : Option StdString :=
  match xml.lookup port with
  | some (.entry key) => some key
  | _ => none

/-! ## One tick of each leaf -/

section Ticks

variable (xml : NodeXml) (w : World K J)

def World.readTransform (port : String) : Option (TransformStamped K) :=
  getInput Value.asTransformStamped [] xml (bytes port) w.blackboard

def World.readString (port : String) : Option StdString :=
  getInput Value.asString [] xml (bytes port) w.blackboard

/-- A computation that may throw, then `setOutput` with what it gives. -/
def World.settle {T : Type} (port : String) (inject : T → Value K J)
    (result : Except Fault (NodeStatus × T)) : Except Fault NodeStatus × World K J :=
  match result with
  | .error fault => (.error fault, w)
  | .ok (status, value) =>
    (.ok status, { w with blackboard := setOutput xml (bytes port) (inject value) w.blackboard })

/-- What the tick of `AsyncTfLookup` does: `onStart` with the ports, `onRunning` with the frames
    that `onStart` has read. -/
def World.lookup (uid : UInt16) (lookupTransform : LookupTransform K)
    (context : Option DRTTreeContext) : Except Fault (NodeStatus × Option (TransformStamped K)) :=
  match w.lookups uid with
  | none =>
    AsyncTfLookup.onStart lookupTransform (w.readString xml "base_frame")
      (w.readString xml "target_frame") context
  | some (baseFrame, targetFrame) =>
    AsyncTfLookup.onRunning lookupTransform baseFrame targetFrame context

/-- The members `base_frame` and `target_frame` after `onStart`. -/
def World.framesOf (uid : UInt16) : Option (StdString × StdString) :=
  match w.lookups uid with
  | none =>
    (w.readString xml "base_frame").bind fun baseFrame =>
      (w.readString xml "target_frame").map fun targetFrame => (baseFrame, targetFrame)
  | some frames => some frames

variable [Field K] [LinearOrder K] [Elementary K] (c : Conversions K)

/-- One tick of a leaf. -/
def World.tick : Leaf K → Except Fault NodeStatus × World K J
  | .createRandomTransform random =>
    w.settle xml "transform" .transformStamped
      (CreateRandomTransform.tick random (CreateRandomTransform.readPorts c xml w.blackboard))
  | .asyncTfLookup uid lookupTransform context =>
    match w.lookup xml uid lookupTransform context with
    | .error fault => (.error fault, w)
    | .ok (status, output) =>
      (.ok status,
        { w with
          blackboard :=
            match output with
            | some tf => setOutput xml (bytes "tf") (.transformStamped tf) w.blackboard
            | none => w.blackboard
          lookups := fun u =>
            if u = uid then (if status = .running then w.framesOf xml uid else none)
            else w.lookups u })
  | .applyTransform =>
    w.settle xml "resulting_transform" .transformStamped
      (ApplyTransform.tick (ApplyTransform.readPorts c xml w.blackboard))
  | .alignTransform =>
    w.settle xml "aligned_transform" .transformStamped
      (AlignTransform.tick (w.readTransform xml "transform_stamped"))
  | .transformToPose =>
    w.settle xml "pose_stamped" .poseStamped
      (TransformToPose.tick (w.readTransform xml "transform_stamped"))
  | .poseToTransform =>
    w.settle xml "transform_stamped" .transformStamped
      (PoseToTransform.tick
        (getInput Value.asPoseStamped [] xml (bytes "pose_stamped") w.blackboard))
  | .publishTransform node =>
    match PublishTransform.tick (w.readTransform xml "input_transform")
        (w.readString xml "new_transform_name") node with
    | .error fault => (.error fault, w)
    | .ok (status, tStamped) => (.ok status, { w with sent := w.sent ++ [tStamped] })

/-- Ticks of any leaves, halts, and writes by others. -/
def step (w : World K J) : Event K J → Option (World K J)
  | .tick leaf xml => some (w.tick xml c leaf).2
  | .haltLookup uid =>
    some { w with lookups := fun u => if u = uid then none else w.lookups u }
  | .write key value => some { w with blackboard := put key value w.blackboard }

end Ticks

/-! ## Everything a step can do -/

/-- The port a leaf sets. -/
def Leaf.output : Leaf K → Option String
  | .createRandomTransform _ => some "transform"
  | .asyncTfLookup _ _ _ => some "tf"
  | .applyTransform => some "resulting_transform"
  | .alignTransform => some "aligned_transform"
  | .transformToPose => some "pose_stamped"
  | .poseToTransform => some "transform_stamped"
  | .publishTransform _ => none

section Steps

variable [Field K] [LinearOrder K] [Elementary K] (c : Conversions K) (w : World K J)

/-- The entry a step writes. -/
def target : Event K J → Option StdString
  | .tick leaf xml =>
    match (w.tick xml c leaf).1 with
    | .ok .success => leaf.output.bind fun port => entryOf xml (bytes port)
    | _ => none
  | .haltLookup _ => none
  | .write key _ => some key

/-- The transform a step broadcasts. -/
def broadcast : Event K J → Option (TransformStamped K)
  | .tick (.publishTransform node) xml =>
    match PublishTransform.tick (w.readTransform xml "input_transform")
        (w.readString xml "new_transform_name") node with
    | .ok (_, tStamped) => some tStamped
    | .error _ => none
  | _ => none

/-- Where the value that a step writes comes from. -/
inductive Yields : Event K J → Option (Value K J) → Prop where
  | written (key : StdString) (value : Option (Value K J)) : Yields (.write key value) value
  | random {random : Fin 3 → K} {xml : NodeXml} (transformName : StdString)
      (translation : Fin 3 → K) :
      Yields (.tick (.createRandomTransform random) xml)
        (some (.transformStamped (CreateRandomTransform.tStamped transformName translation)))
  | found {uid : UInt16} {lookupTransform : LookupTransform K} {context : Option DRTTreeContext}
      {xml : NodeXml} {buffer : TfBuffer} {baseFrame targetFrame : StdString}
      {tf : TransformStamped K} (h : lookupTransform buffer baseFrame targetFrame = some tf) :
      Yields (.tick (.asyncTfLookup uid lookupTransform context) xml)
        (some (.transformStamped tf))
  | applied {xml : NodeXml} {tStamped : TransformStamped K} {t : Fin 3 → K} {applied : List K}
      {R : Matrix (Fin 3) (Fin 3) K}
      (hports : ApplyTransform.readPorts c xml w.blackboard =
        ⟨some tStamped, some (coefficients t), some applied⟩)
      (hrotation : ApplyTransform.rotation applied = .ok R) :
      Yields (.tick .applyTransform xml) (some (.transformStamped
        (ApplyTransform.res tStamped (transformToEigen tStamped * ⟨R, t⟩))))
  | aligned {xml : NodeXml} {tStamped : TransformStamped K}
      (hread : w.readTransform xml "transform_stamped" = some tStamped) :
      Yields (.tick .alignTransform xml) (some (.transformStamped
        { eigenToTransform ⟨AlignTransform.alignedLinear (transformToEigen tStamped).linear,
            (transformToEigen tStamped).translation⟩ with
          header := tStamped.header }))
  | pose {xml : NodeXml} {tStamped : TransformStamped K}
      (hread : w.readTransform xml "transform_stamped" = some tStamped) :
      Yields (.tick .transformToPose xml)
        (some (.poseStamped (TransformToPose.toPose tStamped)))
  | transform {xml : NodeXml} {pStamped : PoseStamped K}
      (hread : getInput Value.asPoseStamped [] xml (bytes "pose_stamped") w.blackboard =
        some pStamped) :
      Yields (.tick .poseToTransform xml)
        (some (.transformStamped (PoseToTransform.toTransform pStamped)))

variable {c w}

omit [Field K] [LinearOrder K] [Elementary K] in
theorem setOutput_eq (xml : NodeXml) (port : StdString) (value : Value K J)
    (blackboard : Blackboard K J) :
    setOutput xml port value blackboard =
      match entryOf xml port with
      | some key => put key (some value) blackboard
      | none => blackboard := by
  unfold setOutput entryOf
  cases xml.lookup port with
  | none => rfl
  | some binding => cases binding <;> rfl

/-- What a step does to the blackboard. -/
def Writes (c : Conversions K) (w : World K J) (e : Event K J) (w' : World K J) : Prop :=
  (target c w e = none ∧ w'.blackboard = w.blackboard) ∨
    ∃ key value, target c w e = some key ∧ Yields c w e value ∧
      w'.blackboard = put key value w.blackboard

theorem writes_of_fault {leaf : Leaf K} {xml : NodeXml} {fault : Fault}
    (h : w.tick xml c leaf = (.error fault, w)) :
    Writes c w (.tick leaf xml) (w.tick xml c leaf).2 := by
  refine .inl ⟨?_, ?_⟩
  · rw [target, h]
  · rw [h]

theorem writes_of_success {leaf : Leaf K} {xml : NodeXml} {port : String} {value : Value K J}
    {w' : World K J} (hport : leaf.output = some port)
    (hyields : Yields c w (.tick leaf xml) (some value))
    (htick : w.tick xml c leaf = (.ok .success, w'))
    (hw' : w'.blackboard = setOutput xml (bytes port) value w.blackboard) :
    Writes c w (.tick leaf xml) (w.tick xml c leaf).2 := by
  have htarget : target c w (.tick leaf xml) = entryOf xml (bytes port) := by
    rw [target, htick, hport]
    rfl
  rw [Writes, htarget, htick, hw', setOutput_eq]
  cases entryOf xml (bytes port) with
  | none => exact .inl ⟨rfl, rfl⟩
  | some key => exact .inr ⟨key, some value, rfl, hyields, rfl⟩

/-- A leaf that computes and then sets its port. -/
theorem writes_settle {T : Type} {leaf : Leaf K} {xml : NodeXml} {port : String}
    {inject : T → Value K J} {result : Except Fault (NodeStatus × T)}
    (hport : leaf.output = some port)
    (htick : w.tick xml c leaf = w.settle xml port inject result)
    (hresult : ∀ status value, result = .ok (status, value) →
      status = .success ∧ Yields c w (.tick leaf xml) (some (inject value))) :
    Writes c w (.tick leaf xml) (w.tick xml c leaf).2 := by
  cases hr : result with
  | error fault =>
    rw [hr] at htick
    exact writes_of_fault htick
  | ok outcome =>
    obtain ⟨status, value⟩ := outcome
    obtain ⟨rfl, hyields⟩ := hresult status value hr
    rw [hr] at htick
    exact writes_of_success hport hyields htick rfl

theorem createRandomTransform_yields {random : Fin 3 → K} {ports : CreateRandomTransform.Ports K}
    {status : NodeStatus} {t : TransformStamped K}
    (h : CreateRandomTransform.tick random ports = .ok (status, t)) :
    status = .success ∧
      ∃ name translation, t = CreateRandomTransform.tStamped name translation := by
  rcases CreateRandomTransform.tick_cases random ports with
    ⟨_, _, herr⟩ | ⟨_, _, herr⟩ | ⟨_, name, _, _, _, _, _, hok⟩
  · rw [herr] at h
    cases h
  · rw [herr] at h
    cases h
  · rw [hok] at h
    cases h
    exact ⟨rfl, name, _, rfl⟩

omit [Field K] [LinearOrder K] [Elementary K] in
theorem asyncTfLookup_yields {lookupTransform : LookupTransform K}
    {baseFrame targetFrame : StdString} {context : Option DRTTreeContext} {status : NodeStatus}
    {output : Option (TransformStamped K)}
    (h : AsyncTfLookup.lookup lookupTransform baseFrame targetFrame context =
      .ok (status, output)) :
    (status = .running ∧ output = none) ∨ (status = .success ∧ ∃ tf buffer,
      output = some tf ∧ lookupTransform buffer baseFrame targetFrame = some tf) := by
  obtain ⟨buffer, _, h⟩ := bind_eq_ok h
  split at h
  · rename_i tf hfound
    cases h
    exact .inr ⟨rfl, tf, buffer, rfl, hfound⟩
  · cases h
    exact .inl ⟨rfl, rfl⟩

omit [Field K] [LinearOrder K] [Elementary K] in
theorem lookup_yields {xml : NodeXml} {uid : UInt16} {lookupTransform : LookupTransform K}
    {context : Option DRTTreeContext} {status : NodeStatus} {output : Option (TransformStamped K)}
    (h : w.lookup xml uid lookupTransform context = .ok (status, output)) :
    (status = .running ∧ output = none) ∨ (status = .success ∧ ∃ tf buffer baseFrame targetFrame,
      output = some tf ∧ lookupTransform buffer baseFrame targetFrame = some tf) := by
  have hlookup : ∃ baseFrame targetFrame,
      AsyncTfLookup.lookup lookupTransform baseFrame targetFrame context =
        .ok (status, output) := by
    unfold World.lookup at h
    split at h
    · unfold AsyncTfLookup.onStart at h
      split at h
      · cases h
      · split at h
        · cases h
        · exact ⟨_, _, h⟩
    · obtain ⟨result, hresult, h⟩ := bind_eq_ok h
      obtain ⟨_, _, h⟩ := bind_eq_ok h
      cases h
      exact ⟨_, _, hresult⟩
  obtain ⟨baseFrame, targetFrame, hlookup⟩ := hlookup
  rcases asyncTfLookup_yields hlookup with hrun | ⟨hstatus, tf, buffer, houtput, hfound⟩
  · exact .inl hrun
  · exact .inr ⟨hstatus, tf, buffer, baseFrame, targetFrame, houtput, hfound⟩

theorem writes_asyncTfLookup (uid : UInt16) (lookupTransform : LookupTransform K)
    (context : Option DRTTreeContext) (xml : NodeXml) :
    Writes c w (.tick (.asyncTfLookup uid lookupTransform context) xml)
      (w.tick xml c (.asyncTfLookup uid lookupTransform context)).2 := by
  cases hr : w.lookup xml uid lookupTransform context with
  | error fault =>
    have htick : w.tick xml c (.asyncTfLookup uid lookupTransform context) = (.error fault, w) := by
      rw [World.tick, hr]
    exact writes_of_fault htick
  | ok outcome =>
    obtain ⟨status, output⟩ := outcome
    rcases lookup_yields hr with ⟨rfl, rfl⟩ | ⟨rfl, tf, buffer, baseFrame, targetFrame, rfl, hfound⟩
    · -- RUNNING: the blackboard stays as it is
      refine .inl ⟨?_, ?_⟩
      · rw [target, World.tick, hr]
      · rw [World.tick, hr]
    · obtain ⟨w', htick, hw'⟩ : ∃ w', w.tick xml c (.asyncTfLookup uid lookupTransform context) =
          (.ok .success, w') ∧
          w'.blackboard = setOutput xml (bytes "tf") (.transformStamped tf) w.blackboard := by
        rw [World.tick, hr]
        exact ⟨_, rfl, rfl⟩
      exact writes_of_success rfl (.found hfound) htick hw'

/-- **Everything a step can do to the blackboard.** -/
theorem step_writes {w' : World K J} {e : Event K J} (h : step c w e = some w') :
    Writes c w e w' := by
  cases e with
  | haltLookup uid =>
    cases h
    exact .inl ⟨rfl, rfl⟩
  | write key value =>
    cases h
    exact .inr ⟨key, value, rfl, .written key value, rfl⟩
  | tick leaf xml =>
    obtain rfl : (w.tick xml c leaf).2 = w' := Option.some.inj h
    cases leaf with
    | createRandomTransform random =>
      refine writes_settle rfl rfl fun status t hr => ?_
      obtain ⟨hstatus, name, translation, rfl⟩ := createRandomTransform_yields hr
      exact ⟨hstatus, .random name translation⟩
    | asyncTfLookup uid lookupTransform context =>
      exact writes_asyncTfLookup uid lookupTransform context xml
    | applyTransform =>
      refine writes_settle rfl rfl fun status t hr => ?_
      rcases ApplyTransform.tick_cases (ApplyTransform.readPorts c xml w.blackboard) with
        ⟨_, _, herr⟩ | ⟨_, tStamped, v, applied, R, hports, hrotation, _, hok⟩
      · rw [herr] at hr
        cases hr
      · rw [hok] at hr
        cases hr
        exact ⟨rfl, .applied hports hrotation⟩
    | alignTransform =>
      refine writes_settle rfl rfl fun status t hr => ?_
      obtain ⟨tStamped, hread, hr⟩ := bind_eq_ok hr
      cases hr
      exact ⟨rfl, .aligned (required_eq_ok.mp hread)⟩
    | transformToPose =>
      refine writes_settle rfl rfl fun status p hr => ?_
      obtain ⟨tStamped, hread, hr⟩ := bind_eq_ok hr
      cases hr
      exact ⟨rfl, .pose (required_eq_ok.mp hread)⟩
    | poseToTransform =>
      refine writes_settle rfl rfl fun status t hr => ?_
      obtain ⟨pStamped, hread, hr⟩ := bind_eq_ok hr
      cases hr
      exact ⟨rfl, .transform (required_eq_ok.mp hread)⟩
    | publishTransform node =>
      refine .inl ⟨?_, ?_⟩
      · rw [target]
        split <;> rfl
      · rw [World.tick]
        split <;> rfl

/-- What a step broadcasts is added to what was broadcast. -/
theorem step_sent {w' : World K J} {e : Event K J} (h : step c w e = some w') :
    w'.sent = w.sent ++ (broadcast w e).toList := by
  have hsettle : ∀ {T : Type} (xml : NodeXml) (port : String) (inject : T → Value K J)
      (result : Except Fault (NodeStatus × T)),
      (w.settle xml port inject result).2.sent = w.sent := by
    intro T xml port inject result
    unfold World.settle
    split <;> rfl
  cases e with
  | haltLookup uid =>
    cases h
    exact (List.append_nil _).symm
  | write key value =>
    cases h
    exact (List.append_nil _).symm
  | tick leaf xml =>
    obtain rfl : (w.tick xml c leaf).2 = w' := Option.some.inj h
    cases leaf with
    | asyncTfLookup uid lookupTransform context =>
      refine Eq.trans ?_ (List.append_nil _).symm
      rw [World.tick]
      split <;> rfl
    | publishTransform node =>
      rw [World.tick, broadcast]
      split
      · rename_i fault hr
        rw [hr]
        exact (List.append_nil _).symm
      · rename_i status t hr
        rw [hr]
        rfl
    | _ => exact (hsettle xml _ _ _).trans (List.append_nil _).symm

end Steps

/-! ## What was read -/

/-- A value that a text cannot be converted to is read from an entry. -/
theorem getInput_entry {T : Type} {as : Value K J → Option T}
    {defaults : List (StdString × Value K J)} {xml : NodeXml} {port : StdString}
    {blackboard : Blackboard K J} {x : T} (hdefault : defaults.lookup port = none)
    (hstring : ∀ s, as (.string s) = none) (h : getInput as defaults xml port blackboard = some x) :
    ∃ key value, entryOf xml port = some key ∧ blackboard key = some value ∧
      as value = some x := by
  unfold getInput at h
  unfold entryOf
  split at h
  · rename_i key hkey
    obtain ⟨value, hvalue, has⟩ := Option.bind_eq_some_iff.mp h
    exact ⟨key, value, by rw [hkey], hvalue, has⟩
  · rw [hstring] at h
    cases h
  · rw [hdefault] at h
    cases h

theorem transform_entry {defaults : List (StdString × Value K J)} {xml : NodeXml}
    {port : StdString} {blackboard : Blackboard K J} {t : TransformStamped K}
    (hdefault : defaults.lookup port = none)
    (h : getInput Value.asTransformStamped defaults xml port blackboard = some t) :
    ∃ key, entryOf xml port = some key ∧ blackboard key = some (.transformStamped t) := by
  obtain ⟨key, value, hkey, hvalue, has⟩ := getInput_entry hdefault (fun _ => rfl) h
  obtain rfl := Value.asTransformStamped_eq has
  exact ⟨key, hkey, hvalue⟩

theorem pose_entry {xml : NodeXml} {port : StdString} {blackboard : Blackboard K J}
    {p : PoseStamped K} (h : getInput Value.asPoseStamped [] xml port blackboard = some p) :
    ∃ key, entryOf xml port = some key ∧ blackboard key = some (.poseStamped p) := by
  obtain ⟨key, value, hkey, hvalue, has⟩ := getInput_entry rfl (fun _ => rfl) h
  obtain rfl := Value.asPoseStamped_eq has
  exact ⟨key, hkey, hvalue⟩

/-- The input of an `ApplyTransform` that got as far as multiplying. -/
theorem applied_entry [Field K] {c : Conversions K} {xml : NodeXml} {w : World K J}
    {tStamped : TransformStamped K} {translation rotation : Option (List K)}
    (h : ApplyTransform.readPorts c xml w.blackboard = ⟨some tStamped, translation, rotation⟩) :
    ∃ key, entryOf xml (bytes "input_transform") = some key ∧
      w.blackboard key = some (.transformStamped tStamped) :=
  transform_entry rfl (congrArg ApplyTransform.Ports.inputTransform h)

/-- A broadcast is a transform of the blackboard, perhaps under another name. -/
theorem broadcast_entry {w : World K J} {e : Event K J} {t : TransformStamped K}
    (h : broadcast w e = some t) :
    ∃ node xml key tStamped, e = .tick (.publishTransform node) xml ∧
      entryOf xml (bytes "input_transform") = some key ∧
      w.blackboard key = some (.transformStamped tStamped) ∧
      t.header = tStamped.header ∧ t.transform = tStamped.transform := by
  unfold broadcast at h
  split at h
  · rename_i node xml
    split at h
    · rename_i status sent hr
      cases h
      obtain ⟨tStamped, hread, hr⟩ := bind_eq_ok hr
      obtain ⟨_, _, hr⟩ := bind_eq_ok hr
      obtain ⟨key, hkey, hentry⟩ := transform_entry rfl (required_eq_ok.mp hread)
      refine ⟨node, xml, key, tStamped, rfl, hkey, hentry, ?_⟩
      cases hr
      split <;> exact ⟨rfl, rfl⟩
    · cases h
  · cases h

/-! ## Unit quaternions -/

/-- A stamped transform or pose has a unit quaternion. -/
def IsRigid : Value ℝ J → Prop
  | .transformStamped t => t.transform.rotation.IsUnit
  | .poseStamped p => p.pose.orientation.IsUnit
  | _ => True

structure Rigid (w : World ℝ J) : Prop where
  blackboard : ∀ key value, w.blackboard key = some value → IsRigid value
  sent : ∀ t ∈ w.sent, t.transform.rotation.IsUnit

/-- What comes from outside is rigid: the values others write, the transforms tf2 finds, and the
    rotations that an `ApplyTransform` is given. -/
def FedRigid (c : Conversions ℝ) (w : World ℝ J) : Event ℝ J → Prop
  | .write _ value => ∀ v ∈ value, IsRigid v
  | .tick (.asyncTfLookup _ lookupTransform _) _ =>
    ∀ buffer baseFrame targetFrame, ∀ tf ∈ lookupTransform buffer baseFrame targetFrame,
      tf.transform.rotation.IsUnit
  | .tick .applyTransform xml =>
    ∀ applied ∈ (ApplyTransform.readPorts c xml w.blackboard).appliedTransformRotation,
      ApplyTransform.RotationGiven applied
  | _ => True

variable {c : Conversions ℝ} {w : World ℝ J} {e : Event ℝ J}

theorem Yields.rigid {value : Option (Value ℝ J)} (h : Yields c w e value) (hw : Rigid w)
    (hfed : FedRigid c w e) : ∀ v ∈ value, IsRigid v := by
  cases h with
  | written key value => exact hfed
  | random name translation =>
    rintro v ⟨⟩
    exact eigenToTransform_isUnit (one_mem _)
  | found hfound =>
    rintro v ⟨⟩
    exact hfed _ _ _ _ hfound
  | applied hports hrotation =>
    rintro v ⟨⟩
    obtain ⟨key, _, hentry⟩ := applied_entry hports
    have hinput := transformToEigen_mem (hw.blackboard key _ hentry)
    have hgiven := hfed _ (congrArg ApplyTransform.Ports.appliedTransformRotation hports)
    exact eigenToTransform_isUnit
      (mul_mem hinput ((ApplyTransform.rotation_mem_iff hrotation).mpr hgiven))
  | @aligned _ tStamped hread =>
    rintro v ⟨⟩
    -- whatever the input is
    obtain ⟨a, b, hunit, hlinear, _⟩ :=
      AlignTransform.alignedLinear_cases (transformToEigen tStamped).linear
    refine eigenToTransform_isUnit ?_
    rw [hlinear]
    exact AlignTransform.downward_mem hunit
  | pose hread =>
    rintro v ⟨⟩
    obtain ⟨key, _, hentry⟩ := transform_entry rfl hread
    have hunit := hw.blackboard key _ hentry
    exact hunit
  | transform hread =>
    rintro v ⟨⟩
    obtain ⟨key, _, hentry⟩ := pose_entry hread
    have hunit := hw.blackboard key _ hentry
    exact hunit

theorem rigid_step {w' : World ℝ J} (hw : Rigid w) (hs : step c w e = some w')
    (hfed : FedRigid c w e) : Rigid w' where
  blackboard key value hvalue := by
    rcases step_writes hs with ⟨_, hsame⟩ | ⟨key', value', _, hyields, hput⟩
    · rw [hsame] at hvalue
      exact hw.blackboard key value hvalue
    · rw [hput, put] at hvalue
      split at hvalue
      · exact hyields.rigid hw hfed value hvalue
      · exact hw.blackboard key value hvalue
  sent t ht := by
    rw [step_sent hs, List.mem_append, Option.mem_toList] at ht
    rcases ht with ht | ht
    · exact hw.sent t ht
    · obtain ⟨_, _, key, tStamped, _, _, hentry, _, htransform⟩ := broadcast_entry ht
      rw [htransform]
      exact hw.blackboard key _ hentry

/-- **Every transform and pose stays rigid.**  For any number of the seven leaves, connected to any
    entries and ticked in any order, with halts and writes of others in between: as long as what
    comes from outside is rigid, every stamped transform and every pose on the blackboard, and
    every transform ever broadcast, has a unit quaternion. -/
theorem transforms_stay_rigid (es : List (Event ℝ J)) (hw : Rigid w)
    (hfed : EachStep (step c) (fun w e _ => FedRigid c w e) w es) :
    Always (step c) Rigid w es :=
  hfed.always hw fun _ _ _ hi hs hg => rigid_step hi hs hg

/-- The drop-off transform, turned by a yaw and broadcast. -/
theorem transforms_stay_rigid_dropoff :
    let c : Conversions ℝ := ⟨fun _ => none, fun _ => some [0, 0, 1]⟩
    let w : World ℝ Nat := ⟨fun _ => none, fun _ => none, []⟩
    let es : List (Event ℝ Nat) :=
      [.tick (.createRandomTransform fun _ => 0)
        [(bytes "transform_name", .literal (bytes "bag_dropoff")),
          (bytes "transform", .entry (bytes "transform"))],
        .tick .applyTransform
          [(bytes "input_transform", .entry (bytes "transform")),
            (bytes "applied_transform_rotation", .literal (bytes "0;0;1")),
            (bytes "resulting_transform", .entry (bytes "grasp"))],
        .tick (.publishTransform (.ok (.tree 0)))
          [(bytes "input_transform", .entry (bytes "grasp"))]]
    Always (step c) Rigid w es := by
  intro c w es
  refine transforms_stay_rigid es ⟨fun _ _ h => (by cases h), fun _ h => (by cases h)⟩ ?_
  have hfed : ∀ e ∈ es, ∀ w, FedRigid c w e := by
    simp only [es, List.mem_cons, List.not_mem_nil, or_false]
    rintro e (rfl | rfl | rfl) w
    · trivial
    · rintro applied ⟨⟩ x y z v h
      simp at h
    · trivial
  exact (eachStep_of_forall_mem w hfed).mono fun s e _ h => h s

end SharedBlackboard

end DrtBehavior
