import DrtBehavior.Geometry.AlignTransform
import DrtBehavior.Geometry.ApplyTransform

/-!
# Chains of transform-editing nodes

`ApplyTransform` and `AlignTransform` rebuild the message from an Eigen value without frames;
`PublishTransform` broadcasts what they leave.

* `PublishTransform.tick` — the transform that is broadcast.
* `Edit`, `editAll` — a chain of nodes, each fed with the output of the one before.
* `tick_frames`, `editAll_frames` — what a node and a chain do to the frames.
* `frames_kept_iff` — the frames are kept exactly where no `AlignTransform` meets a child frame.
-/

set_option autoImplicit false

namespace DrtBehavior

variable {K : Type}

/-- `PublishTransform::tick`: the status and the transform that is broadcast.  `node` is the node of
    the context on the blackboard, or what reading it throws. -/
def PublishTransform.tick (inputTransform : Option (TransformStamped K))
    (newTransformName : Option StdString) (node : Except Fault NodeId) :
    Except Fault (NodeStatus × TransformStamped K) := do
  let tStamped ← required (bytes "Could not access blackboard input [input_transform]")
    inputTransform
  let tStamped :=
    match newTransformName with
    | some name => { tStamped with childFrameId := name }
    | none => tStamped
  let _ ← node
  return (.success, tStamped)

namespace EditChain

/-- A transform-editing node with what its other ports give. -/
inductive Edit (K : Type) where
  | applyTransform (translation rotation : Option (List K))
  | alignTransform

/-- What a node makes of the child frame: `AlignTransform` does not restore it. -/
def Edit.childFrame : Edit K → StdString → StdString
  | .applyTransform _ _, child => child
  | .alignTransform, _ => []

/-- The header and the child frame of `t`. -/
def SameFrames (t t' : TransformStamped K) : Prop :=
  t'.header = t.header ∧ t'.childFrameId = t.childFrameId

variable [Field K] [LinearOrder K] [Elementary K]

/-- `tick` of the node when its transform port holds `t`. -/
def Edit.tick : Edit K → TransformStamped K → Except Fault (NodeStatus × TransformStamped K)
  | .applyTransform translation rotation, t => ApplyTransform.tick ⟨some t, translation, rotation⟩
  | .alignTransform, t => AlignTransform.tick (some t)

/-- The transform behind a chain of nodes that all return SUCCESS. -/
def editAll : List (Edit K) → TransformStamped K → Option (TransformStamped K)
  | [], t => some t
  | e :: es, t =>
    match e.tick t with
    | .ok (.success, output) => editAll es output
    | _ => none

/-- **The frames behind one node.** -/
theorem tick_frames {e : Edit K} {t output : TransformStamped K} {status : NodeStatus}
    (h : e.tick t = .ok (status, output)) :
    output.header = t.header ∧ output.childFrameId = e.childFrame t.childFrameId := by
  cases e with
  | applyTransform translation rotation =>
    obtain ⟨⟨tStamped, T⟩, hT, hres⟩ := bind_eq_ok h
    obtain ⟨input, hinput, hT⟩ := bind_eq_ok hT
    obtain ⟨_, _, hT⟩ := bind_eq_ok hT
    obtain ⟨_, _, hT⟩ := bind_eq_ok hT
    obtain ⟨_, _, hT⟩ := bind_eq_ok hT
    obtain rfl : t = input := Option.some.inj (required_eq_ok.mp hinput)
    cases hT
    cases hres
    exact ⟨rfl, rfl⟩
  | alignTransform =>
    rw [Edit.tick, AlignTransform.tick_some rfl] at h
    cases h
    exact ⟨rfl, rfl⟩

/-- **The frames behind a chain.**  One `AlignTransform` anywhere in it leaves no child frame. -/
theorem editAll_frames {es : List (Edit K)} : ∀ {t t' : TransformStamped K},
    editAll es t = some t' → t'.header = t.header ∧
      (.alignTransform ∈ es → t'.childFrameId = []) ∧
      (.alignTransform ∉ es → t'.childFrameId = t.childFrameId) := by
  induction es with
  | nil =>
    intro t t' h
    cases h
    exact ⟨rfl, fun hm => (by cases hm), fun _ => rfl⟩
  | cons e es ih =>
    intro t t' h
    unfold editAll at h
    split at h
    · rename_i output htick
      obtain ⟨hheader, hchild⟩ := tick_frames htick
      obtain ⟨hheader', hlost, hkept⟩ := ih h
      refine ⟨hheader'.trans hheader, fun hm => ?_, fun hm => ?_⟩
      · by_cases hes : .alignTransform ∈ es
        · exact hlost hes
        · rcases List.mem_cons.mp hm with rfl | hes'
          · exact (hkept hes).trans hchild
          · exact absurd hes' hes
      · rw [List.mem_cons, not_or] at hm
        obtain ⟨hne, hes⟩ := hm
        rw [hkept hes, hchild]
        cases e with
        | applyTransform translation rotation => rfl
        | alignTransform => exact absurd rfl hne
    · cases h

/-- **The frames are kept exactly while no child frame meets an `AlignTransform`.**  For every
    transform and every chain of nodes that all return SUCCESS: the final transform, and what
    `PublishTransform` broadcasts of it without a new name, has the header and the child frame of
    the first input iff the chain has no `AlignTransform` or that child frame is empty. -/
theorem frames_kept_iff {edits : List (Edit K)} {t t' : TransformStamped K}
    (h : editAll edits t = some t') (node : NodeId) :
    (SameFrames t t' ∧ ∃ sent, PublishTransform.tick (some t') none (.ok node) =
        .ok (.success, sent) ∧ sent.transform = t'.transform ∧ SameFrames t sent) ↔
      .alignTransform ∉ edits ∨ t.childFrameId = [] := by
  obtain ⟨hheader, hlost, hkept⟩ := editAll_frames h
  have hsent : PublishTransform.tick (some t') none (.ok node) = .ok (.success, t') := rfl
  constructor
  · rintro ⟨⟨_, hchild⟩, -⟩
    by_cases hm : .alignTransform ∈ edits
    · exact .inr (hchild.symm.trans (hlost hm))
    · exact .inl hm
  · intro hcond
    have hsame : SameFrames t t' := by
      refine ⟨hheader, ?_⟩
      by_cases hm : .alignTransform ∈ edits
      · rw [hlost hm, hcond.resolve_left (not_not.mpr hm)]
      · exact hkept hm
    exact ⟨hsame, t', hsent, rfl, hsame⟩

/-- A tool frame that is lifted. -/
theorem frames_kept_iff_lifted :
    let t : TransformStamped ℝ :=
      ⟨⟨⟨7, 0⟩, bytes "base"⟩, bytes "tool", ⟨⟨1, 2, 3⟩, Quaternion.identity⟩⟩
    let edits : List (Edit ℝ) := [.applyTransform (some [0, 0, 1]) (some [0, 0, 0, 1])]
    ∃ t', editAll edits t = some t' ∧
      ((SameFrames t t' ∧ ∃ sent, PublishTransform.tick (some t') none (.ok (.tree 0)) =
          .ok (.success, sent) ∧ sent.transform = t'.transform ∧ SameFrames t sent) ↔
        .alignTransform ∉ edits ∨ t.childFrameId = []) := by
  intro t edits
  exact ⟨_, rfl, frames_kept_iff rfl (.tree 0)⟩

/-- The frame of a tool that is turned straight down is broadcast without a name. -/
theorem aligned_frame_unnamed :
    let t : TransformStamped ℝ :=
      ⟨⟨⟨7, 0⟩, bytes "base"⟩, bytes "tool", ⟨⟨1, 2, 3⟩, Quaternion.identity⟩⟩
    (∃ t', editAll [.alignTransform] t = some t' ∧ t'.childFrameId = [] ∧
        PublishTransform.tick (some t') none (.ok (.tree 0)) = .ok (.success, t')) ∧
      ¬ ∀ (edits : List (Edit ℝ)) (t t' : TransformStamped ℝ), editAll edits t = some t' →
        SameFrames t t' := by
  intro t
  have hedit : editAll [.alignTransform] t = some _ := rfl
  refine ⟨⟨_, hedit, rfl, rfl⟩, fun h => ?_⟩
  have hchild : ([] : StdString) = bytes "tool" := (h _ t _ hedit).2
  exact absurd hchild (by decide)

end EditChain

end DrtBehavior
