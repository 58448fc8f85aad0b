import DrtBehavior.Perception.SyncedFrames

/-!
# Colour blobs in synchronized frames

The tree `ColorToolsTest` of `color_tools_behavior`: `GetSyncedImagePointCloudDepth`, then
`DetectColorBlobs`, which reads the frames back from the blackboard one by one, on a thread of its
own, while the callback of the synchronizer may still run.

* `ports`, `Port.read`, `BlobRequest` — the six reads of `tick`, in order; the first three give
  frames.
* `System`, `step` — both nodes; the tick thread waits while the detection runs.
* `Undisturbed` — nothing disturbs the frames, and no frame that the detection has yet to read is
  written while it runs.
* `detects_in_one_set` — then every detection looks at one synchronized set of the last activation,
  and every blob pose on the blackboard was found in one set.
* `mixed_request` — a second match during the reads mixes two sets.
-/

set_option autoImplicit false

namespace DrtBehavior

namespace DetectColorBlobs

open EventMachine
open SyncedFrames (Output Invocation syncCallback)

/-- The ports that `tick` reads. -/
inductive Port where
  | rgbImage
  | depthImage
  | cameraInfo
  | desiredBlob
  | minBlobSize
  | blobColor
  deriving DecidableEq, Repr

/-- In the order of the reads. -/
def ports : List Port :=
  [.rgbImage, .depthImage, .cameraInfo, .desiredBlob, .minBlobSize, .blobColor]

/-- `color_blob_centroid::BlobRequest`; a frame is `none` before the first read. -/
structure BlobRequest (M K : Type) where
  colorImg : Option M
  depthImg : Option M
  cameraInfo : Option M
  desiredBlob : UInt8
  minBlobSize : K
  blobColor : StdString

/-- What the ports give that are not frames; `none` is a failed read. -/
structure Config (K : Type) where
  desiredBlob : Option UInt8
  minBlobSize : Option K
  blobColor : Option StdString

/-- Both nodes.  The request has its frames with the invocations that have set them; `executed`
    counts the statements of a `tick` under way, and `result` is what the last one has returned or
    thrown. -/
structure System (M K P I : Type) where
  frames : SyncedFrames.State M
  executed : Option Nat
  blobRequest : BlobRequest (Nat × M) K
  blobPose : Option P
  maskImage : Option I
  result : Option (Except Fault NodeStatus)

inductive Event (M K : Type) where
  | frames (e : SyncedFrames.Event M)
  | detect (config : Config K)

variable {M K P I : Type}

/-- The text of a failed read names a port of another behaviour. -/
def Port.failure : Port → Fault
  | .rgbImage => .runtimeError (bytes "Could not access blackboard input [base_frame]")
  | _ => .runtimeError (bytes "Could not access blackboard input [target_frame]")

/-- `getInput` into the member `blob_request`. -/
def Port.read (outputs : Output → Option (Nat × M)) (config : Config K)
    (request : BlobRequest (Nat × M) K) : Port → Option (BlobRequest (Nat × M) K)
  | .rgbImage => (outputs .rgbImage).map fun m => { request with colorImg := some m }
  | .depthImage => (outputs .depthImage).map fun m => { request with depthImg := some m }
  | .cameraInfo => (outputs .rgbCameraInfo).map fun m => { request with cameraInfo := some m }
  | .desiredBlob => config.desiredBlob.map fun n => { request with desiredBlob := n }
  | .minBlobSize => config.minBlobSize.map fun x => { request with minBlobSize := x }
  | .blobColor => config.blobColor.map fun s => { request with blobColor := s }

/-- The request as `processBlobs` sees it. -/
def BlobRequest.content (r : BlobRequest (Nat × M) K) : BlobRequest M K where
  colorImg := r.colorImg.map Prod.snd
  depthImg := r.depthImg.map Prod.snd
  cameraInfo := r.cameraInfo.map Prod.snd
  desiredBlob := r.desiredBlob
  minBlobSize := r.minBlobSize
  blobColor := r.blobColor

/-- The numbers of a request are arbitrary before the first read. -/
def System.initial (desiredBlob : UInt8) (minBlobSize : K) : System M K P I where
  frames := SyncedFrames.State.initial
  executed := none
  blobRequest := ⟨none, none, none, desiredBlob, minBlobSize, []⟩
  blobPose := none
  maskImage := none
  result := none

/-- A step of the tick thread. -/
def onTickThread : SyncedFrames.Event M → Bool
  | .invoke _ => false
  | .execute _ => false
  | _ => true

/-- `GetSyncedImagePointCloudDepth` succeeds. -/
def succeeds (s : SyncedFrames.State M) : SyncedFrames.Event M → Bool
  | .onRunning nodeAlive timedOut =>
    decide (s.phase = .running ∧ (SyncedFrames.onRunning nodeAlive timedOut s).1 = .success)
  | _ => false

/-- The next statement of `tick`; `processBlobs` gives the pose and the image of a success. -/
def detect (processBlobs : BlobRequest M K → Option (P × I)) (config : Config K)
    (s : System M K P I) (k : Nat) : System M K P I :=
  match ports[k]? with
  | some port =>
    match port.read s.frames.outputs config s.blobRequest with
    | some request => { s with blobRequest := request, executed := some (k + 1) }
    | none => { s with executed := none, result := some (.error port.failure) }
  | none =>
    match processBlobs s.blobRequest.content with
    | some (pose, image) =>
      { s with
        executed := none
        blobPose := some pose
        maskImage := some image
        result := some (.ok .success) }
    | none => { s with executed := none, result := some (.ok .failure) }

/-- The sequence starts the detection as soon as the frames have succeeded; it neither ticks nor
    halts the other node before the thread of the detection has returned. -/
def step (processBlobs : BlobRequest M K → Option (P × I)) (s : System M K P I) :
    Event M K → Option (System M K P I)
  | .frames e =>
    if onTickThread e ∧ s.executed.isSome then none
    else (SyncedFrames.step s.frames e).map fun frames =>
      { s with
        frames := frames
        executed := if succeeds s.frames e then some 0 else s.executed }
  | .detect config => s.executed.map (detect processBlobs config s)

/-! ## Which frames a request has -/

/-- The synchronized output that a port is connected to. -/
def Port.frame : Port → Option Output
  | .rgbImage => some .rgbImage
  | .depthImage => some .depthImage
  | .cameraInfo => some .rgbCameraInfo
  | _ => none

def BlobRequest.frame {F : Type} (r : BlobRequest F K) : Output → Option F
  | .pointCloud => none
  | .rgbImage => r.colorImg
  | .depthImage => r.depthImg
  | .rgbCameraInfo => r.cameraInfo

/-- The frames still to be read when `k` statements are executed, and those that were read. -/
def awaited (k : Nat) : List Output := (ports.drop k).filterMap Port.frame

def readBefore (k : Nat) : List Output := (ports.take k).filterMap Port.frame

/-- The frames of the request are those of invocation `i`. -/
def TakenFrom (r : BlobRequest (Nat × M) K) (i : Nat) (v : Invocation M) : Prop :=
  ∀ p ∈ readBefore ports.length, r.frame p = some (i, v.messages p)

/-- When `processBlobs` is called, the request is one synchronized set of the last activation; and
    no read of a frame fails. -/
def DetectsInOneSet (s : System M K P I) (e : Event M K) : Prop :=
  ∀ config, e = .detect config → ∀ k ∈ s.executed,
    (ports[k]? = none → ∃ (i : Nat) (v : Invocation M), s.frames.invocations[i]? = some v ∧
      v.synchronizer = s.frames.synchronizer ∧ TakenFrom s.blobRequest i v) ∧
    ∀ port ∈ ports[k]?, port.frame.isSome → port.read s.frames.outputs config s.blobRequest ≠ none

/-- The blob pose was found in one synchronized set. -/
def PoseExplained (processBlobs : BlobRequest M K → Option (P × I)) (s : System M K P I) : Prop :=
  ∀ pose ∈ s.blobPose, ∃ (request : BlobRequest (Nat × M) K) (image : I) (i : Nat)
    (v : Invocation M), s.frames.invocations[i]? = some v ∧ TakenFrom request i v ∧
      processBlobs request.content = some (pose, image)

/-- No frame is written that a detection under way has yet to read. -/
def LeavesAwaited (s : System M K P I) : SyncedFrames.Event M → Prop
  | .execute i => ∀ k ∈ s.executed, ∀ v ∈ s.frames.invocations[i]?, ∀ p ∈ awaited k,
      syncCallback[v.executed]? ≠ some (.setOutput p)
  | _ => True

instance (s : System M K P I) : ∀ e, Decidable (LeavesAwaited s e)
  | .execute i => inferInstanceAs (Decidable (∀ k ∈ s.executed, ∀ v ∈ s.frames.invocations[i]?,
      ∀ p ∈ awaited k, syncCallback[v.executed]? ≠ some (.setOutput p)))
  | .startResets => inferInstanceAs (Decidable True)
  | .startFails => inferInstanceAs (Decidable True)
  | .startSubscribes => inferInstanceAs (Decidable True)
  | .onRunning _ _ => inferInstanceAs (Decidable True)
  | .onHalted => inferInstanceAs (Decidable True)
  | .invoke _ => inferInstanceAs (Decidable True)

/-- Nothing disturbs the frames until they are read. -/
def Undisturbed (s : System M K P I) : Event M K → Prop
  | .frames e => SyncedFrames.Undisturbed s.frames e ∧ LeavesAwaited s e
  | .detect _ => True

instance (s : System M K P I) : ∀ e, Decidable (Undisturbed s e)
  | .frames _ => inferInstanceAs (Decidable (_ ∧ _))
  | .detect _ => inferInstanceAs (Decidable True)

/-! ## What a step leaves of the frames -/

section Frames

variable {s s' : SyncedFrames.State M} {e : SyncedFrames.Event M}

/-- An invocation keeps its synchronizer and its messages. -/
theorem invocation_stays (hs : SyncedFrames.step s e = some s') {i : Nat} {v : Invocation M}
    (hv : s.invocations[i]? = some v) :
    ∃ v', s'.invocations[i]? = some v' ∧ v'.synchronizer = v.synchronizer ∧
      v'.messages = v.messages := by
  cases e with
  | startResets =>
    obtain ⟨_, hs⟩ := Option.ite_none_right_eq_some.mp hs
    cases hs
    exact ⟨v, hv, rfl, rfl⟩
  | startFails =>
    obtain ⟨_, hs⟩ := Option.ite_none_right_eq_some.mp hs
    cases hs
    exact ⟨v, hv, rfl, rfl⟩
  | startSubscribes =>
    obtain ⟨_, hs⟩ := Option.ite_none_right_eq_some.mp hs
    cases hs
    exact ⟨v, hv, rfl, rfl⟩
  | onRunning nodeAlive timedOut =>
    simp only [SyncedFrames.step, Option.ite_none_right_eq_some, Option.some.injEq] at hs
    obtain ⟨_, rfl⟩ := hs
    refine ⟨v, ?_, rfl, rfl⟩
    unfold SyncedFrames.onRunning
    split
    · exact hv
    · split
      · split <;> exact hv
      · exact hv
  | onHalted =>
    obtain ⟨_, hs⟩ := Option.ite_none_right_eq_some.mp hs
    cases hs
    exact ⟨v, hv, rfl, rfl⟩
  | invoke messages =>
    obtain ⟨_, hs⟩ := Option.ite_none_right_eq_some.mp hs
    cases hs
    exact ⟨v, (Cells.getElem?_concat_of_some hv).1, rfl, rfl⟩
  | execute j =>
    simp only [SyncedFrames.step] at hs
    split at hs
    · cases hs
    · rename_i u hu
      split at hs
      · cases hs
      · rename_i statement _
        cases hs
        by_cases heq : j = i
        · subst heq
          obtain ⟨hlt, _⟩ := List.getElem?_eq_some_iff.mp hv
          obtain rfl : u = v := Option.some.inj (hu.symm.trans hv)
          refine ⟨u.advance, ?_, rfl, rfl⟩
          exact List.getElem?_set_self hlt
        · exact ⟨v, (List.getElem?_set_ne heq).trans hv, rfl, rfl⟩

/-- Off the tick thread, the synchronizer stays, and an output changes only by its statement. -/
theorem outputs_stay (hs : SyncedFrames.step s e = some s') (hthread : onTickThread e = false) :
    s'.synchronizer = s.synchronizer ∧ ∀ p,
      (∀ i, e = .execute i → ∀ v ∈ s.invocations[i]?,
        syncCallback[v.executed]? ≠ some (.setOutput p)) → s'.outputs p = s.outputs p := by
  cases e with
  | invoke messages =>
    obtain ⟨_, hs⟩ := Option.ite_none_right_eq_some.mp hs
    cases hs
    exact ⟨rfl, fun _ _ => rfl⟩
  | execute i =>
    simp only [SyncedFrames.step] at hs
    split at hs
    · cases hs
    · rename_i u hu
      split at hs
      · cases hs
      · rename_i statement hst
        cases hs
        cases statement with
        | setOutput q =>
          refine ⟨rfl, fun p hp => ?_⟩
          have hne : p ≠ q := fun heq => hp i rfl u hu (heq ▸ hst)
          exact if_neg hne
        | setSyncDone => exact ⟨rfl, fun _ _ => rfl⟩
        | unsubscribeTopics => exact ⟨rfl, fun _ _ => rfl⟩
  | _ => cases hthread

/-- At a SUCCESS all outputs are of one invocation, and the step leaves them. -/
theorem synced_of_succeeds (hi : SyncedFrames.Inv s) (hs : SyncedFrames.step s e = some s')
    (hsucc : succeeds s e = true) :
    ∃ (i : Nat) (v : Invocation M), s'.invocations[i]? = some v ∧
      v.synchronizer = s'.synchronizer ∧ ∀ p, s'.outputs p = some (i, v.messages p) := by
  cases e with
  | onRunning nodeAlive timedOut =>
    obtain ⟨_, hr⟩ := of_decide_eq_true hsucc
    obtain ⟨hphase, hdone⟩ := SyncedFrames.syncDone_of_success hs hr
    obtain ⟨i, v, hv, hcurrent, hout⟩ := hi.done hphase hdone
    simp only [SyncedFrames.step, Option.ite_none_right_eq_some, Option.some.injEq] at hs
    obtain ⟨_, rfl⟩ := hs
    unfold SyncedFrames.onRunning
    rw [if_pos hdone]
    exact ⟨i, v, hv, hcurrent, hout⟩
  | _ => cases hsucc

end Frames

/-! ## One read -/

theorem Port.read_frame {outputs : Output → Option (Nat × M)} {config : Config K}
    {request request' : BlobRequest (Nat × M) K} {port : Port}
    (h : port.read outputs config request = some request') (p : Output) :
    request'.frame p = if port.frame = some p then outputs p else request.frame p := by
  cases port <;> obtain ⟨m, hm, rfl⟩ := Option.map_eq_some_iff.mp h <;> cases p <;>
    first | rfl | exact hm.symm

theorem Port.read_ne_none {outputs : Output → Option (Nat × M)} {config : Config K}
    {request : BlobRequest (Nat × M) K} {port : Port} {p : Output} {m : Nat × M}
    (hport : port.frame = some p) (hm : outputs p = some m) :
    port.read outputs config request ≠ none := by
  cases port <;> cases hport <;> simp [Port.read, hm]

theorem mem_awaited {k : Nat} {port : Port} (hport : ports[k]? = some port) (p : Output) :
    p ∈ awaited k ↔ port.frame = some p ∨ p ∈ awaited (k + 1) := by
  unfold awaited
  rw [List.drop_eq_getElem?_toList_append, hport, List.filterMap_append, List.mem_append]
  simp

theorem mem_readBefore_succ {k : Nat} {port : Port} (hport : ports[k]? = some port)
    (p : Output) : p ∈ readBefore (k + 1) ↔ p ∈ readBefore k ∨ port.frame = some p := by
  unfold readBefore
  rw [List.take_add_one, hport, List.filterMap_append, List.mem_append]
  simp

theorem readBefore_all {k : Nat} (h : ports[k]? = none) :
    readBefore k = readBefore ports.length := by
  unfold readBefore
  rw [List.take_of_length_le (List.getElem?_eq_none_iff.mp h), List.take_length]

/-! ## The invariant -/

variable {processBlobs : BlobRequest M K → Option (P × I)} {s s' : System M K P I}

/-- While a detection is under way, the frames it has read and those it has yet to read are of one
    invocation of the last activation. -/
structure Inv (processBlobs : BlobRequest M K → Option (P × I)) (s : System M K P I) : Prop where
  frames : SyncedFrames.Inv s.frames
  reading : ∀ k ∈ s.executed, ∃ (i : Nat) (v : Invocation M), s.frames.invocations[i]? = some v ∧
    v.synchronizer = s.frames.synchronizer ∧
    (∀ p ∈ awaited k, s.frames.outputs p = some (i, v.messages p)) ∧
    ∀ p ∈ readBefore k, s.blobRequest.frame p = some (i, v.messages p)
  pose : PoseExplained processBlobs s

theorem inv_initial (desiredBlob : UInt8) (minBlobSize : K) :
    Inv processBlobs (System.initial desiredBlob minBlobSize : System M K P I) where
  frames := SyncedFrames.inv_initial
  reading _ h := by cases h
  pose _ h := by cases h

theorem inv_frames {e : SyncedFrames.Event M} (hi : Inv processBlobs s)
    (hs : step processBlobs s (.frames e) = some s') (hu : Undisturbed s (.frames e)) :
    Inv processBlobs s' := by
  obtain ⟨hthread, hs⟩ := Option.ite_none_left_eq_some.mp hs
  obtain ⟨frames, hstep, rfl⟩ := Option.map_eq_some_iff.mp hs
  refine ⟨SyncedFrames.inv_step hi.frames hstep hu.1, ?_, ?_⟩
  · intro k hk
    simp only at hk ⊢
    split at hk
    · -- the detection starts
      rename_i hsucc
      cases hk
      obtain ⟨i, v, hv, hcurrent, hout⟩ := synced_of_succeeds hi.frames hstep hsucc
      exact ⟨i, v, hv, hcurrent, fun p _ => hout p, fun p hp => (by cases hp)⟩
    · obtain ⟨i, v, hv, hcurrent, hawaited, hread⟩ := hi.reading k hk
      have hoff : onTickThread e = false := by
        have hsome : s.executed.isSome := Option.isSome_of_mem hk
        cases htick : onTickThread e with
        | false => rfl
        | true => exact absurd ⟨htick, hsome⟩ hthread
      obtain ⟨hsynchronizer, hout⟩ := outputs_stay hstep hoff
      obtain ⟨v', hv', hsame, hmessages⟩ := invocation_stays hstep hv
      refine ⟨i, v', hv', hsame.trans (hcurrent.trans hsynchronizer.symm), ?_, ?_⟩
      · intro p hp
        have hleft : ∀ j, e = .execute j → ∀ u ∈ s.frames.invocations[j]?,
            syncCallback[u.executed]? ≠ some (.setOutput p) := by
          rintro j rfl u hu'
          exact hu.2 k hk u hu' p hp
        rw [hmessages, hout p hleft]
        exact hawaited p hp
      · intro p hp
        rw [hmessages]
        exact hread p hp
  · intro pose hpose
    obtain ⟨request, image, i, v, hv, htaken, hfound⟩ := hi.pose pose hpose
    obtain ⟨v', hv', _, hmessages⟩ := invocation_stays hstep hv
    refine ⟨request, image, i, v', hv', fun p hp => ?_, hfound⟩
    rw [hmessages]
    exact htaken p hp

/-- A read takes its frame from the same invocation as the others. -/
theorem inv_read {k : Nat} {port : Port} {config : Config K}
    {request : BlobRequest (Nat × M) K} (hi : Inv processBlobs s) (hk : k ∈ s.executed)
    (hport : ports[k]? = some port)
    (hread : port.read s.frames.outputs config s.blobRequest = some request) :
    Inv processBlobs { s with blobRequest := request, executed := some (k + 1) } := by
  refine ⟨hi.frames, ?_, hi.pose⟩
  obtain ⟨i, v, hv, hcurrent, hawaited, hbefore⟩ := hi.reading k hk
  rintro _ ⟨⟩
  refine ⟨i, v, hv, hcurrent, fun p hp => hawaited p ((mem_awaited hport p).mpr (.inr hp)), ?_⟩
  intro p hp
  rw [Port.read_frame hread p]
  split
  · rename_i hframe
    exact hawaited p ((mem_awaited hport p).mpr (.inl hframe))
  · rename_i hframe
    exact hbefore p (((mem_readBefore_succ hport p).mp hp).resolve_right hframe)

theorem inv_detect {config : Config K} (hi : Inv processBlobs s)
    (hs : step processBlobs s (.detect config) = some s') : Inv processBlobs s' := by
  obtain ⟨k, hk, rfl⟩ := Option.map_eq_some_iff.mp hs
  unfold detect
  split
  · rename_i port hport
    split
    · rename_i request hread
      exact inv_read hi hk hport hread
    · exact ⟨hi.frames, nofun, hi.pose⟩
  · rename_i hdone
    split
    · rename_i pose image hfound
      refine ⟨hi.frames, nofun, ?_⟩
      rintro _ ⟨⟩
      obtain ⟨i, v, hv, _, _, hread⟩ := hi.reading k hk
      rw [readBefore_all hdone] at hread
      exact ⟨s.blobRequest, image, i, v, hv, hread, hfound⟩
    · exact ⟨hi.frames, nofun, hi.pose⟩

theorem inv_step {e : Event M K} (hi : Inv processBlobs s)
    (hs : step processBlobs s e = some s') (hu : Undisturbed s e) : Inv processBlobs s' := by
  cases e with
  | frames e => exact inv_frames hi hs hu
  | detect config => exact inv_detect hi hs

theorem Inv.detectsInOneSet (hi : Inv processBlobs s) (e : Event M K) : DetectsInOneSet s e := by
  rintro config rfl k hk
  obtain ⟨i, v, hv, hcurrent, hawaited, hread⟩ := hi.reading k hk
  constructor
  · intro hdone
    rw [readBefore_all hdone] at hread
    exact ⟨i, v, hv, hcurrent, hread⟩
  · intro port hport hframe
    obtain ⟨p, hp⟩ := Option.isSome_iff_exists.mp hframe
    exact Port.read_ne_none hp (hawaited p ((mem_awaited hport p).mpr (.inl hp)))

/-- **Every detection looks at one synchronized set.**  For every run of activations, callbacks and
    detections, in any order of their statements, in which nothing disturbs the frames and no frame
    that a detection has yet to read is written while it runs: whenever `processBlobs` is called,
    its three frames are of one invocation of the last activation; no read of a frame fails; and
    the blob pose on the blackboard is always what `processBlobs` gave for one synchronized set. -/
theorem detects_in_one_set (processBlobs : BlobRequest M K → Option (P × I)) (desiredBlob : UInt8)
    (minBlobSize : K) (es : List (Event M K))
    (hu : EachStep (step processBlobs) (fun s e _ => Undisturbed s e)
      (System.initial desiredBlob minBlobSize) es) :
    EachStep (step processBlobs) (fun s e _ => DetectsInOneSet s e)
        (System.initial desiredBlob minBlobSize) es ∧
      Always (step processBlobs) (PoseExplained processBlobs)
        (System.initial desiredBlob minBlobSize) es := by
  have hinv : Always (step processBlobs) (Inv processBlobs)
      (System.initial desiredBlob minBlobSize) es :=
    hu.always (inv_initial desiredBlob minBlobSize) fun _ _ _ hi hs hg => inv_step hi hs hg
  exact ⟨hinv.eachStep hu fun _ e _ hi _ _ => hi.detectsInOneSet e, hinv.mono fun _ h => h.pose⟩

/-- Two activations; the second detection looks for a colour that no port gives. -/
theorem detects_in_one_set_twice :
    let processBlobs (r : BlobRequest Nat Nat) : Option (Nat × Unit) :=
      r.colorImg.map fun frame => (frame + 1, ())
    let frames (e : SyncedFrames.Event Nat) : Event Nat Nat := .frames e
    let activation (i message : Nat) : List (Event Nat Nat) :=
      [frames .startResets, frames .startSubscribes, frames (.invoke fun _ => message)] ++
        List.replicate 6 (frames (.execute i)) ++ [frames (.onRunning true false)]
    let es := activation 0 7 ++ List.replicate 7 (.detect ⟨some 0, some 5, some (bytes "red")⟩) ++
      activation 1 8 ++ List.replicate 6 (.detect ⟨some 0, some 5, none⟩)
    EachStep (step processBlobs) (fun s e _ => DetectsInOneSet s e) (System.initial 0 0) es ∧
      Always (step processBlobs) (PoseExplained processBlobs) (System.initial 0 0) es := by
  intro processBlobs frames activation es
  exact detects_in_one_set processBlobs 0 0 es (by decide)

/-- Nothing disturbs the frames until their success, but a second match that comes while they are
    read leaves the request with the colours of one set and the depth of another. -/
theorem mixed_request :
    let processBlobs (r : BlobRequest Nat Nat) : Option (Nat × Unit) :=
      r.colorImg.map fun frame => (frame + 1, ())
    let first : List (SyncedFrames.Event Nat) :=
      [.startResets, .startSubscribes, .invoke fun _ => 7] ++ List.replicate 6 (.execute 0) ++
        [.onRunning true false]
    let second : List (SyncedFrames.Event Nat) :=
      [.invoke fun _ => 8] ++ List.replicate 4 (.execute 1)
    let read : Event Nat Nat := .detect ⟨some 0, some 5, some (bytes "red")⟩
    let es := first.map .frames ++ [read] ++ second.map .frames ++ List.replicate 5 read
    EachStep SyncedFrames.step (fun s e _ => SyncedFrames.Undisturbed s e) .initial
        (first ++ second) ∧
      ¬ EachStep (step processBlobs) (fun s e _ => DetectsInOneSet s e)
        (System.initial 0 0) (es ++ [read]) := by
  intro processBlobs first second read es
  refine ⟨by decide, not_eachStep rfl rfl fun h => ?_⟩
  obtain ⟨i, v, _, _, htaken⟩ := (h _ rfl 6 rfl).1 rfl
  have hcolor : (0, 7) = (i, v.messages .rgbImage) :=
    Option.some.inj (htaken .rgbImage (by decide))
  have hdepth : (1, 8) = (i, v.messages .depthImage) :=
    Option.some.inj (htaken .depthImage (by decide))
  have hsame := (Prod.mk.inj hcolor).1.trans (Prod.mk.inj hdepth).1.symm
  exact absurd hsame (by decide)

end DetectColorBlobs

end DrtBehavior
