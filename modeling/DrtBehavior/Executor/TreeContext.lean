import DrtBehavior.Platform

/-!
# The per-execution tree context

`DRTTreeContext` of `drt_behavior`: the node, the TF buffer and the TF listener every behaviour of
one tree execution uses, and the behaviour `AsyncTfLookup` of `geometry_behavior` that looks up
transforms through it.

* `create`, `teardown` — a live context and its node on the executor; all members reset and the
  node off the executor.
* `Live`, `TornDown` — the two states of a context; `create_live`, `teardown_tornDown`.
* `derefNode`, `derefTfBuffer` — `context->node->` and `context->tf_buffer->` as the behaviours
  write them, without a null check.
-/

set_option autoImplicit false

namespace DrtBehavior

/-- `tf2_ros::Buffer`, on the clock of a node. -/
structure TfBuffer where
  clock : NodeId
  deriving DecidableEq, Repr

/-- `tf2_ros::TransformListener`, filling a buffer through a node. -/
structure TransformListener where
  buffer : TfBuffer
  node : NodeId
  deriving DecidableEq, Repr

/-- `DRTTreeContext`; `none` is a null pointer. -/
structure DRTTreeContext where
  node : Option Node
  tfBuffer : Option TfBuffer
  tfListener : Option TransformListener
  deriving DecidableEq, Repr

namespace DRTTreeContext

/-- The default of `create`'s `node_name`. -/
def defaultNodeName : StdString := bytes "drt_behavior_tree_node"

/-- The node `create` makes. -/
def createNode (id : NodeId) (nodeName : StdString) : Node where
  id := id
  name := nodeName
  options :=
    { allowUndeclaredParameters := true
      automaticallyDeclareParametersFromOverrides := true }

/-- `DRTTreeContext::create`, for a node object with the identity `id`. -/
def create (id : NodeId) (executor : MultiThreadedExecutor) (nodeName : StdString) :
    DRTTreeContext × MultiThreadedExecutor :=
  let buffer : TfBuffer := ⟨id⟩
  ({ node := some (createNode id nodeName)
     tfBuffer := some buffer
     tfListener := some ⟨buffer, id⟩ }, executor.addNode id)

/-- `DRTTreeContext::teardown`. -/
def teardown (context : DRTTreeContext) (executor : MultiThreadedExecutor) :
    DRTTreeContext × MultiThreadedExecutor :=
  match context.node with
  | some node => (⟨none, none, none⟩, executor.removeNode node.id)
  | none => (⟨none, none, none⟩, executor)

/-- No member is null. -/
def Live (context : DRTTreeContext) : Prop :=
  context.node.isSome ∧ context.tfBuffer.isSome ∧ context.tfListener.isSome

/-- All members are null. -/
def TornDown (context : DRTTreeContext) : Prop :=
  context.node = none ∧ context.tfBuffer = none ∧ context.tfListener = none

instance (context : DRTTreeContext) : Decidable context.Live :=
  inferInstanceAs (Decidable (_ ∧ _ ∧ _))

instance (context : DRTTreeContext) : Decidable context.TornDown :=
  inferInstanceAs (Decidable (_ ∧ _ ∧ _))

theorem create_live (id : NodeId) (executor : MultiThreadedExecutor) (nodeName : StdString) :
    (create id executor nodeName).1.Live := ⟨rfl, rfl, rfl⟩

theorem teardown_tornDown (context : DRTTreeContext) (executor : MultiThreadedExecutor) :
    (teardown context executor).1.TornDown := by
  unfold teardown
  split <;> exact ⟨rfl, rfl, rfl⟩

/-- A torn down context can be torn down again without effect. -/
theorem teardown_of_tornDown {context : DRTTreeContext} (h : context.TornDown)
    (executor : MultiThreadedExecutor) : teardown context executor = (context, executor) := by
  obtain ⟨node, buffer, listener⟩ := context
  obtain ⟨hn, hb, hl⟩ := h
  simp only at hn hb hl
  subst hn hb hl
  rfl

end DRTTreeContext

/-! ## Behaviours that use the context -/

/-- `context->node`, dereferenced. -/
def derefNode (context : Option DRTTreeContext) : Except Fault Node :=
  match context with
  | some ⟨some node, _, _⟩ => .ok node
  | _ => .error .nullDereference

/-- `context->tf_buffer`, dereferenced. -/
def derefTfBuffer (context : Option DRTTreeContext) : Except Fault TfBuffer :=
  match context with
  | some ⟨_, some buffer, _⟩ => .ok buffer
  | _ => .error .nullDereference

theorem derefNode_of_live {context : DRTTreeContext} (h : context.Live) :
    ∃ node, context.node = some node ∧ derefNode (some context) = .ok node := by
  obtain ⟨node, buffer, listener⟩ := context
  cases node with
  | none => exact absurd h.1 Bool.false_ne_true
  | some node => exact ⟨node, rfl, rfl⟩

theorem derefNode_error {context : Option DRTTreeContext} {f : Fault}
    (h : derefNode context = .error f) : f = .nullDereference := by
  unfold derefNode at h
  split at h <;> cases h
  rfl

theorem derefTfBuffer_of_live {context : DRTTreeContext} (h : context.Live) :
    ∃ buffer, context.tfBuffer = some buffer ∧ derefTfBuffer (some context) = .ok buffer := by
  obtain ⟨node, buffer, listener⟩ := context
  cases buffer with
  | none => exact absurd h.2.1 Bool.false_ne_true
  | some buffer => exact ⟨buffer, rfl, rfl⟩

namespace AsyncTfLookup

/-- The lookup of `onStart` and `onRunning`.  `lookupTransform` is that of tf2, `none` for a
    `tf2::TransformException`; the result is the returned status and the value set on port `tf`. -/
def lookup {Transform : Type}
    (lookupTransform : TfBuffer → StdString → StdString → Option Transform)
    (baseFrame targetFrame : StdString) (context : Option DRTTreeContext) :
    Except Fault (NodeStatus × Option Transform) := do
  let buffer ← derefTfBuffer context
  match lookupTransform buffer baseFrame targetFrame with
  | some result => return (.success, some result)
  | none => return (.running, none)

/-- `AsyncTfLookup::onStart`, with what the two input ports give. -/
def onStart {Transform : Type}
    (lookupTransform : TfBuffer → StdString → StdString → Option Transform)
    (baseFrame targetFrame : Option StdString) (context : Option DRTTreeContext) :
    Except Fault (NodeStatus × Option Transform) :=
  match baseFrame with
  | none => .error (.runtimeError (bytes "Could not access blackboard input [base_frame]"))
  | some base =>
    match targetFrame with
    | none => .error (.runtimeError (bytes "Could not access blackboard input [target_frame]"))
    | some target => lookup lookupTransform base target context

/-- `AsyncTfLookup::onRunning`, with the frames `onStart` has stored.  After the lookup it logs
    through `context->node`. -/
def onRunning {Transform : Type}
    (lookupTransform : TfBuffer → StdString → StdString → Option Transform)
    (baseFrame targetFrame : StdString) (context : Option DRTTreeContext) :
    Except Fault (NodeStatus × Option Transform) := do
  let result ← lookup lookupTransform baseFrame targetFrame context
  let _ ← derefNode context
  return result

theorem lookup_of_live {Transform : Type}
    (lookupTransform : TfBuffer → StdString → StdString → Option Transform)
    (baseFrame targetFrame : StdString) {context : DRTTreeContext} (h : context.Live) :
    ∃ result, lookup lookupTransform baseFrame targetFrame (some context) = .ok result := by
  obtain ⟨buffer, _, hb⟩ := derefTfBuffer_of_live h
  simp only [lookup, hb, bind, Except.bind]
  split <;> exact ⟨_, rfl⟩

/-- On a live context no call dereferences a null pointer. -/
theorem onStart_of_live {Transform : Type}
    (lookupTransform : TfBuffer → StdString → StdString → Option Transform)
    (baseFrame targetFrame : Option StdString) {context : DRTTreeContext} (h : context.Live) :
    onStart lookupTransform baseFrame targetFrame (some context) ≠ .error .nullDereference := by
  unfold onStart
  split
  · simp
  · split
    · simp
    · rename_i base _ target
      obtain ⟨result, hr⟩ := lookup_of_live lookupTransform base target h
      rw [hr]
      simp

theorem onRunning_of_live {Transform : Type}
    (lookupTransform : TfBuffer → StdString → StdString → Option Transform)
    (baseFrame targetFrame : StdString) {context : DRTTreeContext} (h : context.Live) :
    onRunning lookupTransform baseFrame targetFrame (some context) ≠ .error .nullDereference := by
  obtain ⟨result, hr⟩ := lookup_of_live lookupTransform baseFrame targetFrame h
  obtain ⟨node, _, hn⟩ := derefNode_of_live h
  simp [onRunning, hr, hn, bind, Except.bind, pure, Except.pure]

end AsyncTfLookup

end DrtBehavior
