import Mathlib.Logic.Function.Basic
import DrtBehavior.Base.Delimited
import DrtBehavior.Platform

/-!
# The tree status logger

`DRTBehaviorBtcppLogger` of `drt_behavior`: it walks the tree once, keeps a status line for every
node and publishes all lines on every status change but one.

* `generateTree`, `callback` — the two functions of the class.  `toStr` stands for
  `BT::toStr(status, true)`, which is not part of the repository.
* `generateTree_eq` — the walk is one pass over the depth-first pre-order listing of the tree.
* `display`, `render` — what a snapshot should say: the listing of the tree with a status for
  every node, and its text.
* `Shows lg t st` — the logger holds exactly `display t st`.  `shows_create` establishes it,
  `callback_of_not_swallowed` says how a status change moves `st`.
-/

set_option autoImplicit false

namespace DrtBehavior

/-- `DRTBehaviorBtcppLogger::NodeLogStatus`. -/
structure NodeLogStatus where
  name : StdString
  status : NodeStatus
  indent : Nat
  deriving DecidableEq, Repr

/-- The default constructor. -/
instance : Inhabited NodeLogStatus := ⟨⟨[], .idle, 0⟩⟩

/-- The logger: `log_statuses_`, `log_order_` and the texts handed to `bt_status_publisher_`. -/
structure DRTBehaviorBtcppLogger where
  logStatuses : UInt16 → Option NodeLogStatus
  logOrder : List UInt16
  published : List StdString

namespace DRTBehaviorBtcppLogger

/-- The guarded clear at the head of `generateTree`. -/
def clearOnRoot (indent : Nat) (lg : DRTBehaviorBtcppLogger) : DRTBehaviorBtcppLogger :=
  if indent = 0 then { lg with logStatuses := fun _ => none, logOrder := [] } else lg

/-- `generateTree`'s body for one node. -/
def record (uid : UInt16) (name : StdString) (indent : Nat) (lg : DRTBehaviorBtcppLogger) :
    DRTBehaviorBtcppLogger :=
  { lg with
    logStatuses := Function.update lg.logStatuses uid (some ⟨name, .idle, indent⟩)
    logOrder := lg.logOrder ++ [uid] }

mutual

/-- `generateTree(node, indent)`. -/
def generateTree : TreeNode → Nat → DRTBehaviorBtcppLogger → DRTBehaviorBtcppLogger
  | .control uid name children, indent, lg =>
    generateChildren children (indent + 1) (record uid name indent (clearOnRoot indent lg))
  | .decorator uid name child, indent, lg =>
    generateTree child (indent + 1) (record uid name indent (clearOnRoot indent lg))
  | .leaf uid name, indent, lg => record uid name indent (clearOnRoot indent lg)

/-- The loop over the children of a control node. -/
def generateChildren : List TreeNode → Nat → DRTBehaviorBtcppLogger → DRTBehaviorBtcppLogger
  | [], _, lg => lg
  | child :: children, indent, lg => generateChildren children indent (generateTree child indent lg)

end

/-- The constructor: an empty logger, then `generateTree(tree.rootNode())`. -/
def create (tree : TreeNode) : DRTBehaviorBtcppLogger :=
  generateTree tree 0 ⟨fun _ => none, [], []⟩

/-- `log_statuses_[uid]`: the map inserts a default entry for an absent key. -/
def entry (lg : DRTBehaviorBtcppLogger) (uid : UInt16) : NodeLogStatus :=
  (lg.logStatuses uid).getD default

/-- One line of a message, without its terminator. -/
def line (toStr : NodeStatus → StdString) (e : NodeLogStatus) : StdString :=
  List.replicate e.indent 0x20 ++ e.name ++ bytes ": " ++ toStr e.status

/-- The text `callback` streams together. -/
def message (toStr : NodeStatus → StdString) (lg : DRTBehaviorBtcppLogger) : StdString :=
  lg.logOrder.flatMap fun uid => line toStr (lg.entry uid) ++ bytes ";"

/-- `log_statuses_[uid].status = status`. -/
def setStatus (uid : UInt16) (status : NodeStatus) (lg : DRTBehaviorBtcppLogger) :
    DRTBehaviorBtcppLogger :=
  let changed : NodeLogStatus := { lg.entry uid with status := status }
  { lg with logStatuses := Function.update lg.logStatuses uid (some changed) }

/-- `callback`, for the node with UID `uid`. -/
def callback (toStr : NodeStatus → StdString) (uid : UInt16) (prevStatus status : NodeStatus)
    (lg : DRTBehaviorBtcppLogger) : DRTBehaviorBtcppLogger :=
  if prevStatus = .success ∧ status = .idle then lg
  else
    let lg' := setStatus uid status lg
    { lg' with published := lg'.published ++ [message toStr lg'] }

/-! ## The walk is one pass over the listing -/

/-- One item of the listing, recorded. -/
def recordItem (lg : DRTBehaviorBtcppLogger) (item : Nat × UInt16 × StdString) :
    DRTBehaviorBtcppLogger :=
  record item.2.1 item.2.2 item.1 lg

theorem clearOnRoot_succ (d : Nat) (lg : DRTBehaviorBtcppLogger) : clearOnRoot (d + 1) lg = lg :=
  if_neg (Nat.succ_ne_zero d)

mutual

/-- **`generateTree` records the pre-order listing, item by item.** -/
theorem generateTree_eq : ∀ (t : TreeNode) (d : Nat) (lg : DRTBehaviorBtcppLogger),
    generateTree t d lg = (t.shape.preorder d).foldl recordItem (clearOnRoot d lg)
  | .control uid name children, d, lg => by
    rw [generateTree, generateChildren_eq children d, TreeNode.shape, Rose.preorder_node,
      List.foldl_cons]
    rfl
  | .decorator uid name child, d, lg => by
    rw [generateTree, generateTree_eq child (d + 1), clearOnRoot_succ, TreeNode.shape,
      Rose.preorder_node, Rose.preorderForest_cons, Rose.preorderForest_nil, List.append_nil,
      List.foldl_cons]
    rfl
  | .leaf uid name, d, lg => by
    rw [generateTree, TreeNode.shape, Rose.preorder_node, Rose.preorderForest_nil]
    rfl

theorem generateChildren_eq : ∀ (ts : List TreeNode) (d : Nat) (lg : DRTBehaviorBtcppLogger),
    generateChildren ts (d + 1) lg =
      (Rose.preorderForest (d + 1) (TreeNode.shapes ts)).foldl recordItem lg
  | [], d, lg => by rw [generateChildren, TreeNode.shapes, Rose.preorderForest_nil]; rfl
  | t :: ts, d, lg => by
    rw [generateChildren, generateTree_eq t (d + 1), clearOnRoot_succ, generateChildren_eq ts d,
      TreeNode.shapes, Rose.preorderForest_cons, List.foldl_append]

end

theorem foldl_recordItem_logOrder (items : List (Nat × UInt16 × StdString))
    (lg : DRTBehaviorBtcppLogger) :
    (items.foldl recordItem lg).logOrder = lg.logOrder ++ items.map (·.2.1) := by
  induction items generalizing lg with
  | nil => simp
  | cons item items ih => rw [List.foldl_cons, ih]; simp [recordItem, record]

theorem foldl_recordItem_published (items : List (Nat × UInt16 × StdString))
    (lg : DRTBehaviorBtcppLogger) : (items.foldl recordItem lg).published = lg.published := by
  induction items generalizing lg with
  | nil => rfl
  | cons item items ih => rw [List.foldl_cons, ih]; rfl

theorem foldl_recordItem_of_not_mem {items : List (Nat × UInt16 × StdString)} {uid : UInt16}
    (h : uid ∉ items.map (·.2.1)) (lg : DRTBehaviorBtcppLogger) :
    (items.foldl recordItem lg).logStatuses uid = lg.logStatuses uid := by
  induction items generalizing lg with
  | nil => rfl
  | cons item items ih =>
    simp only [List.map_cons, List.mem_cons, not_or] at h
    rw [List.foldl_cons, ih h.2]
    exact Function.update_of_ne h.1 _ _

/-- With distinct UIDs no entry is overwritten. -/
theorem foldl_recordItem_of_mem {items : List (Nat × UInt16 × StdString)}
    (hnd : (items.map (·.2.1)).Nodup) {d : Nat} {uid : UInt16} {name : StdString}
    (h : (d, uid, name) ∈ items) (lg : DRTBehaviorBtcppLogger) :
    (items.foldl recordItem lg).logStatuses uid = some ⟨name, .idle, d⟩ := by
  induction items generalizing lg with
  | nil => cases h
  | cons item items ih =>
    simp only [List.map_cons, List.nodup_cons] at hnd
    rw [List.foldl_cons]
    rcases List.mem_cons.mp h with rfl | h
    · rw [foldl_recordItem_of_not_mem hnd.1]
      exact Function.update_self _ _ _
    · exact ih hnd.2 h _

end DRTBehaviorBtcppLogger

/-! ## What a snapshot should say -/

open DRTBehaviorBtcppLogger

/-- The lines of `t` when its nodes have the statuses `st`: every node once, in depth-first
    pre-order, indented by its depth. -/
def display (t : TreeNode) (st : UInt16 → NodeStatus) : List NodeLogStatus :=
  (t.shape.preorder 0).map fun item => ⟨item.2.2, st item.2.1, item.1⟩

/-- The text of a list of lines: each is the name, indented, with a colon and the status, and ends
    with a semicolon. -/
def render (toStr : NodeStatus → StdString) (entries : List NodeLogStatus) : StdString :=
  Delimited.terminated 0x3b <| entries.map fun e =>
    List.replicate e.indent 0x20 ++ e.name ++ bytes ": " ++ toStr e.status

/-- The logger holds `display t st`. -/
structure Shows (lg : DRTBehaviorBtcppLogger) (t : TreeNode) (st : UInt16 → NodeStatus) : Prop where
  order : lg.logOrder = t.uids
  entries : ∀ item ∈ t.shape.preorder 0,
    lg.logStatuses item.2.1 = some ⟨item.2.2, st item.2.1, item.1⟩

theorem uids_eq (t : TreeNode) : t.uids = (t.shape.preorder 0).map (·.2.1) := by
  simp [TreeNode.uids, Rose.labels, List.map_map, Function.comp_def]

theorem uid_mem_uids {t : TreeNode} {item : Nat × UInt16 × StdString}
    (h : item ∈ t.shape.preorder 0) : item.2.1 ∈ t.uids := by
  rw [uids_eq]
  exact List.mem_map_of_mem h

theorem mem_uids {t : TreeNode} {uid : UInt16} (h : uid ∈ t.uids) :
    ∃ d name, (d, uid, name) ∈ t.shape.preorder 0 := by
  rw [uids_eq] at h
  obtain ⟨⟨d, u, name⟩, hm, rfl⟩ := List.mem_map.mp h
  exact ⟨d, name, hm⟩

/-- Read along `log_order_`, the logger gives the display. -/
theorem Shows.map_entry {lg : DRTBehaviorBtcppLogger} {t : TreeNode} {st : UInt16 → NodeStatus}
    (h : Shows lg t st) : lg.logOrder.map lg.entry = display t st := by
  rw [h.order, uids_eq, List.map_map]
  refine List.map_congr_left fun item hi => ?_
  simp [entry, h.entries item hi]

theorem Shows.message_eq {lg : DRTBehaviorBtcppLogger} {t : TreeNode} {st : UInt16 → NodeStatus}
    (h : Shows lg t st) (toStr : NodeStatus → StdString) :
    lg.message toStr = render toStr (display t st) := by
  have hterm : bytes ";" = [0x3b] := by decide
  rw [render, ← h.map_entry, message, Delimited.terminated, List.map_map, List.flatMap_map, hterm]
  rfl

theorem Shows.status {lg : DRTBehaviorBtcppLogger} {t : TreeNode} {st : UInt16 → NodeStatus}
    (h : Shows lg t st) {uid : UInt16} (hm : uid ∈ t.uids) : (lg.entry uid).status = st uid := by
  obtain ⟨d, name, hi⟩ := mem_uids hm
  have := h.entries _ hi
  simp [entry, this]

/-- **A new logger shows every node idle.** -/
theorem shows_create {t : TreeNode} (hnd : t.uids.Nodup) :
    Shows (create t) t (fun _ => .idle) := by
  rw [create, generateTree_eq]
  constructor
  · rw [foldl_recordItem_logOrder, uids_eq]
    rfl
  · rintro ⟨d, uid, name⟩ hi
    rw [uids_eq] at hnd
    exact foldl_recordItem_of_mem hnd hi _

theorem create_published (t : TreeNode) : (create t).published = [] := by
  rw [create, generateTree_eq, foldl_recordItem_published]
  rfl

theorem callback_swallowed (toStr : NodeStatus → StdString) (uid : UInt16)
    (lg : DRTBehaviorBtcppLogger) : callback toStr uid .success .idle lg = lg :=
  if_pos ⟨rfl, rfl⟩

theorem Shows.setStatus {lg : DRTBehaviorBtcppLogger} {t : TreeNode} {st : UInt16 → NodeStatus}
    (h : Shows lg t st) (uid : UInt16) (status : NodeStatus) :
    Shows (setStatus uid status lg) t (Function.update st uid status) := by
  refine ⟨h.order, fun item hi => ?_⟩
  have hitem := h.entries item hi
  by_cases hu : item.2.1 = uid
  · subst hu
    simp [DRTBehaviorBtcppLogger.setStatus, entry, hitem]
  · simp [DRTBehaviorBtcppLogger.setStatus, Function.update_of_ne hu, hitem]

/-- **Every other change moves the shown status of its node and publishes the new display.** -/
theorem callback_of_not_swallowed {lg : DRTBehaviorBtcppLogger} {t : TreeNode}
    {st : UInt16 → NodeStatus} (h : Shows lg t st) (toStr : NodeStatus → StdString) (uid : UInt16)
    {prev status : NodeStatus} (hs : ¬ (prev = .success ∧ status = .idle)) :
    Shows (callback toStr uid prev status lg) t (Function.update st uid status) ∧
      (callback toStr uid prev status lg).published =
        lg.published ++ [render toStr (display t (Function.update st uid status))] := by
  have hnew := h.setStatus uid status
  rw [callback, if_neg hs]
  refine ⟨⟨hnew.order, hnew.entries⟩, ?_⟩
  rw [← hnew.message_eq toStr]
  rfl

end DrtBehavior
