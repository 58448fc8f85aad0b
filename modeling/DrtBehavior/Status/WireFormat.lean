import DrtBehavior.Status.Logger
import DrtBehavior.Visualization.TreeWidget

/-!
# The status message between the logger and the widget

The logger ends the line of every node with `;`, the widget cuts the message at every `;`; node
names are free text and neither side escapes them.

* `lines` — the line of every node, in `log_order_`.
* `wire_round_trip_iff` — the widget shows exactly these lines iff no node name contains `;`.
* `wire_semicolon_name` — a node name with a `;` splits its line in two.
-/

set_option autoImplicit false

namespace DrtBehavior

open DRTBehaviorBtcppLogger BehaviorTreeWidget

/-- The names of a tree in depth-first pre-order. -/
def TreeNode.names (t : TreeNode) : List StdString := t.shape.labels.map Prod.snd

/-- The line of every node of `t` when the nodes have the statuses `st`. -/
def lines (toStr : NodeStatus → StdString) (t : TreeNode) (st : UInt16 → NodeStatus) :
    List StdString :=
  (display t st).map (line toStr)

theorem names_eq (t : TreeNode) : t.names = (t.shape.preorder 0).map (·.2.2) := by
  simp [TreeNode.names, Rose.labels, List.map_map, Function.comp_def]

/-- Only the name can bring a separator into a line. -/
theorem semicolon_mem_line {toStr : NodeStatus → StdString} (hs : ∀ st, 0x3b ∉ toStr st)
    (e : NodeLogStatus) : 0x3b ∈ line toStr e ↔ 0x3b ∈ e.name := by
  have hcolon : (0x3b : UInt8) ∉ bytes ": " := by decide
  have hindent : (0x3b : UInt8) ∉ List.replicate e.indent 0x20 := by
    intro h
    exact absurd (List.eq_of_mem_replicate h) (by decide)
  unfold line
  simp only [List.mem_append, hcolon, hindent, hs e.status, or_false, false_or]

/-- A message for the tree `t` is the text of its lines. -/
theorem render_eq_terminated (toStr : NodeStatus → StdString) (t : TreeNode)
    (st : UInt16 → NodeStatus) :
    render toStr (display t st) = Delimited.terminated 0x3b (lines toStr t st) := rfl

/-- No line of the tree contains a separator iff no name does. -/
theorem semicolon_free_lines_iff {toStr : NodeStatus → StdString} (hs : ∀ st, 0x3b ∉ toStr st)
    (t : TreeNode) (st : UInt16 → NodeStatus) :
    (∀ item ∈ lines toStr t st, 0x3b ∉ item) ↔ ∀ name ∈ t.names, 0x3b ∉ name := by
  simp only [lines, display, names_eq, List.forall_mem_map, semicolon_mem_line hs]

/-- **The wire format round-trips exactly for names without the separator.**  Whatever statuses
    `st` a logger shows for the tree `t`: the message that `callback` publishes for a status
    change decodes to one entry per node, the line of that node, iff no node name contains
    `;`. -/
theorem wire_round_trip_iff {toStr : NodeStatus → StdString} (hs : ∀ st, 0x3b ∉ toStr st)
    {t : TreeNode} {st : UInt16 → NodeStatus} {lg : DRTBehaviorBtcppLogger} (hlg : Shows lg t st)
    (uid : UInt16) {prev status : NodeStatus} (hpub : ¬ (prev = .success ∧ status = .idle))
    (w : BehaviorTreeWidget) :
    ∃ m, (callback toStr uid prev status lg).published = lg.published ++ [m] ∧
      ((btStatusCallback m w).btText = lines toStr t (Function.update st uid status) ↔
        ∀ name ∈ t.names, 0x3b ∉ name) := by
  obtain ⟨_, hm⟩ := callback_of_not_swallowed hlg toStr uid hpub
  refine ⟨_, hm, ?_⟩
  rw [render_eq_terminated, ← semicolon_free_lines_iff hs t (Function.update st uid status)]
  exact Delimited.getlines_terminated_iff _

theorem wire_round_trip_sequence :
    let t : TreeNode := .control 1 (bytes "Sequence") [.leaf 2 (bytes "Get Approval")]
    ∃ m, (callback ansiStatus 2 .idle .running (create t)).published =
        (create t).published ++ [m] ∧
      ((btStatusCallback m initial).btText =
          lines ansiStatus t (Function.update (fun _ => .idle) 2 .running) ↔
        ∀ name ∈ t.names, 0x3b ∉ name) := by
  intro t
  have hs : ∀ st, 0x3b ∉ ansiStatus st := by
    intro st
    cases st <;> decide
  have hnd : t.uids.Nodup := by decide
  exact wire_round_trip_iff hs (shows_create hnd) 2 (by decide) initial

/-- A leaf named `pick;place` that starts running: its one line arrives as two entries. -/
theorem wire_semicolon_name :
    let t : TreeNode := .leaf 1 (bytes "pick;place")
    let lg := callback ansiStatus 1 .idle .running (create t)
    lg.published.map (fun m => (btStatusCallback m initial).btText) =
        [[bytes "pick", bytes "place: " ++ ansiStatus .running]] ∧
      lines ansiStatus t (fun _ => .running) = [bytes "pick;place: " ++ ansiStatus .running] := by
  decide

end DrtBehavior
