import DrtBehavior.Base.Delimited
import DrtBehavior.Platform

/-!
# The behavior tree widget

Members and callbacks of `BehaviorTreeWidget` of `drt_behavior_visualization`.  The HTML of the
two text boxes is a function of `btText` and `log`, so the callbacks here only set these members.

* `ComboBox` — `QComboBox` as the widget uses it: `clear`, `addItem`, `setCurrentIndex`.
* `getBehaviorTreesCb`, `onRunButtonPressed` — the list of trees and the goal a press sends.
* `goalResponseCallback`, `resultCallback` — the two labels that name a tree.
* `btStatusCallback`, `loggerCallback` — the lines of the two text boxes.
-/

set_option autoImplicit false

namespace DrtBehavior

/-- `QComboBox`: the items and the current index, `-1` when there is none. -/
structure ComboBox where
  items : List StdString
  currentIndex : Int
  deriving DecidableEq, Repr

namespace ComboBox

def empty : ComboBox := ⟨[], -1⟩

def count (c : ComboBox) : Nat := c.items.length

def clear (_ : ComboBox) : ComboBox := empty

/-- The first item added to an empty box becomes the current one. -/
def addItem (c : ComboBox) (item : StdString) : ComboBox :=
  ⟨c.items ++ [item], if c.items = [] then 0 else c.currentIndex⟩

/-- The user selects an existing item. -/
def setCurrentIndex (c : ComboBox) (i : Nat) : Option ComboBox :=
  if i < c.items.length then some { c with currentIndex := i } else none

end ComboBox

/-- `std::vector::operator[]` with an `int` index; a negative index is past the end. -/
def vectorAt {α : Type} (xs : List α) (i : Int) : Except Fault α :=
  if 0 ≤ i then
    match xs[i.toNat]? with
    | some x => .ok x
    | none => .error .outOfBounds
  else .error .outOfBounds

/-- `rclcpp_action::ResultCode`. -/
inductive ResultCode where
  | unknown
  | succeeded
  | canceled
  | aborted
  deriving DecidableEq, Repr

structure BehaviorTreeWidget where
  activeBehavior : StdString
  availableBehaviors : List StdString
  selectBehaviorComboBox : ComboBox
  currentTreeText : StdString
  lastBehaviorRunText : StdString
  log : List StdString
  btText : List StdString
  widgetInitialized : Bool
  deriving DecidableEq, Repr

namespace BehaviorTreeWidget

/-- The widget as its constructor and its form leave it. -/
def initial : BehaviorTreeWidget where
  activeBehavior := []
  availableBehaviors := []
  selectBehaviorComboBox := .empty
  currentTreeText := bytes "Current Tree:"
  lastBehaviorRunText := bytes "Last Tree Run: "
  log := []
  btText := []
  widgetInitialized := false

/-- `on_UpdateTreesBtn_pressed`; the request is sent when the service is available. -/
def onUpdateTreesBtnPressed (w : BehaviorTreeWidget) : BehaviorTreeWidget :=
  { w with widgetInitialized := false }

/-- `get_behavior_trees_cb`. -/
def getBehaviorTreesCb (treeIds : List StdString) (w : BehaviorTreeWidget) : BehaviorTreeWidget :=
  { w with
    availableBehaviors := treeIds
    selectBehaviorComboBox := treeIds.foldl ComboBox.addItem w.selectBehaviorComboBox.clear
    widgetInitialized := true }

/-- `on_RunButton_pressed`: the new state and the `target_tree` of the goal that is sent, if one
    is. -/
def onRunButtonPressed (w : BehaviorTreeWidget) :
    Except Fault (BehaviorTreeWidget × Option StdString) :=
  if w.selectBehaviorComboBox.count = 0 then .ok (w, none)
  else do
    let activeBehavior ← vectorAt w.availableBehaviors w.selectBehaviorComboBox.currentIndex
    return ({ w with activeBehavior := activeBehavior }, some activeBehavior)

/-- The text of the Current Tree label for a tree name. -/
def currentTreeLabel (name : StdString) : StdString :=
  bytes "Current Tree: <b>" ++ name ++ bytes "</b>"

/-- `goal_response_callback`; `accepted` is whether the goal handle is not null. -/
def goalResponseCallback (accepted : Bool) (w : BehaviorTreeWidget) : BehaviorTreeWidget :=
  if accepted then { w with currentTreeText := currentTreeLabel w.activeBehavior } else w

/-- What the `switch` of `result_callback` appends. -/
def resultText : ResultCode → StdString
  | .succeeded => bytes "<font color=\"Green\">SUCCEEDED</font>)"
  | .aborted => bytes "<font color=\"Red\">ABORTED</font>)"
  | .canceled => bytes "<font color=\"Red\">CANCELLED</font>)"
  | .unknown => []

/-- The text of the Last Behavior Run label for a tree name and a result. -/
def lastBehaviorRunLabel (name : StdString) (code : ResultCode) : StdString :=
  bytes "Last Behavior Run: <b>" ++ name ++ bytes "</b> (" ++ resultText code

/-- `logger_callback`; `seconds` is the clock of the node as `std::to_string` prints it. -/
def loggerCallback (seconds msg : StdString) (w : BehaviorTreeWidget) : BehaviorTreeWidget :=
  { w with log := w.log ++ [bytes "[" ++ seconds ++ bytes "] " ++ msg] }

/-- `result_callback`. -/
def resultCallback (code : ResultCode) (returnMessage seconds : StdString)
    (w : BehaviorTreeWidget) : BehaviorTreeWidget :=
  let label := lastBehaviorRunLabel w.activeBehavior code
  let w' := loggerCallback seconds (bytes "Tree result: " ++ returnMessage) w
  { w' with lastBehaviorRunText := label }

/-- `bt_status_callback`: the items of the message up to each `;`. -/
def btStatusCallback (msg : StdString) (w : BehaviorTreeWidget) : BehaviorTreeWidget :=
  { w with btText := Delimited.getlines 0x3b msg }

/-! ## What the callbacks change -/

/-- A press that sends a goal makes the tree of that goal the active one and changes nothing
    else. -/
theorem onRunButtonPressed_ok {w w' : BehaviorTreeWidget} {goal : Option StdString}
    (h : onRunButtonPressed w = .ok (w', goal)) :
    (goal = none ∧ w' = w) ∨
      ∃ tree, goal = some tree ∧ w' = { w with activeBehavior := tree } := by
  unfold onRunButtonPressed at h
  split at h
  · cases h; exact .inl ⟨rfl, rfl⟩
  · cases hv : vectorAt w.availableBehaviors w.selectBehaviorComboBox.currentIndex with
    | error f => rw [hv] at h; cases h
    | ok tree => rw [hv] at h; cases h; exact .inr ⟨tree, rfl, rfl⟩

@[simp] theorem goalResponseCallback_activeBehavior (accepted : Bool) (w : BehaviorTreeWidget) :
    (goalResponseCallback accepted w).activeBehavior = w.activeBehavior := by
  unfold goalResponseCallback; split <;> rfl

/-- A label determines the name in it. -/
theorem currentTreeLabel_injective {a b : StdString}
    (h : currentTreeLabel a = currentTreeLabel b) : a = b :=
  List.append_cancel_left (List.append_cancel_right h)

theorem lastBehaviorRunLabel_injective {a b : StdString} {code : ResultCode}
    (h : lastBehaviorRunLabel a code = lastBehaviorRunLabel b code) : a = b :=
  List.append_cancel_left (List.append_cancel_right (List.append_cancel_right h))

end BehaviorTreeWidget

end DrtBehavior
