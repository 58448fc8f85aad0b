import DrtBehavior.Base.EventMachine
import DrtBehavior.Visualization.TreeWidget

/-!
# Which tree the labels name

The widget together with the action server: the user selects trees and presses Run, the server
answers each sent goal once and sends one result for each accepted goal, in any order the action
protocol allows.

* `Session`, `step` — the widget and the goals it has sent, in the order of sending.
* `Attributed` — a label that a callback sets names the tree of the goal it handles.
* `attribution_iff` — this holds along a run iff every accepted response and every result is
  handled while the goal sent last names the same tree.  `activeBehavior` is one variable, set at
  the press: `result_named_after_rejected_goal`.
-/

set_option autoImplicit false

namespace DrtBehavior

namespace Attribution

open EventMachine BehaviorTreeWidget

inductive GoalPhase where
  | sent
  | executing
  | rejected
  | finished
  deriving DecidableEq, Repr

/-- A goal the widget has sent. -/
structure SentGoal where
  targetTree : StdString
  phase : GoalPhase
  deriving DecidableEq, Repr

inductive Event where
  | pressUpdateTrees
  | treesReceived (treeIds : List StdString)
  | select (i : Nat)
  | pressRun
  | pressStop
  | statusReceived (msg : StdString)
  | goalResponse (g : Nat) (accepted : Bool)
  | result (g : Nat) (code : ResultCode) (returnMessage seconds : StdString)
  deriving DecidableEq, Repr

/-- The widget and the goals it has sent; a goal is known by its position. -/
structure Session where
  widget : BehaviorTreeWidget
  goals : List SentGoal
  deriving DecidableEq, Repr

def Session.initial : Session := ⟨BehaviorTreeWidget.initial, []⟩

def step (s : Session) : Event → Option Session
  | .pressUpdateTrees => some { s with widget := onUpdateTreesBtnPressed s.widget }
  | .treesReceived treeIds => some { s with widget := getBehaviorTreesCb treeIds s.widget }
  | .select i =>
    (s.widget.selectBehaviorComboBox.setCurrentIndex i).map fun box =>
      { s with widget := { s.widget with selectBehaviorComboBox := box } }
  | .pressRun =>
    match onRunButtonPressed s.widget with
    | .error _ => none
    | .ok (w, none) => some { s with widget := w }
    | .ok (w, some tree) => some ⟨w, s.goals ++ [⟨tree, .sent⟩]⟩
  -- `async_cancel_all_goals` changes nothing in the widget
  | .pressStop => some s
  | .statusReceived msg => some { s with widget := btStatusCallback msg s.widget }
  | .goalResponse g accepted =>
    match s.goals[g]? with
    | some ⟨tree, .sent⟩ =>
      some ⟨goalResponseCallback accepted s.widget,
        s.goals.set g ⟨tree, if accepted then .executing else .rejected⟩⟩
    | _ => none
  | .result g code returnMessage seconds =>
    match s.goals[g]? with
    | some ⟨tree, .executing⟩ =>
      some ⟨resultCallback code returnMessage seconds s.widget, s.goals.set g ⟨tree, .finished⟩⟩
    | _ => none

/-- The tree of goal `g`. -/
def Session.treeOf (s : Session) (g : Nat) : Option StdString := (s.goals.map (·.targetTree))[g]?

/-- The tree of the goal sent last. -/
def Session.lastSent (s : Session) : Option StdString := (s.goals.map (·.targetTree)).getLast?

/-- A label set by a callback names the tree of the goal the callback handles.  What is compared is
    the HTML source that the label is set to. -/
def Attributed (s : Session) (e : Event) (s' : Session) : Prop :=
  match e with
  | .goalResponse g true => (s.treeOf g).map currentTreeLabel = some s'.widget.currentTreeText
  | .result g code _ _ =>
    (s.treeOf g).map (lastBehaviorRunLabel · code) = some s'.widget.lastBehaviorRunText
  | _ => True

instance (s : Session) (e : Event) (s' : Session) : Decidable (Attributed s e s') := by
  unfold Attributed; split <;> infer_instance

/-- An accepted response and a result are handled while the goal sent last, by this or a later
    press of Run, names the tree of the handled goal. -/
def NoOtherTreeSent (s : Session) (e : Event) : Prop :=
  match e with
  | .goalResponse g true => s.lastSent = s.treeOf g
  | .result g _ _ _ => s.lastSent = s.treeOf g
  | _ => True

/-- The active behavior is the tree of the goal sent last. -/
def Inv (s : Session) : Prop := ∀ tree, s.lastSent = some tree → s.widget.activeBehavior = tree

theorem treeOf_eq_some {s : Session} {g : Nat} {goal : SentGoal} (h : s.goals[g]? = some goal) :
    s.treeOf g = some goal.targetTree := by
  simp [Session.treeOf, h]

/-- As soon as there is a goal, the active behavior is the tree of the last one. -/
theorem lastSent_eq {s : Session} (hi : Inv s) {g : Nat} {goal : SentGoal}
    (h : s.goals[g]? = some goal) : s.lastSent = some s.widget.activeBehavior := by
  cases hl : s.lastSent with
  | none =>
    have hnil : s.goals = [] := by simpa [Session.lastSent] using hl
    rw [hnil] at h
    cases h
  | some tree => rw [hi tree hl]

theorem map_targetTree_set {goals : List SentGoal} {g : Nat} {tree : StdString}
    {phase phase' : GoalPhase} (h : goals[g]? = some ⟨tree, phase⟩) :
    (goals.set g ⟨tree, phase'⟩).map (·.targetTree) = goals.map (·.targetTree) := by
  rw [List.map_set]
  have hg : (goals.map (·.targetTree))[g]? = some tree := by simp [h]
  obtain ⟨hlt, heq⟩ := List.getElem?_eq_some_iff.mp hg
  rw [← heq, List.set_getElem_self]

/-- The response of a goal comes once, after the goal was sent. -/
theorem step_goalResponse {s s' : Session} {g : Nat} {accepted : Bool}
    (hs : step s (.goalResponse g accepted) = some s') :
    ∃ tree, s.goals[g]? = some ⟨tree, .sent⟩ ∧
      s' = ⟨goalResponseCallback accepted s.widget,
        s.goals.set g ⟨tree, if accepted then .executing else .rejected⟩⟩ := by
  simp only [step] at hs
  split at hs
  · rename_i tree hg
    cases hs
    exact ⟨tree, hg, rfl⟩
  · cases hs

theorem step_result {s s' : Session} {g : Nat} {code : ResultCode}
    {returnMessage seconds : StdString}
    (hs : step s (.result g code returnMessage seconds) = some s') :
    ∃ tree, s.goals[g]? = some ⟨tree, .executing⟩ ∧
      s' = ⟨resultCallback code returnMessage seconds s.widget,
        s.goals.set g ⟨tree, .finished⟩⟩ := by
  simp only [step] at hs
  split at hs
  · rename_i tree hg
    cases hs
    exact ⟨tree, hg, rfl⟩
  · cases hs

/-- A goal that moves on names the same tree as before. -/
theorem Inv.answered {s : Session} (hi : Inv s) {g : Nat} {tree : StdString}
    {phase : GoalPhase} (hg : s.goals[g]? = some ⟨tree, phase⟩) (phase' : GoalPhase)
    {w : BehaviorTreeWidget} (hw : w.activeBehavior = s.widget.activeBehavior) :
    Inv ⟨w, s.goals.set g ⟨tree, phase'⟩⟩ := by
  intro t hl
  rw [Session.lastSent, map_targetTree_set hg] at hl
  rw [hw]
  exact hi t hl

theorem inv_step {s s' : Session} {e : Event} (hi : Inv s) (hs : step s e = some s') : Inv s' := by
  cases e with
  | pressUpdateTrees => cases hs; exact hi
  | treesReceived treeIds => cases hs; exact hi
  | select i =>
    obtain ⟨box, _, rfl⟩ := Option.map_eq_some_iff.mp hs
    exact hi
  | pressRun =>
    simp only [step] at hs
    split at hs
    · cases hs
    · rename_i w hw
      cases hs
      rcases onRunButtonPressed_ok hw with ⟨_, rfl⟩ | ⟨_, hn, _⟩
      · exact hi
      · cases hn
    · rename_i w tree hw
      cases hs
      rcases onRunButtonPressed_ok hw with ⟨hn, _⟩ | ⟨_, ht, rfl⟩
      · cases hn
      · cases ht
        intro t hl
        simpa [Session.lastSent] using hl
  | pressStop => cases hs; exact hi
  | statusReceived msg => cases hs; exact hi
  | goalResponse g accepted =>
    obtain ⟨tree, hg, rfl⟩ := step_goalResponse hs
    exact hi.answered hg _ (goalResponseCallback_activeBehavior accepted s.widget)
  | result g code returnMessage seconds =>
    obtain ⟨tree, hg, rfl⟩ := step_result hs
    exact hi.answered hg _ rfl

/-- One handled response or result: its label is right iff no other tree was sent since. -/
theorem attributed_iff {s s' : Session} {e : Event} (hi : Inv s) (hs : step s e = some s') :
    Attributed s e s' ↔ NoOtherTreeSent s e := by
  cases e with
  | goalResponse g accepted =>
    obtain ⟨tree, hg, rfl⟩ := step_goalResponse hs
    cases accepted with
    | false => exact Iff.rfl
    | true =>
      have hlast := lastSent_eq hi hg
      simp only [Attributed, NoOtherTreeSent, hlast, treeOf_eq_some hg, Option.map_some,
        goalResponseCallback, if_true, Option.some.injEq]
      constructor
      · intro h; exact (currentTreeLabel_injective h).symm
      · intro h; rw [h]
  | result g code returnMessage seconds =>
    obtain ⟨tree, hg, rfl⟩ := step_result hs
    have hlast := lastSent_eq hi hg
    simp only [Attributed, NoOtherTreeSent, hlast, treeOf_eq_some hg, Option.map_some,
      Option.some.injEq]
    constructor
    · intro h; exact (lastBehaviorRunLabel_injective h).symm
    · intro h; rw [← h]; rfl
  | pressUpdateTrees => exact Iff.rfl
  | treesReceived => exact Iff.rfl
  | select => exact Iff.rfl
  | pressRun => exact Iff.rfl
  | pressStop => exact Iff.rfl
  | statusReceived => exact Iff.rfl

/-- **The labels name the right tree exactly while no other tree has been sent.**  For every
    interleaving of presses, responses and results. -/
theorem attribution_iff (es : List Event) :
    EachStep step Attributed Session.initial es ↔
      EachStep step (fun s e _ => NoOtherTreeSent s e) Session.initial es :=
  have h0 : Inv Session.initial := by intro tree h; cases h
  eachStep_congr es h0 (fun _ _ _ hi hs => inv_step hi hs) fun _ _ _ hi hs => attributed_iff hi hs

/-- `pick` is accepted and runs; the user presses Run for `place`, which the server rejects as a
    tree is executing; then `pick` succeeds and is shown as `place`. -/
theorem result_named_after_rejected_goal :
    let pick := bytes "pick"
    let place := bytes "place"
    let es : List Event := [.treesReceived [pick, place], .select 0, .pressRun,
      .goalResponse 0 true, .select 1, .pressRun, .goalResponse 1 false]
    let done : Event := .result 0 .succeeded [] (bytes "1.0")
    (run step Session.initial (es ++ [done])).map
          (fun s => (s.goals, s.widget.lastBehaviorRunText)) =
        some ([⟨pick, .finished⟩, ⟨place, .rejected⟩], lastBehaviorRunLabel place .succeeded) ∧
      ¬ EachStep step Attributed Session.initial (es ++ [done]) := by
  intro pick place es done
  exact ⟨by decide, not_eachStep rfl rfl (by decide)⟩

end Attribution

end DrtBehavior
