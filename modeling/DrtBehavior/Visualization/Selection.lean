import DrtBehavior.Visualization.Attribution

/-!
# The tree a press of Run starts

The widget holds the list of trees twice, in `available_behaviors` and in the combo box, and
`on_RunButton_pressed` reads one with the index of the other.

* `ComboBox.currentText`, `ComboBox.HasCurrent` — the current item; one is current as soon as
  there are items.
* `ListsTrees` — the box lists the available behaviors; every event keeps it.
* `run_starts_selected` — a press never reads past the list and starts the current item.
-/

set_option autoImplicit false

namespace DrtBehavior

namespace ComboBox

/-- `QComboBox::currentText`: empty when no item is current. -/
def currentText (c : ComboBox) : StdString :=
  if 0 ≤ c.currentIndex then c.items.getD c.currentIndex.toNat [] else []

/-- An item is current as soon as there are items. -/
def HasCurrent (c : ComboBox) : Prop :=
  c.items ≠ [] → 0 ≤ c.currentIndex ∧ c.currentIndex < c.items.length

theorem hasCurrent_empty : HasCurrent empty := by
  intro h
  exact absurd rfl h

theorem HasCurrent.addItem {c : ComboBox} (h : c.HasCurrent) (item : StdString) :
    (c.addItem item).HasCurrent := by
  intro _
  unfold ComboBox.addItem
  simp only [List.length_append, List.length_singleton]
  split
  · omega
  · rename_i hne
    obtain ⟨h0, h1⟩ := h hne
    omega

/-- The loop that fills a box. -/
theorem foldl_addItem (items : List StdString) : ∀ c : ComboBox, c.HasCurrent →
    (items.foldl addItem c).items = c.items ++ items ∧ (items.foldl addItem c).HasCurrent := by
  induction items with
  | nil =>
    intro c h
    exact ⟨(List.append_nil c.items).symm, h⟩
  | cons item items ih =>
    intro c h
    obtain ⟨hitems, hcur⟩ := ih (c.addItem item) (h.addItem item)
    refine ⟨?_, hcur⟩
    rw [List.foldl_cons, hitems]
    exact List.append_assoc c.items [item] items

theorem setCurrentIndex_some {c c' : ComboBox} {i : Nat} (h : c.setCurrentIndex i = some c') :
    c'.items = c.items ∧ c'.HasCurrent := by
  unfold setCurrentIndex at h
  split at h
  · rename_i hi
    cases h
    refine ⟨rfl, fun _ => ?_⟩
    simp only
    omega
  · cases h

/-- The current item, where there is one. -/
theorem HasCurrent.currentText {c : ComboBox} (h : c.HasCurrent) (hne : c.items ≠ []) :
    c.items[c.currentIndex.toNat]? = some c.currentText := by
  obtain ⟨h0, h1⟩ := h hne
  have hlt : c.currentIndex.toNat < c.items.length := by omega
  rw [ComboBox.currentText, if_pos h0, List.getD_eq_getElem?_getD, List.getElem?_eq_getElem hlt]
  rfl

end ComboBox

namespace Attribution

open EventMachine BehaviorTreeWidget

/-- The box lists the available behaviors and has a current item, if any. -/
structure ListsTrees (w : BehaviorTreeWidget) : Prop where
  items : w.selectBehaviorComboBox.items = w.availableBehaviors
  current : w.selectBehaviorComboBox.HasCurrent

theorem listsTrees_initial : ListsTrees BehaviorTreeWidget.initial :=
  ⟨rfl, ComboBox.hasCurrent_empty⟩

/-- Only the box and the list matter. -/
theorem ListsTrees.congr {w w' : BehaviorTreeWidget} (h : ListsTrees w)
    (hbox : w'.selectBehaviorComboBox = w.selectBehaviorComboBox)
    (hlist : w'.availableBehaviors = w.availableBehaviors) : ListsTrees w' :=
  ⟨by rw [hbox, hlist]; exact h.items, by rw [hbox]; exact h.current⟩

/-- Whatever the box held, a new list refills it. -/
theorem listsTrees_getBehaviorTreesCb (treeIds : List StdString) (w : BehaviorTreeWidget) :
    ListsTrees (getBehaviorTreesCb treeIds w) := by
  obtain ⟨hitems, hcur⟩ := ComboBox.foldl_addItem treeIds _ ComboBox.hasCurrent_empty
  exact ⟨hitems, hcur⟩

/-- **A press past the empty-box check starts the current item.** -/
theorem ListsTrees.onRunButtonPressed {w : BehaviorTreeWidget} (h : ListsTrees w)
    (hne : w.selectBehaviorComboBox.count ≠ 0) :
    onRunButtonPressed w = .ok
      ({ w with activeBehavior := w.selectBehaviorComboBox.currentText },
        some w.selectBehaviorComboBox.currentText) := by
  have hitems : w.selectBehaviorComboBox.items ≠ [] := fun he => hne (congrArg List.length he)
  have htext := h.current.currentText hitems
  rw [h.items] at htext
  unfold BehaviorTreeWidget.onRunButtonPressed
  rw [if_neg hne, vectorAt, if_pos (h.current hitems).1, htext]
  rfl

theorem listsTrees_step {s s' : Session} {e : Event} (h : ListsTrees s.widget)
    (hs : step s e = some s') : ListsTrees s'.widget := by
  cases e with
  | treesReceived treeIds =>
    cases hs
    exact listsTrees_getBehaviorTreesCb treeIds s.widget
  | select i =>
    obtain ⟨box, hbox, rfl⟩ := Option.map_eq_some_iff.mp hs
    obtain ⟨hitems, hcur⟩ := ComboBox.setCurrentIndex_some hbox
    exact ⟨hitems.trans h.items, hcur⟩
  | pressRun =>
    simp only [step] at hs
    split at hs
    · cases hs
    · rename_i w hw
      cases hs
      rcases onRunButtonPressed_ok hw with ⟨_, rfl⟩ | ⟨_, hn, _⟩
      · exact h
      · cases hn
    · rename_i w tree hw
      cases hs
      rcases onRunButtonPressed_ok hw with ⟨hn, _⟩ | ⟨_, _, rfl⟩
      · cases hn
      · exact h.congr rfl rfl
  | pressUpdateTrees => cases hs; exact h.congr rfl rfl
  | pressStop => cases hs; exact h
  | statusReceived msg => cases hs; exact h.congr rfl rfl
  | goalResponse g accepted =>
    obtain ⟨tree, _, rfl⟩ := step_goalResponse hs
    cases accepted with
    | false => exact h.congr rfl rfl
    | true => exact h.congr rfl rfl
  | result g code returnMessage seconds =>
    obtain ⟨tree, _, rfl⟩ := step_result hs
    exact h.congr rfl rfl

/-- In every state of a session the box lists the available behaviors. -/
theorem always_listsTrees (es : List Event) :
    Always step (fun s => ListsTrees s.widget) Session.initial es :=
  always_of_invariant es listsTrees_initial fun _ _ _ h hs => listsTrees_step h hs

/-- **Run starts the tree that is shown as selected.**  After every sequence of events, a press of
    Run is answered: with an empty box nothing is sent; otherwise the index of the box is one of
    `available_behaviors` and the goal names the current item of the box. -/
theorem run_starts_selected {es : List Event} {s : Session}
    (hr : run step Session.initial es = some s) :
    let box := s.widget.selectBehaviorComboBox
    (box.count = 0 → step s .pressRun = some s) ∧
      (box.count ≠ 0 →
        0 ≤ box.currentIndex ∧ box.currentIndex < s.widget.availableBehaviors.length ∧
          step s .pressRun = some ⟨{ s.widget with activeBehavior := box.currentText },
            s.goals ++ [⟨box.currentText, .sent⟩]⟩) := by
  intro box
  have h : ListsTrees s.widget := (always_listsTrees es).last hr
  constructor
  · intro he
    have hpress : onRunButtonPressed s.widget = .ok (s.widget, none) := if_pos he
    rw [step, hpress]
  · intro hne
    have hitems : box.items ≠ [] := fun he => hne (congrArg List.length he)
    obtain ⟨h0, h1⟩ := h.current hitems
    rw [h.items] at h1
    refine ⟨h0, h1, ?_⟩
    rw [step, h.onRunButtonPressed hne]

/-- The third of three trees is selected when a list with one tree arrives. -/
theorem run_starts_selected_shrunk :
    let s : Session := ⟨{ BehaviorTreeWidget.initial with
      availableBehaviors := [bytes "place"]
      selectBehaviorComboBox := ⟨[bytes "place"], 0⟩
      widgetInitialized := true }, []⟩
    step s .pressRun = some ⟨{ s.widget with activeBehavior := bytes "place" },
      [⟨bytes "place", .sent⟩]⟩ := by
  intro s
  have hr : run step Session.initial
      [.treesReceived [bytes "pick", bytes "home", bytes "place"], .select 2,
        .treesReceived [bytes "place"]] = some s := by decide
  exact ((run_starts_selected hr).2 (by decide)).2.2

end Attribution

end DrtBehavior
