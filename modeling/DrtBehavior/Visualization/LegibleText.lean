import DrtBehavior.Visualization.AutoScroll
import DrtBehavior.Visualization.StatusFeed

/-!
# What the text of the tree says

A line of the tree text has the indentation of a node, its name and its status, with nothing between
them that a name could not contain as well.

* `TreeNode.statusTree` — the tree with the name and the status of every node.
* `line_injective` — a line is read in one way if the name does not begin with a space.
* `display_eq_iff` — the entries of a tree are read in one way.
* `legible_text` — of two feeds that are up to date, the widgets show the same text only for the
  same tree with the same statuses.  `indented_name` is why names must not begin with a space.
-/

set_option autoImplicit false

namespace DrtBehavior

open EventMachine DRTBehaviorBtcppLogger BehaviorTreeWidget

/-- The shape of a tree with the name and the status of every node. -/
def TreeNode.statusTree (t : TreeNode) (st : UInt16 → NodeStatus) : Rose (StdString × NodeStatus) :=
  t.shape.map fun node => (node.2, st node.1)

namespace LegibleText

/-! ## One line -/

/-- A name that is not taken for indentation. -/
def Unindented (name : StdString) : Prop := name.head? ≠ some 0x20

instance (name : StdString) : Decidable (Unindented name) := inferInstanceAs (Decidable (_ ≠ _))

/-- No status text ends another one. -/
def SuffixFree (toStr : NodeStatus → StdString) : Prop :=
  ∀ st st', toStr st <:+ toStr st' → st = st'

theorem suffixFree_ansiStatus : SuffixFree ansiStatus := by
  intro st st'
  cases st <;> cases st' <;> decide

theorem suffixFree_statusWord : SuffixFree statusWord := by
  intro st st'
  cases st <;> cases st' <;> decide

/-- How often `c` is repeated is seen where something else follows. -/
theorem replicate_append_inj {α : Type*} {c : α} : ∀ {m n : Nat} {xs ys : List α},
    xs.head? ≠ some c → ys.head? ≠ some c →
    List.replicate m c ++ xs = List.replicate n c ++ ys → m = n ∧ xs = ys
  | 0, 0, _, _, _, _, h => ⟨rfl, h⟩
  | 0, n + 1, _, _, hx, _, h => by
    rw [List.replicate_zero, List.nil_append] at h
    rw [h] at hx
    exact absurd rfl hx
  | m + 1, 0, _, _, _, hy, h => by
    rw [List.replicate_zero, List.nil_append] at h
    rw [← h] at hy
    exact absurd rfl hy
  | m + 1, n + 1, _, _, hx, hy, h => by
    rw [List.replicate_succ, List.replicate_succ, List.cons_append, List.cons_append] at h
    obtain ⟨hmn, hxy⟩ := replicate_append_inj hx hy (List.cons.inj h).2
    exact ⟨congrArg Nat.succ hmn, hxy⟩

/-- Which status text stands at the end is seen, and so is what stands in front of it. -/
theorem append_status_inj {toStr : NodeStatus → StdString} (hsuffix : SuffixFree toStr)
    {xs ys : StdString} {st st' : NodeStatus} (h : xs ++ toStr st = ys ++ toStr st') :
    xs = ys ∧ st = st' := by
  have hst : st = st' := by
    have hleft : toStr st <:+ ys ++ toStr st' := ⟨xs, h⟩
    rcases List.suffix_or_suffix_of_suffix hleft (List.suffix_append ys (toStr st')) with hs | hs
    · exact hsuffix st st' hs
    · exact (hsuffix st' st hs).symm
  subst hst
  exact ⟨List.append_cancel_right h, rfl⟩

/-- Behind the indentation of a line something other than a space follows. -/
theorem head_name_ne {name : StdString} (h : Unindented name) (rest : StdString) :
    (name ++ (bytes ": " ++ rest)).head? ≠ some 0x20 := by
  cases name with
  | nil =>
    have hcolon : bytes ": " = [0x3a, 0x20] := by decide
    rw [List.nil_append, hcolon, List.cons_append, List.head?_cons]
    decide
  | cons c cs => exact h

/-- **A line is read in one way.** -/
theorem line_injective {toStr : NodeStatus → StdString} (hsuffix : SuffixFree toStr)
    {e e' : NodeLogStatus} (hname : Unindented e.name) (hname' : Unindented e'.name)
    (h : line toStr e = line toStr e') : e = e' := by
  simp only [line, List.append_assoc] at h
  obtain ⟨hindent, hrest⟩ := replicate_append_inj (head_name_ne hname _) (head_name_ne hname' _) h
  rw [← List.append_assoc, ← List.append_assoc] at hrest
  obtain ⟨hfront, hstatus⟩ := append_status_inj hsuffix hrest
  have hnames : e.name = e'.name := List.append_cancel_right hfront
  obtain ⟨name, status, indent⟩ := e
  obtain ⟨name', status', indent'⟩ := e'
  simp only at hindent hstatus hnames
  rw [hindent, hstatus, hnames]

/-! ## All lines -/

/-- A function that is injective on what two lists have is so on the lists. -/
theorem map_eq_iff_of_inj {α β : Type*} {P : α → Prop} {f : α → β}
    (hf : ∀ {x y}, P x → P y → f x = f y → x = y) : ∀ {xs ys : List α},
    (∀ x ∈ xs, P x) → (∀ y ∈ ys, P y) → (xs.map f = ys.map f ↔ xs = ys)
  | [], [], _, _ => iff_of_true rfl rfl
  | [], y :: ys, _, _ => iff_of_false nofun nofun
  | x :: xs, [], _, _ => iff_of_false nofun nofun
  | x :: xs, y :: ys, hx, hy => by
    have htail := map_eq_iff_of_inj hf (fun z hz => hx z (List.mem_cons_of_mem x hz))
      fun z hz => hy z (List.mem_cons_of_mem y hz)
    refine ⟨fun h => ?_, fun h => by rw [h]⟩
    obtain ⟨hhead, hrest⟩ := List.cons.inj h
    rw [hf (hx x List.mem_cons_self) (hy y List.mem_cons_self) hhead, htail.mp hrest]

/-- The entry of an item of the listing of `statusTree`. -/
def entryOf (item : Nat × StdString × NodeStatus) : NodeLogStatus :=
  ⟨item.2.1, item.2.2, item.1⟩

theorem display_eq (t : TreeNode) (st : UInt16 → NodeStatus) :
    display t st = ((t.statusTree st).preorder 0).map entryOf := by
  rw [TreeNode.statusTree, Rose.preorder_map, List.map_map]
  rfl

/-- **The entries determine the tree and the statuses.** -/
theorem display_eq_iff (t u : TreeNode) (st st' : UInt16 → NodeStatus) :
    display t st = display u st' ↔ t.statusTree st = u.statusTree st' := by
  have hentry : Function.Injective entryOf := by
    rintro ⟨indent, name, status⟩ ⟨indent', name', status'⟩ h
    cases h
    rfl
  rw [display_eq, display_eq]
  exact ⟨fun h => Rose.preorder_injective 0 (List.map_injective_iff.mpr hentry h),
    fun h => by rw [h]⟩

theorem name_mem_names {t : TreeNode} {st : UInt16 → NodeStatus} {e : NodeLogStatus}
    (h : e ∈ display t st) : e.name ∈ t.names := by
  obtain ⟨item, hitem, rfl⟩ := List.mem_map.mp h
  rw [names_eq]
  exact List.mem_map_of_mem hitem

/-- The lines do, if no name begins with a space. -/
theorem lines_eq_iff {toStr : NodeStatus → StdString} (hsuffix : SuffixFree toStr)
    {t u : TreeNode} (st st' : UInt16 → NodeStatus)
    (hnames : ∀ name ∈ t.names ++ u.names, Unindented name) :
    lines toStr t st = lines toStr u st' ↔ t.statusTree st = u.statusTree st' := by
  rw [← display_eq_iff, lines, lines]
  refine map_eq_iff_of_inj (P := fun e => Unindented e.name)
    (fun hx hy h => line_injective hsuffix hx hy h) (fun e he => ?_) fun e he => ?_
  · exact hnames _ (List.mem_append_left _ (name_mem_names he))
  · exact hnames _ (List.mem_append_right _ (name_mem_names he))

/-! ## What the widgets show -/

open StatusFeed

/-- No message is under way and the logger of the current tree, which holds the statuses `st`, has
    published. -/
def UpToDate (f : Feed) (t : TreeNode) (st : UInt16 → NodeStatus) : Prop :=
  f.topic.Quiet ∧ ∃ w, f.current = some (t, w) ∧ w.logger.published ≠ [] ∧ st = w.held

/-- The box of a feed that is up to date. -/
theorem btText_of_upToDate {es : List Event} {f : Feed}
    (hr : run (step ansiStatus) Feed.initial es = some f) {t : TreeNode} {st : UInt16 → NodeStatus}
    (h : UpToDate f t st) (hnames : ∀ name ∈ t.names, 0x3b ∉ name) :
    f.widget.btText = lines ansiStatus t st := by
  obtain ⟨hquiet, w, hcurrent, hne, rfl⟩ := h
  exact (shows_of_quiet ((inv_always es).last hr) hquiet hcurrent hne hnames).1

open AutoScroll in
/-- The text that is displayed for a box of plain lines. -/
theorem plainText_of_lines (E : Markup.Entities) {w : BehaviorTreeWidget} {t : TreeNode}
    {st : UInt16 → NodeStatus} (hbox : w.btText = lines ansiStatus t st)
    (hnames : ∀ name ∈ t.names, PlainName name) :
    Markup.plainText E (updateBtText w) =
      (bytes "\n").intercalate (lines statusWord t st) := by
  have hplain : ∀ e ∈ display t st, PlainName e.name := fun e he =>
    hnames _ (name_mem_names he)
  have hfree : ∀ item ∈ w.btText, Markup.lt ∉ item ∧ Markup.ampersand ∉ item := by
    rw [hbox, lines, List.forall_mem_map]
    intro e he
    exact ⟨not_mem_line (hplain e he) (by decide), not_mem_line (hplain e he) (by decide)⟩
  have hread : (lines ansiStatus t st).map faithfulText = lines statusWord t st := by
    rw [lines, lines, List.map_map]
    refine List.map_congr_left fun e he => ?_
    rw [Function.comp_apply, faithfulText_line (hplain e he), lineBytes, line, List.append_assoc,
      List.append_assoc]
  rw [plainText_updateBtText E hfree, hbox, hread]

theorem lines_ne_nil (toStr : NodeStatus → StdString) (t : TreeNode) (st : UInt16 → NodeStatus) :
    lines toStr t st ≠ [] := by
  obtain ⟨name, children, hshape⟩ : ∃ name children, t.shape = .node name children := by
    cases t <;> exact ⟨_, _, by rw [TreeNode.shape]⟩
  rw [lines, display, hshape, Rose.preorder_node]
  exact List.cons_ne_nil _ _

/-- No line end is in a line whose name has none. -/
theorem newline_not_mem_line {e : NodeLogStatus} (h : 0x0a ∉ e.name) :
    0x0a ∉ line statusWord e := by
  have hindent : (0x0a : UInt8) ∉ List.replicate e.indent 0x20 := by
    intro hm
    exact absurd (List.eq_of_mem_replicate hm) (by decide)
  have hcolon : (0x0a : UInt8) ∉ bytes ": " := by decide
  have hstatus : (0x0a : UInt8) ∉ statusWord e.status := by
    cases e.status <;> decide
  unfold line
  simp only [List.mem_append, hindent, h, hcolon, hstatus, or_false, not_false_eq_true]

theorem newline_not_mem_lines {t : TreeNode} (st : UInt16 → NodeStatus)
    (h : ∀ name ∈ t.names, 0x0a ∉ name) : ∀ item ∈ lines statusWord t st, 0x0a ∉ item := by
  rw [lines, List.forall_mem_map]
  exact fun e he => newline_not_mem_line (h _ (name_mem_names he))

/-- **Who reads the text knows the tree.**  Whatever trees two feeds have executed before and
    whatever messages were dropped: when both are up to date and no name of their trees begins with
    a space or contains a semicolon, the boxes have the same lines exactly if the trees are the same
    with the same names and statuses.  So it is with the displayed texts, if the names are shown as
    they are and contain no line end. -/
theorem legible_text (E : Markup.Entities) (es es' : List Event) {f f' : Feed}
    (hr : run (step ansiStatus) Feed.initial es = some f)
    (hr' : run (step ansiStatus) Feed.initial es' = some f') {t u : TreeNode}
    {st st' : UInt16 → NodeStatus} (h : UpToDate f t st) (h' : UpToDate f' u st')
    (hnames : ∀ name ∈ t.names ++ u.names, Unindented name ∧ 0x3b ∉ name) :
    (f.widget.btText = f'.widget.btText ↔ t.statusTree st = u.statusTree st') ∧
    ((∀ name ∈ t.names ++ u.names, AutoScroll.PlainName name ∧ 0x0a ∉ name) →
      (Markup.plainText E (updateBtText f.widget) = Markup.plainText E (updateBtText f'.widget) ↔
        t.statusTree st = u.statusTree st')) := by
  have hbox := btText_of_upToDate hr h fun name hn =>
    (hnames name (List.mem_append_left _ hn)).2
  have hbox' := btText_of_upToDate hr' h' fun name hn =>
    (hnames name (List.mem_append_right _ hn)).2
  have hunindented : ∀ name ∈ t.names ++ u.names, Unindented name := fun name hn =>
    (hnames name hn).1
  refine ⟨?_, fun hplain => ?_⟩
  · rw [hbox, hbox']
    exact lines_eq_iff suffixFree_ansiStatus st st' hunindented
  · have hnewline : bytes "\n" = [0x0a] := by decide
    rw [plainText_of_lines E hbox fun name hn => (hplain name (List.mem_append_left _ hn)).1,
      plainText_of_lines E hbox' fun name hn => (hplain name (List.mem_append_right _ hn)).1,
      hnewline, Delimited.intercalate_eq_iff (lines_ne_nil _ _ _) (lines_ne_nil _ _ _)
        (newline_not_mem_lines st fun name hn => (hplain name (List.mem_append_left _ hn)).2)
        (newline_not_mem_lines st' fun name hn => (hplain name (List.mem_append_right _ hn)).2)]
    exact lines_eq_iff suffixFree_statusWord st st' hunindented

instance (name : StdString) : Decidable (AutoScroll.PlainName name) :=
  inferInstanceAs (Decidable (∀ c ∈ name, _ ∧ _))

/-- Two trees that differ in node kinds and UIDs only. -/
theorem legible_text_same_names :
    let t : TreeNode := .control 1 (bytes "root") [.leaf 2 (bytes "Grasp")]
    let u : TreeNode := .decorator 7 (bytes "root") (.leaf 8 (bytes "Grasp"))
    let es : List Event := [.treeCreated t, .transition ⟨2, .running⟩, .deliver, .statusReceived]
    let es' : List Event := [.treeCreated u, .transition ⟨8, .running⟩, .deliver, .statusReceived]
    ∃ f f' st st', run (step ansiStatus) Feed.initial es = some f ∧
      run (step ansiStatus) Feed.initial es' = some f' ∧
      (f.widget.btText = f'.widget.btText ↔ t.statusTree st = u.statusTree st') ∧
      (Markup.plainText basicEntities (updateBtText f.widget) =
          Markup.plainText basicEntities (updateBtText f'.widget) ↔
        t.statusTree st = u.statusTree st') := by
  intro t u es es'
  have hlegible := legible_text basicEntities es es' rfl rfl (t := t) (u := u)
    ⟨by decide +kernel, _, rfl, by decide +kernel, rfl⟩
    ⟨by decide +kernel, _, rfl, by decide +kernel, rfl⟩ (by decide +kernel)
  exact ⟨_, _, _, _, rfl, rfl, hlegible.1, hlegible.2 (by decide +kernel)⟩

/-- A name that begins with a space: the second child of the root is shown like a child of the
    first. -/
theorem indented_name :
    let t : TreeNode := .control 1 (bytes "root") [.leaf 2 (bytes "a"), .leaf 3 (bytes " b")]
    let u : TreeNode := .control 1 (bytes "root") [.decorator 2 (bytes "a") (.leaf 3 (bytes "b"))]
    lines ansiStatus t (fun _ => .idle) = lines ansiStatus u (fun _ => .idle) ∧
      t.statusTree (fun _ => .idle) ≠ u.statusTree (fun _ => .idle) := by
  intro t u
  refine ⟨by decide +kernel, fun h => ?_⟩
  have hsize : (t.statusTree fun _ => .idle).preorder 0 ≠
      (u.statusTree fun _ => .idle).preorder 0 := by decide +kernel
  exact hsize (by rw [h])

end LegibleText

end DrtBehavior
