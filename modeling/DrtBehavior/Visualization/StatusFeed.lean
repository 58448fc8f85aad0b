import DrtBehavior.Base.KeepLast
import DrtBehavior.Base.Refinement
import DrtBehavior.Status.Snapshot
import DrtBehavior.Status.WireFormat

/-!
# The status feed

From the nodes of a tree to the text box of the widget: one logger after another watches the trees
that are executed and publishes on `~/bt_status`, a topic that keeps ten samples on either side; the
widget takes the messages off it.  Status changes, new trees, deliveries and callbacks happen in any
order.

* `Feed`, `step` — the tree being executed with its logger, the topic and the widget.
* `snapshot` — what a status change should publish: a listing of the tree being executed.
* `feed_in_order` — the widget is given such listings, each once at most, in the order of the
  changes.
* `quiet_feed_current` — with nothing under way the box shows what the nodes of the tree are.
* `feed_complete` — and no status change is skipped while no queue is full.
-/

set_option autoImplicit false

namespace DrtBehavior

namespace StatusFeed

open EventMachine KeepLast DRTBehaviorBtcppLogger BehaviorTreeWidget

/-- The history of `rclcpp::QoS qos_profile(10)` and the depth of the subscription. -/
def depth : Nat := 10

/-- The tree of the execution whose logger exists, the topic and the widget. -/
structure Feed where
  current : Option (TreeNode × Watched)
  topic : Topic StdString
  widget : BehaviorTreeWidget

inductive Event where
  /-- `onTreeCreated`: a new logger with a publisher of its own replaces the old one. -/
  | treeCreated (tree : TreeNode)
  | transition (tr : Transition)
  | deliver
  /-- The executor of the widget's node takes a message and calls `bt_status_callback`. -/
  | statusReceived

def Feed.initial : Feed := ⟨none, .empty, BehaviorTreeWidget.initial⟩

/-- What a logger has published since it had published `before`. -/
def news (before after : DRTBehaviorBtcppLogger) : List StdString :=
  after.published.drop before.published.length

/-- The UIDs of a tree are pairwise distinct. -/
def step (toStr : NodeStatus → StdString) (f : Feed) : Event → Option Feed
  | .treeCreated tree =>
    if tree.uids.Nodup then
      (KeepLast.step depth depth f.topic .renew).map fun topic =>
        { f with current := some (tree, Watched.start tree), topic }
    else none
  | .transition tr =>
    match f.current with
    | none => none
    | some (tree, w) =>
      (w.transition toStr tree tr).map fun w' =>
        { f with
          current := some (tree, w')
          topic := (news w.logger w'.logger).foldl (Topic.publish depth) f.topic }
  | .deliver => (KeepLast.step depth depth f.topic .deliver).map fun topic => { f with topic }
  | .statusReceived =>
    match f.topic.queue with
    | [] => none
    | msg :: _ =>
      (KeepLast.step depth depth f.topic .take).map fun topic =>
        { f with topic, widget := btStatusCallback msg f.widget }

/-! ## What a step can do -/

variable {toStr : NodeStatus → StdString}

theorem news_nil {before after : DRTBehaviorBtcppLogger}
    (h : after.published = before.published) : news before after = [] := by
  rw [news, h, List.drop_length]

theorem news_concat {before after : DRTBehaviorBtcppLogger} {m : StdString}
    (h : after.published = before.published ++ [m]) : news before after = [m] := by
  rw [news, h, List.drop_left]

theorem foldl_publish_published (ms : List StdString) (topic : Topic StdString) :
    (ms.foldl (Topic.publish depth) topic).published = topic.published ++ ms := by
  induction ms generalizing topic with
  | nil => rw [List.foldl_nil, List.append_nil]
  | cons m ms ih =>
    rw [List.foldl_cons, ih, Topic.publish, List.append_assoc]
    rfl

/-- **Everything a step can do.** -/
theorem step_cases {f f' : Feed} {e : Event} (h : step toStr f e = some f') :
    (∃ tree, e = .treeCreated tree ∧ tree.uids.Nodup ∧
      f' = { f with
        current := some (tree, Watched.start tree)
        topic := { f.topic with history := [] } }) ∨
    (∃ tr tree w w', e = .transition tr ∧ f.current = some (tree, w) ∧
      w.transition toStr tree tr = some w' ∧
      f' = { f with
        current := some (tree, w')
        topic := (news w.logger w'.logger).foldl (Topic.publish depth) f.topic }) ∨
    (∃ topic, e = .deliver ∧ KeepLast.step depth depth f.topic .deliver = some topic ∧
      f' = { f with topic }) ∨
    (∃ msg rest, e = .statusReceived ∧ f.topic.queue = msg :: rest ∧
      f' = { f with
        topic := { f.topic with queue := rest, taken := f.topic.taken ++ [msg] }
        widget := btStatusCallback msg f.widget }) := by
  cases e with
  | treeCreated tree =>
    simp only [step] at h
    split at h
    · rename_i hnd
      cases h
      exact .inl ⟨tree, rfl, hnd, rfl⟩
    · cases h
  | transition tr =>
    simp only [step] at h
    split at h
    · cases h
    · rename_i tree w hcurrent
      obtain ⟨w', hw', rfl⟩ := Option.map_eq_some_iff.mp h
      exact .inr (.inl ⟨tr, tree, w, w', rfl, hcurrent, hw', rfl⟩)
  | deliver =>
    obtain ⟨topic, htopic, rfl⟩ := Option.map_eq_some_iff.mp h
    exact .inr (.inr (.inl ⟨topic, rfl, htopic, rfl⟩))
  | statusReceived =>
    simp only [step] at h
    split at h
    · cases h
    · rename_i msg rest hqueue
      rw [KeepLast.step, hqueue] at h
      cases h
      exact .inr (.inr (.inr ⟨msg, rest, rfl, hqueue, rfl⟩))

/-! ## The invariant -/

/-- What the last message that was taken says. -/
def lastTaken (topic : Topic StdString) : List StdString :=
  (topic.taken.getLast?.map (Delimited.getlines 0x3b)).getD []

/-- The topic and the logger of the current tree: as soon as the logger has published, the newest
    message of the topic is its newest one, which shows what it holds, and is not lost. -/
def Newest (toStr : NodeStatus → StdString) (topic : Topic StdString) (t : TreeNode) (w : Watched) :
    Prop :=
  w.logger.published ≠ [] →
    NewestKnown topic ∧ topic.published.getLast? = some (render toStr (display t w.held))

structure Inv (toStr : NodeStatus → StdString) (f : Feed) : Prop where
  inOrder : f.topic.known.Sublist f.topic.published
  shown : f.widget.btText = lastTaken f.topic
  watched : ∀ t w, f.current = some (t, w) → ∃ st, WatchedInv toStr t w st
  newest : ∀ t w, f.current = some (t, w) → Newest toStr f.topic t w

theorem inv_initial : Inv toStr Feed.initial :=
  ⟨List.Sublist.slnil, rfl, nofun, nofun⟩

theorem inv_treeCreated {f : Feed} (hi : Inv toStr f) {tree : TreeNode}
    (hnd : tree.uids.Nodup) :
    Inv toStr { f with
      current := some (tree, Watched.start tree)
      topic := { f.topic with history := [] } } := by
  refine ⟨known_sublist_step (w := depth) (r := depth) (e := .renew) hi.inOrder rfl, hi.shown,
    fun t w h => ?_, fun t w h => ?_⟩
  · cases h
    exact ⟨_, watchedInv_start toStr hnd⟩
  · cases h
    exact fun hne => absurd (create_published tree) hne

/-- A status change that the logger swallows leaves its messages and what it holds. -/
theorem inv_swallowed {f : Feed} (hi : Inv toStr f) {tree : TreeNode} {w w' : Watched}
    {tr : Transition} {st : UInt16 → NodeStatus} (hw : f.current = some (tree, w))
    (hs : w.transition toStr tree tr = some w') (hst : WatchedInv toStr tree w st)
    (hsw : w.Swallowed tr) :
    Inv toStr { f with
      current := some (tree, w')
      topic := (news w.logger w'.logger).foldl (Topic.publish depth) f.topic } := by
  obtain ⟨hst', hlog⟩ := watchedInv_swallowed hst hs hsw
  rw [news_nil (congrArg published hlog)]
  refine ⟨hi.inOrder, hi.shown, fun t v h => ?_, fun t v h => ?_⟩
  · cases h
    exact ⟨st, hst'⟩
  · cases h
    have hheld : w'.held = w.held := by
      funext uid
      rw [Watched.held, hlog]
      rfl
    rw [Newest, hlog, hheld]
    exact hi.newest tree w hw

/-- Any other change publishes a snapshot of what the logger then holds. -/
theorem inv_published {f : Feed} (hi : Inv toStr f) {tree : TreeNode} {w w' : Watched}
    {tr : Transition} {st : UInt16 → NodeStatus}
    (hs : w.transition toStr tree tr = some w') (hst : WatchedInv toStr tree w st)
    (hsw : ¬ w.Swallowed tr) :
    Inv toStr { f with
      current := some (tree, w')
      topic := (news w.logger w'.logger).foldl (Topic.publish depth) f.topic } := by
  obtain ⟨hst', -, hpub⟩ := watchedInv_shown hst hs hsw
  have hheld : display tree (Function.update st tr.uid tr.status) = display tree w'.held :=
    display_congr fun uid hu => (hst'.shows.status hu).symm
  rw [news_concat hpub, List.foldl_cons, List.foldl_nil]
  refine ⟨?_, hi.shown, fun t v h => ?_, fun t v h => ?_⟩
  · exact known_sublist_step (w := depth) (r := depth) (e := .publish _) hi.inOrder rfl
  · cases h
    exact ⟨_, hst'⟩
  · cases h
    refine fun _ => ⟨newestKnown_publish (by decide) _ _, ?_⟩
    rw [Topic.publish, List.getLast?_concat, hheld]

theorem inv_step {f f' : Feed} {e : Event} (hi : Inv toStr f) (hs : step toStr f e = some f') :
    Inv toStr f' := by
  rcases step_cases hs with ⟨tree, rfl, hnd, rfl⟩ | ⟨tr, tree, w, w', rfl, hw, htr, rfl⟩ |
    ⟨topic, rfl, htopic, rfl⟩ | ⟨msg, rest, rfl, hqueue, rfl⟩
  · exact inv_treeCreated hi hnd
  · obtain ⟨st, hst⟩ := hi.watched tree w hw
    by_cases hsw : w.Swallowed tr
    · exact inv_swallowed hi hw htr hst hsw
    · exact inv_published hi htr hst hsw
  · have hsame : topic.taken = f.topic.taken ∧ topic.published = f.topic.published := by
      rcases KeepLast.step_cases htopic with ⟨_, h, _⟩ | ⟨h, _⟩ | ⟨_, _, _, _, rfl⟩ | ⟨_, _, h, _⟩
      · cases h
      · cases h
      · exact ⟨rfl, rfl⟩
      · cases h
    refine ⟨known_sublist_step hi.inOrder htopic, ?_, hi.watched, fun t w h hne => ?_⟩
    · rw [lastTaken, hsame.1]
      exact hi.shown
    · obtain ⟨hknown, hlast⟩ := hi.newest t w h hne
      exact ⟨newestKnown_move (by decide) hknown htopic (.inl rfl), hsame.2 ▸ hlast⟩
  · have htake : KeepLast.step depth depth f.topic .take =
        some { f.topic with queue := rest, taken := f.topic.taken ++ [msg] } := by
      rw [KeepLast.step, hqueue]
    refine ⟨known_sublist_step hi.inOrder htake, ?_, hi.watched, fun t w h hne => ?_⟩
    · simp [lastTaken, btStatusCallback]
    · obtain ⟨hknown, hlast⟩ := hi.newest t w h hne
      exact ⟨newestKnown_move (by decide) hknown htake (.inr rfl), hlast⟩

theorem inv_always (es : List Event) : Always (step toStr) (Inv toStr) Feed.initial es :=
  always_of_invariant es inv_initial fun _ _ _ hi hs => inv_step hi hs

/-! ## What the widget shows -/

/-- What an event should publish: after a status change other than the one from SUCCESS to IDLE, the
    listing of the tree that is executed, with the new status of the node that has changed and the
    statuses the logger holds for the others. -/
def snapshot (toStr : NodeStatus → StdString) (f : Feed) : Event → List StdString
  | .transition tr =>
    match f.current with
    | some (t, w) =>
      if w.Swallowed tr then []
      else [render toStr (display t (Function.update w.held tr.uid tr.status))]
    | none => []
  | _ => []

theorem published_step {f f' : Feed} {e : Event} (hi : Inv toStr f)
    (hs : step toStr f e = some f') :
    f'.topic.published = f.topic.published ++ snapshot toStr f e := by
  rcases step_cases hs with ⟨tree, rfl, hnd, rfl⟩ | ⟨tr, tree, w, w', rfl, hw, htr, rfl⟩ |
    ⟨topic, rfl, htopic, rfl⟩ | ⟨msg, rest, rfl, hqueue, rfl⟩
  · exact (List.append_nil _).symm
  · simp only [foldl_publish_published, snapshot, hw]
    obtain ⟨st, hst⟩ := hi.watched tree w hw
    by_cases hsw : w.Swallowed tr
    · rw [news_nil (congrArg published (watchedInv_swallowed hst htr hsw).2), if_pos hsw]
    · obtain ⟨-, -, hpub⟩ := watchedInv_shown hst htr hsw
      have hheld : display tree (Function.update st tr.uid tr.status) =
          display tree (Function.update w.held tr.uid tr.status) := by
        refine display_congr fun uid hu => ?_
        by_cases heq : uid = tr.uid
        · rw [heq, Function.update_self, Function.update_self]
        · rw [Function.update_of_ne heq, Function.update_of_ne heq]
          exact (hst.shows.status hu).symm
      rw [news_concat hpub, if_neg hsw, hheld]
  · rcases KeepLast.step_cases htopic with ⟨_, h, _⟩ | ⟨h, _⟩ | ⟨_, _, _, _, rfl⟩ | ⟨_, _, h, _⟩
    · cases h
    · cases h
    · exact (List.append_nil _).symm
    · cases h
  · exact (List.append_nil _).symm

/-- **Snapshots of the executed trees, in order.**  Whatever trees are executed and however the
    messages travel: what has been published is, one after the other, what the status changes should
    publish, from statuses that are faithful to the nodes of the tree at every moment; what the
    widget has been given is a subsequence of it; and the box shows the last message given. -/
theorem feed_in_order (toStr : NodeStatus → StdString) (es : List Event) (f : Feed)
    (hr : run (step toStr) Feed.initial es = some f) :
    f.topic.published = Refinement.trace (step toStr) (snapshot toStr) Feed.initial es ∧
      (∀ t w, f.current = some (t, w) →
        ∀ uid ∈ t.uids, Faithful (w.held uid) (w.actual uid) (w.lastActive uid)) ∧
      f.topic.taken.Sublist f.topic.published ∧ f.widget.btText = lastTaken f.topic := by
  have hi : Inv toStr f := (inv_always es).last hr
  have hinit : Inv toStr Feed.initial := inv_initial
  have hpublished := Refinement.log_eq_trace (fun f : Feed => f.topic.published)
    (fun _ _ _ hi hs => inv_step hi hs) (fun _ _ _ hi hs => published_step hi hs) hinit hr
  refine ⟨hpublished, fun t w hcurrent => ?_, List.Sublist.trans ?_ hi.inOrder, hi.shown⟩
  · obtain ⟨st, hst⟩ := hi.watched t w hcurrent
    exact hst.snapshotLaw.2
  · rw [Topic.known, List.append_assoc]
    exact List.sublist_append_left _ _

/-- Two trees; the messages of the first one that were still kept are lost. -/
theorem feed_in_order_two_trees :
    let t : TreeNode := .control 1 (bytes "Sequence") [.leaf 2 (bytes "CheckParam")]
    let u : TreeNode := .leaf 1 (bytes "GetApproval")
    let es : List Event := [.treeCreated t, .transition ⟨2, .running⟩, .deliver, .statusReceived,
      .transition ⟨2, .success⟩, .transition ⟨2, .idle⟩, .treeCreated u, .transition ⟨1, .running⟩,
      .deliver, .statusReceived]
    let first := render ansiStatus [⟨bytes "Sequence", .idle, 0⟩, ⟨bytes "CheckParam", .running, 1⟩]
    let lost := render ansiStatus [⟨bytes "Sequence", .idle, 0⟩, ⟨bytes "CheckParam", .success, 1⟩]
    let last := render ansiStatus [⟨bytes "GetApproval", .running, 0⟩]
    ∃ f, run (step ansiStatus) Feed.initial es = some f ∧
      f.topic.published = [first, lost, last] ∧ f.topic.taken = [first, last] ∧
      f.topic.taken.Sublist f.topic.published ∧ f.widget.btText = lastTaken f.topic := by
  intro t u es first lost last
  obtain ⟨f, hr, htaken⟩ : ∃ f, run (step ansiStatus) Feed.initial es = some f ∧
      f.topic.taken = [first, last] := ⟨_, rfl, by decide +kernel⟩
  obtain ⟨hpublished, -, hsublist, hshown⟩ := feed_in_order ansiStatus es f hr
  refine ⟨f, hr, ?_, htaken, hsublist, hshown⟩
  rw [hpublished]
  decide +kernel

/-- The box shows one line for each node of the current tree, with the status the node has, or
    SUCCESS if it is idle and was last SUCCESS. -/
def ShowsCurrent (f : Feed) (t : TreeNode) (w : Watched) : Prop :=
  f.widget.btText = lines ansiStatus t w.held ∧
    ∀ uid ∈ t.uids, Faithful (w.held uid) (w.actual uid) (w.lastActive uid)

theorem shows_of_quiet {f : Feed} (hi : Inv ansiStatus f) (hquiet : f.topic.Quiet) {t : TreeNode}
    {w : Watched} (hcurrent : f.current = some (t, w)) (hne : w.logger.published ≠ [])
    (hnames : ∀ name ∈ t.names, 0x3b ∉ name) : ShowsCurrent f t w := by
  obtain ⟨hknown, hlast⟩ := hi.newest t w hcurrent hne
  obtain ⟨st, hst⟩ := hi.watched t w hcurrent
  have htaken : f.topic.taken.getLast? = some (render ansiStatus (display t w.held)) := by
    have hknown' : f.topic.known.getLast? = f.topic.published.getLast? := hknown
    rw [Topic.known, hquiet.1, hquiet.2, List.append_nil, List.append_nil] at hknown'
    rw [hknown', hlast]
  have hsemicolon : ∀ status, 0x3b ∉ ansiStatus status := fun status => by
    cases status <;> decide
  refine ⟨?_, hst.snapshotLaw.2⟩
  rw [hi.shown, lastTaken, htaken, Option.map_some, Option.getD_some, render_eq_terminated]
  exact (Delimited.getlines_terminated_iff _).mpr
    ((semicolon_free_lines_iff hsemicolon t w.held).mpr hnames)

/-- **A quiet feed is up to date.**  In every run, whatever full queues have dropped: when no
    message is under way and the logger of the current tree has published at all, the box shows this
    tree as it is, if no node name contains a semicolon. -/
theorem quiet_feed_current (es : List Event) :
    Always (step ansiStatus) (fun f => f.topic.Quiet → ∀ t w, f.current = some (t, w) →
      w.logger.published ≠ [] → (∀ name ∈ t.names, 0x3b ∉ name) → ShowsCurrent f t w)
      Feed.initial es :=
  (inv_always es).mono fun _ hi hquiet _ _ hcurrent hne hnames =>
    shows_of_quiet hi hquiet hcurrent hne hnames

/-- A leaf runs and succeeds, and goes back to idle; the widget gets both messages. -/
example :
    let es : List Event := [.treeCreated (.leaf 1 (bytes "CheckParam")), .transition ⟨1, .running⟩,
      .deliver, .transition ⟨1, .success⟩, .transition ⟨1, .idle⟩, .statusReceived, .deliver,
      .statusReceived]
    (run (step ansiStatus) Feed.initial es).map (fun f => (f.topic.queue, f.widget.btText)) =
      some ([], [bytes "CheckParam: " ++ ansiStatus .success]) := by
  decide +kernel

/-! ## Without full queues -/

/-- No queue of the topic is full when it gets a message, and a new tree is created only when the
    messages of the old one have been delivered. -/
def AmpleFeed (f : Feed) : Event → Prop
  | .treeCreated _ => f.topic.history = []
  | .transition _ => f.topic.history.length < depth
  | .deliver => f.topic.queue.length < depth
  | .statusReceived => True

instance (f : Feed) : ∀ e, Decidable (AmpleFeed f e)
  | .treeCreated _ => inferInstanceAs (Decidable (_ = _))
  | .transition _ => inferInstanceAs (Decidable (_ < _))
  | .deliver => inferInstanceAs (Decidable (_ < _))
  | .statusReceived => inferInstanceAs (Decidable True)

/-- 1 for a status change other than the one from SUCCESS to IDLE. -/
def changes (f : Feed) (e : Event) (_ : Feed) : Nat :=
  match e, f.current with
  | .transition tr, some (_, w) =>
    if w.actual tr.uid = .success ∧ tr.status = .idle then 0 else 1
  | _, _ => 0

/-- One message for a status change, none for the swallowed one. -/
theorem news_transition {t : TreeNode} {w w' : Watched} {tr : Transition}
    (hs : w.transition toStr t tr = some w') :
    (news w.logger w'.logger = [] ∧ w.actual tr.uid = .success ∧ tr.status = .idle) ∨
    (∃ m, news w.logger w'.logger = [m]) ∧ ¬ (w.actual tr.uid = .success ∧ tr.status = .idle) := by
  obtain ⟨-, hlogger, -⟩ := transition_some hs
  unfold callback at hlogger
  split at hlogger
  · rename_i hsw
    exact .inl ⟨news_nil (by rw [hlogger]), hsw⟩
  · rename_i hsw
    exact .inr ⟨⟨_, news_concat (by rw [hlogger]; rfl)⟩, hsw⟩

theorem changes_step (f : Feed) (e : Event) (f' : Feed) (hs : step toStr f e = some f') :
    f'.topic.published.length + 0 = f.topic.published.length + 0 + changes f e f' := by
  rcases step_cases hs with ⟨tree, rfl, hnd, rfl⟩ | ⟨tr, tree, w, w', rfl, hw, htr, rfl⟩ |
    ⟨topic, rfl, htopic, rfl⟩ | ⟨msg, rest, rfl, hqueue, rfl⟩
  · rfl
  · simp only [foldl_publish_published, List.length_append, changes, hw]
    rcases news_transition htr with ⟨hnews, hsw⟩ | ⟨⟨m, hnews⟩, hsw⟩
    · rw [hnews, if_pos hsw]
      rfl
    · rw [hnews, if_neg hsw]
      rfl
  · rcases KeepLast.step_cases htopic with ⟨_, h, _⟩ | ⟨h, _⟩ | ⟨_, _, _, _, rfl⟩ | ⟨_, _, h, _⟩
    · cases h
    · cases h
    · rfl
    · cases h
  · rfl

theorem complete_feed_step {f f' : Feed} {e : Event} (h : f.topic.known = f.topic.published)
    (hs : step toStr f e = some f') (ha : AmpleFeed f e) :
    f'.topic.known = f'.topic.published := by
  rcases step_cases hs with ⟨tree, rfl, hnd, rfl⟩ | ⟨tr, tree, w, w', rfl, hw, htr, rfl⟩ |
    ⟨topic, rfl, htopic, rfl⟩ | ⟨msg, rest, rfl, hqueue, rfl⟩
  · exact complete_step (w := depth) (r := depth) (e := .renew) h rfl ha
  · rcases news_transition htr with ⟨hnews, _⟩ | ⟨⟨m, hnews⟩, _⟩
    · rw [hnews]
      exact h
    · rw [hnews]
      exact complete_step (w := depth) (r := depth) (e := .publish m) h rfl ha
  · exact complete_step h htopic ha
  · have htake : KeepLast.step depth depth f.topic .take =
        some { f.topic with queue := rest, taken := f.topic.taken ++ [msg] } := by
      rw [KeepLast.step, hqueue]
    exact complete_step h htake trivial

/-- **No status change is skipped while no queue is full.**  The messages the widget has been given,
    those in its queue and those of the writer are then, in this order, all messages, one for each
    status change other than SUCCESS to IDLE. -/
theorem feed_complete (toStr : NodeStatus → StdString) (es : List Event) (f : Feed)
    (ha : EachStep (step toStr) (fun f e _ => AmpleFeed f e) Feed.initial es)
    (hr : run (step toStr) Feed.initial es = some f) :
    f.topic.taken ++ f.topic.queue ++ f.topic.history = f.topic.published ∧
      f.topic.published.length = tally (step toStr) changes Feed.initial es := by
  have hcomplete :
      Always (step toStr) (fun f => f.topic.known = f.topic.published) Feed.initial es :=
    ha.always rfl fun _ _ _ h hs hg => complete_feed_step h hs hg
  have hcount : f.topic.published.length + 0 = Feed.initial.topic.published.length + 0 +
      tally (step toStr) changes Feed.initial es :=
    tally_eq (fun f e f' hs => changes_step f e f' hs) hr
  have hstart : Feed.initial.topic.published.length = 0 := rfl
  rw [hstart, Nat.add_zero, Nat.zero_add] at hcount
  exact ⟨hcomplete.last hr, hcount⟩

/-- The messages of two trees, one executed after the other. -/
theorem feed_complete_two_trees :
    let tree : TreeNode := .leaf 1 (bytes "CheckParam")
    let es : List Event := [.treeCreated tree, .transition ⟨1, .running⟩, .deliver,
      .transition ⟨1, .success⟩, .transition ⟨1, .idle⟩, .deliver, .treeCreated tree,
      .transition ⟨1, .failure⟩, .statusReceived]
    ∃ f, run (step ansiStatus) Feed.initial es = some f ∧
      f.topic.taken ++ f.topic.queue ++ f.topic.history = f.topic.published ∧
      f.topic.published.length = tally (step ansiStatus) changes Feed.initial es := by
  intro tree es
  exact ⟨_, rfl, feed_complete ansiStatus es _ (by decide +kernel) rfl⟩

end StatusFeed

end DrtBehavior
