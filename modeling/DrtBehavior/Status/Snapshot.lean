import DrtBehavior.Base.EventMachine
import DrtBehavior.Status.Logger

/-!
# What the logger shows along a history of status changes

The logger together with the tree it watches: `Watched.transition` is one status change of one
node, delivered to `callback` with the node's actual status as the previous one.

* `Faithful` — the relation between what the logger shows and what the tree does: the two agree,
  except that a finished node that went back to idle is still shown as SUCCESS.
* `watchedInv_step` — every status change keeps it, swallowed or not.
* `snapshot_invariant` — the law of all reachable snapshots and of every single publication.
-/

set_option autoImplicit false

namespace DrtBehavior

open EventMachine DRTBehaviorBtcppLogger

/-- The node with UID `uid` changes its status to `status`. -/
structure Transition where
  uid : UInt16
  status : NodeStatus
  deriving DecidableEq, Repr

/-- The logger and the tree it watches: the actual status of every node and the last status
    other than IDLE it had. -/
structure Watched where
  logger : DRTBehaviorBtcppLogger
  actual : UInt16 → NodeStatus
  lastActive : UInt16 → Option NodeStatus

namespace Watched

/-- A new logger on a tree whose nodes are all idle. -/
def start (t : TreeNode) : Watched := ⟨create t, fun _ => .idle, fun _ => none⟩

/-- A status change of a node of `t`, delivered to the logger. -/
def transition (toStr : NodeStatus → StdString) (t : TreeNode) (w : Watched) (tr : Transition) :
    Option Watched :=
  if tr.uid ∈ t.uids then
    some
      { logger := callback toStr tr.uid (w.actual tr.uid) tr.status w.logger
        actual := Function.update w.actual tr.uid tr.status
        lastActive :=
          if tr.status = .idle then w.lastActive
          else Function.update w.lastActive tr.uid (some tr.status) }
  else none

/-- The change from SUCCESS to IDLE, which the logger does not show. -/
def Swallowed (w : Watched) (tr : Transition) : Prop :=
  w.actual tr.uid = .success ∧ tr.status = .idle

instance (w : Watched) (tr : Transition) : Decidable (w.Swallowed tr) :=
  inferInstanceAs (Decidable (_ ∧ _))

/-- The status the logger holds for a node. -/
def held (w : Watched) (uid : UInt16) : NodeStatus := (w.logger.entry uid).status

end Watched

open Watched

/-- `shown` is what may be shown for a node with this actual and last active status. -/
def Faithful (shown actual : NodeStatus) (lastActive : Option NodeStatus) : Prop :=
  shown = actual ∨ (shown = .success ∧ actual = .idle ∧ lastActive = some .success)

/-- Snapshots list the tree, and every node is shown faithfully. -/
def SnapshotLaw (toStr : NodeStatus → StdString) (t : TreeNode) (w : Watched) : Prop :=
  (∀ m ∈ w.logger.published, ∃ st, m = render toStr (display t st)) ∧
    ∀ uid ∈ t.uids, Faithful (w.held uid) (w.actual uid) (w.lastActive uid)

/-- A message is published unless the change is swallowed; it lists the tree with the statuses
    held after the change, that of the changed node being the new one. -/
def PublishLaw (toStr : NodeStatus → StdString) (t : TreeNode) (w : Watched) (tr : Transition)
    (w' : Watched) : Prop :=
  (w.Swallowed tr → w'.logger.published = w.logger.published) ∧
    (¬ w.Swallowed tr → w'.held tr.uid = tr.status ∧
      w'.logger.published = w.logger.published ++ [render toStr (display t w'.held)])

theorem display_congr {t : TreeNode} {st st' : UInt16 → NodeStatus}
    (h : ∀ uid ∈ t.uids, st uid = st' uid) : display t st = display t st' := by
  unfold display
  refine List.map_congr_left fun item hi => ?_
  rw [h _ (uid_mem_uids hi)]

/-- The invariant: `st` is what the logger shows. -/
structure WatchedInv (toStr : NodeStatus → StdString) (t : TreeNode) (w : Watched)
    (st : UInt16 → NodeStatus) : Prop where
  shows : Shows w.logger t st
  faithful : ∀ uid, Faithful (st uid) (w.actual uid) (w.lastActive uid)
  active : ∀ uid, w.actual uid ≠ .idle → w.lastActive uid = some (w.actual uid)
  published : ∀ m ∈ w.logger.published, ∃ st', m = render toStr (display t st')

theorem watchedInv_start (toStr : NodeStatus → StdString) {t : TreeNode} (hnd : t.uids.Nodup) :
    WatchedInv toStr t (start t) fun _ => .idle where
  shows := shows_create hnd
  faithful _ := .inl rfl
  active _ h := absurd rfl h
  published m hm := by
    rw [start, create_published] at hm
    cases hm

theorem WatchedInv.snapshotLaw {toStr : NodeStatus → StdString} {t : TreeNode} {w : Watched}
    {st : UInt16 → NodeStatus} (h : WatchedInv toStr t w st) : SnapshotLaw toStr t w := by
  refine ⟨h.published, fun uid hu => ?_⟩
  rw [held, h.shows.status hu]
  exact h.faithful uid

theorem transition_some {toStr : NodeStatus → StdString} {t : TreeNode} {w w' : Watched}
    {tr : Transition} (hs : transition toStr t w tr = some w') :
    tr.uid ∈ t.uids ∧ w'.logger = callback toStr tr.uid (w.actual tr.uid) tr.status w.logger ∧
      w'.actual = Function.update w.actual tr.uid tr.status ∧
      w'.lastActive = if tr.status = .idle then w.lastActive
        else Function.update w.lastActive tr.uid (some tr.status) := by
  unfold transition at hs
  split at hs
  · rename_i hmem
    cases hs
    exact ⟨hmem, rfl, rfl, rfl⟩
  · cases hs

/-- A node that is not idle was last active with its actual status. -/
theorem transition_active {toStr : NodeStatus → StdString} {t : TreeNode} {w w' : Watched}
    {tr : Transition} (hs : transition toStr t w tr = some w')
    (ha : ∀ uid, w.actual uid ≠ .idle → w.lastActive uid = some (w.actual uid)) :
    ∀ uid, w'.actual uid ≠ .idle → w'.lastActive uid = some (w'.actual uid) := by
  obtain ⟨_, _, hact, hlast⟩ := transition_some hs
  intro uid hne
  rw [hact] at hne ⊢
  rw [hlast]
  by_cases hu : uid = tr.uid
  · subst hu
    rw [Function.update_self] at hne ⊢
    rw [if_neg hne, Function.update_self]
  · rw [Function.update_of_ne hu] at hne ⊢
    split
    · exact ha uid hne
    · rw [Function.update_of_ne hu]
      exact ha uid hne

/-- A swallowed change leaves what is shown; a node that was shown as it is, is now shown as
    SUCCESS while it is idle. -/
theorem watchedInv_swallowed {toStr : NodeStatus → StdString} {t : TreeNode} {w w' : Watched}
    {st : UInt16 → NodeStatus} {tr : Transition} (h : WatchedInv toStr t w st)
    (hs : transition toStr t w tr = some w') (hsw : w.Swallowed tr) :
    WatchedInv toStr t w' st ∧ w'.logger = w.logger := by
  obtain ⟨_, hlogger, hact, hlast⟩ := transition_some hs
  have hlog : w'.logger = w.logger := by
    rw [hlogger, hsw.1, hsw.2]
    exact callback_swallowed toStr tr.uid w.logger
  refine ⟨⟨by rw [hlog]; exact h.shows, ?_, transition_active hs h.active,
    by rw [hlog]; exact h.published⟩, hlog⟩
  intro uid
  rw [hact, hlast, if_pos hsw.2]
  by_cases hu : uid = tr.uid
  · subst hu
    have hshown : st tr.uid = .success := by
      rcases h.faithful tr.uid with he | ⟨he, _, _⟩
      · rw [he, hsw.1]
      · exact he
    have hactive : w.lastActive tr.uid = some .success := by
      rw [← hsw.1]
      exact h.active tr.uid (by rw [hsw.1]; decide)
    rw [Function.update_self, hsw.2]
    exact .inr ⟨hshown, rfl, hactive⟩
  · rw [Function.update_of_ne hu]
    exact h.faithful uid

/-- Any other change moves what is shown for its node to the new status and publishes it. -/
theorem watchedInv_shown {toStr : NodeStatus → StdString} {t : TreeNode} {w w' : Watched}
    {st : UInt16 → NodeStatus} {tr : Transition} (h : WatchedInv toStr t w st)
    (hs : transition toStr t w tr = some w') (hsw : ¬ w.Swallowed tr) :
    WatchedInv toStr t w' (Function.update st tr.uid tr.status) ∧ tr.uid ∈ t.uids ∧
      w'.logger.published = w.logger.published ++
        [render toStr (display t (Function.update st tr.uid tr.status))] := by
  obtain ⟨hmem, hlogger, hact, hlast⟩ := transition_some hs
  obtain ⟨hshows, hpub⟩ := callback_of_not_swallowed h.shows toStr tr.uid hsw
  rw [← hlogger] at hshows hpub
  refine ⟨⟨hshows, ?_, transition_active hs h.active, ?_⟩, hmem, hpub⟩
  · intro uid
    rw [hact, hlast]
    by_cases hu : uid = tr.uid
    · subst hu
      rw [Function.update_self, Function.update_self]
      exact .inl rfl
    · rw [Function.update_of_ne hu, Function.update_of_ne hu]
      split
      · exact h.faithful uid
      · rw [Function.update_of_ne hu]
        exact h.faithful uid
  · intro m hm
    rw [hpub] at hm
    rcases List.mem_append.mp hm with hm | hm
    · exact h.published m hm
    · exact ⟨_, List.mem_singleton.mp hm⟩

/-- **Step lemma.** -/
theorem watchedInv_step {toStr : NodeStatus → StdString} {t : TreeNode} {w w' : Watched}
    {tr : Transition} (h : ∃ st, WatchedInv toStr t w st)
    (hs : transition toStr t w tr = some w') :
    (∃ st, WatchedInv toStr t w' st) ∧ PublishLaw toStr t w tr w' := by
  obtain ⟨st, h⟩ := h
  by_cases hsw : w.Swallowed tr
  · obtain ⟨h', hlog⟩ := watchedInv_swallowed h hs hsw
    exact ⟨⟨st, h'⟩, fun _ => by rw [hlog], fun hn => absurd hsw hn⟩
  · obtain ⟨h', hmem, hpub⟩ := watchedInv_shown h hs hsw
    have hheld : ∀ uid ∈ t.uids, Function.update st tr.uid tr.status uid = w'.held uid :=
      fun uid hu => (h'.shows.status hu).symm
    refine ⟨⟨_, h'⟩, fun hn => absurd hn hsw, fun _ => ⟨?_, ?_⟩⟩
    · rw [← hheld tr.uid hmem, Function.update_self]
    · rw [hpub, display_congr hheld]

/-- **Logger snapshot invariant.**  For every tree with distinct UIDs and every finite sequence
    of status changes of its nodes: every published message lists the tree; the status held for
    a node is its actual status, or SUCCESS while the node is idle and was last SUCCESS; and a
    message is published for exactly the changes that are not SUCCESS to IDLE, with that change
    in it. -/
theorem snapshot_invariant (toStr : NodeStatus → StdString) {t : TreeNode} (hnd : t.uids.Nodup)
    (trs : List Transition) :
    Always (transition toStr t) (SnapshotLaw toStr t) (start t) trs ∧
      EachStep (transition toStr t) (PublishLaw toStr t) (start t) trs := by
  have h0 : ∃ st, WatchedInv toStr t (start t) st := ⟨_, watchedInv_start toStr hnd⟩
  have hI : Always (transition toStr t) (fun w => ∃ st, WatchedInv toStr t w st) (start t) trs :=
    always_of_invariant trs h0 fun w tr w' hi hs => (watchedInv_step hi hs).1
  refine ⟨hI.mono fun w hw => hw.elim fun _ h => h.snapshotLaw, ?_⟩
  exact eachStep_of_invariant trs h0 fun w tr w' hi hs => watchedInv_step hi hs

/-- A sequence with an action and a decorated condition: it runs, succeeds and is reset. -/
theorem snapshot_invariant_sequence :
    let t : TreeNode := .control 1 (bytes "Sequence")
      [.leaf 2 (bytes "Get Approval"), .decorator 3 (bytes "Retry") (.leaf 4 (bytes "CheckParam"))]
    let trs : List Transition :=
      [⟨1, .running⟩, ⟨2, .running⟩, ⟨2, .success⟩, ⟨4, .failure⟩, ⟨2, .idle⟩]
    Always (transition ansiStatus t) (SnapshotLaw ansiStatus t) (start t) trs ∧
      EachStep (transition ansiStatus t) (PublishLaw ansiStatus t) (start t) trs := by
  intro t trs
  have hnd : t.uids.Nodup := by decide
  exact snapshot_invariant ansiStatus hnd trs

end DrtBehavior
