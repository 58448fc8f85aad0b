import Mathlib.Data.Prod.Basic
import DrtBehavior.Status.Logger

/-!
# What the logger's listing says about the tree

`generateTree` flattens the tree into `log_order_`, with a name and an indent for every node.

* `listing` — the names and indents, read along `log_order_`.
* `TreeNode.nameTree` — the tree with its names only: no node kinds, no UIDs.
* `listing_generateTree` — the listing is the pre-order listing of the tree of names, whatever
  the logger held before.
* `listing_determines_tree` — two trees with the same listing are the same tree of names.
-/

set_option autoImplicit false

namespace DrtBehavior

open DRTBehaviorBtcppLogger

/-- The shape and the names of a tree. -/
def TreeNode.nameTree (t : TreeNode) : Rose StdString := t.shape.map Prod.snd

/-- The pairs of name and indent along `log_order_`. -/
def DRTBehaviorBtcppLogger.listing (lg : DRTBehaviorBtcppLogger) : List (StdString × Nat) :=
  lg.logOrder.map fun uid => ((lg.entry uid).name, (lg.entry uid).indent)

/-- Called on a root, `generateTree` starts from an empty logger; what is published stays. -/
theorem generateTree_root (t : TreeNode) (lg : DRTBehaviorBtcppLogger) :
    generateTree t 0 lg = { create t with published := lg.published } := by
  have hitems : ∀ (items : List (Nat × UInt16 × StdString)) (lg₁ : DRTBehaviorBtcppLogger),
      items.foldl recordItem { lg₁ with published := lg.published } =
        { items.foldl recordItem lg₁ with published := lg.published } := by
    intro items
    induction items with
    | nil => intro lg₁; rfl
    | cons item items ih =>
      intro lg₁
      rw [List.foldl_cons, List.foldl_cons, ← ih]
      rfl
  rw [create, generateTree_eq, generateTree_eq, ← hitems]
  rfl

/-- A UID the tree does not have has no entry in a logger made for the tree. -/
theorem create_logStatuses_of_not_mem {t : TreeNode} {uid : UInt16} (h : uid ∉ t.uids) :
    (create t).logStatuses uid = none := by
  rw [create, generateTree_eq, foldl_recordItem_of_not_mem (by rwa [← uids_eq])]
  rfl

/-- **The listing is the pre-order listing of the tree of names.** -/
theorem listing_create {t : TreeNode} (hnd : t.uids.Nodup) :
    (create t).listing = (t.nameTree.preorder 0).map Prod.swap := by
  have hshows := shows_create hnd
  rw [listing, hshows.order, uids_eq, List.map_map, TreeNode.nameTree, Rose.preorder_map,
    List.map_map]
  refine List.map_congr_left fun item hi => ?_
  rw [Function.comp_apply, entry, hshows.entries item hi]
  rfl

theorem listing_generateTree {t : TreeNode} (hnd : t.uids.Nodup) (lg : DRTBehaviorBtcppLogger) :
    (generateTree t 0 lg).listing = (t.nameTree.preorder 0).map Prod.swap := by
  rw [← listing_create hnd, generateTree_root]
  rfl

/-- **The logged listing determines the tree.**  Two trees, each with pairwise distinct UIDs,
    that `generateTree` lists with the same names and indents have the same shape and the same
    names at the same places.  Called on a root, `generateTree` leaves nothing of what the logger
    held: it records what it records in an empty logger, and no UID outside the tree keeps an
    entry. -/
theorem listing_determines_tree :
    (∀ (t u : TreeNode) (lg lg' : DRTBehaviorBtcppLogger), t.uids.Nodup → u.uids.Nodup →
      (generateTree t 0 lg).listing = (generateTree u 0 lg').listing → t.nameTree = u.nameTree) ∧
    ∀ (t : TreeNode) (lg : DRTBehaviorBtcppLogger),
      generateTree t 0 lg = { create t with published := lg.published } ∧
        (generateTree t 0 lg).logOrder = t.uids ∧
        ∀ uid, uid ∉ t.uids → (generateTree t 0 lg).logStatuses uid = none := by
  refine ⟨fun t u lg lg' ht hu h => ?_, fun t lg => ⟨generateTree_root t lg, ?_, ?_⟩⟩
  · rw [listing_generateTree ht, listing_generateTree hu] at h
    exact Rose.preorder_injective 0 (List.map_injective_iff.mpr Prod.swap_injective h)
  · rw [generateTree_eq, foldl_recordItem_logOrder, uids_eq]
    rfl
  · intro uid huid
    rw [generateTree_root]
    exact create_logStatuses_of_not_mem huid

/-- A control node and a decorator over one leaf, the second listed by a logger that held the
    first: node kinds and UIDs do not show. -/
theorem listing_determines_tree_pair :
    let t : TreeNode := .control 1 (bytes "root") [.leaf 2 (bytes "a")]
    let u : TreeNode := .decorator 7 (bytes "root") (.leaf 8 (bytes "a"))
    t.nameTree = u.nameTree ∧ (generateTree u 0 (create t)).logStatuses 1 = none := by
  intro t u
  refine ⟨listing_determines_tree.1 t u (create u) (create t) (by decide) (by decide) (by decide),
    (listing_determines_tree.2 u (create t)).2.2 1 (by decide)⟩

end DrtBehavior
