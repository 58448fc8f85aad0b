import Mathlib.Data.List.Basic

/-!
# Rose trees and their listing with depths

* `Rose α` — finitely branching ordered trees with a label at every node.
* `preorder d t` — the depth-first pre-order listing of `t`, every label with the depth of its
  node, the root at depth `d`.
* `labels t` — the labels in that order.
* `map f t` — the tree with every label relabelled; its listing is the relabelled listing.
* `preorder_injective` — the listing with depths determines the tree.  The argument reads a
  listing back: a forest at depth `d` ends where the next item lies above `d` (`EndsAbove`).
-/

set_option autoImplicit false

/-- Finitely branching ordered trees. -/
inductive Rose (α : Type*) where
  | node (label : α) (children : List (Rose α))

namespace Rose

variable {α : Type*}

mutual

/-- Depth-first pre-order listing, the root at depth `d`. -/
def preorder (d : Nat) : Rose α → List (Nat × α)
  | .node a ts => (d, a) :: preorderForest (d + 1) ts

/-- The listings of the trees of a forest, one after the other, all roots at depth `d`. -/
def preorderForest (d : Nat) : List (Rose α) → List (Nat × α)
  | [] => []
  | t :: ts => preorder d t ++ preorderForest d ts

end

/-- The labels of a tree in depth-first pre-order. -/
def labels (t : Rose α) : List α := (preorder 0 t).map Prod.snd

theorem preorder_node (d : Nat) (a : α) (ts : List (Rose α)) :
    preorder d (.node a ts) = (d, a) :: preorderForest (d + 1) ts := by
  rw [preorder]

@[simp] theorem preorderForest_nil (d : Nat) : preorderForest d ([] : List (Rose α)) = [] := by
  rw [preorderForest]

theorem preorderForest_cons (d : Nat) (t : Rose α) (ts : List (Rose α)) :
    preorderForest d (t :: ts) = preorder d t ++ preorderForest d ts := by
  rw [preorderForest]

/-! ## Relabelling -/

variable {β : Type*}

mutual

/-- The tree with every label relabelled by `f`. -/
def map (f : α → β) : Rose α → Rose β
  | .node a ts => .node (f a) (mapForest f ts)

def mapForest (f : α → β) : List (Rose α) → List (Rose β)
  | [] => []
  | t :: ts => map f t :: mapForest f ts

end

mutual

/-- The listing of a relabelled tree. -/
theorem preorder_map (f : α → β) : ∀ (t : Rose α) (d : Nat),
    preorder d (map f t) = (preorder d t).map (Prod.map id f)
  | .node a ts, d => by
    rw [map, preorder_node, preorder_node, List.map_cons, preorderForest_map f ts (d + 1)]
    rfl

theorem preorderForest_map (f : α → β) : ∀ (ts : List (Rose α)) (d : Nat),
    preorderForest d (mapForest f ts) = (preorderForest d ts).map (Prod.map id f)
  | [], d => by rw [mapForest, preorderForest_nil, preorderForest_nil, List.map_nil]
  | t :: ts, d => by
    rw [mapForest, preorderForest_cons, preorderForest_cons, List.map_append, preorder_map f t d,
      preorderForest_map f ts d]

end

/-! ## The listing determines the tree -/

/-- A forest at depth `d` has ended: nothing follows, or an item above depth `d`. -/
def EndsAbove (d : Nat) (rest : List (Nat × α)) : Prop :=
  ∀ item ∈ rest.head?, item.1 < d

theorem endsAbove_nil (d : Nat) : EndsAbove d ([] : List (Nat × α)) := by
  intro item h
  cases h

theorem not_endsAbove_preorder {d : Nat} {t : Rose α} {rest : List (Nat × α)} :
    ¬ EndsAbove d (preorder d t ++ rest) := by
  obtain ⟨a, ts⟩ := t
  intro h
  have hlt : d < d := h (d, a) (by rw [preorder_node]; rfl)
  omega

/-- Below a node of depth `d`, its siblings and what follows them end the forest of its
    children. -/
theorem endsAbove_siblings {d : Nat} {rest : List (Nat × α)} (h : EndsAbove d rest)
    (ts : List (Rose α)) : EndsAbove (d + 1) (preorderForest d ts ++ rest) := by
  intro item hi
  cases ts with
  | nil =>
    rw [preorderForest_nil, List.nil_append] at hi
    have := h item hi
    omega
  | cons t ts =>
    obtain ⟨a, cs⟩ := t
    rw [preorderForest_cons, preorder_node] at hi
    have : item = (d, a) := by simpa using hi.symm
    subst this
    exact Nat.lt_succ_self d

/-- A listing is read back in one way: the forest and what follows it. -/
theorem preorderForest_append_inj : ∀ (ts us : List (Rose α)) (d : Nat)
    (rest rest' : List (Nat × α)), EndsAbove d rest → EndsAbove d rest' →
    preorderForest d ts ++ rest = preorderForest d us ++ rest' → ts = us ∧ rest = rest'
  | [], [], d, rest, rest', _, _, h => by
    rw [preorderForest_nil, List.nil_append, List.nil_append] at h
    exact ⟨rfl, h⟩
  | [], u :: us, d, rest, rest', hr, _, h => by
    rw [preorderForest_nil, List.nil_append, preorderForest_cons, List.append_assoc] at h
    rw [h] at hr
    exact absurd hr not_endsAbove_preorder
  | t :: ts, [], d, rest, rest', _, hr', h => by
    rw [preorderForest_nil, List.nil_append, preorderForest_cons, List.append_assoc] at h
    rw [← h] at hr'
    exact absurd hr' not_endsAbove_preorder
  | .node a cs :: ts, .node b es :: us, d, rest, rest', hr, hr', h => by
    simp only [preorderForest_cons, preorder_node, List.cons_append, List.append_assoc,
      List.cons.injEq, Prod.mk.injEq, true_and] at h
    obtain ⟨hab, h⟩ := h
    -- the children first, up to the siblings; then the siblings
    obtain ⟨hcs, h⟩ := preorderForest_append_inj cs es (d + 1) _ _ (endsAbove_siblings hr ts)
      (endsAbove_siblings hr' us) h
    obtain ⟨hts, hrest⟩ := preorderForest_append_inj ts us d rest rest' hr hr' h
    rw [hab, hcs, hts]
    exact ⟨rfl, hrest⟩

/-- **The pre-order listing with depths determines the tree.** -/
theorem preorder_injective (d : Nat) :
    Function.Injective (preorder d : Rose α → List (Nat × α)) := by
  intro t u h
  have hforest : preorderForest d [t] ++ [] = preorderForest d [u] ++ [] := by
    rw [preorderForest_cons, preorderForest_cons, h]
  have hlist := (preorderForest_append_inj [t] [u] d [] [] (endsAbove_nil d) (endsAbove_nil d)
    hforest).1
  exact (List.cons.inj hlist).1

end Rose
