import DrtBehavior.Base.Cells
import DrtBehavior.Executor.CheckParam
import DrtBehavior.Status.Logger

/-!
# The tree executor's callbacks

`DRTBehaviorBtcppExecutor` of `drt_behavior`, the four virtual functions it overrides of the tree
execution server of BehaviorTree.ROS2.

* `contexts` — every `DRTTreeContext` ever created, in order, as long as it exists; `context_` and
  the blackboard entry `drt_context` are the shared pointers that keep one alive.
* `release` — one of the two lets go of a context: with the last of them the context is destroyed.
* `onGoalReceived`, `onTreeCreated`, `onTreeExecutionCompleted`, `onLoopAfterTick`.
* `Owned x n` — `context_` and the blackboard hold context `n`, which is live and registered.
* `Idle x` — no tree runs, nothing is held, every context that exists is torn down.
* `Tidy x` — what holds after any callbacks in any order; `idle_iff`.
-/

set_option autoImplicit false

namespace DrtBehavior

structure DRTBehaviorBtcppExecutor where
  executor : MultiThreadedExecutor
  loggerPtr : Option DRTBehaviorBtcppLogger
  /-- `context_`. -/
  context : Option Nat
  /-- `running_`. -/
  running : Bool
  /-- The entry `drt_context` of the global blackboard. -/
  drtContext : Option Nat
  /-- `none` is a context that has been destroyed. -/
  contexts : List (Option DRTTreeContext)

namespace DRTBehaviorBtcppExecutor

/-- The constructor. -/
def construct (executor : MultiThreadedExecutor) : DRTBehaviorBtcppExecutor :=
  { executor, loggerPtr := none, context := none, running := false, drtContext := none,
    contexts := [] }

/-- `main` of the executable: the server's own node is spun as well. -/
def main : DRTBehaviorBtcppExecutor :=
  let x := construct ⟨[]⟩
  { x with executor := x.executor.addNode .server }

/-! ## Shared pointers to a context -/

/-- What a shared pointer leads to. -/
def deref (x : DRTBehaviorBtcppExecutor) (pointer : Option Nat) : Option DRTTreeContext :=
  pointer.bind fun n => (x.contexts[n]?).join

/-- The destructor of context `n` releases its members; nothing else keeps its node. -/
def destroy (n : Nat) (x : DRTBehaviorBtcppExecutor) : DRTBehaviorBtcppExecutor :=
  { x with contexts := x.contexts.set n none, executor := x.executor.nodeDestroyed (.tree n) }

/-- A pointer that was `old` has been overwritten.  Besides `context_` and the blackboard entry only
    behaviours point to a context, each during its own tick. -/
def release (old : Option Nat) (x : DRTBehaviorBtcppExecutor) : DRTBehaviorBtcppExecutor :=
  match old with
  | none => x
  | some n => if x.context = some n ∨ x.drtContext = some n then x else x.destroy n

/-- `context_ = …`. -/
def setContext (pointer : Option Nat) (x : DRTBehaviorBtcppExecutor) : DRTBehaviorBtcppExecutor :=
  release x.context { x with context := pointer }

/-- `globalBlackboard()->set<…>("drt_context", …)`. -/
def setDrtContext (pointer : Option Nat) (x : DRTBehaviorBtcppExecutor) :
    DRTBehaviorBtcppExecutor :=
  release x.drtContext { x with drtContext := pointer }

/-! ## The callbacks -/

/-- `DRTTreeContext::create(executor_)`: the object that `context_` is about to point to. -/
def newContext (x : DRTBehaviorBtcppExecutor) : DRTBehaviorBtcppExecutor :=
  let (context, executor) :=
    DRTTreeContext.create (.tree x.contexts.length) x.executor DRTTreeContext.defaultNodeName
  { x with executor := executor, contexts := x.contexts ++ [some context] }

/-- The `else` branch of `onGoalReceived`: a fresh context, held by `context_` and shared on the
    blackboard. -/
def createContext (x : DRTBehaviorBtcppExecutor) : DRTBehaviorBtcppExecutor :=
  let n := x.contexts.length
  (x.newContext.setContext (some n)).setDrtContext (some n)

/-- `onGoalReceived`; both arguments are unused. -/
def onGoalReceived (_treeName _payload : StdString) (x : DRTBehaviorBtcppExecutor) :
    Bool × DRTBehaviorBtcppExecutor :=
  if x.running then (false, x) else (true, createContext x)

def onTreeCreated (tree : TreeNode) (x : DRTBehaviorBtcppExecutor) : DRTBehaviorBtcppExecutor :=
  { x with loggerPtr := some (DRTBehaviorBtcppLogger.create tree), running := true }

/-- `onTreeExecutionCompleted`: the return message and the state. -/
def onTreeExecutionCompleted (_status : NodeStatus) (_wasCancelled : Bool)
    (x : DRTBehaviorBtcppExecutor) : Option StdString × DRTBehaviorBtcppExecutor :=
  match x.context, x.deref x.context with
  | some n, some context =>
    let (context, executor) := context.teardown x.executor
    let x := { x with executor := executor, contexts := x.contexts.set n (some context) }
    (none, { x.setContext none with running := false })
  | _, _ => (none, { x with running := false })

/-- `onLoopAfterTick`. -/
def onLoopAfterTick (status : NodeStatus) : Option NodeStatus :=
  if status = .failure then some status else none

/-- `blackboard->get<std::shared_ptr<DRTTreeContext>>("@drt_context")`, as a behaviour reads it. -/
def blackboardContext (x : DRTBehaviorBtcppExecutor) : Option DRTTreeContext :=
  x.deref x.drtContext

/-! ## Who holds a context -/

/-- Context `n` is live and its node is registered. -/
def Alive (x : DRTBehaviorBtcppExecutor) (n : Nat) : Prop :=
  (∃ context, x.contexts[n]? = some (some context) ∧ context.Live ∧
    context.node.map (·.id) = some (.tree n)) ∧ .tree n ∈ x.executor.nodes

/-- `context_` and the blackboard entry lead to context `n`, which is alive. -/
def Owned (x : DRTBehaviorBtcppExecutor) (n : Nat) : Prop :=
  x.context = some n ∧ x.drtContext = some n ∧ x.Alive n

/-- No tree runs, `context_` is empty, every context that exists is torn down, only the server's
    node is registered, and the next goal request is accepted. -/
def Idle (x : DRTBehaviorBtcppExecutor) : Prop :=
  x.running = false ∧ x.context = none ∧
    (∀ context, some context ∈ x.contexts → context.TornDown) ∧
    x.executor.nodes = [.server] ∧ ∀ treeName payload, (onGoalReceived treeName payload x).1 = true

theorem onGoalReceived_fst (treeName payload : StdString) (x : DRTBehaviorBtcppExecutor) :
    (onGoalReceived treeName payload x).1 = !x.running := by
  unfold onGoalReceived
  cases x.running <;> rfl

/-! ## Letting go of a context -/

theorem release_of_held {x : DRTBehaviorBtcppExecutor} {n : Nat}
    (h : x.context = some n ∨ x.drtContext = some n) : x.release (some n) = x := if_pos h

theorem release_of_not_held {x : DRTBehaviorBtcppExecutor} {n : Nat}
    (h : ¬ (x.context = some n ∨ x.drtContext = some n)) : x.release (some n) = x.destroy n :=
  if_neg h

/-- Letting go of a context leaves the pointers, the flag and the contexts that are still held. -/
structure Released (x y : DRTBehaviorBtcppExecutor) : Prop where
  context : y.context = x.context
  drtContext : y.drtContext = x.drtContext
  running : y.running = x.running
  length : y.contexts.length = x.contexts.length
  alive : ∀ n, x.context = some n ∨ x.drtContext = some n → x.Alive n → y.Alive n

theorem released_release (x : DRTBehaviorBtcppExecutor) (old : Option Nat) :
    Released x (x.release old) := by
  cases old with
  | none => exact ⟨rfl, rfl, rfl, rfl, fun _ _ h => h⟩
  | some m =>
    by_cases hheld : x.context = some m ∨ x.drtContext = some m
    · rw [release_of_held hheld]
      exact ⟨rfl, rfl, rfl, rfl, fun _ _ h => h⟩
    · rw [release_of_not_held hheld]
      refine ⟨rfl, rfl, rfl, List.length_set, fun n hn halive => ?_⟩
      have hne : m ≠ n := fun heq => hheld (heq ▸ hn)
      obtain ⟨⟨context, hc, hlive⟩, hnode⟩ := halive
      refine ⟨⟨context, (List.getElem?_set_ne hne).trans hc, hlive⟩, ?_⟩
      exact List.mem_filter.mpr ⟨hnode, decide_eq_true fun h => hne (NodeId.tree.inj h).symm⟩

theorem newContext_alive (x : DRTBehaviorBtcppExecutor) : x.newContext.Alive x.contexts.length := by
  have hlive := DRTTreeContext.create_live (.tree x.contexts.length) x.executor
    DRTTreeContext.defaultNodeName
  refine ⟨⟨_, List.getElem?_concat_length, hlive, rfl⟩, ?_⟩
  exact List.mem_append_right _ List.mem_cons_self

theorem createContext_released (x : DRTBehaviorBtcppExecutor) :
    ∃ y, Released { x.newContext with context := some x.contexts.length } y ∧
      Released { y with drtContext := some x.contexts.length } (createContext x) :=
  ⟨_, released_release _ _, released_release _ _⟩

theorem createContext_owned (x : DRTBehaviorBtcppExecutor) :
    (createContext x).Owned x.contexts.length := by
  obtain ⟨y, hfirst, hsecond⟩ := createContext_released x
  have hcontext : (createContext x).context = some x.contexts.length :=
    hsecond.context.trans hfirst.context
  exact ⟨hcontext, hsecond.drtContext,
    hsecond.alive _ (.inr rfl) (hfirst.alive _ (.inl rfl) (newContext_alive x))⟩

theorem createContext_running (x : DRTBehaviorBtcppExecutor) :
    (createContext x).running = x.running := by
  obtain ⟨y, hfirst, hsecond⟩ := createContext_released x
  exact hsecond.running.trans hfirst.running

theorem createContext_length (x : DRTBehaviorBtcppExecutor) :
    (createContext x).contexts.length = x.contexts.length + 1 := by
  obtain ⟨y, hfirst, hsecond⟩ := createContext_released x
  exact (hsecond.length.trans hfirst.length).trans (List.length_append ..)

/-- The owner of a context tears it down. -/
theorem onTreeExecutionCompleted_owned {x : DRTBehaviorBtcppExecutor} {n : Nat} (h : x.Owned n)
    (status : NodeStatus) (wasCancelled : Bool) :
    (onTreeExecutionCompleted status wasCancelled x).2 =
      { x with
        executor := x.executor.removeNode (.tree n)
        contexts := x.contexts.set n (some ⟨none, none, none⟩)
        context := none
        running := false } := by
  obtain ⟨hx, hboard, ⟨⟨node, buffer, listener⟩, hc, _, hid⟩, _⟩ := h
  obtain ⟨node, rfl, hnode⟩ := Option.map_eq_some_iff.mp hid
  have hderef : x.deref (some n) = some ⟨some node, buffer, listener⟩ := by
    simp only [deref, Option.bind_some, hc, Option.join_some]
  -- the blackboard entry keeps the context
  simp only [onTreeExecutionCompleted, hx, hderef, DRTTreeContext.teardown, hnode, setContext,
    release, hboard, or_true, if_true]

theorem onTreeCreated_owned {x : DRTBehaviorBtcppExecutor} {n : Nat} (h : x.Owned n)
    (tree : TreeNode) : (onTreeCreated tree x).Owned n := h

/-! ## After any callbacks -/

/-- `context_` leads to a live context, the one the blackboard entry leads to, and no other context
    is alive or registered. -/
structure Tidy (x : DRTBehaviorBtcppExecutor) : Prop where
  owned : ∀ n, x.context = some n → x.Owned n
  known : ∀ n, x.drtContext = some n → n < x.contexts.length
  nodes : x.executor.nodes = .server :: (x.context.map NodeId.tree).toList
  contexts : ∀ n context, x.contexts[n]? = some (some context) →
    x.drtContext = some n ∧ (x.context = some n ∨ context.TornDown)

theorem tidy_main : Tidy main :=
  ⟨nofun, nofun, rfl, fun _ _ h => (by cases h)⟩

theorem Tidy.context_eq {x : DRTBehaviorBtcppExecutor} (h : x.Tidy) :
    x.context = none ∨ x.context = x.drtContext := by
  cases hx : x.context with
  | none => exact .inl rfl
  | some n => exact .inr (h.owned n hx).2.1.symm

/-- A new context takes the place of the one the blackboard entry leads to. -/
theorem Tidy.createContext_eq {x : DRTBehaviorBtcppExecutor} (h : x.Tidy) :
    createContext x = x.drtContext.elim id destroy
      { x.newContext with
        context := some x.contexts.length
        drtContext := some x.contexts.length } := by
  have hfirst : x.newContext.setContext (some x.contexts.length) =
      { x.newContext with context := some x.contexts.length } := by
    cases hx : x.context with
    | none => simp only [setContext, newContext, hx, release]
    | some m =>
      -- `context_` is overwritten before the entry
      rw [setContext, show x.newContext.context = some m from hx]
      exact release_of_held (.inr (h.owned m hx).2.1)
  simp only [createContext, hfirst, setDrtContext]
  cases hboard : x.drtContext with
  | none => simp only [newContext, hboard, release, Option.elim_none, id]
  | some m =>
    have hne : x.contexts.length ≠ m := Nat.ne_of_gt (h.known m hboard)
    rw [show x.newContext.drtContext = some m from hboard]
    exact release_of_not_held (by simp [hne])

theorem tidy_createContext {x : DRTBehaviorBtcppExecutor} (h : x.Tidy) :
    (createContext x).Tidy := by
  have howned := createContext_owned x
  have hnodes : x.newContext.executor.nodes =
      .server :: (x.context.map NodeId.tree).toList ++ [.tree x.contexts.length] := by
    rw [← h.nodes]
    rfl
  refine ⟨fun n hn => ?_, fun n hn => ?_, ?_, fun n context hn => ?_⟩
  · obtain rfl := Option.some.inj (howned.1.symm.trans hn)
    exact howned
  · obtain rfl := Option.some.inj (howned.2.1.symm.trans hn)
    rw [createContext_length]
    exact Nat.lt_succ_self _
  · rw [howned.1, h.createContext_eq]
    cases hboard : x.drtContext with
    | none =>
      have hnone : x.context = none := h.context_eq.elim id fun heq => heq.trans hboard
      rw [hnone] at hnodes
      exact hnodes
    | some m =>
      have hne : x.contexts.length ≠ m := Nat.ne_of_gt (h.known m hboard)
      show List.filter _ x.newContext.executor.nodes = _
      rw [hnodes]
      rcases h.context_eq with hold | hold <;> simp [hold, hboard, hne]
  · rw [h.createContext_eq] at hn
    -- the context the entry led to is gone, and there was no other
    suffices hnew : n = x.contexts.length by
      rw [howned.1, howned.2.1, hnew]
      exact ⟨rfl, .inl rfl⟩
    have hold : ∀ context, x.contexts[n]? = some (some context) → x.drtContext = some n :=
      fun context hc => (h.contexts n context hc).1
    cases hboard : x.drtContext with
    | none =>
      rw [hboard] at hn hold
      rcases Cells.getElem?_concat_cases hn with hn' | ⟨hnew, _⟩
      · cases hold _ hn'
      · exact hnew
    | some m =>
      rw [hboard] at hn hold
      rcases Cells.getElem?_set_cases hn with ⟨_, heq⟩ | ⟨hne, hn'⟩
      · cases heq
      · rcases Cells.getElem?_concat_cases hn' with hn'' | ⟨hnew, _⟩
        · exact absurd (Option.some.inj (hold _ hn'')).symm hne
        · exact hnew

/-- The completion clears what is held. -/
theorem tidy_onTreeExecutionCompleted {x : DRTBehaviorBtcppExecutor} (h : x.Tidy)
    (status : NodeStatus) (wasCancelled : Bool) :
    (onTreeExecutionCompleted status wasCancelled x).2.Tidy ∧
      (onTreeExecutionCompleted status wasCancelled x).2.context = none ∧
      (onTreeExecutionCompleted status wasCancelled x).2.running = false := by
  cases hx : x.context with
  | none =>
    have heq : (onTreeExecutionCompleted status wasCancelled x).2 =
        { x with running := false } := by
      simp only [onTreeExecutionCompleted, hx]
    rw [heq]
    exact ⟨⟨h.owned, h.known, h.nodes, h.contexts⟩, hx, rfl⟩
  | some m =>
    have howned := h.owned m hx
    rw [onTreeExecutionCompleted_owned howned]
    refine ⟨⟨nofun, fun n hn => ?_, ?_, fun n context hn => ?_⟩, rfl, rfl⟩
    · rw [List.length_set]
      exact h.known n hn
    · simp [MultiThreadedExecutor.removeNode, h.nodes, hx]
    · rcases Cells.getElem?_set_cases hn with ⟨rfl, heq⟩ | ⟨hne, hn'⟩
      · cases heq
        exact ⟨howned.2.1, .inr ⟨rfl, rfl, rfl⟩⟩
      · have hboard := (h.contexts n context hn').1
        rw [howned.2.1] at hboard
        exact absurd (Option.some.inj hboard).symm hne

/-- Only `running_` and `context_` can keep the executor from being idle. -/
theorem Tidy.idle_iff {x : DRTBehaviorBtcppExecutor} (h : x.Tidy) :
    x.Idle ↔ x.context = none ∧ x.running = false := by
  refine ⟨fun hidle => ⟨hidle.2.1, hidle.1⟩, ?_⟩
  rintro ⟨hcontext, hrun⟩
  refine ⟨hrun, hcontext, fun context hmem => ?_, ?_, fun treeName payload => ?_⟩
  · obtain ⟨n, hn⟩ := List.getElem?_of_mem hmem
    refine (h.contexts n context hn).2.resolve_left ?_
    rw [hcontext]
    exact nofun
  · rw [h.nodes, hcontext]
    rfl
  · rw [onGoalReceived_fst, hrun, Bool.not_false]

end DRTBehaviorBtcppExecutor

end DrtBehavior
