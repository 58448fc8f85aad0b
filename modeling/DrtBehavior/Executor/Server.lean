import DrtBehavior.Executor.Executor

/-!
# The tree execution server

The base class that calls the executor's callbacks, one thread for each accepted goal, as assumed
of BehaviorTree.ROS2: goal requests are handled at any time; the executions of the accepted goals
are serialised in the order of acceptance.

* `Phase`, `execute` — one execution: `createTree`, `onTreeCreated`, ticks each followed by
  `onLoopAfterTick`, `onTreeExecutionCompleted`.  An exception ends it at once, without a further
  callback.
* `Server`, `step` — the executor with its accepted goals that have not ended.
* `NoRequestInWindow` — no request is handled between the acceptance of a goal and the end of its
  `onTreeCreated`: only there `running_` is false although a goal is outstanding.
* `one_tree_at_a_time_iff`, `tick_sees_own_context` — what the executor guarantees then.
-/

set_option autoImplicit false

namespace DrtBehavior

namespace TreeExecutionServer

open EventMachine DRTBehaviorBtcppExecutor

/-- Where the execution of an accepted goal is. -/
inductive Phase where
  | accepted
  | built (tree : TreeNode)
  | looping
  | ticking
  | ticked (status : NodeStatus)
  | finishing (status : NodeStatus) (wasCancelled : Bool)

/-- `onTreeCreated` has run. -/
def Phase.created : Phase → Bool
  | .accepted => false
  | .built _ => false
  | _ => true

/-- An accepted goal with the context created for it. -/
structure Goal where
  context : Nat
  phase : Phase

/-- What the execution thread does next. -/
inductive Action where
  | createTree (tree : TreeNode)
  | createTreeThrows
  | onTreeCreated
  | tick
  | tickReturns (status : NodeStatus)
  | tickThrows
  | onLoopAfterTick
  | cancel
  | onTreeExecutionCompleted

inductive Event where
  | goalRequest (treeName payload : StdString)
  | execution (a : Action)

/-- One action in a phase: the executor and the next phase, `none` when the execution is over. -/
def execute (x : DRTBehaviorBtcppExecutor) :
    Phase → Action → Option (DRTBehaviorBtcppExecutor × Option Phase)
  | .accepted, .createTree tree => some (x, some (.built tree))
  | .accepted, .createTreeThrows => some (x, none)
  | .built tree, .onTreeCreated => some (onTreeCreated tree x, some .looping)
  -- a cancel request is looked at before each tick
  | .looping, .cancel => some (x, some (.finishing .running true))
  | .looping, .tick => some (x, some .ticking)
  | .ticking, .tickReturns status => some (x, some (.ticked status))
  | .ticking, .tickThrows => some (x, none)
  | .ticked status, .onLoopAfterTick =>
    match onLoopAfterTick status with
    | some result => some (x, some (.finishing result true))
    | none => some (x, some (if status = .running then .looping else .finishing status false))
  | .finishing status wasCancelled, .onTreeExecutionCompleted =>
    some ((onTreeExecutionCompleted status wasCancelled x).2, none)
  | _, _ => none

structure Server where
  x : DRTBehaviorBtcppExecutor
  goals : List Goal

def Server.initial : Server := ⟨DRTBehaviorBtcppExecutor.main, []⟩

/-- Only the oldest accepted goal executes: its thread is joined before the next one starts. -/
def step (s : Server) : Event → Option Server
  | .goalRequest treeName payload =>
    match onGoalReceived treeName payload s.x with
    | (true, x) => some ⟨x, s.goals ++ [⟨s.x.contexts.length, .accepted⟩]⟩
    | (false, x) => some ⟨x, s.goals⟩
  | .execution a =>
    match s.goals with
    | [] => none
    | g :: waiting =>
      match execute s.x g.phase a with
      | some (x, some phase) => some ⟨x, ⟨g.context, phase⟩ :: waiting⟩
      | some (x, none) => some ⟨x, waiting⟩
      | none => none

/-- **Everything an action can do.**  Apart from `onTreeCreated` and `onTreeExecutionCompleted`
    no action touches the executor. -/
theorem execute_cases {x x' : DRTBehaviorBtcppExecutor} {p : Phase} {a : Action}
    {p' : Option Phase} (h : execute x p a = some (x', p')) :
    (∃ q, x' = x ∧ p' = some q ∧ q.created = p.created) ∨
    (∃ tree, p = .built tree ∧ x' = onTreeCreated tree x ∧ p' = some .looping) ∨
    (x' = x ∧ p' = none ∧
      ((p = .accepted ∧ a = .createTreeThrows) ∨ (p = .ticking ∧ a = .tickThrows))) ∨
    (∃ status wasCancelled, p = .finishing status wasCancelled ∧
      a = .onTreeExecutionCompleted ∧ p' = none ∧
      x' = (onTreeExecutionCompleted status wasCancelled x).2) := by
  unfold execute at h
  split at h
  · cases h; exact .inl ⟨_, rfl, rfl, rfl⟩
  · cases h; exact .inr (.inr (.inl ⟨rfl, rfl, .inl ⟨rfl, rfl⟩⟩))
  · cases h; exact .inr (.inl ⟨_, rfl, rfl, rfl⟩)
  · cases h; exact .inl ⟨_, rfl, rfl, rfl⟩
  · cases h; exact .inl ⟨_, rfl, rfl, rfl⟩
  · cases h; exact .inl ⟨_, rfl, rfl, rfl⟩
  · cases h; exact .inr (.inr (.inl ⟨rfl, rfl, .inr ⟨rfl, rfl⟩⟩))
  · split at h
    · cases h; exact .inl ⟨_, rfl, rfl, rfl⟩
    · cases h
      refine .inl ⟨_, rfl, rfl, ?_⟩
      split <;> rfl
  · cases h; exact .inr (.inr (.inr ⟨_, _, rfl, rfl, rfl, rfl⟩))
  · cases h

theorem step_cases {s s' : Server} {e : Event} (h : step s e = some s') :
    (∃ treeName payload, e = .goalRequest treeName payload ∧ s.x.running = true ∧ s' = s) ∨
    (∃ treeName payload, e = .goalRequest treeName payload ∧ s.x.running = false ∧
      s' = ⟨createContext s.x, s.goals ++ [⟨s.x.contexts.length, .accepted⟩]⟩) ∨
    (∃ a g waiting x p', e = .execution a ∧ s.goals = g :: waiting ∧
      execute s.x g.phase a = some (x, p') ∧
      s' = ⟨x, (p'.map fun p => ⟨g.context, p⟩).toList ++ waiting⟩) := by
  cases e with
  | goalRequest treeName payload =>
    simp only [step, onGoalReceived] at h
    cases hr : s.x.running with
    | true =>
      rw [hr] at h
      cases h
      exact .inl ⟨_, _, rfl, rfl, rfl⟩
    | false =>
      rw [hr] at h
      cases h
      exact .inr (.inl ⟨_, _, rfl, rfl, rfl⟩)
  | execution a =>
    refine .inr (.inr ?_)
    simp only [step] at h
    split at h
    · cases h
    · rename_i g waiting hg
      split at h
      · rename_i x phase hx
        cases h
        exact ⟨a, g, waiting, x, some phase, rfl, hg, hx, rfl⟩
      · rename_i x hx
        cases h
        exact ⟨a, g, waiting, x, none, rfl, hg, hx, rfl⟩
      · cases h

/-! ## The window between acceptance and `onTreeCreated` -/

/-- A goal request is handled only when `onTreeCreated` has run for every goal outstanding. -/
def NoRequestInWindow (s : Server) : Event → Prop
  | .goalRequest _ _ => ∀ g ∈ s.goals, g.phase.created = true
  | .execution _ => True

instance (s : Server) : ∀ e, Decidable (NoRequestInWindow s e)
  | .goalRequest _ _ => inferInstanceAs (Decidable (∀ g ∈ s.goals, g.phase.created = true))
  | .execution _ => inferInstanceAs (Decidable True)

/-- At most one goal is outstanding; it owns its context, and `running_` says whether
    `onTreeCreated` has run for it. -/
def Exclusive (s : Server) : Prop :=
  s.goals.length ≤ 1 ∧ ∀ g ∈ s.goals, s.x.running = g.phase.created ∧ s.x.Owned g.context

theorem exclusive_initial : Exclusive Server.initial :=
  ⟨Nat.zero_le 1, fun _ hg => by cases hg⟩

/-- The executing goal is the only one. -/
theorem Exclusive.head {s : Server} (hi : Exclusive s) {g : Goal} {waiting : List Goal}
    (hg : s.goals = g :: waiting) :
    waiting = [] ∧ s.x.running = g.phase.created ∧ s.x.Owned g.context := by
  have hlen := hi.1
  rw [hg, List.length_cons] at hlen
  exact ⟨List.eq_nil_of_length_eq_zero (by omega), hi.2 g (by simp [hg])⟩

/-- Where a request is accepted outside the window, no goal is outstanding. -/
theorem goals_eq_nil_of_accepted {s : Server} (hi : Exclusive s) (hr : s.x.running = false)
    (hw : ∀ g ∈ s.goals, g.phase.created = true) : s.goals = [] := by
  refine List.eq_nil_iff_forall_not_mem.mpr fun g hg => ?_
  have hrun := (hi.2 g hg).1
  rw [hr, hw g hg] at hrun
  cases hrun

theorem exclusive_step {s s' : Server} {e : Event} (hi : Exclusive s) (hs : step s e = some s')
    (hw : NoRequestInWindow s e) : Exclusive s' := by
  rcases step_cases hs with ⟨_, _, rfl, _, rfl⟩ | ⟨_, _, rfl, hr, rfl⟩ |
    ⟨a, g, waiting, x, p', rfl, hg, hx, rfl⟩
  · exact hi
  · rw [Exclusive, goals_eq_nil_of_accepted hi hr hw]
    refine ⟨Nat.le_refl 1, fun g hg => ?_⟩
    obtain rfl := List.mem_singleton.mp hg
    exact ⟨(createContext_running s.x).trans hr, createContext_owned s.x⟩
  · obtain ⟨rfl, hrun, howned⟩ := hi.head hg
    -- one case for each thing an action can do
    rcases execute_cases hx with ⟨q, rfl, rfl, hq⟩ | ⟨tree, _, rfl, rfl⟩ | ⟨rfl, rfl, _⟩ |
      ⟨_, _, _, _, rfl, rfl⟩
    · refine ⟨Nat.le_refl 1, fun g' hg' => ?_⟩
      obtain rfl := List.mem_singleton.mp hg'
      exact ⟨hrun.trans hq.symm, howned⟩
    · refine ⟨Nat.le_refl 1, fun g' hg' => ?_⟩
      obtain rfl := List.mem_singleton.mp hg'
      exact ⟨rfl, onTreeCreated_owned howned tree⟩
    · exact ⟨Nat.zero_le 1, fun _ hg' => by cases hg'⟩
    · exact ⟨Nat.zero_le 1, fun _ hg' => by cases hg'⟩

/-! ## One tree at a time -/

/-- A request handled while an accepted goal is outstanding is rejected. -/
def RejectedWhileOutstanding (s : Server) (e : Event) : Prop :=
  ∀ treeName payload, e = .goalRequest treeName payload → s.goals ≠ [] →
    (onGoalReceived treeName payload s.x).1 = false

/-- **One tree at a time exactly without requests in the window.**  At most one accepted goal is
    outstanding and every further request is rejected until it ends, if and only if no request is
    handled between an acceptance and the `onTreeCreated` of that goal. -/
theorem one_tree_at_a_time_iff (es : List Event) :
    (Always step (fun s => s.goals.length ≤ 1) Server.initial es ∧
        EachStep step (fun s e _ => RejectedWhileOutstanding s e) Server.initial es) ↔
      EachStep step (fun s e _ => NoRequestInWindow s e) Server.initial es := by
  refine always_and_eachStep_iff es exclusive_initial (fun s hi => hi.1) ?_ ?_
  · intro s e s' hi hs hw
    refine ⟨exclusive_step hi hs hw, ?_⟩
    rintro treeName payload rfl hne
    obtain ⟨g, hg⟩ := List.exists_mem_of_ne_nil _ hne
    rw [onGoalReceived_fst, (hi.2 g hg).1, hw g hg, Bool.not_true]
  · intro s e s' hi hs hw _ hrej
    cases e with
    | execution a => exact hw trivial
    | goalRequest treeName payload =>
      refine hw fun g hg => ?_
      have hfst := hrej treeName payload rfl (List.ne_nil_of_mem hg)
      rw [onGoalReceived_fst, (hi.2 g hg).1] at hfst
      simpa using hfst

/-- The second of two requests that arrive before the first tree is created is accepted. -/
theorem second_goal_accepted_in_window :
    let request : Event := .goalRequest (bytes "MainTree") []
    (run step Server.initial [request, request]).map (fun s => s.goals.map (·.context)) =
        some [0, 1] ∧
      ¬ (Always step (fun s => s.goals.length ≤ 1) Server.initial [request, request] ∧
        EachStep step (fun s e _ => RejectedWhileOutstanding s e) Server.initial
          [request, request]) := by
  intro request
  exact ⟨by decide, fun h => not_always rfl (by decide) h.1⟩

/-! ## The context a tick sees -/

/-- The behaviours that use the context do not dereference a null pointer. -/
def NoNullDereference (context : Option DRTTreeContext) : Prop :=
  (∀ input params, CheckParam.onStart input context params ≠ .error .nullDereference) ∧
  (∀ name params, CheckParam.onRunning name context params ≠ .error .nullDereference) ∧
  ∀ (Transform : Type) (lookupTransform : TfBuffer → StdString → StdString → Option Transform),
    (∀ base target,
      AsyncTfLookup.onStart lookupTransform base target context ≠ .error .nullDereference) ∧
    ∀ base target,
      AsyncTfLookup.onRunning lookupTransform base target context ≠ .error .nullDereference

theorem noNullDereference_of_live {context : DRTTreeContext} (h : context.Live) :
    NoNullDereference (some context) := by
  refine ⟨fun input params => CheckParam.onStart_of_live h params input,
    fun name params => CheckParam.onRunning_of_live h params name, fun Transform lookup => ⟨?_, ?_⟩⟩
  · intro base target
    exact AsyncTfLookup.onStart_of_live lookup base target h
  · intro base target
    exact AsyncTfLookup.onRunning_of_live lookup base target h

/-- During a tick of the executing goal the blackboard entry leads to the context created for that
    goal, which is alive, and no behaviour dereferences a null pointer through it. -/
def TickSeesOwnContext (s : Server) : Prop :=
  ∀ g ∈ s.goals.head?, g.phase = .ticking →
    s.x.drtContext = some g.context ∧ s.x.Alive g.context ∧
      NoNullDereference s.x.blackboardContext

theorem Exclusive.tickSeesOwnContext {s : Server} (hi : Exclusive s) : TickSeesOwnContext s := by
  intro g hg _
  obtain ⟨_, _, hboard, halive⟩ := hi.2 g (List.mem_of_mem_head? hg)
  refine ⟨hboard, halive, ?_⟩
  obtain ⟨⟨context, hc, hlive, _⟩, _⟩ := halive
  have hget : s.x.blackboardContext = some context := by
    rw [blackboardContext, deref, hboard, Option.bind_some, hc, Option.join_some]
  rw [hget]
  exact noNullDereference_of_live hlive

/-- **Every tick sees its own live context**, in every run without requests in the window. -/
theorem tick_sees_own_context (es : List Event)
    (hw : EachStep step (fun s e _ => NoRequestInWindow s e) Server.initial es) :
    Always step TickSeesOwnContext Server.initial es :=
  (hw.always exclusive_initial fun _ _ _ hi hs hg => exclusive_step hi hs hg).mono
    fun _ hi => hi.tickSeesOwnContext

/-- A goal is executed to its end, with a second request during a tick, then another goal. -/
theorem tick_sees_own_context_two_goals :
    let request : Event := .goalRequest (bytes "MainTree") []
    let created : List Event := [request, .execution (.createTree (.leaf 1 (bytes "CheckParam"))),
      .execution .onTreeCreated, .execution .tick]
    Always step TickSeesOwnContext Server.initial
      (created ++ [request, .execution (.tickReturns .success), .execution .onLoopAfterTick,
        .execution .onTreeExecutionCompleted] ++ created) :=
  tick_sees_own_context _ (by decide)

/-- Two requests before the first tree is created; the completion of the first goal tears down
    the context of the second, whose tick then reads null members. -/
theorem second_goal_ticks_without_context :
    let request : Event := .goalRequest (bytes "MainTree") []
    let created : List Event := [.execution (.createTree (.leaf 1 (bytes "CheckParam"))),
      .execution .onTreeCreated, .execution .tick]
    let es := [request, request] ++ created ++ [.execution (.tickReturns .success),
      .execution .onLoopAfterTick, .execution .onTreeExecutionCompleted] ++ created
    (run step Server.initial es).map (fun s => (s.goals.map (·.context), s.x.blackboardContext)) =
        some ([1], some ⟨none, none, none⟩) ∧
      ¬ Always step TickSeesOwnContext Server.initial es := by
  intro request created es
  refine ⟨by decide, not_always rfl fun h => ?_⟩
  have hnull := (h _ rfl rfl).2.2.2.1 (bytes "breakpoint") (fun _ => none)
  exact hnull rfl

end TreeExecutionServer

end DrtBehavior
