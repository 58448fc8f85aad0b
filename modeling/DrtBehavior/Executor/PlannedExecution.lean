import DrtBehavior.Executor.Server
import DrtBehavior.Planning.PlanningTrees

/-!
# What a finished goal says about the robot

The tree execution server with the planning tree of the goal it executes: the status a goal is
completed with, and the requests that its tree has sent out.

* `sent_of_success` — a planning tree that returns SUCCESS has executed what it planned.
* `System`, `step` — the server, the planning tree and the input of its last tick.  The tree is made
  with the goal and halted where `stop_action` halts it.
* `Inv`, `inv_execution` — what the phases of a goal say about its tree.
* `success_is_executed` — a goal is completed with SUCCESS only after its execution, and where no
  tree is ticked, or none has been yet, no request of a tree is under way.
-/

set_option autoImplicit false

namespace DrtBehavior

namespace PlannedExecution

open EventMachine BehaviorTree Planning TreeExecutionServer DRTBehaviorBtcppExecutor

variable {K J : Type}

/-! ## The tree -/

/-- The last occurrence is a goal with the trajectory planned in the current traversal. -/
def Sent (tolerance : Option (List K)) (trace : List (Occurrence K J)) : Prop :=
  ∃ before trajectory, trace = before ++ [.goalSent trajectory] ∧
    Justified tolerance before trajectory

section Tree

variable [Field K] (c : Conversions K) (xml : TreeXml)

/-- Before the first tick of each node, and when the last one has succeeded. -/
def Ready (i : Nat) (w : Planning.World K J) : Prop :=
  Before c xml i w ∧ (3 ≤ i → Sent (xml.tolerance c) w.trace)

/-- While a node is RUNNING. -/
def Busy (i : Nat) (w : Planning.World K J) : Prop :=
  During c xml i w ∧ (i = 2 → Sent (xml.tolerance c) w.trace)

variable {c xml} {pose trajectory : StdString}

omit [Field K] in
/-- A node is only RUNNING in a traversal. -/
theorem Busy.trace_ne_nil {i : Nat} {w : Planning.World K J} (h : Busy c xml i w) :
    w.trace ≠ [] := by
  obtain ⟨hduring, hsent⟩ := h
  match i with
  | 0 => exact hduring.elim
  | 1 =>
    obtain ⟨_, _, t, request, _, ⟨earlier, blackboard, htrace, _⟩, _⟩ := hduring
    simp [htrace]
  | 2 =>
    obtain ⟨before, trajectory, htrace, _⟩ := hsent rfl
    simp [htrace]
  | _ + 3 => exact hduring.elim

theorem executeTrajectory_answer {w : Planning.World K J} (h : Ready c xml 2 w ∨ Busy c xml 2 w)
    (input : TickInput K J) :
    Answer (fun w => NoStaleGoal (xml.tolerance c) w.trace) (Ready c xml) (Busy c xml) 2
      (w.tickExecuteTrajectory xml.executeTrajectory input) := by
  rcases h with ⟨h, -⟩ | ⟨h, hsent⟩
  · have hanswer := executeTrajectory_start h input
    obtain ⟨⟨hstale, _, hexecuting⟩, t, request, response, hplanned, hread⟩ := h
    unfold World.tickExecuteTrajectory at hanswer ⊢
    rw [hexecuting, hread] at hanswer ⊢
    cases haction : input.action with
    | unreachable => exact hstale
    | _ =>
      rw [haction] at hanswer
      exact ⟨hanswer, fun _ => ⟨w.trace, response.trajectory, rfl, t, request, response, hplanned,
        rfl⟩⟩
  · obtain ⟨hstale, hexecuting⟩ := h
    unfold World.tickExecuteTrajectory
    rw [if_pos hexecuting]
    cases haction : input.action with
    | result errorCode =>
      by_cases hsuccess : errorCode = moveItSuccess
      · simp only [ExecuteTrajectory.onResultReceived, if_pos hsuccess]
        exact ⟨hstale, fun _ => hsent rfl⟩
      · simp only [ExecuteTrajectory.onResultReceived, if_neg hsuccess]
        exact hstale
    | failed => exact hstale
    | _ => exact ⟨⟨hstale, hexecuting⟩, hsent⟩

/-- The three leaves meet the outline that also remembers the goal. -/
theorem execution_outline (hx : Wired xml pose trajectory) :
    Outline (Planning.sequence c xml)
      (fun w : Planning.World K J => NoStaleGoal (xml.tolerance c) w.trace) (Reset c xml)
      (Ready c xml) (Busy c xml) where
  start w h := ⟨(planning_outline hx).start w h, fun h3 => absurd h3 (by decide)⟩
  child i leaf hleaf input w hw := by
    by_cases hi : i < 2
    · exact ((planning_outline hx).child i leaf hleaf input w (hw.imp And.left And.left)).mono
        (fun _ h => ⟨h, fun h3 => by omega⟩) fun _ h => ⟨h, fun h2 => by omega⟩
    · match i, hleaf, hw, hi with
      | 0, _, _, hi => exact absurd (by decide) hi
      | 1, _, _, hi => exact absurd (by decide) hi
      | 2, hleaf, hw, _ =>
        cases hleaf
        exact executeTrajectory_answer hw input
  reset := (planning_outline hx).reset
  update_reset := (planning_outline hx).update_reset
  update_running i u w h := ⟨(planning_outline hx).update_running i u w h.1, h.2⟩
  inv_of_reset _ h := h.1
  inv_of_start i w h := before_noStaleGoal i w h.1
  inv_of_running i w h := during_noStaleGoal i w h.1

omit [Field K] in
/-- `ExecuteTrajectory` succeeds only when MoveIt has reported SUCCESS. -/
theorem tickExecuteTrajectory_success {w : Planning.World K J} {input : TickInput K J}
    {node : NodeXml} (h : (w.tickExecuteTrajectory node input).1 = .ok .success ∨
      (w.tickExecuteTrajectory node input).1 = .ok .skipped) :
    input.action = .result moveItSuccess := by
  unfold World.tickExecuteTrajectory at h
  cases hexecuting : w.executing with
  | true =>
    rw [if_pos hexecuting] at h
    cases haction : input.action with
    | result errorCode =>
      rw [haction] at h
      by_cases hsuccess : errorCode = moveItSuccess
      · rw [hsuccess]
      · simp [ExecuteTrajectory.onResultReceived, hsuccess] at h
    | failed =>
      rw [haction] at h
      rcases h with h | h <;> cases h
    | _ =>
      rw [haction] at h
      rcases h with h | h <;> cases h
  | false =>
    rw [if_neg (by rw [hexecuting]; decide)] at h
    cases hgoal : ExecuteTrajectory.setGoal
        (getInput Value.asRobotTrajectory [] node (bytes "trajectory") w.blackboard) with
    | error fault =>
      rw [hgoal] at h
      rcases h with h | h <;> cases h
    | ok trajectory =>
      rw [hgoal] at h
      cases haction : input.action <;> rw [haction] at h <;> rcases h with h | h <;> cases h

omit [Field K] in
theorem not_during : ∀ {i : Nat} {w : Planning.World K J}, 3 ≤ i → ¬ During c xml i w
  | _ + 3, _, _, h => h

/-- A tick that starts at one of the three nodes comes to the last one, or ends before it. -/
theorem executeTrajectory_left (c : Conversions K) (xml : TreeXml) {i : Nat} (h : i ≤ 2) :
    ∃ child ∈ (Planning.sequence (J := J) c xml).children.drop i,
      ∀ (input : TickInput K J) (w : Planning.World K J),
        child.tick input w = w.tickExecuteTrajectory xml.executeTrajectory input := by
  match i, h with
  | 0, _ => exact ⟨_, List.mem_cons_of_mem _ (List.mem_cons_of_mem _ List.mem_cons_self),
      fun _ _ => rfl⟩
  | 1, _ => exact ⟨_, List.mem_cons_of_mem _ List.mem_cons_self, fun _ _ => rfl⟩
  | 2, _ => exact ⟨_, List.mem_cons_self, fun _ _ => rfl⟩

/-- **A tree that succeeds has executed what it planned.** -/
theorem sent_of_success (hx : Wired xml pose trajectory) {s : Sequence.State (Planning.World K J)}
    (hs : Outline.Between (fun w => NoStaleGoal (xml.tolerance c) w.trace) (Reset c xml)
      (Busy c xml) s) {input : TickInput K J}
    (hr : ((Planning.sequence c xml).tick input s).1 = .ok .success) :
    input.action = .result moveItSuccess ∧
      Sent (xml.tolerance c) ((Planning.sequence c xml).tick input s).2.world.trace := by
  have houtline := execution_outline (c := c) (J := J) hx
  obtain ⟨hfrom, hworld⟩ := Sequence.tick_of_success hr
  have hentry := houtline.entry hs
  have hposition : ((Planning.sequence c xml).entry s).1 ≤ 2 := by
    unfold Sequence.entry
    cases hcurrent : s.current with
    | none => exact Nat.zero_le 2
    | some i =>
      have hbusy := (hs.2.2 i hcurrent).1
      match i, hbusy with
      | 1, _ => exact Nat.le_succ 1
      | 2, _ => exact Nat.le_refl 2
  refine ⟨?_, ?_⟩
  · obtain ⟨child, hmem, hchild⟩ := executeTrajectory_left c xml hposition
    obtain ⟨w, hw⟩ := tickFrom_success_mem input hfrom child hmem
    rw [hchild] at hw
    exact tickExecuteTrajectory_success hw
  · obtain ⟨j, hj, hdone⟩ := houtline.tickFrom_success input rfl hentry hfrom
    rw [hworld]
    rcases hdone with hdone | hdone
    · exact hdone.2 hj
    · exact absurd hdone.1 (not_during hj)

end Tree

/-! ## The server with the tree -/

/-- `planning` is the tree of the executing goal. -/
structure System (K J : Type) where
  server : Server
  planning : PlanningTree
  tree : Sequence.State (Planning.World K J)
  lastTick : Option (TickInput K J)

/-- The events of the server, with what they mean for the tree, and writes of others. -/
inductive Event (K J : Type) where
  | goalRequest (treeName payload : StdString)
  | createTree (planning : PlanningTree) (node : TreeNode) (blackboard : Blackboard K J)
  | createTreeThrows
  | onTreeCreated
  | tick
  | tickReturns (input : TickInput K J)
  | onLoopAfterTick
  | cancel
  | onTreeExecutionCompleted
  | write (blackboard : Blackboard K J)

/-- A tree that has not been ticked. -/
def created (blackboard : Blackboard K J) : Sequence.State (Planning.World K J) :=
  ⟨none, ⟨blackboard, none, false, []⟩⟩

def System.initial (K J : Type) : System K J :=
  ⟨Server.initial, .rrtToTransform, created fun _ => none, none⟩

/-- The phase of the executing goal. -/
def System.phase (s : System K J) : Option Phase := s.server.goals.head?.map (·.phase)

section Step

variable [Field K] (c : Conversions K) (s : System K J)

def System.sequence : Sequence (TickInput K J) Fault (Planning.World K J) (Blackboard K J) :=
  Planning.sequence c s.planning.xml

/-- The tree after `haltTree`. -/
def System.halted : Sequence.State (Planning.World K J) :=
  ⟨none, (s.sequence c).haltAll s.tree.world⟩

/-- What the server sees of the event. -/
def serverEvent : Event K J → Option TreeExecutionServer.Event
  | .goalRequest treeName payload => some (.goalRequest treeName payload)
  | .createTree _ node _ => some (.execution (.createTree node))
  | .createTreeThrows => some (.execution .createTreeThrows)
  | .onTreeCreated => some (.execution .onTreeCreated)
  | .tick => some (.execution .tick)
  | .tickReturns input =>
    match ((s.sequence c).tick input s.tree).1 with
    | .ok status => some (.execution (.tickReturns status))
    | .error _ => some (.execution .tickThrows)
  | .onLoopAfterTick => some (.execution .onLoopAfterTick)
  | .cancel => some (.execution .cancel)
  | .onTreeExecutionCompleted => some (.execution .onTreeExecutionCompleted)
  | .write _ => none

/-- What becomes of the tree. -/
def treeAfter : Event K J → Sequence.State (Planning.World K J)
  | .createTree _ _ blackboard => created blackboard
  | .tickReturns input => ((s.sequence c).tick input s.tree).2
  -- the two ways into `stop_action`
  | .onLoopAfterTick =>
    match s.phase with
    | some (.ticked .failure) => s.halted c
    | _ => s.tree
  | .cancel => s.halted c
  | .write blackboard => { s.tree with world := (s.sequence c).update blackboard s.tree.world }
  | _ => s.tree

/-- The system once the server is in the state given. -/
def System.moved (e : Event K J) (server : Server) : System K J where
  server := server
  planning :=
    match e with
    | .createTree planning _ _ => planning
    | _ => s.planning
  tree := treeAfter c s e
  lastTick :=
    match e with
    | .tickReturns input => some input
    | _ => s.lastTick

def step (e : Event K J) : Option (System K J) :=
  match serverEvent c s e with
  | none => some (s.moved c e s.server)
  | some event => (TreeExecutionServer.step s.server event).map (s.moved c e)

end Step

/-! ## What the phases say -/

/-- From `onTreeCreated` on a tree is ticked, or will be without further ado. -/
def ticking : Option Phase → Bool
  | some .looping => true
  | some .ticking => true
  | some (.ticked .running) => true
  | _ => false

/-- The tree has succeeded. -/
def succeeded : Option Phase → Bool
  | some (.ticked .success) => true
  | some (.finishing .success false) => true
  | _ => false

section Invariant

variable (c : Conversions K)

/-- The last goal sent carries the trajectory planned in the last traversal, and MoveIt has reported
    SUCCESS in the last tick. -/
def Executed (s : System K J) : Prop :=
  Sent (s.planning.xml.tolerance c) s.tree.world.trace ∧ ∃ input, s.lastTick = some input ∧
    input.action = .result moveItSuccess

/-- The outline of the tree, between ticks. -/
def Outlined (planning : PlanningTree) (tree : Sequence.State (Planning.World K J)) : Prop :=
  Outline.Between (fun w => NoStaleGoal (planning.xml.tolerance c) w.trace) (Reset c planning.xml)
    (Busy c planning.xml) tree

structure Inv (s : System K J) : Prop where
  outlined : Outlined c s.planning s.tree
  waiting : ∀ g ∈ s.server.goals.tail, g.phase = .accepted
  halted : ticking s.phase = false → s.tree.current = none
  executed : succeeded s.phase = true → Executed c s

theorem outlined_created (planning : PlanningTree) (blackboard : Blackboard K J) :
    Outlined c planning (created blackboard) :=
  ⟨Trace.explained_nil, fun _ => reset_initial c planning.xml blackboard, nofun⟩

theorem inv_initial : Inv c (System.initial K J) :=
  ⟨outlined_created c _ _, fun _ h => (by cases h), fun _ => rfl, nofun⟩

end Invariant

/-! ## The steps of the server -/

/-- The next phase after an action, `none` if the goal is over. -/
def Next (p : Phase) (p' : Option Phase) : Action → Prop
  | .createTree node => p' = some (.built node)
  | .createTreeThrows => p = .accepted ∧ p' = none
  | .onTreeCreated => p' = some .looping
  | .tick => p' = some .ticking
  | .tickReturns status => p' = some (.ticked status)
  | .tickThrows => p' = none
  | .onLoopAfterTick => ∃ status, p = .ticked status ∧
      ((status = .failure ∧ p' = some (.finishing .failure true)) ∨
        (status = .running ∧ p' = some .looping) ∨
        (status ≠ .failure ∧ status ≠ .running ∧ p' = some (.finishing status false)))
  | .cancel => p' = some (.finishing .running true)
  | .onTreeExecutionCompleted => (∃ status wasCancelled, p = .finishing status wasCancelled) ∧
      p' = none

theorem execute_next {x x' : DRTBehaviorBtcppExecutor} {p : Phase} {a : Action}
    {p' : Option Phase} (h : execute x p a = some (x', p')) : Next p p' a := by
  unfold execute at h
  split at h
  · cases h; rfl
  · cases h; exact ⟨rfl, rfl⟩
  · cases h; rfl
  · cases h; rfl
  · cases h; rfl
  · cases h; rfl
  · cases h; rfl
  · rename_i status
    refine ⟨status, rfl, ?_⟩
    cases status with
    | failure => cases h; exact .inl ⟨rfl, rfl⟩
    | running => cases h; exact .inr (.inl ⟨rfl, rfl⟩)
    | _ => cases h; exact .inr (.inr ⟨nofun, nofun, rfl⟩)
  · cases h; exact ⟨⟨_, _, rfl⟩, rfl⟩
  · cases h

section Actions

variable {c : Conversions K}

/-- What the tree has to be in the phase after an action, `none` being the end of the goal. -/
def Suits (c : Conversions K) (t : System K J) (p' : Option Phase) : Prop :=
  (ticking p' = false → t.tree.current = none) ∧ (succeeded p' = true → Executed c t)

/-- An action of the execution thread keeps the invariant if the tree suits the next phase. -/
theorem inv_execution {s t : System K J} (hi : Inv c s) {a : Action}
    (hs : TreeExecutionServer.step s.server (.execution a) = some t.server)
    (houtlined : Outlined c t.planning t.tree)
    (hsuits : ∀ p p', s.phase = some p → Next p p' a → Suits c t p') : Inv c t := by
  rcases TreeExecutionServer.step_cases hs with ⟨_, _, he, _⟩ | ⟨_, _, he, _⟩ |
    ⟨a', g, waiting, x, p', he, hg, hx, hserver⟩
  · cases he
  · cases he
  · cases he
    have hphase : s.phase = some g.phase := by rw [System.phase, hg]; rfl
    have hnext := hsuits g.phase p' hphase (execute_next hx)
    have hwaiting : ∀ g ∈ waiting, g.phase = .accepted := by
      have := hi.waiting
      rwa [hg] at this
    cases p' with
    | some p =>
      have hgoals : t.server.goals = ⟨g.context, p⟩ :: waiting := by rw [hserver]; rfl
      have hphase' : t.phase = some p := by rw [System.phase, hgoals]; rfl
      refine ⟨houtlined, ?_, ?_, ?_⟩
      · rw [hgoals]
        exact hwaiting
      · rw [hphase']
        exact hnext.1
      · rw [hphase']
        exact hnext.2
    | none =>
      -- the next goal has only been accepted
      have hgoals : t.server.goals = waiting := by rw [hserver]; rfl
      have hphase' : t.phase = none ∨ t.phase = some .accepted := by
        rw [System.phase, hgoals]
        cases waiting with
        | nil => exact .inl rfl
        | cons next rest => exact .inr (congrArg some (hwaiting next List.mem_cons_self))
      refine ⟨houtlined, ?_, fun _ => hnext.1 rfl, fun hsucceeded => ?_⟩
      · rw [hgoals]
        exact fun g hg => hwaiting g (List.mem_of_mem_tail hg)
      · rcases hphase' with hphase' | hphase' <;> rw [hphase'] at hsucceeded <;> cases hsucceeded

/-- A goal request changes neither the tree nor the phase of the executing goal. -/
theorem inv_goalRequest {s t : System K J} (hi : Inv c s) {treeName payload : StdString}
    (hs : TreeExecutionServer.step s.server (.goalRequest treeName payload) = some t.server)
    (hplanning : t.planning = s.planning) (htree : t.tree = s.tree)
    (hlast : t.lastTick = s.lastTick) : Inv c t := by
  have hexecuted : Executed c s → Executed c t := fun h => by
    rw [Executed, hplanning, htree, hlast]
    exact h
  have houtlined : Outlined c t.planning t.tree := by
    rw [hplanning, htree]
    exact hi.outlined
  rcases TreeExecutionServer.step_cases hs with ⟨_, _, _, _, hserver⟩ | ⟨_, _, _, _, hserver⟩ |
    ⟨_, _, _, _, _, he, _⟩
  · have hphase : t.phase = s.phase := by rw [System.phase, hserver]; rfl
    refine ⟨houtlined, hserver ▸ hi.waiting, ?_, ?_⟩
    · rw [hphase, htree]
      exact hi.halted
    · rw [hphase]
      exact fun h => hexecuted (hi.executed h)
  · cases hgoals : s.server.goals with
    | nil =>
      have hgoals' : t.server.goals = [⟨s.server.x.contexts.length, .accepted⟩] := by
        rw [hserver, hgoals]
        rfl
      have hphase : s.phase = none := by rw [System.phase, hgoals]; rfl
      have hphase' : t.phase = some .accepted := by rw [System.phase, hgoals']; rfl
      refine ⟨houtlined, ?_, ?_, ?_⟩
      · rw [hgoals']
        exact fun g hg => by cases hg
      · rw [htree]
        exact fun _ => hi.halted (by rw [hphase]; rfl)
      · rw [hphase']
        exact nofun
    | cons g waiting =>
      have hgoals' : t.server.goals =
          g :: (waiting ++ [⟨s.server.x.contexts.length, .accepted⟩]) := by
        rw [hserver, hgoals]
        rfl
      have hphase : t.phase = s.phase := by rw [System.phase, System.phase, hgoals', hgoals]; rfl
      refine ⟨houtlined, ?_, ?_, ?_⟩
      · rw [hgoals', List.tail_cons]
        intro g' hg'
        rcases List.mem_append.mp hg' with hg' | hg'
        · exact hi.waiting g' (by rw [hgoals]; exact hg')
        · rw [List.mem_singleton.mp hg']
      · rw [hphase, htree]
        exact hi.halted
      · rw [hphase]
        exact fun h => hexecuted (hi.executed h)
  · cases he

end Actions

/-! ## The invariant holds in every run -/

variable [Field K] {c : Conversions K}

theorem outlined_step (s : System K J) (hi : Inv c s)
    {e : Sequence.Event (TickInput K J) (Blackboard K J)}
    {tree : Sequence.State (Planning.World K J)}
    (he : (s.sequence c).step s.tree e = some tree) :
    Outlined c s.planning tree :=
  (execution_outline (wired s.planning)).between_step hi.outlined he

/-- What the tick of the tree returns suits the phase it leads to. -/
theorem suits_ticked {s t : System K J} (hi : Inv c s) {input : TickInput K J}
    (hplanning : t.planning = s.planning)
    (htree : t.tree = ((s.sequence c).tick input s.tree).2) (hlast : t.lastTick = some input)
    {status : NodeStatus} (hr : ((s.sequence c).tick input s.tree).1 = .ok status) :
    Suits c t (some (.ticked status)) := by
  constructor
  · intro hticking
    rw [htree]
    refine Sequence.tick_current _ input fun hrunning => ?_
    rw [hr] at hrunning
    cases hrunning
    cases hticking
  · intro hsucceeded
    have hsuccess : ((s.sequence c).tick input s.tree).1 = .ok .success := by
      cases status with
      | success => exact hr
      | _ => cases hsucceeded
    obtain ⟨haction, hsent⟩ := sent_of_success (wired s.planning) hi.outlined hsuccess
    refine ⟨?_, input, hlast, haction⟩
    rw [hplanning, htree]
    exact hsent

theorem step_of_serverEvent {s t : System K J} {e : Event K J}
    {event : TreeExecutionServer.Event} (he : serverEvent c s e = some event)
    (hs : step c s e = some t) :
    ∃ server, TreeExecutionServer.step s.server event = some server ∧ s.moved c e server = t := by
  unfold step at hs
  rw [he] at hs
  exact Option.map_eq_some_iff.mp hs

/-- The tree is halted after a failure only. -/
theorem treeAfter_onLoopAfterTick (c : Conversions K) (s : System K J) :
    (s.phase = some (.ticked .failure) ∧ treeAfter c s .onLoopAfterTick = s.halted c) ∨
      (s.phase ≠ some (.ticked .failure) ∧ treeAfter c s .onLoopAfterTick = s.tree) := by
  simp only [treeAfter]
  split
  · rename_i hphase
    exact .inl ⟨hphase, rfl⟩
  · rename_i hphase
    exact .inr ⟨hphase, rfl⟩

theorem inv_step {s t : System K J} {e : Event K J} (hi : Inv c s) (hs : step c s e = some t) :
    Inv c t := by
  cases e with
  | goalRequest treeName payload =>
    obtain ⟨server, hserver, rfl⟩ := Option.map_eq_some_iff.mp hs
    exact inv_goalRequest hi hserver rfl rfl rfl
  | createTree planning node blackboard =>
    obtain ⟨server, hserver, rfl⟩ := Option.map_eq_some_iff.mp hs
    refine inv_execution hi hserver (outlined_created c planning blackboard) fun p p' _ hnext => ?_
    obtain rfl := hnext
    exact ⟨fun _ => rfl, nofun⟩
  | createTreeThrows =>
    obtain ⟨server, hserver, rfl⟩ := Option.map_eq_some_iff.mp hs
    refine inv_execution hi hserver hi.outlined fun p p' hphase hnext => ?_
    obtain ⟨rfl, rfl⟩ := hnext
    exact ⟨fun _ => hi.halted (by rw [hphase]; rfl), nofun⟩
  | onTreeCreated =>
    obtain ⟨server, hserver, rfl⟩ := Option.map_eq_some_iff.mp hs
    refine inv_execution hi hserver hi.outlined fun p p' _ hnext => ?_
    obtain rfl := hnext
    exact ⟨nofun, nofun⟩
  | tick =>
    obtain ⟨server, hserver, rfl⟩ := Option.map_eq_some_iff.mp hs
    refine inv_execution hi hserver hi.outlined fun p p' _ hnext => ?_
    obtain rfl := hnext
    exact ⟨nofun, nofun⟩
  | tickReturns input =>
    have hticked := outlined_step s hi (e := .tick input) rfl
    cases hr : ((s.sequence c).tick input s.tree).1 with
    | ok status =>
      have hevent : serverEvent c s (.tickReturns input) =
          some (.execution (.tickReturns status)) := by
        simp only [serverEvent, hr]
      obtain ⟨server, hserver, rfl⟩ := step_of_serverEvent hevent hs
      refine inv_execution hi hserver hticked fun p p' _ hnext => ?_
      obtain rfl := hnext
      exact suits_ticked (t := s.moved c _ server) hi rfl rfl rfl hr
    | error fault =>
      have hevent : serverEvent c s (.tickReturns input) = some (.execution .tickThrows) := by
        simp only [serverEvent, hr]
      obtain ⟨server, hserver, rfl⟩ := step_of_serverEvent hevent hs
      refine inv_execution hi hserver hticked fun p p' _ hnext => ?_
      obtain rfl := hnext
      exact ⟨fun _ => Sequence.tick_current _ input (by rw [hr]; exact nofun), nofun⟩
  | onLoopAfterTick =>
    obtain ⟨server, hserver, rfl⟩ := Option.map_eq_some_iff.mp hs
    rcases treeAfter_onLoopAfterTick c s with ⟨hphase, htree⟩ | ⟨hphase, htree⟩
    · refine inv_execution hi hserver ?_ fun p p' hp hnext => ?_
      · exact outlined_step s hi (e := .halt) (congrArg some htree.symm)
      · rw [hphase] at hp
        cases hp
        obtain ⟨status, heq, ⟨_, rfl⟩ | ⟨rfl, _⟩ | ⟨hne, _⟩⟩ := hnext
        · exact ⟨fun _ => congrArg Sequence.State.current htree, nofun⟩
        · cases heq
        · cases heq
          exact absurd rfl hne
    · have houtlined : Outlined c s.planning (treeAfter c s .onLoopAfterTick) := by
        rw [htree]
        exact hi.outlined
      refine inv_execution hi hserver houtlined fun p p' hp hnext => ?_
      obtain ⟨status, rfl, ⟨rfl, _⟩ | ⟨_, rfl⟩ | ⟨_, hne, rfl⟩⟩ := hnext
      · exact absurd hp hphase
      · exact ⟨nofun, nofun⟩
      · refine ⟨fun _ => ?_, fun hsucceeded => ?_⟩
        · refine (congrArg Sequence.State.current htree).trans (hi.halted ?_)
          rw [hp]
          cases status with
          | running => exact absurd rfl hne
          | _ => rfl
        · cases status with
          | success =>
            have hexecuted : Executed c s := hi.executed (by rw [hp]; rfl)
            rw [Executed, ← htree] at hexecuted
            exact hexecuted
          | _ => cases hsucceeded
  | cancel =>
    obtain ⟨server, hserver, rfl⟩ := Option.map_eq_some_iff.mp hs
    refine inv_execution hi hserver (outlined_step s hi (e := .halt) rfl)
      fun p p' _ hnext => ?_
    obtain rfl := hnext
    exact ⟨fun _ => rfl, nofun⟩
  | onTreeExecutionCompleted =>
    obtain ⟨server, hserver, rfl⟩ := Option.map_eq_some_iff.mp hs
    refine inv_execution hi hserver hi.outlined fun p p' hphase hnext => ?_
    obtain ⟨⟨status, wasCancelled, rfl⟩, rfl⟩ := hnext
    exact ⟨fun _ => hi.halted (by rw [hphase]; rfl), nofun⟩
  | write blackboard =>
    cases hs
    exact ⟨outlined_step s hi (e := .update blackboard) rfl, hi.waiting, hi.halted,
      hi.executed⟩

/-- **SUCCESS means executed.**  In every run of goal requests, executions and cancellations, with
    any planning tree for each goal and writes of others at any time: when a goal is about to be
    completed with SUCCESS, the last goal that its tree has sent to MoveIt carries the trajectory
    planned in the last traversal, and MoveIt has reported SUCCESS.  Whenever no tree is ticked, and
    before the first traversal of a tree, no planning request and no execution of a tree is under
    way. -/
theorem success_is_executed (c : Conversions K) (es : List (Event K J)) :
    Always (step c) (fun s =>
      (s.phase = some (.finishing .success false) → Executed c s) ∧
      (ticking s.phase = false ∨ s.tree.world.trace = [] →
        s.tree.world.request = none ∧ s.tree.world.executing = false))
      (System.initial K J) es := by
  have hinv : Always (step c) (Inv c) (System.initial K J) es :=
    always_of_invariant es (inv_initial c) fun _ _ _ hi hs => inv_step hi hs
  refine hinv.mono fun s hi => ⟨fun hphase => hi.executed (by rw [hphase]; rfl), fun hfree => ?_⟩
  obtain ⟨_, hreset, hbusy⟩ := hi.outlined
  refine (hreset ?_).2
  rcases hfree with hticking | htrace
  · exact hi.halted hticking
  · -- a node that is RUNNING would be in a traversal
    exact Option.eq_none_iff_forall_ne_some.mpr fun i hcurrent =>
      (hbusy i hcurrent).trace_ne_nil htrace

/-- A goal that plans and executes trajectory 7, while another one is refused; then one that is
    cancelled while it waits for the planner. -/
example :
    let blackboard : Blackboard Rat Nat := fun key =>
      if key = bytes "transform" then
        some (.transformStamped ⟨Header.empty, [], ⟨⟨1, 2, 3⟩, Quaternion.identity⟩⟩)
      else if key = bytes "group_name" ∨ key = bytes "end_effector_name" then
        some (.string (bytes "arm"))
      else none
    let goal (planning : PlanningTree) : List (Event Rat Nat) :=
      [.goalRequest [] [], .createTree planning (.leaf 1 []) blackboard, .onTreeCreated]
    let tick (service : ServiceEvent Nat) (action : ActionEvent) : List (Event Rat Nat) :=
      [.tick, .tickReturns ⟨service, action, 0⟩, .onLoopAfterTick]
    let first := goal .rrtToTransform ++ tick .pending .pending ++
      tick (.response ⟨7, moveItSuccess⟩) .pending ++ [.goalRequest [] []] ++
      tick .pending (.result moveItSuccess)
    let second := goal .pilzLinToPosition ++ tick .pending .pending ++ [.cancel]
    let shown (s : System Rat Nat) := (succeeded s.phase, s.tree.world.trace.length,
      s.tree.world.request.isNone)
    (run (step treeConversions) (System.initial Rat Nat) first).map shown = some (true, 5, true) ∧
      (run (step treeConversions) (System.initial Rat Nat)
        (first ++ .onTreeExecutionCompleted :: second)).map shown = some (false, 3, true) := by
  decide +kernel

end PlannedExecution

end DrtBehavior
