import DrtBehavior.Executor.Rejection

/-!
# Back to idle

What is left of a goal when its execution has ended.

* `tidy_step` — in every run at most one context is alive, the one `context_` leads to.
* `ClearedAtThrow` — no exception ends the only outstanding goal, except where `createTree` throws
  after `context_` and `running_` have been cleared.
* `idle_after_every_goal` — a run is idle whenever no goal is outstanding exactly if all its steps
  are such, in particular if nothing throws.
* `Orderly` — a step at which nothing throws and no goal is requested in the window before an
  `onTreeCreated`.
-/

set_option autoImplicit false

namespace DrtBehavior

namespace TreeExecutionServer

open EventMachine DRTBehaviorBtcppExecutor

/-- The tree cannot be created, or a behaviour throws. -/
def Event.throws : Event → Bool
  | .execution .createTreeThrows => true
  | .execution .tickThrows => true
  | _ => false

theorem throws_cases {e : Event} (h : e.throws = true) :
    e = .execution .createTreeThrows ∨ e = .execution .tickThrows := by
  unfold Event.throws at h
  split at h
  · exact .inl rfl
  · exact .inr rfl
  · cases h

/-- A throw ends the execution and leaves the executor as it is. -/
theorem execute_throws {x x' : DRTBehaviorBtcppExecutor} {p : Phase} {a : Action}
    {p' : Option Phase} (ha : (Event.execution a).throws = true)
    (h : execute x p a = some (x', p')) : x' = x ∧ p' = none := by
  rcases throws_cases ha with ha | ha <;> cases ha
  · cases p with
    | accepted => cases h; exact ⟨rfl, rfl⟩
    | _ => cases h
  · cases p with
    | ticking => cases h; exact ⟨rfl, rfl⟩
    | _ => cases h

/-- A throw is the end of the goal that executes. -/
theorem step_throws {s s' : Server} {e : Event} (he : e.throws = true)
    (hs : step s e = some s') : s.goals ≠ [] ∧ s' = ⟨s.x, s.goals.tail⟩ := by
  rcases step_cases hs with ⟨_, _, rfl, _⟩ | ⟨_, _, rfl, _⟩ |
    ⟨a, g, waiting, x, p', rfl, hg, hx, rfl⟩
  · cases he
  · cases he
  · obtain ⟨rfl, rfl⟩ := execute_throws he hx
    rw [hg]
    exact ⟨List.cons_ne_nil _ _, rfl⟩

/-- A tree executes during a tick, so `running_` is set when the tick throws. -/
theorem running_of_tickThrows {s s' : Server} (h : RunningWhileExecuting s)
    (hs : step s (.execution .tickThrows) = some s') : s.x.running = true := by
  rcases step_cases hs with ⟨_, _, he, _⟩ | ⟨_, _, he, _⟩ |
    ⟨a, g, waiting, x, p', he, hg, hx, rfl⟩
  · cases he
  · cases he
  · cases he
    refine h.running ⟨g, by rw [hg]; rfl, ?_⟩
    cases hp : g.phase with
    | ticking => rfl
    | _ => rw [hp] at hx; cases hx

def Orderly (s : Server) (e : Event) : Prop := NoRequestInWindow s e ∧ e.throws = false

instance (s : Server) (e : Event) : Decidable (Orderly s e) := inferInstanceAs (Decidable (_ ∧ _))

/-- Without an outstanding goal the executor is idle. -/
def IdleWithoutGoal (s : Server) : Prop := s.goals = [] → s.x.Idle

/-- No tick of the only outstanding goal throws, and `createTree` does not throw for it before
    `context_` and `running_` have been cleared, as the completion of another goal may do that was
    requested in the same window. -/
def ClearedAtThrow (s : Server) : Event → Prop
  | .execution .createTreeThrows =>
    2 ≤ s.goals.length ∨ (s.x.context = none ∧ s.x.running = false)
  | .execution .tickThrows => 2 ≤ s.goals.length
  | _ => True

instance (s : Server) (e : Event) : Decidable (ClearedAtThrow s e) := by
  unfold ClearedAtThrow; split <;> infer_instance

theorem clearedAtThrow_of_no_throw {s : Server} {e : Event} (h : e.throws = false) :
    ClearedAtThrow s e := by
  unfold ClearedAtThrow
  split
  · cases h
  · cases h
  · trivial

/-! ## One step -/

theorem tidy_step {s s' : Server} {e : Event} (h : s.x.Tidy) (hs : step s e = some s') :
    s'.x.Tidy := by
  rcases step_cases hs with ⟨_, _, rfl, _, rfl⟩ | ⟨_, _, rfl, _, rfl⟩ |
    ⟨a, g, waiting, x, p', rfl, hg, hx, rfl⟩
  · exact h
  · exact tidy_createContext h
  · rcases execute_cases hx with ⟨q, rfl, rfl, _⟩ | ⟨tree, _, rfl, rfl⟩ | ⟨rfl, rfl, _⟩ |
      ⟨status, wasCancelled, _, _, rfl, rfl⟩
    · exact h
    · exact ⟨h.owned, h.known, h.nodes, h.contexts⟩
    · exact h
    · exact (tidy_onTreeExecutionCompleted h status wasCancelled).1

/-- Of the ways a goal can end only an exception clears nothing. -/
theorem idleWithoutGoal_step {s s' : Server} {e : Event} (ht : s.x.Tidy) (hi : IdleWithoutGoal s)
    (hs : step s e = some s') (hc : ClearedAtThrow s e) : IdleWithoutGoal s' := by
  rcases step_cases hs with ⟨_, _, rfl, _, rfl⟩ | ⟨_, _, rfl, _, rfl⟩ |
    ⟨a, g, waiting, x, p', rfl, hg, hx, rfl⟩
  · exact hi
  · intro hnil
    simp at hnil
  · rcases execute_cases hx with ⟨q, rfl, rfl, _⟩ | ⟨tree, _, rfl, rfl⟩ | ⟨rfl, rfl, hthrow⟩ |
      ⟨status, wasCancelled, _, _, rfl, rfl⟩
    · intro hnil
      cases hnil
    · intro hnil
      cases hnil
    · intro hnil
      obtain rfl : waiting = [] := hnil
      have hlen : ¬ 2 ≤ s.goals.length := by simp [hg]
      rcases hthrow with ⟨_, rfl⟩ | ⟨_, rfl⟩
      · exact ht.idle_iff.mpr (hc.resolve_left hlen)
      · exact absurd hc hlen
    · intro _
      obtain ⟨ht', hcleared⟩ := tidy_onTreeExecutionCompleted ht status wasCancelled
      exact ht'.idle_iff.mpr hcleared

/-- An exception that ends the only outstanding goal leaves an idle executor only where it finds
    one. -/
theorem idle_before_throw {s s' : Server} {e : Event} (he : e.throws = true)
    (hs : step s e = some s') (hidle : IdleWithoutGoal s') (hlen : ¬ 2 ≤ s.goals.length) :
    s.x.Idle := by
  obtain ⟨_, rfl⟩ := step_throws he hs
  refine hidle (List.eq_nil_of_length_eq_zero ?_)
  rw [List.length_tail]
  omega

/-- A step after which the executor is idle, if no goal is outstanding, was no exception or one that
    found it cleared. -/
theorem cleared_of_idleWithoutGoal {s s' : Server} {e : Event} (ht : s.x.Tidy)
    (hr : RunningWhileExecuting s) (hs : step s e = some s') (hidle : IdleWithoutGoal s') :
    ClearedAtThrow s e := by
  unfold ClearedAtThrow
  split
  · exact or_iff_not_imp_left.mpr fun hlen =>
      ht.idle_iff.mp (idle_before_throw rfl hs hidle hlen)
  · refine Classical.byContradiction fun hlen => ?_
    have hrun := (idle_before_throw rfl hs hidle hlen).1
    rw [running_of_tickThrows hr hs] at hrun
    cases hrun
  · trivial

/-! ## Whole runs -/

/-- What a run keeps as long as every exception finds the executor cleared. -/
structure Kept (s : Server) : Prop where
  tidy : s.x.Tidy
  running : RunningWhileExecuting s
  idle : IdleWithoutGoal s

theorem kept_initial : Kept Server.initial :=
  ⟨tidy_main, runningWhileExecuting_initial, fun _ => tidy_main.idle_iff.mpr ⟨rfl, rfl⟩⟩

theorem kept_step {s s' : Server} {e : Event} (h : Kept s) (hs : step s e = some s')
    (hc : ClearedAtThrow s e) : Kept s' :=
  ⟨tidy_step h.tidy hs, runningWhileExecuting_step h.running hs,
    idleWithoutGoal_step h.tidy h.idle hs hc⟩

/-- Where no goal is requested in the window, an exception never finds the executor cleared. -/
theorem cleared_iff_no_throw {s s' : Server} {e : Event} (hi : Exclusive s)
    (hs : step s e = some s') : ClearedAtThrow s e ↔ e.throws = false := by
  refine ⟨fun hc => Bool.eq_false_iff.mpr fun he => ?_, clearedAtThrow_of_no_throw⟩
  obtain ⟨hne, _⟩ := step_throws he hs
  obtain ⟨g, waiting, hg⟩ := List.exists_cons_of_ne_nil hne
  obtain ⟨rfl, _, hcontext, _⟩ := hi.head hg
  have hlen : ¬ 2 ≤ s.goals.length := by simp [hg]
  rcases throws_cases he with rfl | rfl
  · have hnone := (hc.resolve_left hlen).1
    rw [hcontext] at hnone
    cases hnone
  · exact hlen hc

/-- **Back to idle.**  A run is idle whenever no goal is outstanding, however the goals ended, if
    and only if no exception ends the only outstanding goal, except where `createTree` throws after
    `context_` and `running_` have been cleared.  This is so in every run in which nothing throws;
    and where no goal is requested in the window before an `onTreeCreated`, only there. -/
theorem idle_after_every_goal (es : List Event) :
    (Always step IdleWithoutGoal Server.initial es ↔
      EachStep step (fun s e _ => ClearedAtThrow s e) Server.initial es) ∧
    (EachStep step (fun _ e _ => e.throws = false) Server.initial es →
      Always step IdleWithoutGoal Server.initial es) ∧
    (EachStep step (fun s e _ => NoRequestInWindow s e) Server.initial es →
      Always step IdleWithoutGoal Server.initial es →
      EachStep step (fun _ e _ => e.throws = false) Server.initial es) := by
  have hiff : Always step IdleWithoutGoal Server.initial es ↔
      EachStep step (fun s e _ => ClearedAtThrow s e) Server.initial es :=
    always_iff_eachStep (I := Kept) es kept_initial (fun _ hi => hi.idle)
      (fun _ _ _ hi hs hc => kept_step hi hs hc) fun _ _ _ hi hs hc hidle =>
        hc (cleared_of_idleWithoutGoal hi.tidy hi.running hs hidle)
  refine ⟨hiff, fun hno => hiff.mpr (hno.mono fun _ _ _ h => clearedAtThrow_of_no_throw h),
    fun hw hidle => ?_⟩
  have hexclusive : Always step Exclusive Server.initial es :=
    hw.always exclusive_initial fun _ _ _ hi hs hg => exclusive_step hi hs hg
  exact hexclusive.eachStep (hiff.mp hidle) fun _ _ _ hi hs hc =>
    (cleared_iff_no_throw hi hs).mp hc

/-- A goal that succeeds, one that fails and one that is cancelled, one after another; then three
    requested before the first tree is created: that one cannot be created, the others succeed. -/
theorem idle_after_every_goal_sequence :
    let request : Event := .goalRequest (bytes "MainTree") []
    let begun : List Event := [.execution (.createTree (.leaf 1 (bytes "CheckParam"))),
      .execution .onTreeCreated]
    let done : List Event := [.execution .onTreeExecutionCompleted]
    let ticked (status : NodeStatus) : List Event :=
      [.execution .tick, .execution (.tickReturns status), .execution .onLoopAfterTick]
    Always step IdleWithoutGoal Server.initial
      (request :: begun ++ ticked .running ++ ticked .success ++ done ++
        (request :: begun ++ ticked .failure ++ done) ++
        (request :: begun ++ [.execution .cancel] ++ done) ++
        ([request, request, request, .execution .createTreeThrows] ++
          begun ++ ticked .success ++ done ++ begun ++ ticked .success ++ done)) :=
  (idle_after_every_goal _).1.mpr (by decide)

/-- `createTree` throws for an unknown tree: the context stays.  `CheckParam` throws during a
    tick: every later request is rejected. -/
theorem not_idle_after_throw :
    let request : Event := .goalRequest (bytes "Unknown") []
    let tickThrows : List Event := [request,
      .execution (.createTree (.leaf 1 (bytes "CheckParam"))), .execution .onTreeCreated,
      .execution .tick, .execution .tickThrows]
    ¬ Always step IdleWithoutGoal Server.initial [request, .execution .createTreeThrows] ∧
      (run step Server.initial (tickThrows ++ [request])).map (fun s => s.goals.length) = some 0 ∧
      ¬ Always step IdleWithoutGoal Server.initial tickThrows := by
  intro request tickThrows
  refine ⟨not_always rfl fun h => ?_, by decide, not_always rfl fun h => ?_⟩
  · exact absurd (h rfl).2.1 (by decide)
  · exact absurd (h rfl).1 (by decide)

end TreeExecutionServer

end DrtBehavior
