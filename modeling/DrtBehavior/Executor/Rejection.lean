import DrtBehavior.Executor.Server

/-!
# Rejected goal requests

While a tree executes, from its `onTreeCreated` to its `onTreeExecutionCompleted`, further goal
requests are rejected and leave no trace.

* `Executing` — `onTreeCreated` has run for the goal at the head of the accepted ones.
* `RunningWhileExecuting` — then `running_` is true, whatever goals were accepted before.
* `Undisturbed` — what a run keeps when requests are inserted or deleted.
* `requests_leave_no_trace` — it is undisturbed by requests made while a tree executes.
-/

set_option autoImplicit false

namespace DrtBehavior

namespace TreeExecutionServer

open EventMachine DRTBehaviorBtcppExecutor

/-- What a callback returns to its caller; `silent` for a step that is no callback or returns
    nothing. -/
inductive Result where
  | goalReceived (accepted : Bool)
  | loopAfterTick (stop : Option NodeStatus)
  | completed (message : Option StdString)
  | silent
  deriving DecidableEq, Repr

def result (s : Server) : Event → Result
  | .goalRequest treeName payload => .goalReceived (onGoalReceived treeName payload s.x).1
  | .execution a =>
    match s.goals.head?.map Goal.phase, a with
    | some (.ticked status), .onLoopAfterTick => .loopAfterTick (onLoopAfterTick status)
    | some (.finishing status wasCancelled), .onTreeExecutionCompleted =>
      .completed (onTreeExecutionCompleted status wasCancelled s.x).1
    | _, _ => .silent

/-- An execution is between its `onTreeCreated` and its `onTreeExecutionCompleted`. -/
def Executing (s : Server) : Prop := ∃ g ∈ s.goals.head?, g.phase.created = true

instance (s : Server) : Decidable (Executing s) :=
  match h : s.goals.head? with
  | none => isFalse fun ⟨g, hg, _⟩ => by rw [h] at hg; cases hg
  | some g =>
    decidable_of_iff (g.phase.created = true) <| by simp [Executing, h]

def Event.isRequest : Event → Bool
  | .goalRequest _ _ => true
  | .execution _ => false

def RequestWhileExecuting (s : Server) (e : Event) : Prop := e.isRequest = true ∧ Executing s

instance (s : Server) (e : Event) : Decidable (RequestWhileExecuting s e) :=
  inferInstanceAs (Decidable (_ ∧ _))

/-- The accepted goals behind the executing one have not started, and `running_` is true while a
    tree executes. -/
structure RunningWhileExecuting (s : Server) : Prop where
  waiting : ∀ g ∈ s.goals.tail, g.phase = .accepted
  running : Executing s → s.x.running = true

theorem runningWhileExecuting_initial : RunningWhileExecuting Server.initial where
  waiting _ h := by cases h
  running := fun ⟨_, h, _⟩ => by cases h

theorem not_executing_of_accepted {x : DRTBehaviorBtcppExecutor} {goals : List Goal}
    (h : ∀ g ∈ goals, g.phase = .accepted) : ¬ Executing ⟨x, goals⟩ := by
  rintro ⟨g, hg, hcreated⟩
  rw [h g (List.mem_of_mem_head? hg)] at hcreated
  cases hcreated

/-- What is left when the executing goal has ended. -/
theorem RunningWhileExecuting.pop {s : Server} (hi : RunningWhileExecuting s)
    (x : DRTBehaviorBtcppExecutor) : RunningWhileExecuting ⟨x, s.goals.tail⟩ where
  waiting g hg := hi.waiting g (List.mem_of_mem_tail hg)
  running h := absurd h (not_executing_of_accepted hi.waiting)

theorem runningWhileExecuting_step {s s' : Server} {e : Event} (hi : RunningWhileExecuting s)
    (hs : step s e = some s') : RunningWhileExecuting s' := by
  rcases step_cases hs with ⟨_, _, rfl, _, rfl⟩ | ⟨_, _, rfl, hr, rfl⟩ |
    ⟨a, g, waiting, x, p', rfl, hg, hx, rfl⟩
  · exact hi
  · cases hg : s.goals with
    | nil =>
      refine ⟨fun _ hg => (by cases hg), fun h => ?_⟩
      refine absurd h (not_executing_of_accepted fun g hg => ?_)
      rw [List.mem_singleton.mp hg]
    | cons g waiting =>
      have hw := hi.waiting
      rw [hg] at hw
      constructor
      · intro g' hg'
        rcases List.mem_append.mp hg' with hg' | hg'
        · exact hw g' hg'
        · rw [List.mem_singleton.mp hg']
      · -- the head is the same as before, where `running_` was false
        rintro ⟨g', hg', hcreated⟩
        have hold : Executing s := ⟨g', by rw [hg]; exact hg', hcreated⟩
        have hrun := hi.running hold
        rw [hr] at hrun
        cases hrun
  · have hpop := hi.pop x
    rw [hg, List.tail_cons] at hpop
    rcases execute_cases hx with ⟨q, rfl, rfl, hq⟩ | ⟨tree, _, rfl, rfl⟩ | ⟨_, rfl, _⟩ |
      ⟨_, _, _, _, rfl, _⟩
    · refine ⟨fun g' hg' => hi.waiting g' (by rw [hg]; exact hg'), ?_⟩
      rintro ⟨g', hg', hcreated⟩
      obtain rfl := Option.some.inj hg'
      exact hi.running ⟨g, by rw [hg]; rfl, hq ▸ hcreated⟩
    · exact ⟨fun g' hg' => hi.waiting g' (by rw [hg]; exact hg'), fun _ => rfl⟩
    · exact hpop
    · exact hpop

/-- **A request while a tree executes is rejected and changes nothing.** -/
theorem rejected_while_executing {s : Server} {e : Event} (hi : RunningWhileExecuting s)
    (he : RequestWhileExecuting s e) :
    result s e = .goalReceived false ∧ step s e = some s := by
  obtain ⟨hreq, hexec⟩ := he
  cases e with
  | execution a => cases hreq
  | goalRequest treeName payload =>
    have hrun := hi.running hexec
    exact ⟨by simp [result, onGoalReceived, hrun], by simp [step, onGoalReceived, hrun]⟩

/-- The run of all events of `m` and the run without the marked ones: the marked ones are
    rejected, the state of the executor is the same at every corresponding point, and every other
    step has the same result. -/
structure Undisturbed (m : List (Event × Bool)) : Prop where
  rejected : ∀ i (hi : i < m.length), (m[i]).2 = true →
    ∀ s ∈ run step Server.initial (whole (m.take i)), result s (m[i]).1 = .goalReceived false
  states : ∀ i,
    run step Server.initial (whole (m.take i)) = run step Server.initial (kept (m.take i))
  results : ∀ i (hi : i < m.length), (m[i]).2 = false →
    ∀ s ∈ run step Server.initial (whole (m.take i)),
      ∀ t ∈ run step Server.initial (kept (m.take i)), result s (m[i]).1 = result t (m[i]).1

/-- **Goal requests leave no trace on a running tree.**  For every run of the executor with any
    number of goal requests inserted or deleted, all of them between an `onTreeCreated` and the
    `onTreeExecutionCompleted` of that execution. -/
theorem requests_leave_no_trace (m : List (Event × Bool))
    (hm : MarkedIn step RequestWhileExecuting Server.initial m) : Undisturbed m := by
  have hinv : ∀ s e s', RunningWhileExecuting s → step s e = some s' → RunningWhileExecuting s' :=
    fun _ _ _ hi hs => runningWhileExecuting_step hi hs
  have hstates : ∀ i, run step Server.initial (whole (m.take i)) =
      run step Server.initial (kept (m.take i)) :=
    run_whole_eq_kept runningWhileExecuting_initial hinv
      (fun _ _ hi he => (rejected_while_executing hi he).2) hm
  refine ⟨?_, hstates, ?_⟩
  · intro i hi hmark s hs
    have hreach : RunningWhileExecuting s :=
      always_of_invariant _ runningWhileExecuting_initial hinv _ s (List.prefix_refl _) hs
    rcases hm ⟨i, hi⟩ hmark with h | h
    · exact (rejected_while_executing hreach (h s ((hstates i).symm.trans hs))).1
    · exact (rejected_while_executing hreach (h s hs)).1
  · intro i hi _ s hs t ht
    have hst : some s = some t := by
      rw [← Option.mem_def.mp hs, ← Option.mem_def.mp ht, hstates i]
    rw [Option.some.inj hst]

/-- Two requests are accepted before the first tree is created; then one request is inserted
    during a tick of the first tree and one while the second tree is looping. -/
theorem requests_leave_no_trace_two_trees :
    let request : Event := .goalRequest (bytes "MainTree") []
    let tree : TreeNode := .leaf 1 (bytes "CheckParam")
    let first : List Event := [request, request, .execution (.createTree tree),
      .execution .onTreeCreated, .execution .tick]
    let second : List Event := [.execution (.tickReturns .success), .execution .onLoopAfterTick,
      .execution .onTreeExecutionCompleted, .execution (.createTree tree),
      .execution .onTreeCreated]
    Undisturbed (first.map (·, false) ++ [(request, true)] ++ second.map (·, false) ++
      [(request, true), (.execution .tick, false)]) :=
  requests_leave_no_trace _ (by decide)

end TreeExecutionServer

end DrtBehavior
