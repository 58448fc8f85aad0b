import DrtBehavior.Base.Refinement
import DrtBehavior.Executor.Idle

/-!
# One goal in the slot

What the tree executor is for, and that it is that.

* `Slot` — a server with one slot: it grants a request when the slot is free, starts the granted
  goal, ticks it until its outcome is settled and finishes it with that outcome.
* `label` — what a step of the executor and its server shows of this.
* `executor_refines_slot` — orderly runs of the executor show exactly the runs of the slot.
* `goals_served_in_order` — every accepted goal is started, settled and finished once, in the
  order of acceptance, and finished with the outcome it was settled with.
* `goal_can_be_finished` — an orderly run is never stuck with a goal.
-/

set_option autoImplicit false

namespace DrtBehavior

namespace TreeExecutionServer

open EventMachine DRTBehaviorBtcppExecutor

/-! ## The slot -/

/-- How far the goal in the slot is. -/
inductive Stage where
  | waiting
  | executing
  | settled (status : NodeStatus) (wasCancelled : Bool)
  deriving DecidableEq

/-- The goals granted so far are numbered from 0; the goal in the slot is the last of them. -/
structure Slot where
  granted : Nat
  goal : Option Stage
  deriving DecidableEq

inductive Service where
  | request (granted : Bool)
  | start
  | tick (goal : Option Nat) (status : NodeStatus)
  | cancel
  | finish (status : NodeStatus) (wasCancelled : Bool)
  deriving DecidableEq

/-- A failure ends the goal as a cancelled one. -/
def Stage.afterTick : NodeStatus → Stage
  | .running => .executing
  | .failure => .settled .failure true
  | status => .settled status false

def Slot.free : Slot := ⟨0, none⟩

def Slot.step (t : Slot) : Service → Option Slot
  | .request true => if t.goal = none then some ⟨t.granted + 1, some .waiting⟩ else none
  | .request false => if t.goal = none ∨ t.goal = some .waiting then none else some t
  | .start => if t.goal = some .waiting then some { t with goal := some .executing } else none
  -- the behaviours of the goal in the slot see its own context
  | .tick goal status =>
    if t.goal = some .executing ∧ goal.map (· + 1) = some t.granted then
      some { t with goal := some (Stage.afterTick status) }
    else none
  | .cancel =>
    if t.goal = some .executing then some { t with goal := some (.settled .running true) }
    else none
  | .finish status wasCancelled =>
    if t.goal = some (.settled status wasCancelled) then some { t with goal := none } else none

/-! ## What a step of the executor shows -/

def Phase.stage : Phase → Stage
  | .accepted => .waiting
  | .built _ => .waiting
  | .looping => .executing
  | .ticking => .executing
  | .ticked status => Stage.afterTick status
  | .finishing status wasCancelled => .settled status wasCancelled

/-- What an action in a phase shows; `context` is what the blackboard entry leads to. -/
def actionLabel (context : Option Nat) : Phase → Action → List Service
  | .built _, .onTreeCreated => [.start]
  | .looping, .cancel => [.cancel]
  | .ticking, .tickReturns status => [.tick context status]
  | .finishing status wasCancelled, .onTreeExecutionCompleted => [.finish status wasCancelled]
  | _, _ => []

def label (s : Server) : Event → List Service
  | .goalRequest treeName payload => [.request (onGoalReceived treeName payload s.x).1]
  | .execution a => s.goals.head?.elim [] fun g => actionLabel s.x.drtContext g.phase a

theorem stage_eq_waiting_iff (p : Phase) : p.stage = .waiting ↔ p.created = false := by
  cases p with
  | ticked status => cases status <;> simp [Phase.stage, Phase.created, Stage.afterTick]
  | _ => simp [Phase.stage, Phase.created]

/-- The server and its slot. -/
structure Serves (s : Server) (t : Slot) : Prop where
  exclusive : Exclusive s
  tidy : s.x.Tidy
  idle : IdleWithoutGoal s
  granted : s.x.contexts.length = t.granted
  goal : s.goals.map (·.phase.stage) = t.goal.toList
  newest : ∀ g ∈ s.goals, g.context + 1 = t.granted

theorem serves_initial : Serves Server.initial Slot.free :=
  ⟨exclusive_initial, tidy_main, fun _ => tidy_main.idle_iff.mpr ⟨rfl, rfl⟩, rfl, rfl,
    fun _ hg => by cases hg⟩

theorem Serves.nil {s : Server} {t : Slot} (h : Serves s t) (hg : s.goals = []) :
    t.goal = none := by
  have hgoal := h.goal
  rw [hg] at hgoal
  cases ht : t.goal with
  | none => rfl
  | some stage => rw [ht] at hgoal; cases hgoal

theorem Serves.cons {s : Server} {t : Slot} (h : Serves s t) {g : Goal} {waiting : List Goal}
    (hg : s.goals = g :: waiting) : waiting = [] ∧ t.goal = some g.phase.stage := by
  have hgoal := h.goal
  rw [hg] at hgoal
  cases ht : t.goal with
  | none => rw [ht] at hgoal; cases hgoal
  | some stage =>
    rw [ht] at hgoal
    obtain ⟨hstage, hnil⟩ := List.cons.inj hgoal
    exact ⟨List.map_eq_nil_iff.mp hnil, congrArg some hstage.symm⟩

/-- A phase that reads the goal's stage determines which goal is in the slot. -/
theorem Serves.goals_eq {s : Server} {t : Slot} (h : Serves s t) {stage : Stage}
    (ht : t.goal = some stage) : ∃ g, s.goals = [g] ∧ g.phase.stage = stage := by
  cases hg : s.goals with
  | nil => rw [h.nil hg] at ht; cases ht
  | cons g waiting =>
    obtain ⟨rfl, hstage⟩ := h.cons hg
    exact ⟨g, rfl, Option.some.inj (hstage.symm.trans ht)⟩

theorem Serves.goals_eq_nil {s : Server} {t : Slot} (h : Serves s t) (ht : t.goal = none) :
    s.goals = [] := by
  cases hg : s.goals with
  | nil => rfl
  | cons g waiting => rw [(h.cons hg).2] at ht; cases ht

theorem Serves.running {s : Server} {t : Slot} (h : Serves s t) :
    s.x.running = false ↔ t.goal = none ∨ t.goal = some .waiting := by
  cases hg : s.goals with
  | nil => simp [h.nil hg, (h.idle hg).1]
  | cons g waiting =>
    rw [(h.exclusive.head hg).2.1, (h.cons hg).2, ← stage_eq_waiting_iff]
    simp

/-- No action creates a context. -/
theorem execute_contexts_length {x x' : DRTBehaviorBtcppExecutor} {p : Phase} {a : Action}
    {p' : Option Phase} (h : execute x p a = some (x', p')) :
    x'.contexts.length = x.contexts.length := by
  rcases execute_cases h with ⟨_, rfl, _⟩ | ⟨_, _, rfl, _⟩ | ⟨rfl, _⟩ | ⟨status, c, _, _, _, rfl⟩
  · rfl
  · rfl
  · rfl
  · unfold onTreeExecutionCompleted
    split
    · exact (released_release _ _).length.trans List.length_set
    · rfl

/-- An action moves the goal's stage as its label says. -/
theorem execute_stage {x x' : DRTBehaviorBtcppExecutor} {p : Phase} {a : Action}
    {p' : Option Phase} (h : execute x p a = some (x', p'))
    (ha : (Event.execution a).throws = false) {n : Nat} {context : Option Nat}
    (hc : context.map (· + 1) = some n) :
    run Slot.step ⟨n, some p.stage⟩ (actionLabel context p a) =
      some ⟨n, p'.map Phase.stage⟩ := by
  unfold execute at h
  split at h
  · cases h; rfl
  · cases ha
  · cases h; rfl
  · cases h; rfl
  · cases h; rfl
  · cases h
    simp [actionLabel, run_cons, Slot.step, Phase.stage, hc]
  · cases ha
  · rename_i status
    cases status <;> cases h <;> rfl
  · cases h
    simp [actionLabel, run_cons, Slot.step, Phase.stage]
  · cases h

theorem serves_matched (s : Server) (e : Event) (s' : Server) (t : Slot) (h : Serves s t)
    (hs : step s e = some s') (ho : Orderly s e) :
    ∃ t', run Slot.step t (label s e) = some t' ∧ Serves s' t' := by
  have hexclusive := exclusive_step h.exclusive hs ho.1
  have htidy := tidy_step h.tidy hs
  have hidle := idleWithoutGoal_step h.tidy h.idle hs (clearedAtThrow_of_no_throw ho.2)
  rcases step_cases hs with ⟨treeName, payload, rfl, hr, rfl⟩ | ⟨treeName, payload, rfl, hr, rfl⟩ |
    ⟨a, g, waiting, x, p', rfl, hg, hx, rfl⟩
  · refine ⟨t, ?_, h⟩
    have hbusy : ¬ (t.goal = none ∨ t.goal = some .waiting) := fun hw => by
      rw [← h.running, hr] at hw
      cases hw
    simp [label, onGoalReceived_fst, hr, run_cons, Slot.step, hbusy]
  · have hnil := goals_eq_nil_of_accepted h.exclusive hr ho.1
    refine ⟨⟨t.granted + 1, some .waiting⟩, ?_, hexclusive, htidy, hidle, ?_, ?_, ?_⟩
    · simp [label, onGoalReceived_fst, hr, run_cons, Slot.step, h.nil hnil]
    · show (createContext s.x).contexts.length = _
      rw [createContext_length, h.granted]
    · rw [hnil]
      rfl
    · intro g hg
      rw [hnil] at hg
      obtain rfl := List.mem_singleton.mp hg
      rw [← h.granted]
  · obtain ⟨rfl, hgoal⟩ := h.cons hg
    obtain ⟨-, -, howned⟩ := h.exclusive.head hg
    have hnewest := h.newest g (by rw [hg]; exact List.mem_cons_self)
    have hcontext : s.x.drtContext.map (· + 1) = some t.granted := by
      rw [howned.2.1, Option.map_some, hnewest]
    refine ⟨⟨t.granted, p'.map Phase.stage⟩, ?_, hexclusive, htidy, hidle, ?_, ?_, ?_⟩
    · have ht : t = ⟨t.granted, some g.phase.stage⟩ := by rw [← hgoal]
      rw [label, hg, List.head?_cons, Option.elim_some, ht]
      exact execute_stage hx ho.2 hcontext
    · exact (execute_contexts_length hx).trans h.granted
    · cases p' <;> rfl
    · intro g' hg'
      cases p' with
      | none => cases hg'
      | some p =>
        obtain rfl := List.mem_singleton.mp hg'
        exact hnewest

theorem slot_simulation :
    Refinement.Simulation step Slot.step label (fun s e _ => Orderly s e) Serves :=
  ⟨serves_matched⟩

/-! ## Every run of the slot is shown -/

/-- The execution is not in the middle of a turn of its loop. -/
def Phase.Rested : Phase → Prop
  | .accepted => True
  | .looping => True
  | .finishing _ _ => True
  | _ => False

/-- The server and its slot, between two turns. -/
def ServesRested (s : Server) (t : Slot) : Prop := Serves s t ∧ ∀ g ∈ s.goals, g.phase.Rested

theorem orderly_actions (s : Server) {actions : List Action}
    (ha : ∀ a ∈ actions, (Event.execution a).throws = false) :
    EachStep step (fun s e _ => Orderly s e) s (actions.map .execution) := by
  refine EachStep.mono (eachStep_of_forall_mem (G := fun e => ∃ a ∈ actions, e = .execution a) s
    fun e he => ?_) fun s₁ e s₂ he => ?_
  · obtain ⟨a, ha', rfl⟩ := List.mem_map.mp he
    exact ⟨a, ha', rfl⟩
  · obtain ⟨a, ha', rfl⟩ := he
    exact ⟨trivial, ha a ha'⟩

/-- Actions of the goal in the slot that show one event of the slot. -/
theorem realised_by_actions {s s' : Server} {t t' : Slot} {d : Service} (h : Serves s t)
    (ht : Slot.step t d = some t') (actions : List Action)
    (hthrow : ∀ a ∈ actions, (Event.execution a).throws = false)
    (hr : run step s (actions.map .execution) = some s')
    (htrace : Refinement.trace step label s (actions.map .execution) = [d])
    (hrest : ∀ g ∈ s'.goals, g.phase.Rested) :
    ∃ es s', run step s es = some s' ∧ EachStep step (fun s e _ => Orderly s e) s es ∧
      Refinement.trace step label s es = [d] ∧ ServesRested s' t' :=
  ⟨_, s', hr, orderly_actions s hthrow, htrace,
    slot_simulation.of_trace (orderly_actions s hthrow) h hr htrace ht, hrest⟩

/-- A request the executor answers as the slot does. -/
theorem realised_by_request {s s' : Server} {t t' : Slot} {granted : Bool} (h : Serves s t)
    (ht : Slot.step t (.request granted) = some t') (hanswer : s.x.running = !granted)
    (hs : step s (.goalRequest [] []) = some s')
    (hw : ∀ g ∈ s.goals, g.phase.created = true) (hrest : ∀ g ∈ s'.goals, g.phase.Rested) :
    ∃ es s', run step s es = some s' ∧ EachStep step (fun s e _ => Orderly s e) s es ∧
      Refinement.trace step label s es = [.request granted] ∧ ServesRested s' t' := by
  have hr : run step s [.goalRequest [] []] = some s' := run_cons_of_step hs []
  have ho : EachStep step (fun s e _ => Orderly s e) s [.goalRequest [] []] :=
    (eachStep_cons _ _ _).mpr fun s₁ _ => ⟨⟨hw, rfl⟩, eachStep_nil s₁⟩
  have htrace : Refinement.trace step label s [.goalRequest [] []] = [.request granted] := by
    rw [Refinement.trace_cons_of_step hs, label, onGoalReceived_fst, hanswer, Bool.not_not]
    rfl
  exact ⟨_, s', hr, ho, htrace, slot_simulation.of_trace ho h hr htrace ht, hrest⟩

/-- A turn of the loop around a tick with this status. -/
theorem turn_of_loop (x : DRTBehaviorBtcppExecutor) (n : Nat) (status : NodeStatus) :
    let turn := [Action.tick, .tickReturns status, .onLoopAfterTick].map Event.execution
    ∃ p, run step ⟨x, [⟨n, .looping⟩]⟩ turn = some ⟨x, [⟨n, p⟩]⟩ ∧
      Refinement.trace step label ⟨x, [⟨n, .looping⟩]⟩ turn = [.tick x.drtContext status] ∧
      p.Rested := by
  intro turn
  cases status <;> exact ⟨_, rfl, rfl, trivial⟩

/-- What an event of the slot requires. -/
theorem slot_step_cases {t t' : Slot} {d : Service} (h : Slot.step t d = some t') :
    (d = .request true ∧ t.goal = none) ∨
    (∃ stage, d = .request false ∧ t.goal = some stage ∧ stage ≠ .waiting) ∨
    (d = .start ∧ t.goal = some .waiting) ∨
    (∃ n status, d = .tick (some n) status ∧ t.goal = some .executing ∧ n + 1 = t.granted) ∨
    (d = .cancel ∧ t.goal = some .executing) ∨
    (∃ status c, d = .finish status c ∧ t.goal = some (.settled status c)) := by
  cases d with
  | request granted =>
    cases granted with
    | true =>
      simp only [Slot.step, Option.ite_none_right_eq_some] at h
      exact .inl ⟨rfl, h.1⟩
    | false =>
      simp only [Slot.step, Option.ite_none_left_eq_some, not_or] at h
      obtain ⟨stage, hstage⟩ := Option.ne_none_iff_exists'.mp h.1.1
      exact .inr (.inl ⟨stage, rfl, hstage, fun heq => h.1.2 (heq ▸ hstage)⟩)
  | start =>
    simp only [Slot.step, Option.ite_none_right_eq_some] at h
    exact .inr (.inr (.inl ⟨rfl, h.1⟩))
  | tick goal status =>
    simp only [Slot.step, Option.ite_none_right_eq_some] at h
    obtain ⟨n, rfl, hn⟩ := Option.map_eq_some_iff.mp h.1.2
    exact .inr (.inr (.inr (.inl ⟨n, status, rfl, h.1.1, hn⟩)))
  | cancel =>
    simp only [Slot.step, Option.ite_none_right_eq_some] at h
    exact .inr (.inr (.inr (.inr (.inl ⟨rfl, h.1⟩))))
  | finish status c =>
    simp only [Slot.step, Option.ite_none_right_eq_some] at h
    exact .inr (.inr (.inr (.inr (.inr ⟨status, c, rfl, h.1⟩))))

theorem slot_realised (s : Server) (t : Slot) (d : Service) (t' : Slot) (h : ServesRested s t)
    (ht : Slot.step t d = some t') :
    ∃ es s', run step s es = some s' ∧ EachStep step (fun s e _ => Orderly s e) s es ∧
      Refinement.trace step label s es = [d] ∧ ServesRested s' t' := by
  obtain ⟨h, hrest⟩ := h
  obtain ⟨x, goals⟩ := s
  rcases slot_step_cases ht with ⟨rfl, hgoal⟩ | ⟨stage, rfl, hgoal, hne⟩ | ⟨rfl, hgoal⟩ |
    ⟨n, status, rfl, hgoal, hn⟩ | ⟨rfl, hgoal⟩ | ⟨status, c, rfl, hgoal⟩
  · have hidle : x.running = false := h.running.mpr (.inl hgoal)
    obtain rfl : goals = [] := h.goals_eq_nil hgoal
    have hs : step ⟨x, []⟩ (.goalRequest [] []) =
        some ⟨createContext x, [⟨x.contexts.length, .accepted⟩]⟩ := by
      simp [step, onGoalReceived, hidle]
    refine realised_by_request h ht hidle hs (fun _ hg => by cases hg) fun g hg => ?_
    · obtain rfl := List.mem_singleton.mp hg
      trivial
  · have hbusy : x.running = true := by
      refine eq_true_of_ne_false fun hr => ?_
      rcases h.running.mp hr with hnone | hwaiting
      · rw [hnone] at hgoal
        cases hgoal
      · exact hne (Option.some.inj (hgoal.symm.trans hwaiting))
    have hs : step ⟨x, goals⟩ (.goalRequest [] []) = some ⟨x, goals⟩ := by
      simp [step, onGoalReceived, hbusy]
    refine realised_by_request h ht hbusy hs (fun g hg => ?_) hrest
    rw [← (h.exclusive.2 g hg).1, hbusy]
  all_goals
    obtain ⟨⟨m, phase⟩, rfl, hstage⟩ := h.goals_eq hgoal
    have hphase := hrest _ List.mem_cons_self
    cases phase <;> cases hphase <;> cases hstage
  · exact realised_by_actions h ht [.createTree (.leaf 1 []), .onTreeCreated] (by decide) rfl rfl
      fun g hg => by obtain rfl := List.mem_singleton.mp hg; trivial
  · have hcontext : x.drtContext = some n := by
      obtain ⟨-, -, -, hboard, -⟩ := h.exclusive.head rfl
      have hnewest : m + 1 = t.granted := h.newest _ List.mem_cons_self
      rw [hboard, Option.some.injEq]
      show m = n
      omega
    obtain ⟨p, hrun, htrace, hrested⟩ := turn_of_loop x m status
    refine realised_by_actions h ht _ ?_ hrun (hcontext ▸ htrace) fun g hg => ?_
    · simp [Event.throws]
    · obtain rfl := List.mem_singleton.mp hg
      exact hrested
  · exact realised_by_actions h ht [.cancel] (by decide) rfl rfl
      fun g hg => by obtain rfl := List.mem_singleton.mp hg; trivial
  · exact realised_by_actions h ht [.onTreeExecutionCompleted] (by decide) rfl rfl
      fun g hg => by cases hg

theorem slot_realisation :
    Refinement.Realisation step Slot.step label (fun s e _ => Orderly s e) ServesRested :=
  ⟨slot_realised⟩

/-- **The executor is a single slot.**  The runs of the slot are exactly what the orderly runs of
    the executor show. -/
theorem executor_refines_slot (ds : List Service) :
    (∃ t, run Slot.step Slot.free ds = some t) ↔
      ∃ es s, run step Server.initial es = some s ∧
        EachStep step (fun s e _ => Orderly s e) Server.initial es ∧
        Refinement.trace step label Server.initial es = ds :=
  Refinement.refines_iff slot_simulation slot_realisation serves_initial
    ⟨serves_initial, fun _ hg => by cases hg⟩ ds

/-! ## The service of one goal after another -/

/-- How the loop of a goal is left: by a cancel request or with the status of its last tick. -/
inductive Ending where
  | cancelled
  | ticked (status : NodeStatus) (hended : status ≠ .running)

def Ending.shown (n : Nat) : Ending → Service
  | .cancelled => .cancel
  | .ticked status _ => .tick (some n) status

/-- What the goal is finished with. -/
def Ending.result : Ending → NodeStatus × Bool
  | .cancelled => (.running, true)
  | .ticked status _ => (status, decide (status = .failure))

/-- The service of one goal from its request to its end. -/
structure Session where
  turns : Nat
  ending : Ending

/-- Goal `n` up to some tick that leaves it running. -/
def loopShown (n turns : Nat) : List Service :=
  [.request true, .start] ++ List.replicate turns (.tick (some n) .running)

def Session.shown (n : Nat) (x : Session) : List Service :=
  loopShown n x.turns ++ [x.ending.shown n, .finish x.ending.result.1 x.ending.result.2]

/-- The sessions one after another, for the goals 0, 1, 2, … -/
def sessionsShown (sessions : List Session) : List Service :=
  (sessions.zipIdx.map fun p => p.1.shown p.2).flatten

/-- What has been shown of the goal `n` in the slot. -/
def Underway (n : Nat) : Option Stage → List Service → Prop
  | none, l => l = []
  | some .waiting, l => l = [.request true]
  | some .executing, l => ∃ turns, l = loopShown n turns
  | some (.settled status c), l =>
    ∃ turns, ∃ ending : Ending, l = loopShown n turns ++ [ending.shown n] ∧
      ending.result = (status, c)

theorem sessionsShown_concat (sessions : List Session) (x : Session) :
    sessionsShown (sessions ++ [x]) = sessionsShown sessions ++ x.shown sessions.length := by
  simp [sessionsShown, List.zipIdx_append]

theorem afterTick_of_ne {status : NodeStatus} (h : status ≠ .running) :
    Stage.afterTick status = .settled status (decide (status = .failure)) := by
  cases status with
  | running => exact absurd rfl h
  | _ => rfl

/-- What the slot has shown, apart from the requests it has refused. -/
def Ledger (t : Slot) (l : List Service) : Prop :=
  ∃ sessions current, l = sessionsShown sessions ++ current ∧
    Underway sessions.length t.goal current ∧
    t.granted = sessions.length + t.goal.toList.length

/-- One event of the slot extends the ledger. -/
theorem ledger_step {t t' : Slot} {d : Service} {l : List Service} (h : Ledger t l)
    (ht : Slot.step t d = some t') : Ledger t' (l ++ [d].filter (· ≠ .request false)) := by
  obtain ⟨sessions, current, rfl, hcurrent, hgranted⟩ := h
  obtain ⟨granted, goal⟩ := t
  simp only at hcurrent hgranted
  rcases slot_step_cases ht with ⟨rfl, rfl⟩ | ⟨stage, rfl, rfl, hne⟩ | ⟨rfl, rfl⟩ |
    ⟨n, status, rfl, rfl, hn⟩ | ⟨rfl, rfl⟩ | ⟨status, c, rfl, rfl⟩
  · cases ht
    obtain rfl : current = [] := hcurrent
    exact ⟨sessions, [.request true], by simp, rfl, by simp [hgranted]⟩
  · obtain rfl : (⟨granted, some stage⟩ : Slot) = t' := by simpa [Slot.step, hne] using ht
    exact ⟨sessions, current, by simp, hcurrent, hgranted⟩
  · cases ht
    obtain rfl : current = [.request true] := hcurrent
    exact ⟨sessions, loopShown sessions.length 0, by simp [loopShown], ⟨0, rfl⟩, hgranted⟩
  · obtain rfl : (⟨granted, some (Stage.afterTick status)⟩ : Slot) = t' := by
      simpa [Slot.step, hn] using ht
    obtain ⟨turns, rfl⟩ := hcurrent
    obtain rfl : n = sessions.length := by
      simp only [Option.toList_some, List.length_singleton] at hgranted hn
      omega
    by_cases hr : status = .running
    · subst hr
      refine ⟨sessions, loopShown sessions.length (turns + 1), ?_, ⟨_, rfl⟩, hgranted⟩
      simp [loopShown, List.replicate_succ']
    · refine ⟨sessions, loopShown sessions.length turns ++ [.tick (some sessions.length) status],
        by simp, ?_, hgranted⟩
      rw [afterTick_of_ne hr]
      exact ⟨turns, .ticked status hr, rfl, rfl⟩
  · cases ht
    obtain ⟨turns, rfl⟩ := hcurrent
    exact ⟨sessions, loopShown sessions.length turns ++ [.cancel], by simp,
      ⟨turns, .cancelled, rfl, rfl⟩, hgranted⟩
  · obtain rfl : (⟨granted, none⟩ : Slot) = t' := by simpa [Slot.step] using ht
    obtain ⟨turns, ending, rfl, hresult⟩ := hcurrent
    refine ⟨sessions ++ [⟨turns, ending⟩], [], ?_, rfl, ?_⟩
    · simp [sessionsShown_concat, Session.shown, hresult]
    · simpa using hgranted

theorem ledger_run {t t' : Slot} {ds l : List Service} (h : Ledger t l)
    (hr : run Slot.step t ds = some t') : Ledger t' (l ++ ds.filter (· ≠ .request false)) := by
  induction ds generalizing t l with
  | nil =>
    cases hr
    simpa using h
  | cons d ds ih =>
    obtain ⟨t₁, ht, hr'⟩ := Option.bind_eq_some_iff.mp hr
    have hnext := ih (ledger_step h ht) hr'
    rwa [List.append_assoc, ← List.filter_append] at hnext

/-- **Every accepted goal is served once, in order.**  What an orderly run shows, apart from the
    refused requests, is one whole session after another for the goals 0, 1, 2, …, and what has
    happened so far to the goal that is outstanding. -/
theorem goals_served_in_order (es : List Event) (s : Server)
    (ho : EachStep step (fun s e _ => Orderly s e) Server.initial es)
    (hr : run step Server.initial es = some s) :
    ∃ sessions current,
      (Refinement.trace step label Server.initial es).filter (· ≠ .request false) =
        sessionsShown sessions ++ current ∧
      Underway sessions.length (s.goals.head?.map (·.phase.stage)) current ∧
      s.x.contexts.length = sessions.length + s.goals.length := by
  obtain ⟨t, ht, hserves⟩ := slot_simulation.run ho serves_initial hr
  have hfree : Ledger Slot.free [] := ⟨[], [], rfl, rfl, rfl⟩
  obtain ⟨sessions, current, hl, hcurrent, hgranted⟩ := ledger_run hfree ht
  have hgoal : s.goals.head?.map (·.phase.stage) = t.goal := by
    rw [← List.head?_map, hserves.goal]
    cases t.goal <;> rfl
  have hlength : s.goals.length = t.goal.toList.length := by
    rw [← hserves.goal, List.length_map]
  exact ⟨sessions, current, by simpa using hl, hgoal ▸ hcurrent, by
    rw [hserves.granted, hgranted, hlength]⟩

/-- Two goals, the first with a refused request during its first tick; the second is cancelled. -/
theorem goals_served_in_order_two_goals :
    let request : Event := .goalRequest (bytes "MainTree") []
    let begun : List Event := [request, .execution (.createTree (.leaf 1 (bytes "CheckParam"))),
      .execution .onTreeCreated]
    let es := begun ++ [.execution .tick, request, .execution (.tickReturns .running),
      .execution .onLoopAfterTick, .execution .tick, .execution (.tickReturns .success),
      .execution .onLoopAfterTick, .execution .onTreeExecutionCompleted] ++
      begun ++ [.execution .cancel]
    ∃ sessions current,
      (Refinement.trace step label Server.initial es).filter (· ≠ .request false) =
        sessionsShown sessions ++ current ∧
      Underway sessions.length (some (.settled .running true)) current ∧
      2 = sessions.length + 1 := by
  intro request begun es
  exact goals_served_in_order es _ (by decide) rfl

/-! ## No goal is stuck -/

/-- What is left for the execution thread to do, when the next tick succeeds. -/
def Phase.remaining : Phase → List Action
  | .accepted => [.createTree (.leaf 1 []), .onTreeCreated, .tick, .tickReturns .success,
      .onLoopAfterTick, .onTreeExecutionCompleted]
  | .built _ => [.onTreeCreated, .tick, .tickReturns .success, .onLoopAfterTick,
      .onTreeExecutionCompleted]
  | .looping => [.tick, .tickReturns .success, .onLoopAfterTick, .onTreeExecutionCompleted]
  | .ticking => [.tickReturns .success, .onLoopAfterTick, .onTreeExecutionCompleted]
  | .ticked .running => [.onLoopAfterTick, .tick, .tickReturns .success, .onLoopAfterTick,
      .onTreeExecutionCompleted]
  | .ticked _ => [.onLoopAfterTick, .onTreeExecutionCompleted]
  | .finishing _ _ => [.onTreeExecutionCompleted]

theorem run_remaining (x : DRTBehaviorBtcppExecutor) (g : Goal) :
    ∃ x', run step ⟨x, [g]⟩ (g.phase.remaining.map .execution) = some ⟨x', []⟩ := by
  obtain ⟨n, phase⟩ := g
  cases phase with
  | ticked status => cases status <;> exact ⟨_, rfl⟩
  | _ => exact ⟨_, rfl⟩

theorem remaining_no_throw (p : Phase) :
    ∀ a ∈ p.remaining, (Event.execution a).throws = false := by
  cases p with
  | ticked status => cases status <;> simp [Phase.remaining, Event.throws]
  | _ => simp [Phase.remaining, Event.throws]

/-- **No goal is stuck.**  Wherever an orderly run has got to, at most six actions of the execution
    thread alone bring the executor back to idle. -/
theorem goal_can_be_finished (es : List Event) (s : Server)
    (ho : EachStep step (fun s e _ => Orderly s e) Server.initial es)
    (hr : run step Server.initial es = some s) :
    ∃ (actions : List Action) (s' : Server), actions.length ≤ 6 ∧
      run step s (actions.map .execution) = some s' ∧
      EachStep step (fun s e _ => Orderly s e) s (actions.map .execution) ∧
      s'.goals = [] ∧ s'.x.Idle := by
  obtain ⟨t, -, hserves⟩ := slot_simulation.run ho serves_initial hr
  obtain ⟨x, goals⟩ := s
  have hfinish : ∃ (actions : List Action) (x' : DRTBehaviorBtcppExecutor), actions.length ≤ 6 ∧
      run step ⟨x, goals⟩ (actions.map .execution) = some ⟨x', []⟩ ∧
      ∀ a ∈ actions, (Event.execution a).throws = false := by
    cases goals with
    | nil => exact ⟨[], x, Nat.zero_le 6, rfl, fun _ ha => by cases ha⟩
    | cons g waiting =>
      obtain ⟨rfl, -⟩ := hserves.cons rfl
      obtain ⟨x', hx'⟩ := run_remaining x g
      refine ⟨_, x', ?_, hx', remaining_no_throw g.phase⟩
      cases g.phase with
      | ticked status => cases status <;> simp [Phase.remaining]
      | _ => simp [Phase.remaining]
  obtain ⟨actions, x', hlen, hrun, hthrow⟩ := hfinish
  have horderly := orderly_actions ⟨x, goals⟩ hthrow
  obtain ⟨t', -, hserves'⟩ := slot_simulation.run horderly hserves hrun
  exact ⟨actions, _, hlen, hrun, horderly, rfl, hserves'.idle rfl⟩

/-- From the middle of a tick. -/
theorem goal_can_be_finished_ticking :
    let es : List Event := [.goalRequest (bytes "MainTree") [],
      .execution (.createTree (.leaf 1 (bytes "CheckParam"))), .execution .onTreeCreated,
      .execution .tick]
    ∃ s, run step Server.initial es = some s ∧
      ∃ (actions : List Action) (s' : Server), actions.length ≤ 6 ∧
        run step s (actions.map .execution) = some s' ∧
        EachStep step (fun s e _ => Orderly s e) s (actions.map .execution) ∧
        s'.goals = [] ∧ s'.x.Idle := by
  intro es
  exact ⟨_, rfl, goal_can_be_finished es _ (by decide) rfl⟩

end TreeExecutionServer

end DrtBehavior
