import DrtBehavior.Base.Cells
import DrtBehavior.Base.EventMachine
import DrtBehavior.Platform

/-!
# Synchronized camera frames

`GetSyncedImagePointCloudDepth` of `color_tools_behavior`.  The tick thread starts an activation,
polls `sync_done_` and may give up; the thread of the message synchronizer runs `syncCallback`,
whose statements are steps of their own.

* `syncCallback` — its six statements; `Invocation` — one call of it, by a synchronizer, with the
  matched messages and the number of statements executed.
* `step` — both threads.  The synchronizer of the last activation stays connected until the next
  one replaces it; its invocations do not overlap; one in progress runs on after a timeout, a halt
  or a replacement.
* `Undisturbed` — while an activation is under way, nothing an earlier synchronizer or a second
  match does gets between the outputs and `sync_done_`.
* `synced_outputs` — SUCCESS then means four messages of one invocation of this activation.
-/

set_option autoImplicit false

namespace DrtBehavior

namespace SyncedFrames

open EventMachine

/-- The four synchronized output ports. -/
inductive Output where
  | pointCloud
  | rgbImage
  | rgbCameraInfo
  | depthImage
  deriving DecidableEq, Repr

inductive Statement where
  | setOutput (p : Output)
  | setSyncDone
  | unsubscribeTopics
  deriving DecidableEq, Repr

/-- The body of `syncCallback`. -/
def syncCallback : List Statement :=
  [.setOutput .pointCloud, .setOutput .rgbImage, .setOutput .rgbCameraInfo, .setOutput .depthImage,
    .setSyncDone, .unsubscribeTopics]

/-- The number of statements before the one that sets `p`. -/
def Output.index : Output → Nat
  | .pointCloud => 0
  | .rgbImage => 1
  | .rgbCameraInfo => 2
  | .depthImage => 3

structure Invocation (M : Type) where
  synchronizer : Nat
  messages : Output → M
  executed : Nat

/-- The status of the action node, `starting` inside `onStart`. -/
inductive Phase where
  | idle
  | starting
  | running
  deriving DecidableEq, Repr

/-- The node.  `synchronizer` counts the synchronizers created, the last of them being
    `synchronizer_`; an output holds the number of the invocation that has set it and the
    message. -/
structure State (M : Type) where
  phase : Phase
  syncDone : Bool
  subscribed : Bool
  synchronizer : Nat
  invocations : List (Invocation M)
  outputs : Output → Option (Nat × M)

variable {M : Type}

def State.initial : State M where
  phase := .idle
  syncDone := false
  subscribed := false
  synchronizer := 0
  invocations := []
  outputs := fun _ => none

inductive Event (M : Type) where
  | startResets
  | startFails
  | startSubscribes
  | onRunning (nodeAlive timedOut : Bool)
  | onHalted
  | invoke (messages : Output → M)
  | execute (i : Nat)

/-- `unsubscribeTopics`. -/
def unsubscribeTopics (s : State M) : State M := { s with subscribed := false }

/-- `onRunning`; `nodeAlive` is the outcome of `node_.lock()`. -/
def onRunning (nodeAlive timedOut : Bool) (s : State M) : NodeStatus × State M :=
  if s.syncDone then (.success, s)
  else if nodeAlive then
    if timedOut then (.failure, unsubscribeTopics s) else (.running, s)
  else (.failure, unsubscribeTopics s)

/-- The effect of a statement of invocation `i`. -/
def Statement.effect (i : Nat) (v : Invocation M) (s : State M) : Statement → State M
  | .setOutput p =>
    { s with outputs := fun q => if q = p then some (i, v.messages q) else s.outputs q }
  | .setSyncDone => { s with syncDone := true }
  | .unsubscribeTopics => SyncedFrames.unsubscribeTopics s

/-- The invocation has statements left. -/
def Invocation.InProgress (v : Invocation M) : Prop := v.executed < syncCallback.length

instance (v : Invocation M) : Decidable v.InProgress := inferInstanceAs (Decidable (_ < _))

def step (s : State M) : Event M → Option (State M)
  -- `onStart` up to the QoS profiles, its failure there, and the rest of it
  | .startResets =>
    if s.phase = .idle then some { s with phase := .starting, syncDone := false } else none
  | .startFails => if s.phase = .starting then some { s with phase := .idle } else none
  | .startSubscribes =>
    if s.phase = .starting then
      some { s with phase := .running, subscribed := true, synchronizer := s.synchronizer + 1 }
    else none
  | .onRunning nodeAlive timedOut =>
    if s.phase = .running then
      let (status, s') := onRunning nodeAlive timedOut s
      some { s' with phase := if status = .running then .running else .idle }
    else none
  | .onHalted =>
    if s.phase = .running then some { unsubscribeTopics s with phase := .idle } else none
  | .invoke messages =>
    if 0 < s.synchronizer ∧
        ∀ v ∈ s.invocations, v.synchronizer = s.synchronizer → ¬ v.InProgress then
      some { s with invocations := s.invocations ++ [⟨s.synchronizer, messages, 0⟩] }
    else none
  | .execute i =>
    match s.invocations[i]? with
    | none => none
    | some v =>
      match syncCallback[v.executed]? with
      | none => none
      | some statement =>
        some { statement.effect i v s with
          invocations := s.invocations.set i { v with executed := v.executed + 1 } }

/-- The outputs hold the messages of one invocation of `synchronizer_`. -/
def Synced (s : State M) : Prop :=
  ∃ (i : Nat) (v : Invocation M), s.invocations[i]? = some v ∧ v.synchronizer = s.synchronizer ∧
    ∀ p, s.outputs p = some (i, v.messages p)

/-- Whenever `onRunning` returns SUCCESS, the outputs are one synchronized set. -/
def SyncedOnSuccess (s : State M) (e : Event M) : Prop :=
  ∀ nodeAlive timedOut, e = .onRunning nodeAlive timedOut →
    (onRunning nodeAlive timedOut s).1 = .success → Synced s

/-- A statement of an invocation `v` does not disturb the activation under way: `sync_done_` is set
    only by its own synchronizer; no output is set while `sync_done_` is true; and an earlier
    synchronizer sets no output that an invocation in progress of its own synchronizer has set. -/
def StatementUndisturbed (s : State M) (v : Invocation M) : Statement → Prop
  | .setOutput p =>
    s.phase = .running → s.syncDone = false ∧ (v.synchronizer = s.synchronizer ∨
      ∀ w ∈ s.invocations, w.synchronizer = s.synchronizer → w.InProgress → w.executed ≤ p.index)
  | .setSyncDone => s.phase ≠ .idle → s.phase = .running ∧ v.synchronizer = s.synchronizer
  | .unsubscribeTopics => True

instance (s : State M) (v : Invocation M) :
    ∀ statement, Decidable (StatementUndisturbed s v statement)
  | .setOutput p => inferInstanceAs (Decidable (s.phase = .running → s.syncDone = false ∧
      (v.synchronizer = s.synchronizer ∨ ∀ w ∈ s.invocations, w.synchronizer = s.synchronizer →
        w.InProgress → w.executed ≤ p.index)))
  | .setSyncDone =>
    inferInstanceAs (Decidable (s.phase ≠ .idle → s.phase = .running ∧ v.synchronizer = _))
  | .unsubscribeTopics => inferInstanceAs (Decidable True)

/-- No step of the synchronizer threads disturbs the activation. -/
def Undisturbed (s : State M) : Event M → Prop
  | .execute i => ∀ v ∈ s.invocations[i]?, ∀ statement ∈ syncCallback[v.executed]?,
      StatementUndisturbed s v statement
  | _ => True

instance (s : State M) : ∀ e, Decidable (Undisturbed s e)
  | .execute i => inferInstanceAs (Decidable (∀ v ∈ s.invocations[i]?,
      ∀ statement ∈ syncCallback[v.executed]?, StatementUndisturbed s v statement))
  | .startResets => inferInstanceAs (Decidable True)
  | .startFails => inferInstanceAs (Decidable True)
  | .startSubscribes => inferInstanceAs (Decidable True)
  | .onRunning _ _ => inferInstanceAs (Decidable True)
  | .onHalted => inferInstanceAs (Decidable True)
  | .invoke _ => inferInstanceAs (Decidable True)

/-! ## The order of the statements -/

def Statement.index : Statement → Nat
  | .setOutput p => p.index
  | .setSyncDone => 4
  | .unsubscribeTopics => 5

/-- A statement occurs once in the callback. -/
theorem executed_eq_index {k : Nat} {statement : Statement}
    (h : syncCallback[k]? = some statement) : k = statement.index := by
  match k, h with
  | 0, h => cases h; rfl
  | 1, h => cases h; rfl
  | 2, h => cases h; rfl
  | 3, h => cases h; rfl
  | 4, h => cases h; rfl
  | 5, h => cases h; rfl
  | _ + 6, h => cases h

theorem Output.index_lt (p : Output) : p.index < 4 := by
  cases p <;> decide

theorem Output.index_injective {p q : Output} (h : p.index = q.index) : p = q := by
  cases p <;> cases q <;> first | rfl | cases h

theorem inProgress_of_statement {v : Invocation M} {statement : Statement}
    (h : syncCallback[v.executed]? = some statement) : v.InProgress :=
  (List.getElem?_eq_some_iff.mp h).1

/-! ## The invariant -/

/-- What holds while nothing is disturbed: an invocation in progress of this activation's
    synchronizer has set the outputs of its executed statements and nobody has set them since. -/
structure Inv (s : State M) : Prop where
  le : ∀ (i : Nat) (v : Invocation M), s.invocations[i]? = some v →
    v.synchronizer ≤ s.synchronizer
  single : ∀ (i j : Nat) (v w : Invocation M), s.invocations[i]? = some v →
    s.invocations[j]? = some w → v.synchronizer = w.synchronizer → v.InProgress → w.InProgress →
    i = j
  starting : s.phase = .starting → s.syncDone = false
  written : s.phase = .running → ∀ (i : Nat) (v : Invocation M), s.invocations[i]? = some v →
    v.synchronizer = s.synchronizer → v.InProgress → ∀ p : Output, p.index < v.executed →
    s.outputs p = some (i, v.messages p)
  done : s.phase = .running → s.syncDone = true → Synced s

theorem inv_initial : Inv (State.initial : State M) where
  le _ _ h := by cases h
  single _ _ _ _ h := by cases h
  starting _ := rfl
  written h := by cases h
  done h := by cases h

/-- Ending the activation keeps the invariant. -/
theorem Inv.idle {s : State M} (hi : Inv s) (subscribed : Bool) :
    Inv { s with phase := .idle, subscribed := subscribed } where
  le := hi.le
  single := hi.single
  starting h := by cases h
  written h := by cases h
  done h := by cases h

theorem inv_start {s s' : State M} {e : Event M} (hi : Inv s) (hs : step s e = some s')
    (he : e = .startResets ∨ e = .startFails ∨ e = .startSubscribes) : Inv s' := by
  rcases he with rfl | rfl | rfl
  · obtain ⟨_, hs⟩ := Option.ite_none_right_eq_some.mp hs
    cases hs
    exact ⟨hi.le, hi.single, fun _ => rfl, nofun, nofun⟩
  · obtain ⟨_, hs⟩ := Option.ite_none_right_eq_some.mp hs
    cases hs
    exact hi.idle s.subscribed
  · obtain ⟨hphase, hs⟩ := Option.ite_none_right_eq_some.mp hs
    cases hs
    refine ⟨?_, hi.single, nofun, ?_, ?_⟩
    · intro i v hv
      exact Nat.le_succ_of_le (hi.le i v hv)
    · -- no invocation belongs to the new synchronizer yet
      intro _ i v hv hnew
      have hle := hi.le i v hv
      simp only at hnew
      omega
    · intro _ hdone
      rw [hi.starting hphase] at hdone
      cases hdone

theorem inv_poll {s s' : State M} {e : Event M} (hi : Inv s) (hs : step s e = some s')
    (he : (∃ nodeAlive timedOut, e = .onRunning nodeAlive timedOut) ∨ e = .onHalted) :
    Inv s' := by
  rcases he with ⟨nodeAlive, timedOut, rfl⟩ | rfl
  · simp only [step, Option.ite_none_right_eq_some, Option.some.injEq] at hs
    obtain ⟨hphase, rfl⟩ := hs
    unfold onRunning
    split
    · exact hi.idle s.subscribed
    · split
      · split
        · exact hi.idle false
        · rw [if_pos rfl, ← hphase]
          exact hi
      · exact hi.idle false
  · obtain ⟨_, hs⟩ := Option.ite_none_right_eq_some.mp hs
    cases hs
    exact hi.idle false

theorem inv_invoke {s s' : State M} {messages : Output → M} (hi : Inv s)
    (hs : step s (.invoke messages) = some s') : Inv s' := by
  obtain ⟨⟨_, hfree⟩, hs⟩ := Option.ite_none_right_eq_some.mp hs
  cases hs
  refine ⟨?_, ?_, hi.starting, ?_, ?_⟩
  · intro i v hv
    rcases Cells.getElem?_concat_cases hv with hv | ⟨_, rfl⟩
    · exact hi.le i v hv
    · exact Nat.le_refl _
  · intro i j v w hv hw heq hpv hpw
    rcases Cells.getElem?_concat_cases hv with hv | ⟨rfl, rfl⟩
    · rcases Cells.getElem?_concat_cases hw with hw | ⟨rfl, rfl⟩
      · exact hi.single i j v w hv hw heq hpv hpw
      · exact absurd hpv (hfree v (List.mem_of_getElem? hv) heq)
    · rcases Cells.getElem?_concat_cases hw with hw | ⟨rfl, _⟩
      · exact absurd hpw (hfree w (List.mem_of_getElem? hw) heq.symm)
      · rfl
  · intro hphase i v hv hcurrent hp p hlt
    rcases Cells.getElem?_concat_cases hv with hv | ⟨_, rfl⟩
    · exact hi.written hphase i v hv hcurrent hp p hlt
    · exact absurd hlt (Nat.not_lt_zero _)
  · intro hphase hdone
    obtain ⟨i, v, hv, hcurrent, hout⟩ := hi.done hphase hdone
    exact ⟨i, v, (Cells.getElem?_concat_of_some hv).1, hcurrent, hout⟩

/-! ## One statement of an invocation -/

section Execute

variable {s : State M} {i : Nat} {v : Invocation M}

/-- The invocation after one more statement. -/
def Invocation.advance (v : Invocation M) : Invocation M := { v with executed := v.executed + 1 }

/-- The bookkeeping of the invocations does not depend on the statement. -/
theorem advance_le_single (hi : Inv s) (hv : s.invocations[i]? = some v) (hp : v.InProgress) :
    (∀ (j : Nat) (w : Invocation M), (s.invocations.set i v.advance)[j]? = some w →
      w.synchronizer ≤ s.synchronizer) ∧
    ∀ (j k : Nat) (w u : Invocation M), (s.invocations.set i v.advance)[j]? = some w →
      (s.invocations.set i v.advance)[k]? = some u → w.synchronizer = u.synchronizer →
      w.InProgress → u.InProgress → j = k := by
  constructor
  · intro j w hw
    rcases Cells.getElem?_set_cases hw with ⟨_, rfl⟩ | ⟨_, hw⟩
    · exact hi.le i v hv
    · exact hi.le j w hw
  · intro j k w u hw hu heq hpw hpu
    rcases Cells.getElem?_set_cases hw with ⟨rfl, rfl⟩ | ⟨_, hw'⟩
    · rcases Cells.getElem?_set_cases hu with ⟨rfl, _⟩ | ⟨_, hu'⟩
      · rfl
      · exact hi.single _ k v u hv hu' heq hp hpu
    · rcases Cells.getElem?_set_cases hu with ⟨rfl, rfl⟩ | ⟨_, hu'⟩
      · exact hi.single j _ w v hw' hv heq hpw hp
      · exact hi.single j k w u hw' hu' heq hpw hpu

theorem inv_setOutput {p : Output} (hi : Inv s) (hv : s.invocations[i]? = some v)
    (hst : syncCallback[v.executed]? = some (.setOutput p))
    (hu : StatementUndisturbed s v (.setOutput p)) :
    Inv { Statement.effect i v s (.setOutput p) with
      invocations := s.invocations.set i v.advance } := by
  have hp := inProgress_of_statement hst
  have hindex : v.executed = p.index := executed_eq_index hst
  obtain ⟨hle, hsingle⟩ := advance_le_single hi hv hp
  refine ⟨hle, hsingle, hi.starting, ?_, ?_⟩
  · intro hphase j w hw hcurrent hpw q hlt
    show (if q = p then some (i, v.messages q) else s.outputs q) = some (j, w.messages q)
    rcases Cells.getElem?_set_cases hw with ⟨rfl, rfl⟩ | ⟨hne, hw'⟩
    · split
      · rfl
      · rename_i hqp
        have hq : q.index ≠ p.index := fun h => hqp (Output.index_injective h)
        refine hi.written hphase _ v hv hcurrent hp q ?_
        have : q.index < v.executed + 1 := hlt
        omega
    · have hqp : q ≠ p := by
        rintro rfl
        rcases (hu hphase).2 with hown | hothers
        · exact hne (hi.single j i w v hw' hv (hcurrent.trans hown.symm) hpw hp)
        · have hnot := hothers w (List.mem_of_getElem? hw') hcurrent hpw
          omega
      rw [if_neg hqp]
      exact hi.written hphase j w hw' hcurrent hpw q hlt
  · intro hphase hdone
    have hfalse := (hu hphase).1
    have htrue : s.syncDone = true := hdone
    rw [hfalse] at htrue
    cases htrue

theorem inv_setSyncDone (hi : Inv s) (hv : s.invocations[i]? = some v)
    (hst : syncCallback[v.executed]? = some .setSyncDone)
    (hu : StatementUndisturbed s v .setSyncDone) :
    Inv { Statement.effect i v s .setSyncDone with
      invocations := s.invocations.set i v.advance } := by
  have hp := inProgress_of_statement hst
  have hfour : v.executed = 4 := executed_eq_index hst
  obtain ⟨hle, hsingle⟩ := advance_le_single hi hv hp
  refine ⟨hle, hsingle, ?_, ?_, ?_⟩
  · intro hstarting
    have hphase : s.phase = .starting := hstarting
    have hrunning := (hu (by rw [hphase]; decide)).1
    rw [hphase] at hrunning
    cases hrunning
  · intro hphase j w hw hcurrent hpw q hlt
    rcases Cells.getElem?_set_cases hw with ⟨rfl, rfl⟩ | ⟨_, hw⟩
    · refine hi.written hphase _ v hv hcurrent hp q ?_
      have := q.index_lt
      omega
    · exact hi.written hphase j w hw hcurrent hpw q hlt
  · -- all four outputs are set by now
    intro hphase _
    have hrunning : s.phase = .running := hphase
    have hown := (hu (by rw [hrunning]; decide)).2
    obtain ⟨hlt, _⟩ := List.getElem?_eq_some_iff.mp hv
    refine ⟨i, v.advance, List.getElem?_set_self hlt, hown, fun q => ?_⟩
    refine hi.written hphase i v hv hown hp q ?_
    have := q.index_lt
    omega

theorem inv_unsubscribeTopics (hi : Inv s) (hv : s.invocations[i]? = some v)
    (hst : syncCallback[v.executed]? = some .unsubscribeTopics) :
    Inv { Statement.effect i v s .unsubscribeTopics with
      invocations := s.invocations.set i v.advance } := by
  have hp := inProgress_of_statement hst
  obtain ⟨hle, hsingle⟩ := advance_le_single hi hv hp
  have hlast : ¬ v.advance.InProgress := by
    have hfive : v.executed = 5 := executed_eq_index hst
    show ¬ v.executed + 1 < 6
    omega
  refine ⟨hle, hsingle, hi.starting, ?_, ?_⟩
  · intro hphase j w hw hcurrent hpw q hlt
    rcases Cells.getElem?_set_cases hw with ⟨_, rfl⟩ | ⟨_, hw'⟩
    · exact absurd hpw hlast
    · exact hi.written hphase j w hw' hcurrent hpw q hlt
  · intro hphase hdone
    obtain ⟨j, w, hw, hcurrent, hout⟩ := hi.done hphase hdone
    by_cases heq : i = j
    · subst heq
      obtain ⟨hlt, _⟩ := List.getElem?_eq_some_iff.mp hv
      obtain rfl : w = v := Option.some.inj (hw.symm.trans hv)
      exact ⟨i, w.advance, List.getElem?_set_self hlt, hcurrent, hout⟩
    · exact ⟨j, w, (List.getElem?_set_ne heq).trans hw, hcurrent, hout⟩

end Execute

theorem inv_step {s s' : State M} {e : Event M} (hi : Inv s) (hs : step s e = some s')
    (hu : Undisturbed s e) : Inv s' := by
  cases e with
  | startResets => exact inv_start hi hs (.inl rfl)
  | startFails => exact inv_start hi hs (.inr (.inl rfl))
  | startSubscribes => exact inv_start hi hs (.inr (.inr rfl))
  | onRunning nodeAlive timedOut => exact inv_poll hi hs (.inl ⟨_, _, rfl⟩)
  | onHalted => exact inv_poll hi hs (.inr rfl)
  | invoke messages => exact inv_invoke hi hs
  | execute i =>
    simp only [step] at hs
    split at hs
    · cases hs
    · rename_i v hv
      split at hs
      · cases hs
      · rename_i statement hst
        cases hs
        have hst' := hu v hv statement hst
        cases statement with
        | setOutput p => exact inv_setOutput hi hv hst hst'
        | setSyncDone => exact inv_setSyncDone hi hv hst hst'
        | unsubscribeTopics => exact inv_unsubscribeTopics hi hv hst

/-- A SUCCESS is only returned for a true `sync_done_`. -/
theorem syncDone_of_success {s s' : State M} {nodeAlive timedOut : Bool}
    (hs : step s (.onRunning nodeAlive timedOut) = some s')
    (hr : (onRunning nodeAlive timedOut s).1 = .success) :
    s.phase = .running ∧ s.syncDone = true := by
  obtain ⟨hphase, _⟩ := Option.ite_none_right_eq_some.mp hs
  refine ⟨hphase, ?_⟩
  unfold onRunning at hr
  split at hr
  · assumption
  · split at hr
    · split at hr <;> cases hr
    · cases hr

/-- **The outputs are one synchronized set of this activation** at every SUCCESS, in every run in
    which no activation is disturbed. -/
theorem synced_outputs (es : List (Event M))
    (hu : EachStep step (fun s e _ => Undisturbed s e) State.initial es) :
    EachStep step (fun s e _ => SyncedOnSuccess s e) State.initial es := by
  refine (hu.always inv_initial fun _ _ _ hi hs hg => inv_step hi hs hg).eachStep hu ?_
  rintro s e s' hi hs _ nodeAlive timedOut rfl hr
  obtain ⟨hphase, hdone⟩ := syncDone_of_success hs hr
  exact hi.done hphase hdone

/-- An activation that times out during a callback, which ends late, then one that succeeds. -/
theorem synced_outputs_after_timeout :
    let start : List (Event Nat) := [.startResets, .startSubscribes]
    EachStep step (fun s e _ => SyncedOnSuccess s e) State.initial
      (start ++ [.invoke fun _ => 7, .execute 0, .execute 0, .onRunning true true] ++
        List.replicate 4 (.execute 0) ++ start ++ [.invoke fun _ => 8] ++
        List.replicate 6 (.execute 1) ++ [.onRunning true false]) :=
  synced_outputs _ (by decide)

/-- The callback of a timed out activation sets `sync_done_` after the reset of the next one, which
    succeeds with the old frame; and a second match in one activation leaves the point cloud of
    one frame with the images of another. -/
theorem stale_and_mixed_frames :
    let start : List (Event Nat) := [.startResets, .startSubscribes]
    let stale : List (Event Nat) := start ++ [.invoke fun _ => 7] ++
      List.replicate 4 (.execute 0) ++
      [.onRunning true true, .startResets, .execute 0, .startSubscribes]
    let mixed : List (Event Nat) := start ++ [.invoke fun _ => 7] ++
      List.replicate 6 (.execute 0) ++ [.invoke fun _ => 8, .execute 1]
    ¬ EachStep step (fun s e _ => SyncedOnSuccess s e) State.initial
        (stale ++ [.onRunning true false]) ∧
      ¬ EachStep step (fun s e _ => SyncedOnSuccess s e) State.initial
        (mixed ++ [.onRunning true false]) := by
  intro start stale mixed
  refine ⟨not_eachStep rfl rfl fun h => ?_, not_eachStep rfl rfl fun h => ?_⟩
  · obtain ⟨i, v, hv, hcurrent, hout⟩ := h _ _ rfl rfl
    have hwriter : (0, 7) = (i, v.messages .pointCloud) := Option.some.inj (hout .pointCloud)
    obtain ⟨rfl, _⟩ := Prod.mk.inj hwriter
    obtain rfl := Option.some.inj hv
    exact absurd hcurrent (by decide)
  · obtain ⟨i, v, _, _, hout⟩ := h _ _ rfl rfl
    have hcloud : (1, 8) = (i, v.messages .pointCloud) := Option.some.inj (hout .pointCloud)
    have himage : (0, 7) = (i, v.messages .rgbImage) := Option.some.inj (hout .rgbImage)
    have hsame := (Prod.mk.inj hcloud).1.trans (Prod.mk.inj himage).1.symm
    exact absurd hsame (by decide)

end SyncedFrames

end DrtBehavior
