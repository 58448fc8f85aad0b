import Mathlib.Logic.Function.Basic
import DrtBehavior.Base.EventMachine
import DrtBehavior.Executor.TreeContext

/-!
# Breakpoints on a parameter

`CheckParam` of `drt_behavior` waits for a boolean parameter of the execution's node to become
true, resets it to false and succeeds.  The read and the reset are two operations of rclcpp, each
atomic, the pair is not.

* `onStart`, `onRunning` — the two callbacks; both end in `checkParam`.
* `Breakpoint.step` — any number of `CheckParam` nodes ticked one after another on the tick
  thread, and external clients that set parameters at any time, also between a read and its reset.
* `tick_start`, `tick_running` — a tick that nothing comes between is the whole callback.
* `breakpoint_release` — every SUCCESS uses up a set-to-true of its own.
-/

set_option autoImplicit false

namespace DrtBehavior

namespace CheckParam

/-- `context->node->get_parameter_or(param_name, param_value, false)`. -/
def readParam (context : Option DRTTreeContext) (params : Parameters) (paramName : StdString) :
    Except Fault Bool := do
  let _ ← derefNode context
  return getParameterOr params paramName false

/-- `context->node->set_parameter(rclcpp::Parameter(param_name, false))`. -/
def resetParam (params : Parameters) (paramName : StdString) : Parameters :=
  setParameter params paramName false

/-- The common end of `onStart` and `onRunning`. -/
def checkParam (context : Option DRTTreeContext) (params : Parameters) (paramName : StdString) :
    Except Fault (NodeStatus × Parameters) := do
  let paramValue ← readParam context params paramName
  if paramValue then return (.success, resetParam params paramName)
  else return (.running, params)

/-- `getInput("param_name", param_name)` or the throw. -/
def inputName (input : Option StdString) : Except Fault StdString :=
  match input with
  | some name => .ok name
  | none => .error (.runtimeError (bytes "Could not access blackboard input [param_name]"))

/-- `CheckParam::onStart`: the stored `param_name`, the status and the parameters. -/
def onStart (input : Option StdString) (context : Option DRTTreeContext) (params : Parameters) :
    Except Fault (StdString × NodeStatus × Parameters) := do
  let paramName ← inputName input
  let (status, params) ← checkParam context params paramName
  return (paramName, status, params)

/-- `CheckParam::onRunning`. -/
def onRunning (paramName : StdString) (context : Option DRTTreeContext) (params : Parameters) :
    Except Fault (NodeStatus × Parameters) :=
  checkParam context params paramName

theorem readParam_of_live {context : DRTTreeContext} (h : context.Live) (params : Parameters)
    (paramName : StdString) :
    readParam (some context) params paramName = .ok (getParameterOr params paramName false) := by
  obtain ⟨node, _, hn⟩ := derefNode_of_live h
  simp [readParam, hn, bind, Except.bind, pure, Except.pure]

/-- The only fault of the read is the null node of a torn-down context. -/
theorem readParam_error {context : Option DRTTreeContext} {params : Parameters}
    {paramName : StdString} {f : Fault} (h : readParam context params paramName = .error f) :
    f = .nullDereference := by
  unfold readParam at h
  cases hn : derefNode context with
  | error g =>
    rw [hn] at h
    obtain rfl : g = f := Except.error.inj h
    exact derefNode_error hn
  | ok node => rw [hn] at h; cases h

theorem onRunning_of_live {context : DRTTreeContext} (h : context.Live) (params : Parameters)
    (paramName : StdString) :
    onRunning paramName (some context) params ≠ .error .nullDereference := by
  rw [onRunning, checkParam, readParam_of_live h]
  simp only [bind, Except.bind]
  split <;> simp [pure, Except.pure]

/-- On a live context `onStart` fails only when the input port cannot be read. -/
theorem onStart_of_live {context : DRTTreeContext} (h : context.Live) (params : Parameters)
    (input : Option StdString) :
    onStart input (some context) params ≠ .error .nullDereference := by
  cases input with
  | none => simp [onStart, inputName, bind, Except.bind]
  | some name =>
    have hr := onRunning_of_live h params name
    rw [onRunning] at hr
    simp only [onStart, inputName, bind, Except.bind]
    cases hc : checkParam (some context) params name with
    | error f => rw [hc] at hr; simpa using hr
    | ok r => simp [pure, Except.pure]

end CheckParam

/-! ## One execution with its external clients -/

namespace Breakpoint

open EventMachine CheckParam

/-- The parameters of the execution's node, the running `CheckParam` nodes with their
    `param_name`, and the one that has read true on the tick thread and not reset yet. -/
structure State where
  params : Parameters
  running : Nat → Option StdString
  pending : Option (Nat × StdString)

inductive Event where
  | start (i : Nat) (input : Option StdString)
  | running (i : Nat)
  | reset
  | halt (i : Nat)
  | external (name : StdString) (value : Bool)
  deriving DecidableEq, Repr

/-- A new execution: its node has the parameters its overrides declare. -/
def State.initial (node : Node) (overrides : Parameters) : State :=
  ⟨node.initialParameters overrides, fun _ => none, none⟩

/-- Node `i` has read its parameter: it will reset it, or it keeps running. -/
def State.afterRead (s : State) (i : Nat) (name : StdString) : Except Fault Bool → Option State
  | .ok true => some { s with pending := some (i, name) }
  | .ok false => some { s with running := Function.update s.running i (some name) }
  | .error _ => none

def step (context : Option DRTTreeContext) (s : State) : Event → Option State
  | .start i input =>
    match s.pending, s.running i, input with
    | none, none, some name => s.afterRead i name (readParam context s.params name)
    -- the input port cannot be read: `onStart` throws before it reads the parameter
    | none, none, none => some s
    | _, _, _ => none
  | .running i =>
    match s.pending, s.running i with
    | none, some name => s.afterRead i name (readParam context s.params name)
    | _, _ => none
  | .reset =>
    match s.pending with
    | some (i, name) =>
      some ⟨resetParam s.params name, Function.update s.running i none, none⟩
    | none => none
  | .halt i =>
    match s.pending with
    | none => some { s with running := Function.update s.running i none }
    | some _ => none
  | .external name value => some { s with params := setParameter s.params name value }

/-! ## A tick that nothing comes between -/

/-- A tick that no external client comes between: the read, and at once the reset that it leaves
    pending. -/
def tick (context : Option DRTTreeContext) (s : State) (e : Event) : Option State := do
  let s' ← step context s e
  if s'.pending.isSome then step context s' .reset else return s'

/-- The state after a whole `onStart` or `onRunning` of node `i`, given its `param_name`, the
    status and the parameters. -/
def State.afterTick (s : State) (i : Nat) :
    Except Fault (StdString × NodeStatus × Parameters) → Option State
  | .ok (name, status, params) =>
    some ⟨params, Function.update s.running i (if status = .running then some name else none), none⟩
  -- the exception that `param_name` cannot be read leaves everything as it was
  | .error (.runtimeError _) => some s
  | .error _ => none

/-- The read and its reset make up `checkParam`. -/
theorem afterRead_reset (context : Option DRTTreeContext) {s : State} (hp : s.pending = none)
    (i : Nat) (name : StdString) :
    ((s.afterRead i name (readParam context s.params name)).bind fun s' =>
        if s'.pending.isSome then step context s' .reset else some s') =
      s.afterTick i ((checkParam context s.params name).map (name, ·)) := by
  unfold checkParam
  cases hr : readParam context s.params name with
  | error f =>
    obtain rfl := readParam_error hr
    rfl
  | ok paramValue =>
    cases paramValue with
    | false => simp [State.afterRead, State.afterTick, hp, bind, Except.bind, pure, Except.pure,
        Except.map]
    | true => rfl

/-- **`step` embeds `onRunning`**: a tick of a running node that nothing comes between is the
    whole callback. -/
theorem tick_running (context : Option DRTTreeContext) {s : State} {i : Nat} {name : StdString}
    (hp : s.pending = none) (hr : s.running i = some name) :
    tick context s (.running i) =
      s.afterTick i ((onRunning name context s.params).map (name, ·)) := by
  rw [onRunning, ← afterRead_reset context hp]
  simp only [tick, step, hp, hr]
  rfl

/-- **`step` embeds `onStart`**, whatever its input port holds. -/
theorem tick_start (context : Option DRTTreeContext) {s : State} {i : Nat}
    (hp : s.pending = none) (hr : s.running i = none) (input : Option StdString) :
    tick context s (.start i input) = s.afterTick i (onStart input context s.params) := by
  cases input with
  | none => simp [tick, step, hp, hr, onStart, inputName, State.afterTick, bind, Except.bind]
  | some name =>
    have hstart : onStart (some name) context s.params =
        (checkParam context s.params name).map (name, ·) := by
      simp only [onStart, inputName, bind, Except.bind]
      cases checkParam context s.params name <;> rfl
    rw [hstart, ← afterRead_reset context hp]
    simp only [tick, step, hp, hr]
    rfl

/-! ## SUCCESS results and the sets-to-true they use up -/

/-- A `CheckParam` on `p` has read true and its SUCCESS is under way. -/
def Pending (p : StdString) (s : State) : Prop := s.pending.map Prod.snd = some p

instance (p : StdString) (s : State) : Decidable (Pending p s) :=
  inferInstanceAs (Decidable (_ = _))

/-- One for the step that completes a SUCCESS on `p`. -/
def successOn (p : StdString) (s : State) (e : Event) (_ : State) : Nat :=
  if e = .reset ∧ Pending p s then 1 else 0

/-- One for an external set-to-true of `p`. -/
def setTrueOn (p : StdString) (_ : State) (e : Event) (_ : State) : Nat :=
  if e = .external p true then 1 else 0

/-- A SUCCESS on `p` is paid for: the parameter is true, or was read as true. -/
def Paid (p : StdString) (s : State) : Prop := s.params p = some true ∨ Pending p s

instance (p : StdString) (s : State) : Decidable (Paid p s) :=
  inferInstanceAs (Decidable (_ ∨ _))

def credit (p : StdString) (s : State) : Nat := if Paid p s then 1 else 0

/-- Between the reset of one SUCCESS on `p` and the read that leads to the next one, an external
    client sets `p` to true. -/
def ReleasedBetween (context : Option DRTTreeContext) (p : StdString) (s : State)
    (es : List Event) : Prop :=
  ∀ es₁ es₂ es₃ e s₁ s₂ s₃ s₄, es = es₁ ++ .reset :: es₂ ++ e :: es₃ →
    run (step context) s es₁ = some s₁ → Pending p s₁ → step context s₁ .reset = some s₂ →
    run (step context) s₂ es₂ = some s₃ → ¬ Pending p s₃ → step context s₃ e = some s₄ →
    Pending p s₄ → .external p true ∈ es₂

/-- What a step does to a read: it sets a parameter's SUCCESS under way only from the value
    true. -/
theorem afterRead_some {context : Option DRTTreeContext} {s s' : State} {i : Nat}
    {name : StdString} (h : s.afterRead i name (readParam context s.params name) = some s') :
    s'.params = s.params ∧
      ((s'.pending = some (i, name) ∧ s.params name = some true) ∨ s'.pending = s.pending) := by
  cases hr : readParam context s.params name with
  | error f => rw [hr] at h; cases h
  | ok v =>
    rw [hr] at h
    cases v with
    | false => cases h; exact ⟨rfl, .inr rfl⟩
    | true =>
      cases h
      refine ⟨rfl, .inl ⟨rfl, ?_⟩⟩
      unfold readParam at hr
      obtain ⟨node, _, hv⟩ := bind_eq_ok hr
      have htrue : (s.params name).getD false = true := Except.ok.inj hv
      cases hp : s.params name with
      | none => rw [hp] at htrue; cases htrue
      | some b => rw [hp, Option.getD_some] at htrue; rw [htrue]

/-- **Everything a step can do** to the parameters and to the pending SUCCESS. -/
theorem step_cases {context : Option DRTTreeContext} {s s' : State} {e : Event}
    (h : step context s e = some s') :
    (s'.params = s.params ∧ s.pending = none ∧ e ≠ .reset ∧
      (s'.pending = none ∨
        ∃ i name, s'.pending = some (i, name) ∧ s.params name = some true)) ∨
    (e = .reset ∧ ∃ i name, s.pending = some (i, name) ∧ s'.pending = none ∧
      s'.params = setParameter s.params name false) ∨
    (∃ name value, e = .external name value ∧ s'.pending = s.pending ∧
      s'.params = setParameter s.params name value) := by
  have hread : ∀ {i name}, s.pending = none →
      s.afterRead i name (readParam context s.params name) = some s' →
      s'.params = s.params ∧ (s'.pending = none ∨
        ∃ i name, s'.pending = some (i, name) ∧ s.params name = some true) := by
    intro i name hp hr
    obtain ⟨hparams, ⟨hpend, htrue⟩ | hpend⟩ := afterRead_some hr
    · exact ⟨hparams, .inr ⟨i, name, hpend, htrue⟩⟩
    · exact ⟨hparams, .inl (hpend.trans hp)⟩
  cases e with
  | start i input =>
    simp only [step] at h
    split at h
    · rename_i name hp _
      obtain ⟨h1, h2⟩ := hread hp h
      exact .inl ⟨h1, hp, by simp, h2⟩
    · rename_i hp _
      cases h
      exact .inl ⟨rfl, hp, by simp, .inl hp⟩
    · cases h
  | running i =>
    simp only [step] at h
    split at h
    · rename_i name hp _
      obtain ⟨h1, h2⟩ := hread hp h
      exact .inl ⟨h1, hp, by simp, h2⟩
    · cases h
  | reset =>
    simp only [step] at h
    split at h
    · rename_i i name hp
      cases h
      exact .inr (.inl ⟨rfl, i, name, hp, rfl, rfl⟩)
    · cases h
  | halt i =>
    simp only [step] at h
    split at h
    · rename_i hp
      cases h
      exact .inl ⟨rfl, hp, by simp, .inl hp⟩
    · cases h
  | external name value =>
    cases h
    exact .inr (.inr ⟨name, value, rfl, rfl, rfl⟩)

/-! ## Each release is used once -/

theorem credit_le_one (p : StdString) (s : State) : credit p s ≤ 1 := by
  unfold credit
  split <;> omega

theorem credit_mono {p : StdString} {s s' : State} (h : Paid p s' → Paid p s) :
    credit p s' ≤ credit p s := by
  unfold credit
  split
  · rename_i hp
    rw [if_pos (h hp)]
  · exact Nat.zero_le _

/-- A SUCCESS on `p` spends the credit, only a set-to-true earns one. -/
theorem credit_step {context : Option DRTTreeContext} (p : StdString) {s s' : State} {e : Event}
    (h : step context s e = some s') :
    successOn p s e s' + credit p s' ≤ credit p s + setTrueOn p s e s' := by
  rcases step_cases h with ⟨hparams, hpend, hne, hpend'⟩ | ⟨rfl, i, name, hpend, hpend', hparams⟩ |
    ⟨name, value, rfl, hpend, hparams⟩
  · -- a tick that resets nothing: the SUCCESS it may start was read as true
    have hcost : successOn p s e s' = 0 := by simp [successOn, hne]
    have hcredit : credit p s' ≤ credit p s := by
      apply credit_mono
      rintro (ht | ht)
      · exact .inl (hparams ▸ ht)
      · rcases hpend' with hn | ⟨i, name, hs, htrue⟩
        · simp [Pending, hn] at ht
        · simp only [Pending, hs, Option.map_some, Option.some.injEq] at ht
          exact .inl (ht ▸ htrue)
    omega
  · -- the reset
    by_cases hp : name = p
    · subst hp
      have hfalse : s'.params name ≠ some true := by simp [hparams]
      simp [successOn, credit, Paid, Pending, hpend, hpend', hfalse]
    · have hsame : s'.params p = s.params p := by
        rw [hparams, setParameter_ne _ _ (Ne.symm hp)]
      simp [successOn, credit, Paid, Pending, hpend, hpend', hsame, hp]
  · -- an external client
    have hcost : successOn p s (.external name value) s' = 0 := by simp [successOn]
    have hsame : Pending p s' ↔ Pending p s := by simp [Pending, hpend]
    by_cases hset : name = p ∧ value = true
    · obtain ⟨rfl, rfl⟩ := hset
      have hle := credit_le_one name s'
      simp only [hcost, setTrueOn, if_true]
      omega
    · have himp : s'.params p = some true → s.params p = some true := by
        intro ht
        by_cases hn : p = name
        · subst hn
          rw [hparams, setParameter_self, Option.some.injEq] at ht
          exact absurd ⟨rfl, ht⟩ hset
        · rwa [hparams, setParameter_ne _ _ hn] at ht
      have hcredit : credit p s' ≤ credit p s := credit_mono fun hl => hl.imp himp hsame.mp
      omega

/-- Without a set-to-true there is no SUCCESS to come, if none is paid for. -/
theorem credit_eq_zero_step {context : Option DRTTreeContext} {p : StdString} {s s' : State}
    {e : Event} (h0 : credit p s = 0) (h : step context s e = some s')
    (he : e ≠ .external p true) : credit p s' = 0 := by
  have hstep := credit_step p h
  have hset : setTrueOn p s e s' = 0 := by simp [setTrueOn, he]
  omega

theorem credit_initial (node : Node) (overrides : Parameters) (p : StdString) :
    credit p (State.initial node overrides) ≤ if overrides p = some true then 1 else 0 := by
  have hnot : ¬ Pending p (State.initial node overrides) := by simp [Pending, State.initial]
  have hparams : (State.initial node overrides).params p = some true → overrides p = some true := by
    simp only [State.initial, Node.initialParameters]
    split <;> simp
  unfold credit
  split
  · rename_i hp
    rw [if_pos (hparams (hp.resolve_right hnot))]
  · exact Nat.zero_le _

/-- After the reset of a SUCCESS on `p` nothing is paid for. -/
theorem credit_reset {context : Option DRTTreeContext} {p : StdString} {s s' : State}
    (hp : Pending p s) (h : step context s .reset = some s') : credit p s' = 0 := by
  have hstep := credit_step p h
  have hcost : successOn p s .reset s' = 1 := by simp [successOn, hp]
  have hset : setTrueOn p s .reset s' = 0 := by simp [setTrueOn]
  have hle := credit_le_one p s
  omega

theorem releasedBetween (context : Option DRTTreeContext) (p : StdString) (s : State)
    (es : List Event) : ReleasedBetween context p s es := by
  intro es₁ es₂ es₃ e s₁ s₂ s₃ s₄ _ _ hp hreset hrun hnot hs hp'
  refine Classical.byContradiction fun hmem => ?_
  -- nothing is paid for from the reset up to the read
  have hguard : EachStep (step context) (fun _ e _ => e ≠ .external p true) s₂ es₂ :=
    eachStep_of_forall_mem s₂ fun e he heq => hmem (heq ▸ he)
  have hzero : credit p s₃ = 0 :=
    Always.last (P := fun s => credit p s = 0)
      (hguard.always (credit_reset hp hreset) fun _ _ _ h0 hs he => credit_eq_zero_step h0 hs he)
      hrun
  have he : e ≠ .external p true := by
    rintro rfl
    cases hs
    exact hnot hp'
  have hzero' := credit_eq_zero_step hzero hs he
  have hone : credit p s₄ = 1 := if_pos (.inr hp')
  omega

/-- **Each breakpoint needs its own release.**  For any number of `CheckParam` nodes and every
    interleaving with external clients, a set-to-true lies between two SUCCESS results on `p`, and
    there are at most as many SUCCESS results as sets-to-true, plus one if an override declares
    `p` true. -/
theorem breakpoint_release (context : Option DRTTreeContext) (node : Node)
    (overrides : Parameters) (p : StdString) (es : List Event) :
    ReleasedBetween context p (State.initial node overrides) es ∧
      tally (step context) (successOn p) (State.initial node overrides) es ≤
        tally (step context) (setTrueOn p) (State.initial node overrides) es +
          if overrides p = some true then 1 else 0 := by
  refine ⟨releasedBetween context p _ es, ?_⟩
  have hstep : ∀ s e s', step context s e = some s' →
      successOn p s e s' + credit p s' ≤ credit p s + setTrueOn p s e s' :=
    fun _ _ _ h => credit_step p h
  have htally := tally_le hstep es (State.initial node overrides)
  have hinit := credit_initial node overrides p
  omega

end Breakpoint

end DrtBehavior
