import DrtBehavior.Base.EventMachine

/-!
# Sequences of a behaviour tree

The `Sequence` control node of BehaviorTree.CPP over children that share a world, and a proof
outline for it in the manner of a program with assertions between its statements.

* `Child` — one tick, with the input its environment delivers during it, and the halt.
* `Sequence.step` — ticked, halted and disturbed in any order.  A tick runs the children from the
  current one on; it stops at a child that is RUNNING, which the next tick resumes, and leaves the
  sequence reset after anything else.
* `Outline` — an assertion before each child, one while it is RUNNING and one for the reset
  sequence; `Outline.always` derives the invariant of every run.
* `Sequence.Keeps` — what every child keeps, whatever stands before and after it.
-/

set_option autoImplicit false

namespace BehaviorTree

open EventMachine

/-- `BT::NodeStatus`. -/
inductive NodeStatus where
  | idle
  | running
  | success
  | failure
  | skipped
  deriving DecidableEq, Repr

/-- A child over worlds `ω`.  A tick takes an input `ι` and may throw an `ε`. -/
structure Child (ι ε ω : Type*) where
  tick : ι → ω → Except ε NodeStatus × ω
  halt : ω → ω

/-- A sequence.  `start` is what the world notes when a traversal starts at the first child,
    `update` what others do to the world between ticks. -/
structure Sequence (ι ε ω υ : Type*) where
  children : List (Child ι ε ω)
  start : ω → ω
  update : υ → ω → ω

/-- Ticks `children`, the first of them at position `i`, until one does not succeed: the result,
    the position of the child that gave it, and the world. -/
def tickFrom {ι ε ω : Type*} (input : ι) :
    List (Child ι ε ω) → Nat → ω → Except ε NodeStatus × Nat × ω
  | [], i, w => (.ok .success, i, w)
  | c :: cs, i, w =>
    match c.tick input w with
    | (.ok .success, w') => tickFrom input cs (i + 1) w'
    | (.ok .skipped, w') => tickFrom input cs (i + 1) w'
    | (result, w') => (result, i, w')

namespace Sequence

variable {ι ε ω υ : Type*}

/-- The RUNNING child, if the sequence is not reset. -/
structure State (ω : Type*) where
  current : Option Nat
  world : ω

inductive Event (ι υ : Type*) where
  | tick (input : ι)
  | halt
  | update (u : υ)

/-- `resetChildren`. -/
def haltAll (q : Sequence ι ε ω υ) (w : ω) : ω := q.children.foldl (fun w c => c.halt w) w

/-- Where a tick starts. -/
def entry (q : Sequence ι ε ω υ) (s : State ω) : Nat × ω :=
  match s.current with
  | some i => (i, s.world)
  | none => (0, q.start s.world)

/-- One tick: the status returned to the parent and the state. -/
def tick (q : Sequence ι ε ω υ) (input : ι) (s : State ω) : Except ε NodeStatus × State ω :=
  match tickFrom input (q.children.drop (q.entry s).1) (q.entry s).1 (q.entry s).2 with
  | (.ok .running, i, w) => (.ok .running, ⟨some i, w⟩)
  | (result, _, w) => (result, ⟨none, q.haltAll w⟩)

def step (q : Sequence ι ε ω υ) (s : State ω) : Event ι υ → Option (State ω)
  | .tick input => some (q.tick input s).2
  | .halt => some ⟨none, q.haltAll s.world⟩
  | .update u => some { s with world := q.update u s.world }

end Sequence

variable {ι ε ω υ : Type*}

/-- What a child at position `i` may answer: RUNNING leaves its running assertion, success the
    assertion before the next child, anything else at least the invariant. -/
def Answer (I : ω → Prop) (S R : Nat → ω → Prop) (i : Nat) : Except ε NodeStatus × ω → Prop
  | (.ok .running, w) => R i w
  | (.ok .success, w) => S (i + 1) w
  | (.ok .skipped, w) => S (i + 1) w
  | (_, w) => I w

/-- **Proof outline.**  `I` is the invariant, `D` holds of the world of a reset sequence, `S i`
    before child `i` is first ticked and `R i` while it is RUNNING. -/
structure Outline (q : Sequence ι ε ω υ) (I D : ω → Prop) (S R : Nat → ω → Prop) : Prop where
  start : ∀ w, D w → S 0 (q.start w)
  child : ∀ i c, q.children[i]? = some c → ∀ input w, S i w ∨ R i w →
    Answer I S R i (c.tick input w)
  reset : ∀ w, I w → D (q.haltAll w)
  update_reset : ∀ u w, D w → D (q.update u w)
  update_running : ∀ i u w, R i w → R i (q.update u w)
  inv_of_reset : ∀ w, D w → I w
  inv_of_start : ∀ i w, S i w → I w
  inv_of_running : ∀ i w, R i w → I w

namespace Outline

variable {q : Sequence ι ε ω υ} {I D : ω → Prop} {S R : Nat → ω → Prop}

/-- What holds of a state between ticks. -/
def Between (I D : ω → Prop) (R : Nat → ω → Prop) (s : Sequence.State ω) : Prop :=
  I s.world ∧ (s.current = none → D s.world) ∧ ∀ i, s.current = some i → R i s.world

/-- Along the children of one tick, by induction on those left. -/
theorem tickFrom (h : Outline q I D S R) (input : ι) (cs : List (Child ι ε ω)) (i : Nat) (w : ω)
    (hcs : q.children.drop i = cs) (hw : S i w ∨ R i w) :
    I (tickFrom input cs i w).2.2 ∧
      ((tickFrom input cs i w).1 = .ok .running →
        R (tickFrom input cs i w).2.1 (tickFrom input cs i w).2.2) := by
  induction cs generalizing i w with
  | nil =>
    refine ⟨?_, fun hr => by cases hr⟩
    rcases hw with hw | hw
    · exact h.inv_of_start i w hw
    · exact h.inv_of_running i w hw
  | cons c cs ih =>
    have hget : q.children[i]? = some c := by
      rw [← List.head?_drop, hcs, List.head?_cons]
    have hdrop : q.children.drop (i + 1) = cs := by
      rw [← List.tail_drop, hcs, List.tail_cons]
    have hanswer := h.child i c hget input w hw
    unfold BehaviorTree.tickFrom
    split
    · rename_i w' hw'
      rw [hw'] at hanswer
      exact ih (i + 1) w' hdrop (.inl hanswer)
    · rename_i w' hw'
      rw [hw'] at hanswer
      exact ih (i + 1) w' hdrop (.inl hanswer)
    · rename_i result w' hsuccess hskipped hw'
      rw [hw'] at hanswer
      cases result with
      | error e => exact ⟨hanswer, nofun⟩
      | ok status =>
        cases status with
        | running => exact ⟨h.inv_of_running i w' hanswer, fun _ => hanswer⟩
        | success => exact absurd rfl hsuccess
        | skipped => exact absurd rfl hskipped
        | idle => exact ⟨hanswer, nofun⟩
        | failure => exact ⟨hanswer, nofun⟩

theorem entry (h : Outline q I D S R) {s : Sequence.State ω} (hs : Between I D R s) :
    S (q.entry s).1 (q.entry s).2 ∨ R (q.entry s).1 (q.entry s).2 := by
  unfold Sequence.entry
  split
  · rename_i i hi
    exact .inr (hs.2.2 i hi)
  · rename_i hi
    exact .inl (h.start s.world (hs.2.1 hi))

theorem between_reset (h : Outline q I D S R) {w : ω} (hw : I w) :
    Between I D R ⟨none, q.haltAll w⟩ :=
  ⟨h.inv_of_reset _ (h.reset w hw), fun _ => h.reset w hw, nofun⟩

theorem between_step (h : Outline q I D S R) {s s' : Sequence.State ω}
    {e : Sequence.Event ι υ} (hs : Between I D R s) (he : q.step s e = some s') :
    Between I D R s' := by
  cases e with
  | tick input =>
    cases he
    obtain ⟨hinv, hrun⟩ := h.tickFrom input _ _ _ rfl (h.entry hs)
    unfold Sequence.tick
    split
    · rename_i i w hw
      rw [hw] at hinv hrun
      refine ⟨hinv, nofun, fun j hj => ?_⟩
      cases hj
      exact hrun rfl
    · rename_i result i w _ hw
      rw [hw] at hinv
      exact h.between_reset hinv
  | halt =>
    cases he
    exact h.between_reset hs.1
  | update u =>
    cases he
    obtain ⟨current, w⟩ := s
    cases current with
    | none =>
      have hd := h.update_reset u w (hs.2.1 rfl)
      exact ⟨h.inv_of_reset _ hd, fun _ => hd, nofun⟩
    | some i =>
      have hr := h.update_running i u w (hs.2.2 i rfl)
      refine ⟨h.inv_of_running i _ hr, nofun, fun j hj => ?_⟩
      cases hj
      exact hr

/-- **The invariant of an outlined sequence** holds throughout every run from a reset state. -/
theorem always (h : Outline q I D S R) {w : ω} (hw : D w) (es : List (Sequence.Event ι υ)) :
    Always q.step (fun s => I s.world) ⟨none, w⟩ es :=
  (always_of_invariant es ⟨h.inv_of_reset w hw, fun _ => hw, nofun⟩
    fun _ _ _ hs he => h.between_step hs he).mono fun _ hs => hs.1

end Outline

/-- An answer that meets one outline meets another one that asks for less. -/
theorem Answer.mono {I : ω → Prop} {S S' R R' : Nat → ω → Prop} {i : Nat}
    {x : Except ε NodeStatus × ω} (h : Answer I S R i x) (hS : ∀ w, S (i + 1) w → S' (i + 1) w)
    (hR : ∀ w, R i w → R' i w) : Answer I S' R' i x := by
  obtain ⟨_ | status, w⟩ := x
  · exact h
  · cases status with
    | running => exact hR w h
    | success => exact hS w h
    | skipped => exact hS w h
    | _ => exact h

/-! ## Ticks that succeed -/

/-- Whatever is not RUNNING leaves the sequence reset. -/
theorem Sequence.tick_current (q : Sequence ι ε ω υ) (input : ι) {s : Sequence.State ω}
    (h : (q.tick input s).1 ≠ .ok .running) : (q.tick input s).2.current = none := by
  unfold Sequence.tick at h ⊢
  split at h
  · exact absurd rfl h
  · rfl

theorem Sequence.tick_of_success {q : Sequence ι ε ω υ} {input : ι} {s : Sequence.State ω}
    (h : (q.tick input s).1 = .ok .success) :
    let r := tickFrom input (q.children.drop (q.entry s).1) (q.entry s).1 (q.entry s).2
    r.1 = .ok .success ∧ (q.tick input s).2.world = q.haltAll r.2.2 := by
  unfold Sequence.tick at h ⊢
  split at h
  · cases h
  · rename_i result i w _ hr
    rw [hr]
    exact ⟨h, rfl⟩

/-- A sequence that succeeds has none of the children left that it ticked. -/
theorem Outline.tickFrom_success {q : Sequence ι ε ω υ} {I D : ω → Prop} {S R : Nat → ω → Prop}
    (h : Outline q I D S R) (input : ι) {cs : List (Child ι ε ω)} {i : Nat} {w : ω}
    (hcs : q.children.drop i = cs) (hw : S i w ∨ R i w)
    (hr : (BehaviorTree.tickFrom input cs i w).1 = .ok .success) :
    ∃ j, q.children.length ≤ j ∧ (S j (BehaviorTree.tickFrom input cs i w).2.2 ∨
      R j (BehaviorTree.tickFrom input cs i w).2.2) := by
  induction cs generalizing i w with
  | nil => exact ⟨i, List.drop_eq_nil_iff.mp hcs, hw⟩
  | cons c cs ih =>
    have hget : q.children[i]? = some c := by
      rw [← List.head?_drop, hcs, List.head?_cons]
    have hdrop : q.children.drop (i + 1) = cs := by
      rw [← List.tail_drop, hcs, List.tail_cons]
    have hanswer := h.child i c hget input w hw
    unfold BehaviorTree.tickFrom at hr ⊢
    generalize c.tick input w = answer at hr hanswer ⊢
    obtain ⟨_ | status, w'⟩ := answer
    · cases hr
    · cases status with
      | success => exact ih hdrop (.inl hanswer) hr
      | skipped => exact ih hdrop (.inl hanswer) hr
      | _ => cases hr

/-- Every one of them has succeeded, or was skipped. -/
theorem tickFrom_success_mem (input : ι) {cs : List (Child ι ε ω)} {i : Nat} {w : ω}
    (hr : (tickFrom input cs i w).1 = .ok .success) :
    ∀ c ∈ cs, ∃ w', (c.tick input w').1 = .ok .success ∨ (c.tick input w').1 = .ok .skipped := by
  induction cs generalizing i w with
  | nil => intro c hc; cases hc
  | cons d cs ih =>
    intro c hc
    unfold tickFrom at hr
    generalize hanswer : d.tick input w = answer at hr
    obtain ⟨_ | status, w'⟩ := answer
    · cases hr
    · cases status with
      | success =>
        rcases List.mem_cons.mp hc with rfl | hc
        · exact ⟨w, .inl (by rw [hanswer])⟩
        · exact ih hr c hc
      | skipped =>
        rcases List.mem_cons.mp hc with rfl | hc
        · exact ⟨w, .inr (by rw [hanswer])⟩
        · exact ih hr c hc
      | _ => cases hr

/-! ## What every child keeps -/

namespace Sequence

/-- The start of a traversal and every tick and halt of a child keep `I`. -/
structure Keeps (q : Sequence ι ε ω υ) (I : ω → Prop) : Prop where
  start : ∀ w, I w → I (q.start w)
  tick : ∀ c ∈ q.children, ∀ input w, I w → I (c.tick input w).2
  halt : ∀ c ∈ q.children, ∀ w, I w → I (c.halt w)

variable {q : Sequence ι ε ω υ} {I : ω → Prop}

theorem Keeps.tickFrom (h : q.Keeps I) (input : ι) {cs : List (Child ι ε ω)}
    (hcs : ∀ c ∈ cs, c ∈ q.children) (i : Nat) {w : ω} (hw : I w) :
    I (BehaviorTree.tickFrom input cs i w).2.2 := by
  induction cs generalizing i w with
  | nil => exact hw
  | cons c cs ih =>
    have hrest : ∀ d ∈ cs, d ∈ q.children := fun d hd => hcs d (List.mem_cons_of_mem c hd)
    have hnext : I (c.tick input w).2 := h.tick c (hcs c List.mem_cons_self) input w hw
    unfold BehaviorTree.tickFrom
    split
    · rename_i w' hw'
      rw [hw'] at hnext
      exact ih hrest (i + 1) hnext
    · rename_i w' hw'
      rw [hw'] at hnext
      exact ih hrest (i + 1) hnext
    · rename_i result w' _ _ hw'
      rw [hw'] at hnext
      exact hnext

theorem Keeps.haltAll (h : q.Keeps I) {w : ω} (hw : I w) : I (q.haltAll w) := by
  have hfold : ∀ (cs : List (Child ι ε ω)) (w : ω), (∀ c ∈ cs, c ∈ q.children) → I w →
      I (cs.foldl (fun w c => c.halt w) w) := by
    intro cs
    induction cs with
    | nil => exact fun _ _ hw => hw
    | cons c cs ih =>
      intro w hcs hw
      exact ih _ (fun d hd => hcs d (List.mem_cons_of_mem c hd))
        (h.halt c (hcs c List.mem_cons_self) w hw)
  exact hfold q.children w (fun _ hc => hc) hw

/-- **What every child keeps, a tick of the sequence keeps.** -/
theorem Keeps.world_tick (h : q.Keeps I) (input : ι) {s : State ω} (hs : I s.world) :
    I (q.tick input s).2.world := by
  have hentry : I (q.entry s).2 := by
    unfold Sequence.entry
    split
    · exact hs
    · exact h.start _ hs
  have hticked := h.tickFrom input
    (fun _ hc => List.mem_of_mem_drop (i := (q.entry s).1) hc) (q.entry s).1 hentry
  unfold Sequence.tick
  split
  · rename_i i w hw
    rw [hw] at hticked
    exact hticked
  · rename_i result i w _ hw
    rw [hw] at hticked
    exact h.haltAll hticked

end Sequence

end BehaviorTree
