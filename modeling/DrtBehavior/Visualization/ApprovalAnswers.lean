import DrtBehavior.Visualization.ApprovalWidget

/-!
# The answers the approval widget sends

Whatever the order of arrivals, timer firings and presses, also of presses while the buttons are
hidden, `BehaviorApprovalWidget` invents no answer and repeats none.

* `AnsweredOnce` — the buttons show that a request is held; every response is for a request taken,
  no request has two, the held one has none.
* `Pressed` — a response carries the value of a press made while its request was held.
* `approval_answers_genuine` — all of it, throughout every run.
* `answers_in_order_and_losses` — answers go out in the order of arrival; the requests without one
  are counted by the firings that overwrite a held request.
-/

set_option autoImplicit false

namespace DrtBehavior

namespace Approval

open EventMachine BehaviorApprovalWidget

/-- What the responses sent so far say about the requests taken so far. -/
def AnsweredOnce (s : Session) : Prop :=
  (s.widget.approvalChoiceVisible = true ↔ s.widget.requestHeader.isSome = true) ∧
    (∀ answer ∈ s.widget.approvalService.responses, answer.1 ∈ s.taken) ∧
    (∀ r, s.widget.approvalService.answers r ≤ 1) ∧
    ∀ r, s.widget.requestHeader = some r → s.widget.approvalService.answers r = 0

/-- Somewhere in the run the user pressed the button with the value of the answer, while the
    request answered was held; that request had been taken before. -/
def Pressed (es : List Event) (answer : RequestId × TriggerResponse) : Prop :=
  ∃ pre post s, es = pre ++ .press answer.2.success :: post ∧
    run step Session.initial pre = some s ∧ s.widget.requestHeader = some answer.1 ∧
    answer.1 ∈ s.taken

/-- A press without a held request sends nothing. -/
def SilentWithoutRequest (s : Session) (e : Event) (s' : Session) : Prop :=
  ∀ input, e = .press input → s.widget.requestHeader = none →
    s'.widget.approvalService.responses = s.widget.approvalService.responses

/-- **Everything a step can do to the responses.**  Only a press with a held request sends one,
    for that request and with the value of the press. -/
theorem responses_cases {s s' : Session} {e : Event} (hs : step s e = some s') :
    s'.widget.approvalService.responses = s.widget.approvalService.responses ∨
    ∃ input id, e = .press input ∧ s.widget.requestHeader = some id ∧
      s'.widget.approvalService.responses =
        s.widget.approvalService.responses ++ [(id, ⟨input, []⟩)] := by
  cases e with
  | arrive id =>
    obtain ⟨_, rfl⟩ := step_arrive hs
    exact .inl rfl
  | timer =>
    rcases step_timer_cases hs with ⟨_, rfl⟩ | ⟨r, rs, _, rfl⟩
    · exact .inl rfl
    · exact .inl rfl
  | press input =>
    rcases step_press_cases hs with ⟨_, rfl⟩ | ⟨id, hh, rfl⟩
    · exact .inl rfl
    · exact .inr ⟨input, id, rfl, hh, rfl⟩

theorem silentWithoutRequest {s s' : Session} {e : Event} (hs : step s e = some s') :
    SilentWithoutRequest s e s' := by
  intro input _ hnone
  rcases responses_cases hs with h | ⟨_, id, _, hheld, _⟩
  · exact h
  · rw [hnone] at hheld
    cases hheld

/-- A response to a request means a positive count of answers, so the request has been taken. -/
theorem Bookkeeping.answeredOnce {s : Session} (hb : Bookkeeping s) : AnsweredOnce s := by
  refine ⟨by rw [hb.visible], ?_, hb.answers_le_one, hb.held_unanswered⟩
  intro answer hm
  refine Classical.byContradiction fun hn => ?_
  have h0 := hb.answered_taken answer.1 hn
  exact List.count_eq_zero.mp h0 (List.mem_map_of_mem hm)

theorem bookkeeping_always (es : List Event) :
    Always step Bookkeeping Session.initial es :=
  always_of_invariant es bookkeeping_initial fun _ _ _ hi hs => bookkeeping_step hi hs

/-- The step that sent a response is the press it reports. -/
theorem pressed_of_response {es : List Event} {s : Session}
    (hr : run step Session.initial es = some s) {answer : RequestId × TriggerResponse}
    (hm : answer ∈ s.widget.approvalService.responses) : Pressed es answer := by
  obtain ⟨pre, e, post, s₁, s₂, rfl, hpre, hs, hbefore, hafter⟩ :=
    exists_step_of_run (P := fun s => answer ∈ s.widget.approvalService.responses) hr
      (List.not_mem_nil) hm
  rcases responses_cases hs with h | ⟨input, id, rfl, hheld, h⟩
  · rw [h] at hafter
    exact absurd hafter hbefore
  · rw [h] at hafter
    rcases List.mem_append.mp hafter with hold | hnew
    · exact absurd hold hbefore
    · obtain rfl := List.mem_singleton.mp hnew
      have hb := bookkeeping_always pre pre s₁ (List.prefix_refl pre) hpre
      exact ⟨pre, post, s₁, rfl, hpre, hheld, hb.held_taken id hheld⟩

/-- **No answer is invented or repeated.**  In every state of every run the buttons are visible
    exactly while a request is held, every response belongs to a request taken before, no request
    has two responses and the held one has none; every response carries the value of a press made
    while its request was held; and a press without a held request sends nothing. -/
theorem approval_answers_genuine (es : List Event) :
    Always step AnsweredOnce Session.initial es ∧
      (∀ s ∈ run step Session.initial es, ∀ answer ∈ s.widget.approvalService.responses,
        Pressed es answer) ∧
      EachStep step SilentWithoutRequest Session.initial es := by
  refine ⟨(bookkeeping_always es).mono fun _ hb => hb.answeredOnce, ?_, ?_⟩
  · intro s hr answer hm
    exact pressed_of_response hr hm
  · intro pre e s₁ s₂ _ _ hs
    exact silentWithoutRequest hs

/-! ## Order and losses -/

/-- Requests are taken in the order of arrival; those answered and the held one are among the taken
    ones, in this order. -/
structure InOrder (s : Session) : Prop where
  arrived : s.arrived = s.taken ++ s.widget.approvalService.queue
  answered : (s.widget.approvalService.responses.map Prod.fst ++
    s.widget.requestHeader.toList).Sublist s.taken

theorem inOrder_initial : InOrder Session.initial := ⟨rfl, List.Sublist.slnil⟩

theorem inOrder_step {s s' : Session} {e : Event} (h : InOrder s) (hs : step s e = some s') :
    InOrder s' := by
  cases e with
  | arrive id =>
    obtain ⟨_, rfl⟩ := step_arrive hs
    refine ⟨?_, h.answered⟩
    rw [h.arrived, List.append_assoc]
  | timer =>
    rcases step_timer_cases hs with ⟨_, rfl⟩ | ⟨r, rs, hq, rfl⟩
    · exact h
    · have hanswered := (List.sublist_append_left _ _).trans h.answered
      refine ⟨?_, hanswered.append (List.Sublist.refl [r])⟩
      rw [h.arrived, hq, List.append_assoc]
      rfl
  | press input =>
    rcases step_press_cases hs with ⟨_, rfl⟩ | ⟨id, hh, rfl⟩
    · exact ⟨h.arrived, h.answered⟩
    · refine ⟨h.arrived, ?_⟩
      have hanswered := h.answered
      rw [hh] at hanswered
      simpa [ApprovalService.sendResponse] using hanswered

/-- 1 for a firing of the timer that takes a request while another one is held. -/
def overwrites (s : Session) (e : Event) (_ : Session) : Nat :=
  if e = .timer ∧ s.widget.approvalService.queue ≠ [] ∧ s.widget.requestHeader ≠ none then 1 else 0

/-- The requests taken that are answered or held. -/
def accountedFor (s : Session) : Nat :=
  s.widget.approvalService.responses.length + s.widget.requestHeader.toList.length

theorem overwrites_step (s : Session) (e : Event) (s' : Session) (hs : step s e = some s') :
    s'.taken.length + accountedFor s = s.taken.length + accountedFor s' + overwrites s e s' := by
  cases e with
  | arrive id =>
    obtain ⟨_, rfl⟩ := step_arrive hs
    simp [accountedFor, overwrites]
  | timer =>
    rcases step_timer_cases hs with ⟨hq, rfl⟩ | ⟨r, rs, hq, rfl⟩
    · simp [overwrites, hq]
    · cases hh : s.widget.requestHeader <;> simp [accountedFor, overwrites, hq, hh] <;> omega
  | press input =>
    rcases step_press_cases hs with ⟨hh, rfl⟩ | ⟨id, hh, rfl⟩
    · simp [accountedFor, overwrites]
    · simp [accountedFor, overwrites, hh, ApprovalService.sendResponse]

/-- **Answers in order, losses counted.**  In every run the answers go out in the order in which the
    requests have arrived, and the requests that have arrived are those answered, the held one,
    those in the queue, and one for each firing of the timer that has overwritten a held request. -/
theorem answers_in_order_and_losses (es : List Event) (s : Session)
    (hr : run step Session.initial es = some s) :
    (s.widget.approvalService.responses.map Prod.fst).Sublist s.arrived ∧
      s.arrived.length = s.widget.approvalService.responses.length +
        s.widget.requestHeader.toList.length + s.widget.approvalService.queue.length +
        tally step overwrites Session.initial es := by
  have h : InOrder s :=
    (always_of_invariant es inOrder_initial fun _ _ _ hi hs => inOrder_step hi hs).last hr
  have hcount : s.taken.length + accountedFor Session.initial =
      Session.initial.taken.length + accountedFor s + tally step overwrites Session.initial es :=
    tally_eq overwrites_step hr
  refine ⟨?_, ?_⟩
  · rw [h.arrived]
    exact ((List.sublist_append_left _ _).trans h.answered).trans (List.sublist_append_left _ _)
  · rw [h.arrived, List.length_append]
    have hstart : Session.initial.taken.length = 0 ∧ accountedFor Session.initial = 0 := ⟨rfl, rfl⟩
    rw [hstart.1, hstart.2, accountedFor] at hcount
    omega

/-- Three requests, two of them taken before the first answer. -/
theorem answers_in_order_and_losses_three :
    let es : List Event := [.arrive ⟨[1], 1⟩, .arrive ⟨[2], 1⟩, .timer, .arrive ⟨[1], 2⟩, .timer,
      .press true, .timer, .press false]
    ∃ s, run step Session.initial es = some s ∧
      (s.widget.approvalService.responses.map Prod.fst).Sublist s.arrived ∧
      s.arrived.length = s.widget.approvalService.responses.length +
        s.widget.requestHeader.toList.length + s.widget.approvalService.queue.length +
        tally step overwrites Session.initial es := by
  intro es
  exact ⟨_, rfl, answers_in_order_and_losses es _ rfl⟩

end Approval

end DrtBehavior
