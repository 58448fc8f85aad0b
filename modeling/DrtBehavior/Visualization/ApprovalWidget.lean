import Mathlib.Data.List.Count
import DrtBehavior.Base.EventMachine
import DrtBehavior.Platform

/-!
# The approval widget

`BehaviorApprovalWidget` of `drt_behavior_visualization` polls the approval service on a timer,
shows Yes/No buttons for a request and sends the user's press back as the response.

* `timerCb`, `processInput` — the two callbacks, atomic on the Qt thread.
* `Session` — the widget with the clients and the user: requests with fresh ids arrive, the timer
  fires, the user presses.
* `approval_not_lost_iff` — no request is lost iff the timer never takes a request while another
  one is undecided.  `timerCb` has no such guard: `second_request_overwrites_first`.
-/

set_option autoImplicit false

namespace DrtBehavior

/-- `rmw_request_id_t`. -/
structure RequestId where
  writerGuid : List UInt8
  sequenceNumber : Int
  deriving DecidableEq, Repr

/-- `std_srvs::srv::Trigger::Response`. -/
structure TriggerResponse where
  success : Bool
  message : StdString
  deriving DecidableEq, Repr

/-- `rclcpp::Service<Trigger>`: the requests not taken yet, oldest first, and the responses sent. -/
structure ApprovalService where
  queue : List RequestId
  responses : List (RequestId × TriggerResponse)
  deriving DecidableEq, Repr

namespace ApprovalService

def takeRequest (s : ApprovalService) : Option (RequestId × ApprovalService) :=
  match s.queue with
  | [] => none
  | r :: rs => some (r, { s with queue := rs })

def sendResponse (s : ApprovalService) (id : RequestId) (response : TriggerResponse) :
    ApprovalService :=
  { s with responses := s.responses ++ [(id, response)] }

/-- The number of responses sent to a request. -/
def answers (s : ApprovalService) (id : RequestId) : Nat := (s.responses.map Prod.fst).count id

theorem answers_sendResponse (s : ApprovalService) (id : RequestId) (response : TriggerResponse)
    (r : RequestId) :
    (s.sendResponse id response).answers r = s.answers r + if id = r then 1 else 0 := by
  simp [answers, sendResponse, List.count_append, List.count_singleton, beq_iff_eq]

end ApprovalService

structure BehaviorApprovalWidget where
  approvalService : ApprovalService
  requestHeader : Option RequestId
  approvalChoiceVisible : Bool
  deriving DecidableEq, Repr

namespace BehaviorApprovalWidget

/-- The constructor hides the buttons. -/
def initial : BehaviorApprovalWidget := ⟨⟨[], []⟩, none, false⟩

/-- `timer_cb`. -/
def timerCb (w : BehaviorApprovalWidget) : BehaviorApprovalWidget :=
  match w.approvalService.takeRequest with
  | some (reqId, service) =>
    { approvalService := service, requestHeader := some reqId, approvalChoiceVisible := true }
  | none => w

/-- `process_input`. -/
def processInput (input : Bool) (w : BehaviorApprovalWidget) : BehaviorApprovalWidget :=
  match w.requestHeader with
  | some id =>
    { approvalService := w.approvalService.sendResponse id ⟨input, []⟩
      requestHeader := none
      approvalChoiceVisible := false }
  | none => { w with approvalChoiceVisible := false }

theorem timerCb_of_queue {w : BehaviorApprovalWidget} {r : RequestId} {rs : List RequestId}
    (hq : w.approvalService.queue = r :: rs) :
    timerCb w =
      { approvalService := { w.approvalService with queue := rs }
        requestHeader := some r, approvalChoiceVisible := true } := by
  simp [timerCb, ApprovalService.takeRequest, hq]

theorem processInput_of_some {w : BehaviorApprovalWidget} {id : RequestId} (input : Bool)
    (hh : w.requestHeader = some id) :
    processInput input w =
      { approvalService := w.approvalService.sendResponse id ⟨input, []⟩
        requestHeader := none, approvalChoiceVisible := false } := by
  simp [processInput, hh]

theorem processInput_of_none {w : BehaviorApprovalWidget} (input : Bool)
    (hh : w.requestHeader = none) :
    processInput input w = { w with approvalChoiceVisible := false } := by
  simp [processInput, hh]

end BehaviorApprovalWidget

namespace Approval

open EventMachine BehaviorApprovalWidget

inductive Event where
  | arrive (id : RequestId)
  | timer
  | press (input : Bool)
  deriving DecidableEq, Repr

/-- The widget, all requests that arrived, those `timer_cb` took, and the request for which the
    buttons were last turned from hidden to visible. -/
structure Session where
  widget : BehaviorApprovalWidget
  arrived : List RequestId
  taken : List RequestId
  shownFor : Option RequestId
  deriving DecidableEq, Repr

def Session.initial : Session := ⟨BehaviorApprovalWidget.initial, [], [], none⟩

/-- The request ids of a service are pairwise distinct, so an id arrives once. -/
def step (s : Session) : Event → Option Session
  | .arrive id =>
    if id ∈ s.arrived then none
    else
      let service := s.widget.approvalService
      some { s with
        widget :=
          { s.widget with approvalService := { service with queue := service.queue ++ [id] } }
        arrived := s.arrived ++ [id] }
  | .timer =>
    match s.widget.approvalService.queue with
    | [] => some { s with widget := timerCb s.widget }
    | r :: _ =>
      some { s with
        widget := timerCb s.widget
        taken := s.taken ++ [r]
        shownFor := if s.widget.approvalChoiceVisible then s.shownFor else some r }
  | .press input => some { s with widget := processInput input s.widget, shownFor := none }

/-- Every request taken is the held one, still unanswered, or has been answered exactly once; and
    while the buttons are visible, the next press answers the request they were shown for. -/
def NotLost (s : Session) : Prop :=
  (∀ r ∈ s.taken,
    (s.widget.requestHeader = some r ∧ s.widget.approvalService.answers r = 0) ∨
      (s.widget.requestHeader ≠ some r ∧ s.widget.approvalService.answers r = 1)) ∧
    (s.widget.approvalChoiceVisible = true →
      s.shownFor.isSome ∧ s.widget.requestHeader = s.shownFor)

instance (s : Session) : Decidable (NotLost s) :=
  inferInstanceAs (Decidable ((∀ r ∈ s.taken, _ ∨ _) ∧ (_ → _ ∧ _)))

/-- The timer does not take a request while another one is held. -/
def TakesOnlyWhenFree (s : Session) (e : Event) : Prop :=
  e = .timer → s.widget.approvalService.queue ≠ [] → s.widget.requestHeader = none

/-- What holds of the queue, the held request, the buttons and the responses in every state,
    whenever the timer fires. -/
structure Bookkeeping (s : Session) : Prop where
  queue_nodup : s.widget.approvalService.queue.Nodup
  queue_arrived : ∀ r ∈ s.widget.approvalService.queue, r ∈ s.arrived ∧ r ∉ s.taken
  taken_arrived : ∀ r ∈ s.taken, r ∈ s.arrived
  held_taken : ∀ r, s.widget.requestHeader = some r → r ∈ s.taken
  answered_taken : ∀ r, r ∉ s.taken → s.widget.approvalService.answers r = 0
  answers_le_one : ∀ r, s.widget.approvalService.answers r ≤ 1
  held_unanswered : ∀ r, s.widget.requestHeader = some r →
    s.widget.approvalService.answers r = 0
  visible : s.widget.approvalChoiceVisible = s.widget.requestHeader.isSome

structure Inv (s : Session) : Prop extends Bookkeeping s where
  shown : s.shownFor = s.widget.requestHeader
  notLost : NotLost s

/-! ## What a step can do -/

theorem step_arrive {s s' : Session} {id : RequestId} (hs : step s (.arrive id) = some s') :
    id ∉ s.arrived ∧
      s' = { s with
        widget := { s.widget with
          approvalService := { s.widget.approvalService with
            queue := s.widget.approvalService.queue ++ [id] } }
        arrived := s.arrived ++ [id] } := by
  simp only [step] at hs
  split at hs
  · cases hs
  · rename_i hid
    cases hs
    exact ⟨hid, rfl⟩

theorem step_timer_cases {s s' : Session} (hs : step s .timer = some s') :
    (s.widget.approvalService.queue = [] ∧ s' = s) ∨
    ∃ r rs, s.widget.approvalService.queue = r :: rs ∧
      s' = { s with
        widget :=
          { approvalService := { s.widget.approvalService with queue := rs }
            requestHeader := some r
            approvalChoiceVisible := true }
        taken := s.taken ++ [r]
        shownFor := if s.widget.approvalChoiceVisible then s.shownFor else some r } := by
  simp only [step] at hs
  split at hs
  · rename_i hq
    cases hs
    have hw : timerCb s.widget = s.widget := by
      simp [timerCb, ApprovalService.takeRequest, hq]
    exact .inl ⟨hq, by rw [hw]⟩
  · rename_i r rs hq
    cases hs
    exact .inr ⟨r, rs, hq, by rw [timerCb_of_queue hq]⟩

theorem step_press_cases {s s' : Session} {input : Bool}
    (hs : step s (.press input) = some s') :
    (s.widget.requestHeader = none ∧
      s' = { s with
        widget := { s.widget with approvalChoiceVisible := false }
        shownFor := none }) ∨
    ∃ id, s.widget.requestHeader = some id ∧
      s' = { s with
        widget :=
          { approvalService := s.widget.approvalService.sendResponse id ⟨input, []⟩
            requestHeader := none
            approvalChoiceVisible := false }
        shownFor := none } := by
  cases hs
  cases hh : s.widget.requestHeader with
  | none => exact .inl ⟨rfl, by rw [processInput_of_none input hh]⟩
  | some id => exact .inr ⟨id, rfl, by rw [processInput_of_some input hh]⟩

/-! ## The bookkeeping -/

theorem bookkeeping_initial : Bookkeeping Session.initial where
  queue_nodup := List.nodup_nil
  queue_arrived _ h := by cases h
  taken_arrived _ h := by cases h
  held_taken _ h := by cases h
  answered_taken _ _ := rfl
  answers_le_one _ := Nat.zero_le 1
  held_unanswered _ h := by cases h
  visible := rfl

theorem bookkeeping_arrive {s s' : Session} {id : RequestId} (hi : Bookkeeping s)
    (hs : step s (.arrive id) = some s') : Bookkeeping s' := by
  obtain ⟨hid, rfl⟩ := step_arrive hs
  refine ⟨?_, ?_, ?_, hi.held_taken, hi.answered_taken, hi.answers_le_one,
    hi.held_unanswered, hi.visible⟩
  · have hq : id ∉ s.widget.approvalService.queue := fun h => hid (hi.queue_arrived id h).1
    refine List.nodup_append.mpr ⟨hi.queue_nodup, List.pairwise_singleton _ id, ?_⟩
    intro a ha b hb hab
    rw [List.mem_singleton.mp hb] at hab
    exact hq (hab ▸ ha)
  · intro r hr
    rcases List.mem_append.mp hr with hr | hr
    · exact ⟨List.mem_append_left _ (hi.queue_arrived r hr).1, (hi.queue_arrived r hr).2⟩
    · simp only [List.mem_singleton] at hr
      subst hr
      exact ⟨by simp, fun h => hid (hi.taken_arrived r h)⟩
  · intro r hr
    exact List.mem_append_left _ (hi.taken_arrived r hr)

/-- The request the timer takes has not been taken before, so it has no answer yet. -/
theorem bookkeeping_timer {s s' : Session} (hi : Bookkeeping s)
    (hs : step s .timer = some s') : Bookkeeping s' := by
  rcases step_timer_cases hs with ⟨_, rfl⟩ | ⟨r, rs, hq, rfl⟩
  · exact hi
  · have hnd := hi.queue_nodup
    rw [hq, List.nodup_cons] at hnd
    have hfresh := hi.queue_arrived r (by rw [hq]; exact List.mem_cons_self)
    refine ⟨hnd.2, ?_, ?_, ?_, ?_, hi.answers_le_one, ?_, rfl⟩
    · intro q hqm
      have hq' := hi.queue_arrived q (by rw [hq]; exact List.mem_cons_of_mem _ hqm)
      refine ⟨hq'.1, ?_⟩
      simp only [List.mem_append, List.mem_singleton, not_or]
      exact ⟨hq'.2, fun he => hnd.1 (he ▸ hqm)⟩
    · intro q hqm
      rcases List.mem_append.mp hqm with hqm | hqm
      · exact hi.taken_arrived q hqm
      · rw [List.mem_singleton.mp hqm]
        exact hfresh.1
    · intro q hqm
      obtain rfl := Option.some.inj hqm
      exact List.mem_append_right _ (List.mem_singleton_self r)
    · intro q hqm
      simp only [List.mem_append, List.mem_singleton, not_or] at hqm
      exact hi.answered_taken q hqm.1
    · intro q hqm
      obtain rfl := Option.some.inj hqm
      exact hi.answered_taken r hfresh.2

theorem bookkeeping_press {s s' : Session} {input : Bool} (hi : Bookkeeping s)
    (hs : step s (.press input) = some s') : Bookkeeping s' := by
  rcases step_press_cases hs with ⟨hh, rfl⟩ | ⟨id, hh, rfl⟩
  · refine ⟨hi.queue_nodup, hi.queue_arrived, hi.taken_arrived, hi.held_taken,
      hi.answered_taken, hi.answers_le_one, hi.held_unanswered, ?_⟩
    show false = s.widget.requestHeader.isSome
    rw [hh]
    rfl
  · have hans := ApprovalService.answers_sendResponse s.widget.approvalService id ⟨input, []⟩
    refine ⟨hi.queue_nodup, hi.queue_arrived, hi.taken_arrived, nofun, ?_, ?_, nofun, rfl⟩
    · intro r hr
      have hne : id ≠ r := fun he => hr (he ▸ hi.held_taken id hh)
      rw [hans, if_neg hne]
      exact hi.answered_taken r hr
    · intro r
      rw [hans]
      split
      · rename_i he
        rw [hi.held_unanswered r (he ▸ hh)]
      · exact hi.answers_le_one r

theorem bookkeeping_step {s s' : Session} {e : Event} (hi : Bookkeeping s)
    (hs : step s e = some s') : Bookkeeping s' := by
  cases e with
  | arrive id => exact bookkeeping_arrive hi hs
  | timer => exact bookkeeping_timer hi hs
  | press input => exact bookkeeping_press hi hs

/-! ## While the timer takes one request at a time -/

theorem inv_initial : Inv Session.initial :=
  ⟨bookkeeping_initial, rfl, by decide⟩

theorem inv_arrive {s s' : Session} {id : RequestId} (hi : Inv s)
    (hs : step s (.arrive id) = some s') : Inv s' := by
  have hb := bookkeeping_arrive hi.toBookkeeping hs
  obtain ⟨_, rfl⟩ := step_arrive hs
  exact ⟨hb, hi.shown, hi.notLost⟩

/-- Taking a request while none is held: it becomes the held one and is not answered yet. -/
theorem inv_timer {s s' : Session} (hi : Inv s) (hs : step s .timer = some s')
    (hg : TakesOnlyWhenFree s .timer) : Inv s' := by
  have hb := bookkeeping_timer hi.toBookkeeping hs
  rcases step_timer_cases hs with ⟨_, rfl⟩ | ⟨r, rs, hq, rfl⟩
  · exact hi
  · have hfree : s.widget.requestHeader = none := hg rfl (by rw [hq]; exact List.cons_ne_nil _ _)
    have hhidden : s.widget.approvalChoiceVisible = false := by rw [hi.visible, hfree]; rfl
    have hfresh := hi.queue_arrived r (by rw [hq]; exact List.mem_cons_self)
    refine ⟨hb, by simp [hhidden], ?_, by simp [hhidden]⟩
    intro q hqm
    rcases List.mem_append.mp hqm with hqm | hqm
    · have hne : q ≠ r := fun he => hfresh.2 (he ▸ hqm)
      rcases hi.notLost.1 q hqm with ⟨hheld, _⟩ | ⟨_, hans⟩
      · rw [hfree] at hheld
        cases hheld
      · exact .inr ⟨fun he => hne (Option.some.inj he).symm, hans⟩
    · rw [List.mem_singleton.mp hqm]
      exact .inl ⟨rfl, hi.answered_taken r hfresh.2⟩

theorem inv_press {s s' : Session} {input : Bool} (hi : Inv s)
    (hs : step s (.press input) = some s') : Inv s' := by
  have hb := bookkeeping_press hi.toBookkeeping hs
  rcases step_press_cases hs with ⟨hh, rfl⟩ | ⟨id, hh, rfl⟩
  · exact ⟨hb, hh.symm, hi.notLost.1, nofun⟩
  · refine ⟨hb, rfl, fun r hr => .inr ⟨nofun, ?_⟩, nofun⟩
    rw [ApprovalService.answers_sendResponse]
    rcases hi.notLost.1 r hr with ⟨hheld, h0⟩ | ⟨hheld, h1⟩
    · rw [hh, Option.some.injEq] at hheld
      rw [if_pos hheld, h0]
    · have hne : id ≠ r := fun he => hheld (by rw [hh, he])
      rw [if_neg hne, h1]

theorem inv_step {s s' : Session} {e : Event} (hi : Inv s) (hs : step s e = some s')
    (hg : TakesOnlyWhenFree s e) : Inv s' := by
  cases e with
  | arrive id => exact inv_arrive hi hs
  | timer => exact inv_timer hi hs hg
  | press input => exact inv_press hi hs

/-- Taking a request while another one is held loses the held one: it is neither held nor
    answered any more. -/
theorem lost_of_overwrite {s s' : Session} {e : Event} (hi : Inv s) (hs : step s e = some s')
    (hg : ¬ TakesOnlyWhenFree s e) : ¬ NotLost s' := by
  unfold TakesOnlyWhenFree at hg
  push Not at hg
  obtain ⟨rfl, hne, hheld⟩ := hg
  obtain ⟨held, hheld⟩ := Option.ne_none_iff_exists'.mp hheld
  rcases step_timer_cases hs with ⟨hq, _⟩ | ⟨r, rs, hq, rfl⟩
  · exact absurd hq hne
  · have hmem := hi.held_taken held hheld
    have hrt : r ∉ s.taken := (hi.queue_arrived r (by rw [hq]; exact List.mem_cons_self)).2
    have hneq : r ≠ held := fun he => hrt (he ▸ hmem)
    have h0 := hi.held_unanswered held hheld
    intro hlost
    rcases hlost.1 held (List.mem_append_left _ hmem) with ⟨he, _⟩ | ⟨_, h1⟩
    · exact hneq (Option.some.inj he)
    · have hsame : s.widget.approvalService.answers held = 1 := h1
      omega

/-- **No approval request is lost exactly when the timer takes requests one at a time.**  For
    every interleaving of arrivals, timer firings and presses. -/
theorem approval_not_lost_iff (es : List Event) :
    Always step NotLost Session.initial es ↔
      EachStep step (fun s e _ => TakesOnlyWhenFree s e) Session.initial es :=
  always_iff_eachStep es inv_initial (fun _ hi => hi.notLost)
    (fun _ _ _ hi hs hg => inv_step hi hs hg) fun _ _ _ hi hs hg => lost_of_overwrite hi hs hg

/-- Two requests arrive, the timer fires twice before the user presses Yes: the press answers the
    second request, the first one never gets a response. -/
theorem second_request_overwrites_first :
    let first : RequestId := ⟨[1], 1⟩
    let second : RequestId := ⟨[2], 1⟩
    let es : List Event := [.arrive first, .arrive second, .timer, .timer, .press true]
    (run step Session.initial es).map (fun s => (s.taken, s.widget)) =
        some ([first, second], ⟨⟨[], [(second, ⟨true, []⟩)]⟩, none, false⟩) ∧
      ¬ Always step NotLost Session.initial es := by
  intro first second es
  exact ⟨by decide, not_always rfl (by decide)⟩

end Approval

end DrtBehavior
