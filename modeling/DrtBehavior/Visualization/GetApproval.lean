import Mathlib.Data.List.Nodup
import DrtBehavior.Base.Refinement
import DrtBehavior.Base.Trace
import DrtBehavior.Visualization.ApprovalAnswers

/-!
# Getting an approval

`CallTriggerService` of `drt_behavior`, the leaf "Get Approval" of `CallTriggerServiceTree`, against
`BehaviorApprovalWidget`: `n` such leaves, other clients of the service, the widget's timer and the
user, in any order.

* `tick` — the service node of BehaviorTree.ROS2 around the leaf; `System`, `step` — the leaves and
  the widget, with a trace of what was sent, pressed and answered.
* `system_simulation` — the widget in the system is the widget of `Approval.step`.
* `no_stale_approval` — a SUCCESS follows a Yes to the request of the same activation.
* `one_success_per_yes` — no Yes lets two activations succeed.
* `undisturbed_approval_not_lost` — one undisturbed caller at a time loses no request.
* `lost_request_never_granted` — an overwritten request stays without SUCCESS for ever.
-/

set_option autoImplicit false

namespace DrtBehavior

open BehaviorTree

namespace CallTriggerService

/-- `setRequest`; the request has no fields. -/
def setRequest : Bool := true

def onResponseReceived (response : TriggerResponse) : NodeStatus :=
  if response.success then .success else .failure

def onFailure : NodeStatus := .failure

theorem onResponseReceived_eq_success_iff (response : TriggerResponse) :
    onResponseReceived response = .success ↔ response.success = true := by
  cases hs : response.success <;> simp [onResponseReceived, hs]

end CallTriggerService

namespace ApprovalService

/-- The response to a request, once it has been sent. -/
def responseTo (s : ApprovalService) (id : RequestId) : Option TriggerResponse :=
  (s.responses.find? (·.1 = id)).map Prod.snd

theorem mem_of_responseTo {s : ApprovalService} {id : RequestId} {response : TriggerResponse}
    (h : s.responseTo id = some response) : (id, response) ∈ s.responses := by
  obtain ⟨⟨id', _⟩, hfind, rfl⟩ := Option.map_eq_some_iff.mp h
  obtain rfl : id' = id := by simpa using List.find?_some hfind
  exact List.mem_of_find?_eq_some hfind

theorem responseTo_eq_none {s : ApprovalService} {id : RequestId} (h : s.answers id = 0) :
    s.responseTo id = none := by
  cases hr : s.responseTo id with
  | none => rfl
  | some response =>
    exact absurd (List.mem_map_of_mem (f := Prod.fst) (mem_of_responseTo hr))
      (List.count_eq_zero.mp h)

end ApprovalService

namespace GetApproval

open EventMachine Approval Trace

/-- What the trace records. -/
inductive Occurrence (n : Nat) where
  | sent (node : Fin n) (id : RequestId)
  | pressed (id : RequestId) (input : Bool)
  /-- The node leaves RUNNING, by itself with a status or because it is halted. -/
  | finished (node : Fin n) (id : RequestId) (status : NodeStatus)
  | halted (node : Fin n) (id : RequestId)
  deriving DecidableEq

/-- The leaf an occurrence is about. -/
def Occurrence.node {n : Nat} : Occurrence n → Option (Fin n)
  | .sent node _ => some node
  | .pressed _ _ => none
  | .finished node _ _ => some node
  | .halted node _ => some node

/-- The widget, the request each leaf waits for, and the trace. -/
structure System (n : Nat) where
  session : Session
  awaiting : Fin n → Option RequestId
  trace : List (Occurrence n)

/-- The environment of one tick: the id a request gets that is sent in it, whether the service is
    reachable, whether a response that was sent has been received, whether the timeout of the node
    (600 s) is over. -/
structure TickInput where
  id : RequestId
  reachable : Bool
  received : Bool
  timedOut : Bool

inductive Event (n : Nat) where
  | tick (node : Fin n) (input : TickInput)
  | halt (node : Fin n)
  | otherClient (id : RequestId)
  | timer
  | press (input : Bool)

variable {n : Nat}

def System.initial (n : Nat) : System n := ⟨Session.initial, fun _ => none, []⟩

/-- A leaf that waits no longer. -/
def System.release (s : System n) (node : Fin n) (o : Occurrence n) : System n :=
  { s with awaiting := Function.update s.awaiting node none, trace := s.trace ++ [o] }

/-- The tick of the service node around `CallTriggerService`; `none` for a tick that would send a
    request under an id that is in use. -/
def tick (s : System n) (node : Fin n) (input : TickInput) : Option (NodeStatus × System n) :=
  match s.awaiting node with
  | none =>
    if !input.reachable || !CallTriggerService.setRequest then
      some (CallTriggerService.onFailure, s)
    else
      (Approval.step s.session (.arrive input.id)).map fun session =>
        (.running,
          { session := session
            awaiting := Function.update s.awaiting node (some input.id)
            trace := s.trace ++ [.sent node input.id] })
  | some id =>
    match if input.received then s.session.widget.approvalService.responseTo id else none with
    | some response =>
      let status := CallTriggerService.onResponseReceived response
      some (status, s.release node (.finished node id status))
    | none =>
      if input.timedOut then
        some (CallTriggerService.onFailure,
          s.release node (.finished node id CallTriggerService.onFailure))
      else some (.running, s)

/-- A press of the user, as far as it answers a request. -/
def pressOccurrence (session : Session) (input : Bool) : List (Occurrence n) :=
  (session.widget.requestHeader.map fun id => .pressed id input).toList

theorem pressOccurrence_of_none {session : Session} (hh : session.widget.requestHeader = none)
    (input : Bool) : pressOccurrence session input = ([] : List (Occurrence n)) := by
  rw [pressOccurrence, hh]
  rfl

theorem pressOccurrence_of_some {session : Session} {id : RequestId}
    (hh : session.widget.requestHeader = some id) (input : Bool) :
    pressOccurrence session input = ([.pressed id input] : List (Occurrence n)) := by
  rw [pressOccurrence, hh]
  rfl

def step (s : System n) : Event n → Option (System n)
  | .tick node input => (tick s node input).map Prod.snd
  | .halt node =>
    match s.awaiting node with
    | none => some s
    | some id => some (s.release node (.halted node id))
  | .otherClient id =>
    (Approval.step s.session (.arrive id)).map fun session => { s with session }
  | .timer => (Approval.step s.session .timer).map fun session => { s with session }
  | .press input =>
    (Approval.step s.session (.press input)).map fun session =>
      { s with session, trace := s.trace ++ pressOccurrence s.session input }

/-- What a step is for the widget. -/
def label (s : System n) : Event n → List Approval.Event
  | .tick node input =>
    if s.awaiting node = none ∧ input.reachable = true then [.arrive input.id] else []
  | .halt _ => []
  | .otherClient id => [.arrive id]
  | .timer => [.timer]
  | .press input => [.press input]

/-! ## What a step can do -/

/-- Why a tick of a leaf that waits for `id` ends with `status`. -/
def Ends (s : System n) (id : RequestId) (input : TickInput) (status : NodeStatus) : Prop :=
  (∃ response, s.session.widget.approvalService.responseTo id = some response ∧
      status = CallTriggerService.onResponseReceived response) ∨
    (input.timedOut = true ∧ status = CallTriggerService.onFailure)

theorem tick_cases {s s' : System n} {node : Fin n} {input : TickInput} {status : NodeStatus}
    (h : tick s node input = some (status, s')) :
    (s.awaiting node = none ∧ input.reachable = false ∧ s' = s ∧ status = .failure) ∨
    (∃ session, s.awaiting node = none ∧ input.reachable = true ∧
      Approval.step s.session (.arrive input.id) = some session ∧ status = .running ∧
      s' = { session := session
             awaiting := Function.update s.awaiting node (some input.id)
             trace := s.trace ++ [.sent node input.id] }) ∨
    (∃ id, s.awaiting node = some id ∧ s' = s ∧ status = .running) ∨
    (∃ id, s.awaiting node = some id ∧ s' = s.release node (.finished node id status) ∧
      Ends s id input status) := by
  unfold tick at h
  split at h
  · rename_i hfree
    by_cases hreach : input.reachable = true
    · rw [if_neg (by simp [hreach, CallTriggerService.setRequest])] at h
      obtain ⟨session, hs, heq⟩ := Option.map_eq_some_iff.mp h
      cases heq
      exact .inr (.inl ⟨session, hfree, hreach, hs, rfl, rfl⟩)
    · rw [if_pos (by simp [hreach])] at h
      cases h
      exact .inl ⟨hfree, eq_false_of_ne_true hreach, rfl, rfl⟩
  · rename_i id hid
    split at h
    · rename_i response hresponse
      cases h
      have hsent : s.session.widget.approvalService.responseTo id = some response :=
        (Option.ite_none_right_eq_some.mp hresponse).2
      exact .inr (.inr (.inr ⟨id, hid, rfl, .inl ⟨response, hsent, rfl⟩⟩))
    · split at h
      · rename_i htimeout
        cases h
        exact .inr (.inr (.inr ⟨id, hid, rfl, .inr ⟨htimeout, rfl⟩⟩))
      · cases h
        exact .inr (.inr (.inl ⟨id, hid, rfl, rfl⟩))

/-- A SUCCESS comes from a response that grants the request. -/
theorem Ends.granted {s : System n} {id : RequestId} {input : TickInput}
    (h : Ends s id input .success) :
    ∃ answer ∈ s.session.widget.approvalService.responses,
      answer.1 = id ∧ answer.2.success = true := by
  rcases h with ⟨response, hsent, hstatus⟩ | ⟨_, hstatus⟩
  · exact ⟨_, ApprovalService.mem_of_responseTo hsent, rfl,
      (CallTriggerService.onResponseReceived_eq_success_iff response).mp hstatus.symm⟩
  · cases hstatus

/-- **Everything a step can do.** -/
theorem step_cases {s s' : System n} {e : Event n} (h : step s e = some s') :
    s' = s ∨
    (∃ node input session, e = .tick node input ∧ s.awaiting node = none ∧
      Approval.step s.session (.arrive input.id) = some session ∧
      s' = { session := session
             awaiting := Function.update s.awaiting node (some input.id)
             trace := s.trace ++ [.sent node input.id] }) ∨
    (∃ node id input status, e = .tick node input ∧ s.awaiting node = some id ∧
      Ends s id input status ∧ s' = s.release node (.finished node id status)) ∨
    (∃ node id, e = .halt node ∧ s.awaiting node = some id ∧
      s' = s.release node (.halted node id)) ∨
    (∃ session, (e = .timer ∧ Approval.step s.session .timer = some session ∨
        ∃ id, e = .otherClient id ∧ Approval.step s.session (.arrive id) = some session) ∧
      s' = { s with session }) ∨
    (∃ input session, e = .press input ∧
      Approval.step s.session (.press input) = some session ∧
      s' = { s with session, trace := s.trace ++ pressOccurrence s.session input }) := by
  cases e with
  | tick node input =>
    obtain ⟨⟨status, t⟩, ht, rfl⟩ := Option.map_eq_some_iff.mp h
    rcases tick_cases ht with ⟨_, _, rfl, _⟩ | ⟨session, hfree, _, hs, _, rfl⟩ | ⟨_, _, rfl, _⟩ |
      ⟨id, hid, rfl, hends⟩
    · exact .inl rfl
    · exact .inr (.inl ⟨node, input, session, rfl, hfree, hs, rfl⟩)
    · exact .inl rfl
    · exact .inr (.inr (.inl ⟨node, id, input, status, rfl, hid, hends, rfl⟩))
  | halt node =>
    simp only [step] at h
    split at h
    · cases h
      exact .inl rfl
    · rename_i id hid
      cases h
      exact .inr (.inr (.inr (.inl ⟨node, id, rfl, hid, rfl⟩)))
  | otherClient id =>
    obtain ⟨session, hs, rfl⟩ := Option.map_eq_some_iff.mp h
    exact .inr (.inr (.inr (.inr (.inl ⟨session, .inr ⟨id, rfl, hs⟩, rfl⟩))))
  | timer =>
    obtain ⟨session, hs, rfl⟩ := Option.map_eq_some_iff.mp h
    exact .inr (.inr (.inr (.inr (.inl ⟨session, .inl ⟨rfl, hs⟩, rfl⟩))))
  | press input =>
    rw [step] at h
    obtain ⟨session, hs, rfl⟩ := Option.map_eq_some_iff.mp h
    exact .inr (.inr (.inr (.inr (.inr ⟨input, session, rfl, hs, rfl⟩))))

/-! ## The widget in the system -/

theorem awaiting_release (s : System n) (node : Fin n) (o : Occurrence n) (i : Fin n) :
    (s.release node o).awaiting i = if i = node then none else s.awaiting i := by
  simp [System.release, Function.update_apply]

theorem system_matched (s : System n) (e : Event n) (s' : System n) (t : Session)
    (h : s.session = t) (hs : step s e = some s') (_ : True) :
    ∃ t', run Approval.step t (label s e) = some t' ∧ s'.session = t' := by
  subst h
  cases e with
  | tick node input =>
    obtain ⟨⟨status, t⟩, ht, rfl⟩ := Option.map_eq_some_iff.mp hs
    rcases tick_cases ht with ⟨_, hreach, rfl, _⟩ | ⟨session, hfree, hreach, hsession, _, rfl⟩ |
      ⟨id, hid, rfl, _⟩ | ⟨id, hid, rfl, _⟩
    · exact ⟨_, by simp [label, hreach], rfl⟩
    · exact ⟨session, by simp [label, hfree, hreach, run_cons, hsession], rfl⟩
    · exact ⟨_, by simp [label, hid], rfl⟩
    · exact ⟨s.session, by simp [label, hid], rfl⟩
  | halt node =>
    refine ⟨s.session, rfl, ?_⟩
    rw [step] at hs
    split at hs <;> cases hs <;> rfl
  | otherClient id =>
    obtain ⟨session, hsession, rfl⟩ := Option.map_eq_some_iff.mp hs
    exact ⟨session, by simp [label, run_cons, hsession], rfl⟩
  | timer =>
    obtain ⟨session, hsession, rfl⟩ := Option.map_eq_some_iff.mp hs
    exact ⟨session, by simp [label, run_cons, hsession], rfl⟩
  | press input =>
    rw [step] at hs
    obtain ⟨session, hsession, rfl⟩ := Option.map_eq_some_iff.mp hs
    exact ⟨session, by simp [label, run_cons, hsession], rfl⟩

/-- The system moves the widget as its clients, its timer and the user do. -/
theorem system_simulation :
    Refinement.Simulation (step (n := n)) Approval.step label (fun _ _ _ => True)
      (fun s t => s.session = t) :=
  ⟨system_matched⟩

/-- The bookkeeping of the widget holds in the system. -/
theorem bookkeeping_system (es : List (Event n)) :
    Always step (fun s => Bookkeeping s.session) (System.initial n) es :=
  system_simulation.always (t := Session.initial) (fun _ _ _ _ _ _ _ => trivial) rfl
    bookkeeping_always fun _ _ h hb => h ▸ hb

/-! ## Approvals of the same activation -/

/-- The leaf has sent `id`, nothing has happened to it since then, and whatever was answered to `id`
    was pressed since then. -/
def Waits (session : Session) (trace : List (Occurrence n)) (node : Fin n) (id : RequestId) :
    Prop :=
  ∃ mid, Since (.sent node id) (fun o => o.node ≠ some node) trace mid ∧
    ∀ answer ∈ session.widget.approvalService.responses, answer.1 = id →
      .pressed id answer.2.success ∈ mid

/-- A leaf that succeeds has waited for its request since it sent it, and the user has answered this
    request with Yes since then. -/
def GrantedSince (before : List (Occurrence n)) (o : Occurrence n) : Prop :=
  ∀ node id, o = .finished node id .success →
    ∃ mid, Since (.sent node id) (fun o => o.node ≠ some node) before mid ∧ .pressed id true ∈ mid

structure Genuine (s : System n) : Prop where
  bookkeeping : Bookkeeping s.session
  waits : ∀ node id, s.awaiting node = some id → Waits s.session s.trace node id
  granted : Explained GrantedSince s.trace

theorem genuine_initial : Genuine (System.initial n) :=
  ⟨bookkeeping_initial, nofun, explained_nil⟩

theorem Waits.concat {session session' : Session} {trace : List (Occurrence n)} {node : Fin n}
    {id : RequestId} (h : Waits session trace node id) {o : Occurrence n}
    (ho : o.node ≠ some node)
    (hresponses : ∀ answer ∈ session'.widget.approvalService.responses, answer.1 = id →
      answer ∈ session.widget.approvalService.responses ∨ o = .pressed id answer.2.success) :
    Waits session' (trace ++ [o]) node id := by
  obtain ⟨mid, hsince, hanswers⟩ := h
  refine ⟨mid ++ [o], hsince.concat ho, fun answer hm hid => ?_⟩
  rcases hresponses answer hm hid with hold | rfl
  · exact List.mem_append_left _ (hanswers answer hold hid)
  · exact List.mem_append_right _ List.mem_cons_self

/-- A leaf that sends a request under a fresh id. -/
theorem genuine_sent {s : System n} (h : Genuine s) {node : Fin n} {input : TickInput}
    {session : Session} (hs : Approval.step s.session (.arrive input.id) = some session) :
    Genuine (n := n)
      { session := session
        awaiting := Function.update s.awaiting node (some input.id)
        trace := s.trace ++ [.sent node input.id] } := by
  have hb := bookkeeping_arrive h.bookkeeping hs
  obtain ⟨hfresh, rfl⟩ := step_arrive hs
  refine ⟨hb, fun i id hi => ?_, explained_concat_iff.mpr ⟨h.granted, nofun⟩⟩
  simp only [Function.update_apply] at hi
  split at hi
  · rename_i heq
    subst heq
    obtain rfl := Option.some.inj hi
    refine ⟨[], since_concat_self _ _, fun answer hm hid => ?_⟩
    -- nobody has answered a request that had not arrived
    have htaken := h.bookkeeping.answeredOnce.2.1 answer hm
    exact absurd (hid ▸ h.bookkeeping.taken_arrived _ htaken) hfresh
  · rename_i hne
    refine (h.waits i id hi).concat (fun heq => hne ?_) fun answer hm _ => .inl hm
    exact (Option.some.inj heq).symm

theorem genuine_release {s : System n} (h : Genuine s) {node : Fin n} {o : Occurrence n}
    (ho : o.node = some node) (hgranted : GrantedSince s.trace o) :
    Genuine (s.release node o) := by
  refine ⟨h.bookkeeping, fun i id hi => ?_, explained_concat_iff.mpr ⟨h.granted, hgranted⟩⟩
  rw [awaiting_release] at hi
  split at hi
  · cases hi
  · rename_i hne
    refine (h.waits i id hi).concat (fun heq => hne ?_) fun answer hm _ => .inl hm
    rw [ho] at heq
    exact (Option.some.inj heq).symm

theorem genuine_press {s : System n} (h : Genuine s) {input : Bool} {session : Session}
    (hs : Approval.step s.session (.press input) = some session) :
    Genuine { s with session, trace := s.trace ++ pressOccurrence s.session input } := by
  have hb := bookkeeping_press h.bookkeeping hs
  rcases step_press_cases hs with ⟨hh, rfl⟩ | ⟨id, hh, rfl⟩
  · rw [pressOccurrence_of_none hh, List.append_nil]
    exact ⟨hb, h.waits, h.granted⟩
  · rw [pressOccurrence_of_some hh]
    refine ⟨hb, fun i id' hi => (h.waits i id' hi).concat nofun fun answer hm hid => ?_,
      explained_concat_iff.mpr ⟨h.granted, nofun⟩⟩
    rcases List.mem_append.mp hm with hold | hnew
    · exact .inl hold
    · obtain rfl := List.mem_singleton.mp hnew
      exact .inr (hid ▸ rfl)

theorem genuine_step {s s' : System n} {e : Event n} (h : Genuine s)
    (hs : step s e = some s') : Genuine s' := by
  rcases step_cases hs with rfl | ⟨node, input, session, _, _, hsession, rfl⟩ |
    ⟨node, id, input, status, _, hid, hends, rfl⟩ | ⟨node, id, _, _, rfl⟩ |
    ⟨session, hquiet, rfl⟩ | ⟨input, session, _, hsession, rfl⟩
  · exact h
  · exact genuine_sent h hsession
  · refine genuine_release h rfl fun i id' heq => ?_
    cases heq
    obtain ⟨mid, hsince, hanswers⟩ := h.waits _ _ hid
    obtain ⟨answer, hm, hanswer, hyes⟩ := hends.granted
    exact ⟨mid, hsince, hyes ▸ hanswers answer hm hanswer⟩
  · exact genuine_release h rfl nofun
  · rcases hquiet with ⟨_, hsession⟩ | ⟨id, _, hsession⟩
    · have hb := bookkeeping_timer h.bookkeeping hsession
      rcases step_timer_cases hsession with ⟨_, rfl⟩ | ⟨_, _, _, rfl⟩
      · exact ⟨hb, h.waits, h.granted⟩
      · exact ⟨hb, h.waits, h.granted⟩
    · have hb := bookkeeping_arrive h.bookkeeping hsession
      obtain ⟨_, rfl⟩ := step_arrive hsession
      exact ⟨hb, h.waits, h.granted⟩
  · exact genuine_press h hsession

/-- **No SUCCESS without a Yes to its own request.**  Whatever leaves, other clients, the timer and
    the user do, and in whatever order: a leaf that returns SUCCESS has been waiting since it sent
    its request, and since then the user has pressed Yes while the widget held this very request,
    the one the press answers.  The buttons may have been shown for an earlier one. -/
theorem no_stale_approval (es : List (Event n)) :
    Always step (fun s => Explained GrantedSince s.trace) (System.initial n) es :=
  (always_of_invariant es genuine_initial fun _ _ _ h hs => genuine_step h hs).mono
    fun _ h => h.granted

/-! ## One SUCCESS for one Yes -/

/-- The requests whose leaf has returned SUCCESS. -/
def successes (trace : List (Occurrence n)) : List RequestId :=
  trace.filterMap fun
    | .finished _ id .success => some id
    | _ => none

/-- The requests answered with Yes. -/
def approvals (trace : List (Occurrence n)) : List RequestId :=
  trace.filterMap fun
    | .pressed id true => some id
    | _ => none

theorem mem_successes {trace : List (Occurrence n)} {id : RequestId} :
    id ∈ successes trace ↔ ∃ node, .finished node id .success ∈ trace := by
  simp only [successes, List.mem_filterMap]
  constructor
  · rintro ⟨o, ho, heq⟩
    split at heq
    · cases heq
      exact ⟨_, ho⟩
    · cases heq
  · rintro ⟨node, hm⟩
    exact ⟨_, hm, rfl⟩

theorem mem_approvals_of_pressed {trace : List (Occurrence n)} {id : RequestId}
    (h : .pressed id true ∈ trace) : id ∈ approvals trace :=
  List.mem_filterMap.mpr ⟨_, h, rfl⟩

theorem successes_concat (trace : List (Occurrence n)) (o : Occurrence n)
    (ho : ∀ node id, o ≠ .finished node id .success) :
    successes (trace ++ [o]) = successes trace := by
  have hnone : successes [o] = [] := by
    refine List.eq_nil_iff_forall_not_mem.mpr fun id hid => ?_
    obtain ⟨node, hm⟩ := mem_successes.mp hid
    exact ho node id (List.mem_singleton.mp hm).symm
  rw [successes, List.filterMap_append]
  exact (congrArg (successes trace ++ ·) hnone).trans (List.append_nil _)

theorem successes_finished (trace : List (Occurrence n)) (node : Fin n) (id : RequestId) :
    successes (trace ++ [.finished node id .success]) = successes trace ++ [id] := by
  simp [successes]

/-- Every success is granted by a Yes in the trace. -/
theorem successes_subset_approvals {trace : List (Occurrence n)}
    (h : Explained GrantedSince trace) : successes trace ⊆ approvals trace := by
  intro id hid
  obtain ⟨node, hm⟩ := mem_successes.mp hid
  obtain ⟨before, after, rfl⟩ := List.append_of_mem hm
  obtain ⟨mid, ⟨⟨earlier, rfl⟩, _⟩, hpressed⟩ := h before _ after rfl node id rfl
  refine mem_approvals_of_pressed ?_
  simp [hpressed]

/-- The leaves wait for different requests, none of which has led to a SUCCESS. -/
structure Distinct (s : System n) : Prop where
  injective : ∀ i j id, s.awaiting i = some id → s.awaiting j = some id → i = j
  awaited : ∀ i id, s.awaiting i = some id → id ∈ s.session.arrived ∧ id ∉ successes s.trace
  arrived : ∀ id ∈ successes s.trace, id ∈ s.session.arrived
  nodup : (successes s.trace).Nodup

theorem distinct_initial : Distinct (System.initial n) :=
  ⟨nofun, nofun, fun _ h => (by cases h), List.nodup_nil⟩

/-- The requests that have arrived stay, and neither the leaves nor the successes change. -/
theorem Distinct.of_session {s : System n} (h : Distinct s) {session : Session}
    {trace : List (Occurrence n)} (harrived : ∀ id ∈ s.session.arrived, id ∈ session.arrived)
    (htrace : successes trace = successes s.trace) : Distinct { s with session, trace } := by
  refine ⟨h.injective, fun i id hi => ?_, fun id hid => ?_, ?_⟩
  · obtain ⟨hin, hnot⟩ := h.awaited i id hi
    exact ⟨harrived id hin, by rwa [htrace]⟩
  · rw [htrace] at hid
    exact harrived id (h.arrived id hid)
  · rw [htrace]
    exact h.nodup

theorem distinct_sent {s : System n} (h : Distinct s) {node : Fin n} {input : TickInput}
    {session : Session} (hs : Approval.step s.session (.arrive input.id) = some session) :
    Distinct (n := n)
      { session := session
        awaiting := Function.update s.awaiting node (some input.id)
        trace := s.trace ++ [.sent node input.id] } := by
  obtain ⟨hfresh, rfl⟩ := step_arrive hs
  have htrace := successes_concat s.trace (.sent node input.id) nofun
  have hother : ∀ i, s.awaiting i ≠ some input.id := fun i hi => hfresh (h.awaited i _ hi).1
  refine ⟨fun i j id hi hj => ?_, fun i id hi => ?_, fun id hid => ?_, htrace ▸ h.nodup⟩
  · simp only [Function.update_apply] at hi hj
    split at hi <;> split at hj
    · rename_i hi' hj'
      rw [hi', hj']
    · exact absurd (hj.trans hi.symm) (hother j)
    · exact absurd (hi.trans hj.symm) (hother i)
    · exact h.injective i j id hi hj
  · simp only [htrace]
    simp only [Function.update_apply] at hi
    split at hi
    · obtain rfl := Option.some.inj hi
      exact ⟨by simp, fun hm => hfresh (h.arrived _ hm)⟩
    · obtain ⟨hin, hnot⟩ := h.awaited i id hi
      exact ⟨List.mem_append_left _ hin, hnot⟩
  · rw [htrace] at hid
    exact List.mem_append_left _ (h.arrived id hid)

theorem distinct_release {s : System n} (h : Distinct s) {node : Fin n} {id : RequestId}
    (hid : s.awaiting node = some id) {o : Occurrence n}
    (ho : ∀ node' id', o = .finished node' id' .success → id' = id) :
    Distinct (s.release node o) := by
  have hawaiting : ∀ i id', (s.release node o).awaiting i = some id' →
      i ≠ node ∧ s.awaiting i = some id' := by
    intro i id' hi
    rw [awaiting_release] at hi
    split at hi
    · cases hi
    · rename_i hne
      exact ⟨hne, hi⟩
  have hsuccess : successes (s.release node o).trace = successes s.trace ∨
      successes (s.release node o).trace = successes s.trace ++ [id] := by
    by_cases hfin : ∃ node' id', o = .finished node' id' .success
    · obtain ⟨node', id', rfl⟩ := hfin
      obtain rfl := ho node' id' rfl
      exact .inr (successes_finished s.trace node' id')
    · refine .inl (successes_concat s.trace o fun node' id' heq => hfin ⟨node', id', heq⟩)
  obtain ⟨hin, hnot⟩ := h.awaited node id hid
  rcases hsuccess with heq | heq
  · refine ⟨fun i j id' hi hj => ?_, fun i id' hi => ?_, fun id' hm => ?_, heq ▸ h.nodup⟩
    · exact h.injective i j id' (hawaiting i id' hi).2 (hawaiting j id' hj).2
    · rw [heq]
      exact h.awaited i id' (hawaiting i id' hi).2
    · rw [heq] at hm
      exact h.arrived id' hm
  · refine ⟨fun i j id' hi hj => ?_, fun i id' hi => ?_, fun id' hm => ?_, ?_⟩
    · exact h.injective i j id' (hawaiting i id' hi).2 (hawaiting j id' hj).2
    · obtain ⟨hne, hi'⟩ := hawaiting i id' hi
      obtain ⟨hin', hnot'⟩ := h.awaited i id' hi'
      refine ⟨hin', ?_⟩
      rw [heq, List.mem_append, List.mem_singleton, not_or]
      exact ⟨hnot', fun he => hne (h.injective i node id (he ▸ hi') hid)⟩
    · rw [heq, List.mem_append, List.mem_singleton] at hm
      rcases hm with hm | rfl
      · exact h.arrived id' hm
      · exact hin
    · rw [heq]
      exact List.concat_eq_append ▸ List.Nodup.concat hnot h.nodup

theorem distinct_step {s s' : System n} {e : Event n} (h : Distinct s)
    (hs : step s e = some s') : Distinct s' := by
  rcases step_cases hs with rfl | ⟨node, input, session, _, _, hsession, rfl⟩ |
    ⟨node, id, input, status, _, hid, _, rfl⟩ | ⟨node, id, _, hid, rfl⟩ |
    ⟨session, hquiet, rfl⟩ | ⟨input, session, _, hsession, rfl⟩
  · exact h
  · exact distinct_sent h hsession
  · exact distinct_release h hid fun node' id' heq => by cases heq; rfl
  · exact distinct_release h hid nofun
  · refine h.of_session (fun id hin => ?_) rfl
    rcases hquiet with ⟨_, hsession⟩ | ⟨id', _, hsession⟩
    · rcases step_timer_cases hsession with ⟨_, rfl⟩ | ⟨_, _, _, rfl⟩ <;> exact hin
    · obtain ⟨_, rfl⟩ := step_arrive hsession
      exact List.mem_append_left _ hin
  · rcases step_press_cases hsession with ⟨hh, rfl⟩ | ⟨id, hh, rfl⟩
    · refine h.of_session (fun id hin => hin) ?_
      rw [pressOccurrence_of_none hh, List.append_nil]
    · refine h.of_session (fun id hin => hin) ?_
      rw [pressOccurrence_of_some hh, successes_concat s.trace (.pressed id input) nofun]

/-- **One SUCCESS for one Yes.**  In every run each Yes of the user lets at most one activation of
    one leaf succeed: the requests that led to a SUCCESS are, with their multiplicities, among those
    answered with Yes. -/
theorem one_success_per_yes (es : List (Event n)) :
    Always step (fun s => (successes s.trace).Subperm (approvals s.trace)) (System.initial n) es :=
  (always_of_invariant (I := fun s => Genuine s ∧ Distinct s) es ⟨genuine_initial, distinct_initial⟩
    fun _ _ _ h hs => ⟨genuine_step h.1 hs, distinct_step h.2 hs⟩).mono fun _ h =>
      List.subperm_of_subset h.2.nodup (successes_subset_approvals h.1.granted)

/-! ## One caller at a time -/

/-- Only leaves call, one at a time, and none gives up a request it has sent. -/
def Undisturbed (s : System n) : Event n → Prop
  | .tick node input =>
    (s.awaiting node = none → ∀ i, s.awaiting i = none) ∧
      (s.awaiting node ≠ none → input.timedOut = false)
  | .halt node => s.awaiting node = none
  | .otherClient _ => False
  | .timer => True
  | .press _ => True

instance (s : System n) : ∀ e, Decidable (Undisturbed s e)
  | .tick _ _ => inferInstanceAs (Decidable ((_ → _) ∧ (_ → _)))
  | .halt _ => inferInstanceAs (Decidable (_ = _))
  | .otherClient _ => inferInstanceAs (Decidable False)
  | .timer => inferInstanceAs (Decidable True)
  | .press _ => inferInstanceAs (Decidable True)

/-- At most one request is waited for; every other one has been answered. -/
structure Single (s : System n) : Prop where
  inv : Inv s.session
  unique : ∀ i j a b, s.awaiting i = some a → s.awaiting j = some b → a = b
  settled : ∀ id ∈ s.session.arrived,
    s.session.widget.approvalService.answers id = 1 ∨ ∃ i, s.awaiting i = some id

theorem single_initial : Single (System.initial n) :=
  ⟨inv_initial, nofun, fun _ h => by cases h⟩

/-- While at most one request is waited for, the timer finds none that would overwrite another. -/
theorem Single.takesOnlyWhenFree {s : System n} (h : Single s) :
    TakesOnlyWhenFree s.session .timer := by
  intro _ hne
  refine Option.eq_none_iff_forall_not_mem.mpr fun held hheld => ?_
  obtain ⟨r, rs, hq⟩ := List.exists_cons_of_ne_nil hne
  obtain ⟨harrived, hfresh⟩ := h.inv.queue_arrived r (by rw [hq]; exact List.mem_cons_self)
  have htaken := h.inv.held_taken held hheld
  have hr : ∃ i, s.awaiting i = some r := by
    refine (h.settled r harrived).resolve_left fun h1 => ?_
    rw [h.inv.answered_taken r hfresh] at h1
    cases h1
  have hh : ∃ j, s.awaiting j = some held := by
    refine (h.settled held (h.inv.taken_arrived held htaken)).resolve_left fun h1 => ?_
    rw [h.inv.held_unanswered held hheld] at h1
    cases h1
  obtain ⟨i, hi⟩ := hr
  obtain ⟨j, hj⟩ := hh
  exact hfresh (h.unique i j r held hi hj ▸ htaken)

theorem single_sent {s : System n} (h : Single s) {node : Fin n} {input : TickInput}
    {session : Session} (hfree : ∀ i, s.awaiting i = none)
    (hs : Approval.step s.session (.arrive input.id) = some session) :
    Single (n := n)
      { session := session
        awaiting := Function.update s.awaiting node (some input.id)
        trace := s.trace ++ [.sent node input.id] } := by
  have hinv := inv_arrive h.inv hs
  obtain ⟨_, rfl⟩ := step_arrive hs
  have honly : ∀ i a, Function.update s.awaiting node (some input.id) i = some a →
      a = input.id := by
    intro i a ha
    rw [Function.update_apply] at ha
    split at ha
    · exact (Option.some.inj ha).symm
    · rw [hfree i] at ha
      cases ha
  refine ⟨hinv, fun i j a b ha hb => (honly i a ha).trans (honly j b hb).symm, fun id hid => ?_⟩
  rcases List.mem_append.mp hid with hid | hid
  · refine (h.settled id hid).imp_right fun ⟨i, hi⟩ => ?_
    rw [hfree i] at hi
    cases hi
  · obtain rfl := List.mem_singleton.mp hid
    exact .inr ⟨node, Function.update_self ..⟩

/-- A leaf that ends with a response has its request answered. -/
theorem single_finished {s : System n} (h : Single s) {node : Fin n} {id : RequestId}
    (hid : s.awaiting node = some id) {response : TriggerResponse}
    (hresponse : s.session.widget.approvalService.responseTo id = some response)
    (o : Occurrence n) : Single (s.release node o) := by
  have hanswered : s.session.widget.approvalService.answers id = 1 := by
    refine Nat.le_antisymm (h.inv.answers_le_one id) (Nat.one_le_iff_ne_zero.mpr ?_)
    intro h0
    rw [ApprovalService.responseTo_eq_none h0] at hresponse
    cases hresponse
  have hawaiting : ∀ i a, (s.release node o).awaiting i = some a → s.awaiting i = some a := by
    intro i a ha
    rw [awaiting_release] at ha
    split at ha
    · cases ha
    · exact ha
  refine ⟨h.inv, fun i j a b ha hb => h.unique i j a b (hawaiting i a ha) (hawaiting j b hb),
    fun id' hid' => ?_⟩
  rcases h.settled id' hid' with h1 | ⟨i, hi⟩
  · exact .inl h1
  · obtain rfl := h.unique i node id' id hi hid
    exact .inl hanswered

theorem single_press {s : System n} (h : Single s) {input : Bool} {session : Session}
    (hs : Approval.step s.session (.press input) = some session) (trace : List (Occurrence n)) :
    Single { s with session, trace } := by
  have hinv := inv_press h.inv hs
  refine ⟨hinv, h.unique, fun id hid => ?_⟩
  have hle := hinv.answers_le_one id
  rcases step_press_cases hs with ⟨_, rfl⟩ | ⟨r, _, rfl⟩
  · exact h.settled id hid
  · refine (h.settled id hid).imp_left fun h1 => ?_
    simp only [ApprovalService.answers_sendResponse] at hle ⊢
    omega

theorem single_step {s s' : System n} {e : Event n} (h : Single s) (hs : step s e = some s')
    (hu : Undisturbed s e) : Single s' := by
  rcases step_cases hs with rfl | ⟨node, input, session, rfl, hfree, hsession, rfl⟩ |
    ⟨node, id, input, status, rfl, hid, hends, rfl⟩ | ⟨node, id, rfl, hid, rfl⟩ |
    ⟨session, hquiet, rfl⟩ | ⟨input, session, _, hsession, rfl⟩
  · exact h
  · exact single_sent h (hu.1 hfree) hsession
  · rcases hends with ⟨response, hresponse, _⟩ | ⟨htimeout, _⟩
    · exact single_finished h hid hresponse _
    · rw [hu.2 (by rw [hid]; nofun)] at htimeout
      cases htimeout
  · have hnone : s.awaiting node = none := hu
    rw [hid] at hnone
    cases hnone
  · rcases hquiet with ⟨_, hsession⟩ | ⟨id, rfl, _⟩
    · have hinv := inv_timer h.inv hsession h.takesOnlyWhenFree
      rcases step_timer_cases hsession with ⟨_, rfl⟩ | ⟨_, _, _, rfl⟩
      · exact ⟨hinv, h.unique, h.settled⟩
      · exact ⟨hinv, h.unique, h.settled⟩
    · exact hu.elim
  · exact single_press h hsession _

/-- **One caller at a time loses nothing.**  In every run in which only leaves call, a leaf calls
    only while no other one waits, and none times out or is halted while it waits, no request is
    lost, and every request is answered or still waited for. -/
theorem undisturbed_approval_not_lost (es : List (Event n))
    (hu : EachStep step (fun s e _ => Undisturbed s e) (System.initial n) es) :
    Always step (fun s => NotLost s.session ∧ ∀ id ∈ s.session.arrived,
      s.session.widget.approvalService.answers id = 1 ∨ ∃ i, s.awaiting i = some id)
      (System.initial n) es :=
  (hu.always single_initial fun _ _ _ h hs hg => single_step h hs hg).mono
    fun _ h => ⟨h.inv.notLost, h.settled⟩

/-- Two leaves one after the other, the second refused. -/
theorem undisturbed_approval_not_lost_two_leaves :
    let first : RequestId := ⟨[1], 1⟩
    let second : RequestId := ⟨[2], 1⟩
    let es : List (Event 2) :=
      [.tick 0 ⟨first, true, false, false⟩, .timer, .press true,
        .tick 0 ⟨first, true, true, false⟩, .tick 1 ⟨second, true, false, false⟩, .timer,
        .tick 1 ⟨second, true, true, false⟩, .press false, .tick 1 ⟨second, true, true, false⟩]
    Always step (fun s => NotLost s.session ∧ ∀ id ∈ s.session.arrived,
      s.session.widget.approvalService.answers id = 1 ∨ ∃ i, s.awaiting i = some id)
      (System.initial 2) es :=
  undisturbed_approval_not_lost _ (by decide +kernel)

/-! ## A request that is lost -/

/-- A request the widget has taken and will not answer: it holds another one or none. -/
def Lost (session : Session) (id : RequestId) : Prop :=
  id ∈ session.taken ∧ session.widget.requestHeader ≠ some id ∧
    session.widget.approvalService.answers id = 0

instance (session : Session) (id : RequestId) : Decidable (Lost session id) :=
  inferInstanceAs (Decidable (_ ∧ _ ∧ _))

/-- A leaf that waits for `id` keeps waiting or fails at its timeout. -/
def NeverSucceeds (id : RequestId) (s : System n) (e : Event n) : Prop :=
  ∀ node input, e = .tick node input → s.awaiting node = some id →
    ∀ result ∈ tick s node input, result.1 = .running ∨
      result.1 = .failure ∧ input.timedOut = true

/-- What the timer takes has not been taken before, so it is not the lost request. -/
theorem lost_step {session session' : Session} {e : Approval.Event} {id : RequestId}
    (hb : Bookkeeping session) (h : Lost session id)
    (hs : Approval.step session e = some session') : Lost session' id := by
  obtain ⟨htaken, hheld, hanswers⟩ := h
  cases e with
  | arrive id' =>
    obtain ⟨_, rfl⟩ := step_arrive hs
    exact ⟨htaken, hheld, hanswers⟩
  | timer =>
    rcases step_timer_cases hs with ⟨_, rfl⟩ | ⟨r, rs, hq, rfl⟩
    · exact ⟨htaken, hheld, hanswers⟩
    · have hfresh := (hb.queue_arrived r (by rw [hq]; exact List.mem_cons_self)).2
      refine ⟨List.mem_append_left _ htaken, fun heq => hfresh ?_, hanswers⟩
      exact Option.some.inj heq ▸ htaken
  | press input =>
    rcases step_press_cases hs with ⟨_, rfl⟩ | ⟨r, hh, rfl⟩
    · exact ⟨htaken, hheld, hanswers⟩
    · have hne : r ≠ id := fun heq => hheld (heq ▸ hh)
      refine ⟨htaken, nofun, ?_⟩
      rw [ApprovalService.answers_sendResponse, if_neg hne, hanswers]

theorem neverSucceeds_of_lost {s : System n} {id : RequestId} (h : Lost s.session id)
    (e : Event n) : NeverSucceeds id s e := by
  rintro node input rfl hid ⟨status, t⟩ ht
  rcases tick_cases ht with ⟨hnone, _⟩ | ⟨_, hnone, _⟩ | ⟨_, _, _, hstatus⟩ |
    ⟨id', hid', _, hends⟩
  · rw [hid] at hnone
    cases hnone
  · rw [hid] at hnone
    cases hnone
  · exact .inl hstatus
  · obtain rfl := Option.some.inj (hid.symm.trans hid')
    rcases hends with ⟨response, hresponse, _⟩ | ⟨htimeout, hstatus⟩
    · rw [ApprovalService.responseTo_eq_none h.2.2] at hresponse
      cases hresponse
    · exact .inr ⟨hstatus, htimeout⟩

/-- Every step of the system is a run of the widget, so a lost request stays lost. -/
theorem lost_always {s : System n} {id : RequestId} (hb : Bookkeeping s.session)
    (h : Lost s.session id) (fs : List (Event n)) :
    Always step (fun s => Bookkeeping s.session ∧ Lost s.session id) s fs :=
  system_simulation.always (t := s.session) (fun _ _ _ _ _ _ _ => trivial) rfl
    (fun ds => always_of_invariant ds ⟨hb, h⟩ fun _ _ _ hi hs =>
      ⟨bookkeeping_step hi.1 hs, lost_step hi.1 hi.2 hs⟩)
    fun _ _ heq hi => heq ▸ hi

/-- **A lost request is never granted.**  Once the widget has overwritten a request, then whatever
    happens, and however often the user presses Yes, the leaf that waits for it keeps waiting until
    its timeout or a halt. -/
theorem lost_request_never_granted (es fs : List (Event n)) (s : System n) (id : RequestId)
    (hr : run step (System.initial n) es = some s) (hlost : Lost s.session id) :
    EachStep step (fun s e _ => NeverSucceeds id s e) s fs :=
  (lost_always ((bookkeeping_system es).last hr) hlost fs).eachStep
    (T := fun _ _ _ => True) (fun _ _ _ _ _ _ _ => trivial)
    fun _ e _ hi _ _ => neverSucceeds_of_lost hi.2 e

/-- Two leaves ask at the same time and the user answers Yes twice. -/
theorem lost_request_never_granted_parallel :
    let first : RequestId := ⟨[1], 1⟩
    let second : RequestId := ⟨[2], 1⟩
    let es : List (Event 2) :=
      [.tick 0 ⟨first, true, false, false⟩, .tick 1 ⟨second, true, false, false⟩, .timer, .timer]
    ∃ s, run step (System.initial 2) es = some s ∧
      EachStep step (fun s e _ => NeverSucceeds first s e) s
        [.press true, .press true, .tick 0 ⟨first, true, true, false⟩,
          .tick 1 ⟨second, true, true, false⟩] := by
  intro first second es
  exact ⟨_, rfl, lost_request_never_granted es _ _ first rfl (by decide +kernel)⟩

end GetApproval

end DrtBehavior
