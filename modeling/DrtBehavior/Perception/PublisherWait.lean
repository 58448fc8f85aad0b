import DrtBehavior.Base.Polling
import DrtBehavior.Platform

/-!
# Waiting for a publisher

`getPublisherQoSProfile` of `color_tools_behavior` polls for a publisher every 100 ms of wall time
and gives up by the clock of the node, which is simulated time under `use_sim_time`.

* `Poll`, `Wait` — what a turn of the loop and a whole call observe.
* `turn`, `getPublisherQoSProfile`, `onStart` — the loop, and the four calls on the tick thread.
* `returns_iff` — a call ends iff a publisher appears or the clock passes the timeout.
* `publisher_wait_iff` — when `onStart` returns to the tree; `stopped_clock_hangs`.
-/

set_option autoImplicit false

namespace DrtBehavior

namespace PublisherWait

open Polling

/-- `rmw_qos_history_policy_t`. -/
inductive HistoryPolicy where
  | systemDefault
  | keepLast
  | keepAll
  | unknown
  deriving DecidableEq, Repr

/-- `rmw_qos_profile_t`; `P` holds the policies the function passes on. -/
structure QosProfile (P : Type) where
  history : HistoryPolicy
  depth : Nat
  policies : P
  deriving DecidableEq, Repr

/-- What a turn of the loop observes: `rclcpp::ok()`, the profiles of the publishers of the topic,
    and `node->now()` in nanoseconds, which is read when there is no publisher. -/
structure Poll (P : Type) where
  ok : Bool
  publishers : List (QosProfile P)
  now : Nat

/-- A call: its topic, the first reading of the clock, and what the turns observe. -/
structure Wait (P : Type) where
  topicName : StdString
  startTime : Nat
  polls : Nat → Poll P

variable {P : Type}

/-- The default of `timeout`. -/
def timeout : Int := 5000000000

/-- The fix for a profile without a history policy. -/
def fixHistory (qosProfile : QosProfile P) : QosProfile P :=
  if qosProfile.history = .unknown then { qosProfile with history := .keepLast, depth := 10 }
  else qosProfile

def shutDown (topicName : StdString) : StdString :=
  bytes "ROS shutdown while waiting for publisher on topic: " ++ topicName

def timedOut (topicName : StdString) : StdString :=
  bytes "Timed out waiting for publisher on topic: " ++ topicName

/-- Turn `i` of the loop: the result, if the loop ends there. -/
def turn (w : Wait P) (i : Nat) : Option (Except StdString (QosProfile P)) :=
  if (w.polls i).ok then
    match (w.polls i).publishers with
    | publisher :: _ => some (.ok (fixHistory publisher))
    | [] =>
      if timeout < ((w.polls i).now : Int) - w.startTime then some (.error (timedOut w.topicName))
      else none
  else some (.error (shutDown w.topicName))

/-- `getPublisherQoSProfile`; `none` when it has not returned after the given number of turns. -/
def getPublisherQoSProfile (w : Wait P) (turns : Nat) : Option (Except StdString (QosProfile P)) :=
  poll (turn w) turns 0

/-- Calls one after the other, up to the first that fails: the status of the node. -/
def awaitAll : List (Wait P) → Nat → Option NodeStatus
  | [], _ => some .running
  | w :: ws, turns =>
    match getPublisherQoSProfile w turns with
    | none => none
    | some (.error _) => some .failure
    | some (.ok _) => awaitAll ws turns

/-- `onStart`, with its four calls. -/
def onStart (pointCloud rgbImage rgbCameraInfo depthImage : Wait P) (turns : Nat) :
    Option NodeStatus :=
  awaitAll [pointCloud, rgbImage, rgbCameraInfo, depthImage] turns

/-! ## One call -/

/-- `rclcpp::ok()` stays true. -/
def StaysOk (w : Wait P) : Prop := ∀ i, (w.polls i).ok = true

/-- Turn `i` finds a publisher. -/
def Wait.Appears (w : Wait P) (i : Nat) : Prop := (w.polls i).publishers ≠ []

/-- At turn `i` the clock is more than the timeout ahead of its first reading. -/
def Wait.Expired (w : Wait P) (i : Nat) : Prop := timeout < ((w.polls i).now : Int) - w.startTime

/-- A publisher appears, or the clock passes the timeout. -/
def Ends (w : Wait P) : Prop := ∃ i, w.Appears i ∨ w.Expired i

/-- A publisher appears before the clock has passed the timeout. -/
def Finds (w : Wait P) : Prop := ∃ i, w.Appears i ∧ ∀ k < i, ¬ w.Expired k

/-- The call returns: with the profile of the first publisher that appears, or, none having
    appeared, with the timed-out error. -/
def Returns (w : Wait P) : Prop :=
  ∃ turns result, getPublisherQoSProfile w turns = some result ∧
    ∃ n, (∀ k < n, ¬ w.Appears k) ∧
      ((∃ publisher others, (w.polls n).publishers = publisher :: others ∧
          result = .ok (fixHistory publisher)) ∨
        (¬ w.Appears n ∧ w.Expired n ∧ result = .error (timedOut w.topicName)))

/-- **Everything a turn can do** while ROS is up. -/
theorem turn_cases {w : Wait P} (hok : StaysOk w) (i : Nat) :
    (∃ publisher others, (w.polls i).publishers = publisher :: others ∧
      turn w i = some (.ok (fixHistory publisher))) ∨
    (¬ w.Appears i ∧ w.Expired i ∧ turn w i = some (.error (timedOut w.topicName))) ∨
    (¬ w.Appears i ∧ ¬ w.Expired i ∧ turn w i = none) := by
  unfold turn
  rw [if_pos (hok i)]
  cases hpub : (w.polls i).publishers with
  | cons publisher others => exact .inl ⟨publisher, others, rfl, rfl⟩
  | nil =>
    have hnone : ¬ w.Appears i := not_not_intro hpub
    by_cases hexp : w.Expired i
    · exact .inr (.inl ⟨hnone, hexp, if_pos hexp⟩)
    · exact .inr (.inr ⟨hnone, hexp, if_neg hexp⟩)

theorem appears_of_cons {w : Wait P} {i : Nat} {publisher : QosProfile P}
    {others : List (QosProfile P)} (h : (w.polls i).publishers = publisher :: others) :
    w.Appears i := by
  unfold Wait.Appears
  rw [h]
  exact List.cons_ne_nil publisher others

theorem turn_eq_none_iff {w : Wait P} (hok : StaysOk w) (i : Nat) :
    turn w i = none ↔ ¬ w.Appears i ∧ ¬ w.Expired i := by
  rcases turn_cases hok i with ⟨publisher, others, hpub, ht⟩ | ⟨hno, hexp, ht⟩ | ⟨hno, hexp, ht⟩
  · rw [ht]
    exact iff_of_false (fun h => (by cases h)) fun h => h.1 (appears_of_cons hpub)
  · rw [ht]
    exact iff_of_false (fun h => (by cases h)) fun h => h.2 hexp
  · rw [ht]
    exact iff_of_true rfl ⟨hno, hexp⟩

/-- **A call ends iff a publisher appears or the clock passes the timeout.** -/
theorem exists_result_iff {w : Wait P} (hok : StaysOk w) :
    (∃ turns result, getPublisherQoSProfile w turns = some result) ↔ Ends w := by
  refine exists_poll_iff.trans (exists_congr fun i => ?_)
  rw [← Option.ne_none_iff_exists', ne_eq, turn_eq_none_iff hok, not_and_or, not_not, not_not]

theorem returns_iff {w : Wait P} (hok : StaysOk w) : Returns w ↔ Ends w := by
  refine Iff.trans ?_ (exists_result_iff hok)
  constructor
  · rintro ⟨turns, result, h, -⟩
    exact ⟨turns, result, h⟩
  · rintro ⟨turns, result, h⟩
    obtain ⟨n, -, hn, hbefore⟩ := poll_zero_eq_some_iff.mp h
    refine ⟨turns, result, h, n, fun k hk => ((turn_eq_none_iff hok k).mp (hbefore k hk)).1, ?_⟩
    rcases turn_cases hok n with ⟨publisher, others, hpub, ht⟩ | ⟨hno, hexp, ht⟩ | ⟨-, -, ht⟩
    · exact .inl ⟨publisher, others, hpub, Option.some.inj (hn.symm.trans ht)⟩
    · exact .inr ⟨hno, hexp, Option.some.inj (hn.symm.trans ht)⟩
    · rw [hn] at ht
      cases ht

/-- A call gives a profile iff a publisher appears in time. -/
theorem exists_profile_iff {w : Wait P} (hok : StaysOk w) :
    (∃ turns profile, getPublisherQoSProfile w turns = some (.ok profile)) ↔ Finds w := by
  constructor
  · rintro ⟨turns, profile, h⟩
    obtain ⟨n, -, hn, hbefore⟩ := poll_zero_eq_some_iff.mp h
    refine ⟨n, ?_, fun k hk => ((turn_eq_none_iff hok k).mp (hbefore k hk)).2⟩
    rcases turn_cases hok n with ⟨publisher, others, hpub, -⟩ | ⟨-, -, ht⟩ | ⟨-, -, ht⟩
    · exact appears_of_cons hpub
    · rw [hn] at ht
      cases ht
    · rw [hn] at ht
      cases ht
  · rintro ⟨i, happears, hbefore⟩
    obtain ⟨m, result, hfirst⟩ : ∃ m result, FirstAnswer (turn w) m result := by
      have hne : turn w i ≠ none := fun h => ((turn_eq_none_iff hok i).mp h).1 happears
      obtain ⟨r, hr⟩ := Option.ne_none_iff_exists'.mp hne
      exact exists_firstAnswer hr
    have hpoll : getPublisherQoSProfile w (m + 1) = some result :=
      poll_zero_eq_some_iff.mpr ⟨m, Nat.lt_succ_self m, hfirst⟩
    rcases turn_cases hok m with ⟨publisher, others, -, ht⟩ | ⟨hno, hexp, -⟩ | ⟨-, -, ht⟩
    · obtain rfl := Option.some.inj (hfirst.1.symm.trans ht)
      exact ⟨m + 1, _, hpoll⟩
    · -- the clock has not passed the timeout before turn `i`
      exfalso
      rcases Nat.lt_trichotomy m i with hlt | rfl | hlt
      · exact hbefore m hlt hexp
      · exact hno happears
      · exact ((turn_eq_none_iff hok i).mp (hfirst.2 i hlt)).1 happears
    · rw [hfirst.1] at ht
      cases ht

/-! ## The calls of onStart -/

/-- Every call that is reached ends. -/
def AllEnd : List (Wait P) → Prop
  | [] => True
  | w :: ws => Ends w ∧ (Finds w → AllEnd ws)

theorem awaitAll_mono : ∀ {ws : List (Wait P)} {turns turns' : Nat} {status : NodeStatus},
    turns ≤ turns' → awaitAll ws turns = some status → awaitAll ws turns' = some status
  | [], _, _, _, _, h => h
  | w :: ws, turns, turns', status, hle, h => by
    unfold awaitAll at h ⊢
    cases hres : getPublisherQoSProfile w turns with
    | none =>
      rw [hres] at h
      cases h
    | some result =>
      rw [hres] at h
      have hres' : getPublisherQoSProfile w turns' = some result := poll_mono hle hres
      rw [hres']
      cases result with
      | error what => exact h
      | ok profile => exact awaitAll_mono hle h

/-- **The calls return iff each one that is reached ends.** -/
theorem awaitAll_iff : ∀ {ws : List (Wait P)}, (∀ w ∈ ws, StaysOk w) →
    ((∃ turns status, awaitAll ws turns = some status) ↔ AllEnd ws)
  | [], _ => iff_of_true ⟨0, .running, rfl⟩ trivial
  | w :: ws, hok => by
    have hw : StaysOk w := hok w List.mem_cons_self
    have hws := awaitAll_iff fun v hv => hok v (List.mem_cons_of_mem w hv)
    unfold AllEnd
    rw [← hws, ← exists_result_iff hw, ← exists_profile_iff hw]
    constructor
    · rintro ⟨turns, status, h⟩
      unfold awaitAll at h
      cases hres : getPublisherQoSProfile w turns with
      | none =>
        rw [hres] at h
        cases h
      | some result =>
        refine ⟨⟨turns, result, hres⟩, ?_⟩
        rintro ⟨turns', profile, hprofile⟩
        obtain rfl := poll_unique hres hprofile
        rw [hres] at h
        exact ⟨turns, status, h⟩
    · rintro ⟨⟨turns, result, hres⟩, hnext⟩
      cases result with
      | error what => exact ⟨turns, .failure, by unfold awaitAll; rw [hres]⟩
      | ok profile =>
        obtain ⟨turns', status, h⟩ := hnext ⟨turns, profile, hres⟩
        have hres' : getPublisherQoSProfile w (max turns turns') = some (.ok profile) :=
          poll_mono (Nat.le_max_left turns turns') hres
        refine ⟨max turns turns', status, ?_⟩
        unfold awaitAll
        rw [hres']
        exact awaitAll_mono (Nat.le_max_right turns turns') h

/-- **Exactly when waiting for a publisher ends.**  For every sequence of discovery results and
    every sequence of clock readings, standing still or jumping back, while ROS is up: a call
    returns, with the profile of a publisher or the timed-out error, iff a publisher appears or the
    clock is ever read more than the timeout ahead of its first reading; and `onStart` returns iff
    this holds of every call that is reached. -/
theorem publisher_wait_iff {pointCloud rgbImage rgbCameraInfo depthImage : Wait P}
    (hok : ∀ w ∈ [pointCloud, rgbImage, rgbCameraInfo, depthImage], StaysOk w) :
    (∀ w ∈ [pointCloud, rgbImage, rgbCameraInfo, depthImage], Returns w ↔ Ends w) ∧
      ((∃ turns status, onStart pointCloud rgbImage rgbCameraInfo depthImage turns = some status) ↔
        AllEnd [pointCloud, rgbImage, rgbCameraInfo, depthImage]) :=
  ⟨fun w hw => returns_iff (hok w hw), awaitAll_iff hok⟩

/-- A clock that moves on by 3 s a turn, and a publisher of depth images only. -/
theorem publisher_wait_iff_depth :
    let silent : Wait Unit := ⟨bytes "/wrist_camera/points", 0, fun i => ⟨true, [], 3000000000 * i⟩⟩
    let depth : Wait Unit := ⟨bytes "/wrist_camera/depth", 0,
      fun i => ⟨true, [⟨.unknown, 0, ()⟩], 3000000000 * i⟩⟩
    onStart silent silent silent depth 3 = some .failure ∧
      (∀ w ∈ [silent, silent, silent, depth], Returns w ↔ Ends w) := by
  intro silent depth
  have hok : ∀ w ∈ [silent, silent, silent, depth], StaysOk w := by
    simp [StaysOk, silent, depth]
  exact ⟨by decide, (publisher_wait_iff hok).1⟩

/-- Simulated time is paused at 7 s and no publisher appears: `onStart` never returns. -/
theorem stopped_clock_hangs :
    let paused : Wait Unit := ⟨bytes "/wrist_camera/points", 7000000000,
      fun _ => ⟨true, [], 7000000000⟩⟩
    StaysOk paused ∧ (∀ turns, getPublisherQoSProfile paused turns = none) ∧
      ∀ turns, onStart paused paused paused paused turns = none := by
  intro paused
  have hok : StaysOk paused := fun _ => rfl
  have hcall : ∀ turns, getPublisherQoSProfile paused turns = none := by
    intro turns
    cases hres : getPublisherQoSProfile paused turns with
    | none => rfl
    | some result =>
      have hexpired : ¬ timeout < ((7000000000 : Nat) : Int) - (7000000000 : Nat) := by decide
      obtain ⟨i, happears | hexp⟩ := (exists_result_iff hok).mp ⟨turns, result, hres⟩
      · exact absurd rfl happears
      · exact absurd hexp hexpired
  refine ⟨hok, hcall, fun turns => ?_⟩
  unfold onStart awaitAll
  rw [hcall]

end PublisherWait

end DrtBehavior
