import Mathlib.Data.List.Basic

/-!
# A topic with bounded histories

A publisher and a subscriber that each keep the last samples only: the history of the writer, the
queue of the reader, and a transport that moves samples from one to the other when it likes.

* `push` — a full queue drops its oldest sample.
* `Topic`, `step` — publish, renew (the writer is destroyed with its history and created again),
  deliver, take.
* `known_sublist_step` — what has been taken, queued and kept is a subsequence of what was
  published.
* `newestKnown_publish`, `newestKnown_move` — a full queue never drops the newest sample.
* `complete_step` — nothing is dropped at all while no queue is full.
-/

set_option autoImplicit false

namespace KeepLast

variable {α : Type*}

/-- Appends a sample; only the last `depth` samples are kept. -/
def push (depth : Nat) (q : List α) (x : α) : List α := (q ++ [x]).drop (q.length + 1 - depth)

structure Topic (α : Type*) where
  /-- All samples ever published. -/
  published : List α
  /-- The history of the writer: the samples not yet delivered. -/
  history : List α
  /-- The queue of the reader. -/
  queue : List α
  /-- The samples the reader has taken. -/
  taken : List α
  deriving DecidableEq

inductive Event (α : Type*) where
  | publish (x : α)
  | renew
  | deliver
  | take

def Topic.empty : Topic α := ⟨[], [], [], []⟩

/-- `w` is what the writer keeps. -/
def Topic.publish (w : Nat) (t : Topic α) (x : α) : Topic α :=
  { t with published := t.published ++ [x], history := push w t.history x }

/-- One event of a topic whose writer keeps `w` samples and whose reader keeps `r`. -/
def step (w r : Nat) (t : Topic α) : Event α → Option (Topic α)
  | .publish x => some (t.publish w x)
  | .renew => some { t with history := [] }
  | .deliver =>
    match t.history with
    | [] => none
    | x :: xs => some { t with history := xs, queue := push r t.queue x }
  | .take =>
    match t.queue with
    | [] => none
    | x :: xs => some { t with queue := xs, taken := t.taken ++ [x] }

/-- The samples still known, oldest first. -/
def Topic.known (t : Topic α) : List α := t.taken ++ t.queue ++ t.history

/-- Nothing is under way. -/
def Topic.Quiet (t : Topic α) : Prop := t.history = [] ∧ t.queue = []

instance (t : Topic α) [DecidableEq α] : Decidable t.Quiet := inferInstanceAs (Decidable (_ ∧ _))

/-! ## One queue -/

theorem push_suffix (depth : Nat) (q : List α) (x : α) : push depth q x <:+ q ++ [x] :=
  List.drop_suffix _ _

/-- A queue that keeps at least one sample keeps the newest. -/
theorem push_eq {depth : Nat} (hd : 0 < depth) (q : List α) (x : α) :
    push depth q x = q.drop (q.length + 1 - depth) ++ [x] :=
  List.drop_append_of_le_length (by omega)

theorem push_of_lt {depth : Nat} {q : List α} (h : q.length < depth) (x : α) :
    push depth q x = q ++ [x] := by
  rw [push, Nat.sub_eq_zero_of_le h, List.drop_zero]

/-! ## What a step does to the samples still known -/

variable {w r : Nat} {t t' : Topic α}

/-- **Everything a step can do.** -/
theorem step_cases {e : Event α} (h : step w r t e = some t') :
    (∃ x, e = .publish x ∧ t' = t.publish w x) ∨
    (e = .renew ∧ t' = { t with history := [] }) ∨
    (∃ x xs, e = .deliver ∧ t.history = x :: xs ∧
      t' = { t with history := xs, queue := push r t.queue x }) ∨
    (∃ x xs, e = .take ∧ t.queue = x :: xs ∧
      t' = { t with queue := xs, taken := t.taken ++ [x] }) := by
  cases e with
  | publish x =>
    cases h
    exact .inl ⟨x, rfl, rfl⟩
  | renew =>
    cases h
    exact .inr (.inl ⟨rfl, rfl⟩)
  | deliver =>
    simp only [step] at h
    split at h
    · cases h
    · rename_i x xs hx
      cases h
      exact .inr (.inr (.inl ⟨x, xs, rfl, hx, rfl⟩))
  | take =>
    simp only [step] at h
    split at h
    · cases h
    · rename_i x xs hx
      cases h
      exact .inr (.inr (.inr ⟨x, xs, rfl, hx, rfl⟩))

/-! ## In order -/

/-- **In order, once, and nothing else.**  What the reader has taken, what it has in its queue and
    what the writer keeps is, one after the other, a subsequence of what was published. -/
theorem known_sublist_step {e : Event α} (h : t.known.Sublist t.published)
    (hs : step w r t e = some t') : t'.known.Sublist t'.published := by
  rcases step_cases hs with ⟨x, rfl, rfl⟩ | ⟨rfl, rfl⟩ | ⟨x, xs, rfl, hx, rfl⟩ |
    ⟨x, xs, rfl, hx, rfl⟩
  · have hpush : (t.taken ++ t.queue ++ push w t.history x).Sublist (t.known ++ [x]) := by
      rw [Topic.known, List.append_assoc (t.taken ++ t.queue)]
      exact (push_suffix w t.history x).sublist.append_left _
    exact hpush.trans (h.append_right [x])
  · refine List.Sublist.trans ?_ h
    rw [Topic.known, List.append_nil]
    exact List.sublist_append_left _ _
  · refine List.Sublist.trans ?_ h
    have hpush : (push r t.queue x ++ xs).Sublist (t.queue ++ t.history) := by
      rw [hx, List.append_cons]
      exact (push_suffix r t.queue x).sublist.append_right xs
    simpa only [Topic.known, List.append_assoc] using hpush.append_left t.taken
  · simpa [Topic.known, hx] using h

/-! ## The newest sample -/

/-- The newest sample is still known. -/
def NewestKnown (t : Topic α) : Prop := t.known.getLast? = t.published.getLast?

/-- A sample just published is known. -/
theorem newestKnown_publish (hw : 0 < w) (t : Topic α) (x : α) : NewestKnown (t.publish w x) := by
  simp only [NewestKnown, Topic.known, Topic.publish, push_eq hw, ← List.append_assoc,
    List.getLast?_concat]

/-- Deliveries and takes keep the newest sample. -/
theorem newestKnown_move {e : Event α} (hr : 0 < r) (h : NewestKnown t)
    (hs : step w r t e = some t') (he : e = .deliver ∨ e = .take) : NewestKnown t' := by
  rcases step_cases hs with ⟨x, rfl, _⟩ | ⟨rfl, _⟩ | ⟨x, xs, rfl, hx, rfl⟩ |
    ⟨x, xs, rfl, hx, rfl⟩
  · rcases he with he | he <;> cases he
  · rcases he with he | he <;> cases he
  · rw [NewestKnown, ← h]
    simp only [Topic.known, push_eq hr, hx, List.append_assoc, List.getLast?_append,
      List.singleton_append, List.getLast?_cons]
    simp
  · simpa [NewestKnown, Topic.known, hx] using h

/-! ## Without full queues -/

/-- No queue is full when it gets a sample, and the writer is renewed only when it has nothing left
    to deliver. -/
def Ample (w r : Nat) (t : Topic α) : Event α → Prop
  | .publish _ => t.history.length < w
  | .renew => t.history = []
  | .deliver => t.queue.length < r
  | .take => True

theorem complete_step {e : Event α} (h : t.known = t.published) (hs : step w r t e = some t')
    (ha : Ample w r t e) : t'.known = t'.published := by
  rcases step_cases hs with ⟨x, rfl, rfl⟩ | ⟨rfl, rfl⟩ | ⟨x, xs, rfl, hx, rfl⟩ |
    ⟨x, xs, rfl, hx, rfl⟩
  · simp only [Topic.known, Topic.publish, push_of_lt ha, ← h, List.append_assoc]
  · have hhistory : t.history = [] := ha
    rw [← h, Topic.known, Topic.known, hhistory]
  · simp only [Topic.known, push_of_lt ha, ← h, hx, List.append_assoc, List.singleton_append]
  · rw [← h]
    simp [Topic.known, hx]

end KeepLast
