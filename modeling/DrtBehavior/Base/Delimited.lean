import Mathlib.Data.List.Basic

/-!
# Items ended by a delimiter, and the line-reading loop

A writer that ends every item with a delimiter and a reader that calls a `getline` until it
fails.

* `getline` — one call: the items up to the delimiter and what is left behind it, `none` at the
  end of the stream.
* `getlines` — all items the loop `while (getline(stream, item, d))` reads; `getlines_eq` is the
  loop equation.
* `terminated` — the text of a list of items.
* `getlines_terminated_iff` — the reader gives the items back iff none contains the delimiter.
* `getlines_terminated_eq`, `exists_getlines_append` — what it makes of items that do: each one on
  its own, the end of it in one part.
* `intercalate_eq_iff` — the text with a delimiter between the items, none behind the last.
-/

set_option autoImplicit false

namespace Delimited

variable {α : Type*} [DecidableEq α]

/-- One read: the item before the first `d` (or before the end of the stream) and the rest of
    the stream behind that `d`.  Nothing is left to read in an empty stream. -/
def getline (d : α) : List α → Option (List α × List α)
  | [] => none
  | x :: xs =>
    some ((x :: xs).takeWhile (fun y => decide (y ≠ d)),
      ((x :: xs).dropWhile (fun y => decide (y ≠ d))).tail)

/-- The items read until `getline` fails. -/
def getlines (d : α) : List α → List (List α)
  | [] => []
  | x :: xs =>
    if x = d then [] :: getlines d xs
    else match getlines d xs with
      | [] => [[x]]
      | item :: items => (x :: item) :: items

/-- The text of `items`, each ended by `d`. -/
def terminated (d : α) (items : List (List α)) : List α := items.flatMap fun item => item ++ [d]

variable {d : α}

@[simp] theorem getlines_nil : getlines d [] = [] := rfl

@[simp] theorem getlines_delim (xs : List α) : getlines d (d :: xs) = [] :: getlines d xs := by
  simp [getlines]

theorem getlines_eq_nil {xs : List α} (h : getlines d xs = []) : xs = [] := by
  cases xs with
  | nil => rfl
  | cons x xs =>
    simp only [getlines] at h
    split at h
    · cases h
    · split at h <;> cases h

/-- **The loop equation.** -/
theorem getlines_eq (xs : List α) :
    getlines d xs =
      match getline d xs with
      | none => []
      | some (item, rest) => item :: getlines d rest := by
  induction xs with
  | nil => rfl
  | cons x xs ih =>
    by_cases hx : x = d
    · subst hx; simp [getline]
    · cases xs with
      | nil => simp [getlines, getline, hx]
      | cons y ys =>
        rw [getlines, if_neg hx, ih]
        simp [getline, List.takeWhile_cons, List.dropWhile_cons, hx]

/-- Reading one item that does not contain the delimiter. -/
theorem getlines_append {item : List α} (h : d ∉ item) (rest : List α) :
    getlines d (item ++ d :: rest) = item :: getlines d rest := by
  induction item with
  | nil => simp
  | cons x item ih =>
    simp only [List.mem_cons, not_or] at h
    rw [List.cons_append, getlines, if_neg (Ne.symm h.1), ih h.2]

/-- No item that is read contains the delimiter. -/
theorem not_mem_of_mem_getlines {xs item : List α} (h : item ∈ getlines d xs) : d ∉ item := by
  induction xs generalizing item with
  | nil => cases h
  | cons x xs ih =>
    simp only [getlines] at h
    split at h
    · rcases List.mem_cons.mp h with rfl | h
      · exact List.not_mem_nil
      · exact ih h
    · rename_i hx
      split at h
      · simp only [List.mem_singleton] at h
        subst h
        simpa using Ne.symm hx
      · rename_i first items hxs
        rcases List.mem_cons.mp h with rfl | h
        · have hf : d ∉ first := ih (by rw [hxs]; exact List.mem_cons_self)
          simp only [List.mem_cons, not_or]
          exact ⟨Ne.symm hx, hf⟩
        · exact ih (by rw [hxs]; exact List.mem_cons_of_mem _ h)

theorem getlines_terminated {items : List (List α)} (h : ∀ item ∈ items, d ∉ item) :
    getlines d (terminated d items) = items := by
  induction items with
  | nil => rfl
  | cons item items ih =>
    have hrest : getlines d (terminated d items) = items :=
      ih fun i hi => h i (List.mem_cons_of_mem _ hi)
    rw [terminated, List.flatMap_cons, List.append_assoc, List.singleton_append,
      getlines_append (h item List.mem_cons_self)]
    exact congrArg _ hrest

/-- **The reader gives the items back exactly when none contains the delimiter.** -/
theorem getlines_terminated_iff (items : List (List α)) :
    getlines d (terminated d items) = items ↔ ∀ item ∈ items, d ∉ item := by
  constructor
  · intro h item hi
    rw [← h] at hi
    exact not_mem_of_mem_getlines hi
  · exact getlines_terminated

/-! ## Items that contain the delimiter -/

theorem mem_of_mem_getlines {xs item : List α} (h : item ∈ getlines d xs) :
    ∀ x ∈ item, x ∈ xs := by
  induction xs generalizing item with
  | nil => cases h
  | cons y xs ih =>
    intro x hx
    simp only [getlines] at h
    split at h
    · rcases List.mem_cons.mp h with rfl | h
      · cases hx
      · exact List.mem_cons_of_mem y (ih h x hx)
    · split at h
      · rw [List.mem_singleton.mp h] at hx
        rw [List.mem_singleton.mp hx]
        exact List.mem_cons_self
      · rename_i first items hxs
        rcases List.mem_cons.mp h with rfl | h
        · rcases List.mem_cons.mp hx with rfl | hx
          · exact List.mem_cons_self
          · exact List.mem_cons_of_mem y (ih (by rw [hxs]; exact List.mem_cons_self) x hx)
        · exact List.mem_cons_of_mem y (ih (by rw [hxs]; exact List.mem_cons_of_mem _ h) x hx)

/-- What stands in front of a delimiter is read on its own. -/
theorem getlines_append_delim (xs rest : List α) :
    getlines d (xs ++ d :: rest) = getlines d (xs ++ [d]) ++ getlines d rest := by
  induction xs with
  | nil => simp
  | cons x xs ih =>
    by_cases hx : x = d
    · subst hx
      simp [ih]
    · rw [List.cons_append, List.cons_append, getlines, if_neg hx, getlines, if_neg hx, ih]
      cases hxs : getlines d (xs ++ [d]) with
      | nil => exact absurd (getlines_eq_nil hxs) (by simp)
      | cons item items => rfl

/-- **The reader gives the parts of each item.** -/
theorem getlines_terminated_eq (items : List (List α)) :
    getlines d (terminated d items) = items.flatMap fun item => getlines d (item ++ [d]) := by
  induction items with
  | nil => rfl
  | cons item items ih =>
    rw [terminated, List.flatMap_cons, List.append_assoc, List.singleton_append,
      getlines_append_delim, List.flatMap_cons, ← ih]
    rfl

/-- An ending without the delimiter stays in the last part. -/
theorem exists_getlines_append {ending : List α} (h : d ∉ ending) (xs : List α) :
    ∃ parts last, getlines d (xs ++ [d]) = parts ++ [last] ∧
      getlines d (xs ++ ending ++ [d]) = parts ++ [last ++ ending] := by
  induction xs with
  | nil => exact ⟨[], [], by simp, by rw [List.nil_append, getlines_append h]; rfl⟩
  | cons x xs ih =>
    obtain ⟨parts, last, hxs, hending⟩ := ih
    by_cases hx : x = d
    · subst hx
      exact ⟨[] :: parts, last, by simp [hxs], by simpa using hending⟩
    · rw [List.cons_append, List.cons_append, List.cons_append, getlines, if_neg hx, getlines,
        if_neg hx, hxs, hending]
      cases parts with
      | nil => exact ⟨[], x :: last, rfl, rfl⟩
      | cons part parts => exact ⟨(x :: part) :: parts, last, rfl, rfl⟩

/-! ## Items with the delimiter between them -/

omit [DecidableEq α] in
theorem intercalate_append_delim : ∀ {items : List (List α)}, items ≠ [] →
    [d].intercalate items ++ [d] = terminated d items
  | [], h => absurd rfl h
  | [item], _ => by simp [terminated]
  | item :: next :: items, _ => by
    have hrest := intercalate_append_delim (List.cons_ne_nil next items)
    rw [List.intercalate_cons_cons, List.append_assoc, hrest]
    rfl

/-- **Items without the delimiter are read in one way**, if there are any. -/
theorem intercalate_eq_iff {items items' : List (List α)} (hne : items ≠ []) (hne' : items' ≠ [])
    (h : ∀ item ∈ items, d ∉ item) (h' : ∀ item ∈ items', d ∉ item) :
    [d].intercalate items = [d].intercalate items' ↔ items = items' := by
  refine ⟨fun heq => ?_, fun heq => by rw [heq]⟩
  rw [← getlines_terminated h, ← getlines_terminated h', ← intercalate_append_delim hne,
    ← intercalate_append_delim hne', heq]

end Delimited
