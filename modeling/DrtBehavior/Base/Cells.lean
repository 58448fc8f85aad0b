import Mathlib.Data.List.Basic

/-!
# Cells of a growing list

A list used as a table of objects: an object is known by its position, new ones are appended and
old ones overwritten.

* `getElem?_concat_cases`, `getElem?_set_cases` — a cell is the new one or an old one.
* `getElem?_concat_of_some` — appending keeps the cells there are.
-/

set_option autoImplicit false

namespace Cells

variable {α : Type*} {l : List α} {a b : α} {i j : Nat}

theorem getElem?_concat_of_some (h : l[i]? = some b) :
    (l ++ [a])[i]? = some b ∧ i ≠ l.length := by
  obtain ⟨hlt, _⟩ := List.getElem?_eq_some_iff.mp h
  refine ⟨?_, by omega⟩
  rw [List.getElem?_append_left hlt, h]

theorem getElem?_concat_cases (h : (l ++ [a])[i]? = some b) :
    l[i]? = some b ∨ (i = l.length ∧ b = a) := by
  obtain ⟨hlt, _⟩ := List.getElem?_eq_some_iff.mp h
  rw [List.length_append, List.length_singleton] at hlt
  by_cases hi : i < l.length
  · rw [List.getElem?_append_left hi] at h
    exact .inl h
  · obtain rfl : i = l.length := by omega
    rw [List.getElem?_concat_length] at h
    exact .inr ⟨rfl, (Option.some.inj h).symm⟩

theorem getElem?_set_cases (h : (l.set i a)[j]? = some b) :
    (j = i ∧ b = a) ∨ (j ≠ i ∧ l[j]? = some b) := by
  by_cases hj : j = i
  · subst hj
    obtain ⟨hlt, _⟩ := List.getElem?_eq_some_iff.mp h
    rw [List.length_set] at hlt
    rw [List.getElem?_set_self hlt] at h
    exact .inl ⟨rfl, (Option.some.inj h).symm⟩
  · rw [List.getElem?_set_ne (Ne.symm hj)] at h
    exact .inr ⟨hj, h⟩

end Cells
