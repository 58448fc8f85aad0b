import Mathlib.Data.List.Basic

/-!
# Traces that explain themselves

A system keeps a trace of what has happened.  Some occurrences need a reason in the trace before
them.

* `Explained J trace` — `J before o` holds of every occurrence `o` of the trace and what is `before`
  it.
* `explained_concat_iff` — one more occurrence needs its own reason and no other.
* `Since P before o` — the last part of a trace after an occurrence `o`, all of it in `P`.
-/

set_option autoImplicit false

namespace Trace

variable {ω : Type*}

def Explained (J : List ω → ω → Prop) (trace : List ω) : Prop :=
  ∀ before o after, trace = before ++ o :: after → J before o

/-- `o` has occurred, and since then only what satisfies `P`; `mid` is what came after it. -/
def Since (o : ω) (P : ω → Prop) (trace mid : List ω) : Prop :=
  (∃ before, trace = before ++ o :: mid) ∧ ∀ p ∈ mid, P p

variable {J : List ω → ω → Prop} {P : ω → Prop} {trace mid : List ω} {o p : ω}

theorem explained_nil : Explained J [] := by
  intro before o after heq
  cases before <;> cases heq

theorem explained_concat_iff : Explained J (trace ++ [o]) ↔ Explained J trace ∧ J trace o := by
  constructor
  · intro h
    exact ⟨fun before p after heq => h before p (after ++ [o]) (by rw [heq]; simp),
      h trace o [] rfl⟩
  · rintro ⟨h, ho⟩ before p after heq
    rcases List.eq_nil_or_concat after with rfl | ⟨init, last, rfl⟩
    · obtain ⟨rfl, hlast⟩ := List.append_inj' heq rfl
      exact (List.cons.inj hlast).1 ▸ ho
    · have heq' : trace ++ [o] = (before ++ p :: init) ++ [last] := by
        rw [heq]
        simp
      obtain ⟨hinit, _⟩ := List.append_inj' heq' rfl
      exact h before p init hinit

theorem since_concat_self (trace : List ω) (o : ω) : Since o P (trace ++ [o]) [] :=
  ⟨⟨trace, rfl⟩, fun _ hp => by cases hp⟩

theorem Since.concat (h : Since o P trace mid) (hp : P p) :
    Since o P (trace ++ [p]) (mid ++ [p]) := by
  obtain ⟨⟨before, rfl⟩, hmid⟩ := h
  refine ⟨⟨before, by simp⟩, fun q hq => ?_⟩
  rcases List.mem_append.mp hq with hq | hq
  · exact hmid q hq
  · exact List.mem_singleton.mp hq ▸ hp

end Trace
