/-
# Specifications of programs that may give up

A program that can stop for want of something is an `Option`.  `Spec ok x P` says
that what `x` returns has the property `P`, and that it does return if `ok`: one
statement for both, so that a program is taken apart once.
-/

import Mathlib.Tactic

namespace Outcome

variable {α β : Type*} {ok ok' : Prop} {x : Option α} {f : α → Option β} {P P' : α → Prop}
  {Q : β → Prop}

/-- What `x` returns satisfies `P`, and if `ok` it returns. -/
def Spec (ok : Prop) (x : Option α) (P : α → Prop) : Prop :=
  match x with
  | some a => P a
  | none => ¬ ok

/-- A result that satisfies the postcondition satisfies the specification. -/
theorem Spec.ret {a : α} (h : P a) : Spec ok (some a) P := h

/-- No result satisfies it where none is promised. -/
theorem Spec.none (h : ¬ ok) : Spec ok (none : Option α) P := h

/-- **One program after another.** -/
theorem Spec.bind (h : Spec ok x P) (hf : ∀ a, P a → Spec ok (f a) Q) : Spec ok (x.bind f) Q := by
  cases x with
  | none => exact h
  | some a => exact hf a h

/-- A weaker postcondition is satisfied too. -/
theorem Spec.mono (h : Spec ok x P) (hP : ∀ a, P a → P' a) : Spec ok x P' := by
  cases x with
  | none => exact h
  | some a => exact hP a h

/-- What a computation that returned has established. -/
theorem Spec.post {a : α} (h : Spec ok x P) (hx : x = some a) : P a := by
  rw [hx] at h
  exact h

/-- Where a result is promised, there is one, and it satisfies the postcondition. -/
theorem Spec.returns (h : Spec ok x P) (hok : ok) : ∃ a, x = some a ∧ P a := by
  cases x with
  | none => exact absurd hok h
  | some a => exact ⟨a, rfl, h⟩

end Outcome
