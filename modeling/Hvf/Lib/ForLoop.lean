/-
# Loops that count up

`forUp bound body n i s` is the loop that runs `body` at `i`, `i + 1` and so on from
the state `s`, for at most `n` rounds; the bound is computed anew before each round.
A property that every round moves on by one holds at the end for the bound
(`forUp_invariant`).
-/

import Mathlib.Tactic

namespace ForLoop

variable {σ : Type*} {bound : σ → ℕ} {body : ℕ → σ → σ}

/-- `for (; i < bound; i++) body`. -/
def forUp (bound : σ → ℕ) (body : ℕ → σ → σ) : ℕ → ℕ → σ → σ
  | 0, _, s => s
  | n + 1, i, s => if i < bound s then forUp bound body n (i + 1) (body i s) else s

/-- A loop whose bound is reached is over. -/
theorem forUp_done {n i : ℕ} {s : σ} (h : bound s ≤ i) : forUp bound body n i s = s := by
  cases n with
  | zero => rfl
  | succ n => exact if_neg (by omega)

/-- **The rule of the loop,** for a bound that stays. -/
theorem forUp_invariant {P : ℕ → σ → Prop} {top : ℕ} (hbound : ∀ i s, P i s → bound s = top)
    (hstep : ∀ i s, i < top → P i s → P (i + 1) (body i s)) {n i : ℕ} {s : σ} (h : P i s)
    (hi : i ≤ top) (hn : top ≤ i + n) : P top (forUp bound body n i s) := by
  induction n generalizing i s with
  | zero =>
    obtain rfl : i = top := by omega
    exact h
  | succ n ih =>
    rw [forUp, hbound i s h]
    by_cases hlt : i < top
    · rw [if_pos hlt]
      exact ih (hstep i s hlt h) hlt (by omega)
    · rw [if_neg hlt]
      obtain rfl : i = top := by omega
      exact h

end ForLoop
