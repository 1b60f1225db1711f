/-
# The first number of a range

`firstFrom p i n` is the first of the `n` numbers from `i` on that `p` accepts:
the loop that counts up and stops at a free number.
-/

import Mathlib.Tactic

namespace Search

variable {p : ℕ → Bool} {i j k n : ℕ}

/-- The first of `i`, …, `i + n - 1` that `p` accepts. -/
def firstFrom (p : ℕ → Bool) : ℕ → ℕ → Option ℕ
  | _, 0 => none
  | i, n + 1 => if p i then some i else firstFrom p (i + 1) n

/-- The index found is the first of those searched that has the property. -/
theorem firstFrom_eq_some (h : firstFrom p i n = some k) :
    i ≤ k ∧ k < i + n ∧ p k = true ∧ ∀ j, i ≤ j → j < k → p j = false := by
  induction n generalizing i with
  | zero => cases h
  | succ n ih =>
    rw [firstFrom] at h
    split at h
    case isTrue hp =>
      obtain rfl := Option.some.inj h
      exact ⟨le_rfl, by omega, hp, fun j hij hji => by omega⟩
    case isFalse hp =>
      obtain ⟨hle, hlt, hk, hbefore⟩ := ih h
      refine ⟨by omega, by omega, hk, fun j hij hjk => ?_⟩
      by_cases hj : j = i
      · rw [hj]
        exact Bool.eq_false_iff.2 hp
      · exact hbefore j (by omega) hjk

/-- Where nothing is found, none of those searched has it. -/
theorem firstFrom_eq_none (h : firstFrom p i n = none) (hij : i ≤ j) (hj : j < i + n) :
    p j = false := by
  induction n generalizing i with
  | zero => omega
  | succ n ih =>
    rw [firstFrom] at h
    split at h
    case isTrue => cases h
    case isFalse hp =>
      by_cases heq : j = i
      · rw [heq]
        exact Bool.eq_false_iff.2 hp
      · exact ih h (by omega) (by omega)

/-- **A number that is accepted is found,** or one before it. -/
theorem exists_firstFrom (hij : i ≤ j) (hj : j < i + n) (hp : p j = true) :
    ∃ k, firstFrom p i n = some k := by
  cases h : firstFrom p i n with
  | some k => exact ⟨k, rfl⟩
  | none =>
    rw [firstFrom_eq_none h hij hj] at hp
    cases hp

end Search
