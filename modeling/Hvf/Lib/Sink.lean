/-
# Output that is cut off

A sink is a memory and the position of the next output in it.  What is put at or behind
`stop` is counted, but not stored; so a position behind `stop` says how long the output
would have been.
-/

import Mathlib.Tactic

namespace Sink

variable {β : Type*}

/-- **An output buffer of unbounded storage**: what it holds, and where the next item goes,
which may be behind the end of what is stored. -/
structure Out (β : Type*) where
  mem : ℕ → β
  pos : ℕ

/-- One item written: it is stored only before `stop`, and the place moves on either way. -/
def put (stop : ℕ) (b : β) (s : Out β) : Out β :=
  ⟨if s.pos < stop then Function.update s.mem s.pos b else s.mem, s.pos + 1⟩

/-- One after the other. -/
def puts (stop : ℕ) : List β → Out β → Out β
  | [], s => s
  | b :: l, s => puts stop l (put stop b s)

variable {stop : ℕ} {l l' : List β} {s : Out β}

/-- Writing nothing changes nothing. -/
@[simp] theorem puts_nil : puts stop [] s = s := rfl

/-- The first item, then the rest. -/
@[simp] theorem puts_cons (b : β) : puts stop (b :: l) s = puts stop l (put stop b s) := rfl

/-- One list written behind the other. -/
theorem puts_append : puts stop (l ++ l') s = puts stop l' (puts stop l s) := by
  induction l generalizing s with
  | nil => rfl
  | cons b l ih => exact ih

/-- The place moves on by the number of items, stored or not. -/
@[simp] theorem pos_puts : (puts stop l s).pos = s.pos + l.length := by
  induction l generalizing s with
  | nil => rfl
  | cons b l ih =>
    rw [puts_cons, ih, List.length_cons, put]
    dsimp only
    omega

/-- **What is stored** of the output. -/
theorem mem_puts (stop : ℕ) (l : List β) (s : Out β) (i : ℕ) :
    (puts stop l s).mem i =
      if s.pos ≤ i ∧ i < stop then l.getD (i - s.pos) (s.mem i) else s.mem i := by
  induction l generalizing s with
  | nil => rw [puts_nil, List.getD_nil, ite_self]
  | cons b l ih =>
    rw [puts_cons, ih, put]
    dsimp only
    by_cases hnow : i = s.pos
    · subst hnow
      rw [if_neg (by omega), Nat.sub_self, List.getD_cons_zero]
      by_cases hstop : s.pos < stop
      · rw [if_pos hstop, if_pos ⟨le_rfl, hstop⟩, Function.update_self]
      · rw [if_neg hstop, if_neg fun h => hstop h.2]
    · have hkept : (if s.pos < stop then Function.update s.mem s.pos b else s.mem) i = s.mem i := by
        split_ifs
        · exact Function.update_of_ne hnow b s.mem
        · rfl
      rw [hkept]
      by_cases hin : s.pos + 1 ≤ i ∧ i < stop
      · rw [if_pos hin, if_pos ⟨by omega, hin.2⟩, show i - s.pos = i - (s.pos + 1) + 1 by omega,
          List.getD_cons_succ]
      · rw [if_neg hin, if_neg (by omega)]

/-- A loop that puts `b` while `n`, which it counts down, is above 0; what `n` is then. -/
def putWhile (stop : ℕ) (b : β) : ℕ → Int → Out β → Int × Out β
  | 0, n, s => (n - 1, s)
  | rounds + 1, n, s =>
      if 0 < n then putWhile stop b rounds (n - 1) (put stop b s) else (n - 1, s)

/-- **The loop puts as many as there are rounds.** -/
theorem putWhile_eq (stop : ℕ) (b : β) {rounds : ℕ} {n : Int} (h : n.toNat ≤ rounds) (s : Out β) :
    putWhile stop b rounds n s = (min n 0 - 1, puts stop (List.replicate n.toNat b) s) := by
  induction rounds generalizing n s with
  | zero =>
    rw [putWhile, min_eq_left (by omega), show n.toNat = 0 by omega, List.replicate_zero, puts_nil]
  | succ rounds ih =>
    rw [putWhile]
    split_ifs with hpos
    · rw [ih (by omega), min_eq_right (by omega), min_eq_right (by omega),
        show n.toNat = (n - 1).toNat + 1 by omega, List.replicate_succ, puts_cons]
    · rw [min_eq_left (by omega), show n.toNat = 0 by omega, List.replicate_zero, puts_nil]

end Sink
