/-
# Bitmaps in bytes

A bitmap is a run of bytes from the address `base` of a memory, and its bit `i`
is bit `7 - i % 8` of byte `i / 8`: the first bit is the most significant one of
the first byte.  `set` and `clear` change one bit and no other (`test_set`,
`test_clear`), and so change the number of bits set among the first `n` by one
(`count_set`, `count_clear`).
-/

import Mathlib.Tactic

namespace Bitmap

/-- Storage by the byte. -/
abbrev Mem := ℕ → BitVec 8

/-- The mask of bit `i` in its byte. -/
def mask (i : ℕ) : BitVec 8 := 1#8 <<< (7 - i % 8)

/-- Whether bit `i` is set. -/
def test (m : Mem) (base i : ℕ) : Bool := m (base + i / 8) &&& mask i != 0

/-- Storage with the `i`-th bit of the map at `base` set. -/
def set (m : Mem) (base i : ℕ) : Mem :=
  Function.update m (base + i / 8) (m (base + i / 8) ||| mask i)

/-- Storage with the `i`-th bit of the map at `base` cleared. -/
def clear (m : Mem) (base i : ℕ) : Mem :=
  Function.update m (base + i / 8) (m (base + i / 8) &&& ~~~mask i)

/-- The number of bits set among the first `n`. -/
def count (m : Mem) (base n : ℕ) : ℕ := (List.range n).countP (test m base)

/-- The first of the first `n` bits that is clear. -/
def firstClear (m : Mem) (base n : ℕ) : Option ℕ := (List.range n).find? fun i => !test m base i

variable {m m' : Mem} {base i j n : ℕ}

/-- A bit's mask has that bit of its byte and no other; bits are numbered from the left. -/
theorem getLsbD_mask (i k : ℕ) : (mask i).getLsbD k = decide (k = 7 - i % 8) := by
  have hlt : i % 8 < 8 := Nat.mod_lt i (by norm_num)
  simp only [mask, BitVec.getLsbD_shiftLeft, BitVec.getLsbD_one]
  by_cases hk : k = 7 - i % 8
  · simp [hk, show 7 - i % 8 < 8 by omega]
  · have hout : ¬ (7 - i % 8 ≤ k ∧ k - (7 - i % 8) = 0) := by omega
    simp only [hk, decide_false]
    by_contra hset
    simp only [Bool.not_eq_false, Bool.and_eq_true, decide_eq_true_eq, Bool.not_eq_true',
      decide_eq_false_iff_not] at hset
    omega

/-- Testing a byte with the mask reads the bit. -/
theorem and_mask_ne_zero (b : BitVec 8) (i : ℕ) :
    (b &&& mask i != 0) = b.getLsbD (7 - i % 8) := by
  have hlt : 7 - i % 8 < 8 := by omega
  have hbit : ∀ k, (b &&& mask i).getLsbD k = (b.getLsbD k && decide (k = 7 - i % 8)) := by
    intro k
    rw [BitVec.getLsbD_and, getLsbD_mask]
  cases hb : b.getLsbD (7 - i % 8)
  · have hzero : b &&& mask i = 0 := by
      refine BitVec.eq_of_getLsbD_eq fun k hk => ?_
      rw [hbit]
      by_cases hki : k = 7 - i % 8
      · simp [hki, hb]
      · simp [hki]
    simp [hzero]
  · have hne : b &&& mask i ≠ 0 := by
      intro hzero
      have hset := hbit (7 - i % 8)
      rw [hzero, hb] at hset
      simp at hset
    simpa using hne

/-- The test of the map reads the bit of its byte. -/
theorem test_eq (m : Mem) (base i : ℕ) :
    test m base i = (m (base + i / 8)).getLsbD (7 - i % 8) :=
  and_mask_ne_zero _ i

/-- Two bits are the same one when they share the byte and the place in it. -/
theorem eq_of_place (hbyte : i / 8 = j / 8) (hplace : 7 - i % 8 = 7 - j % 8) : i = j := by
  omega

/-- **`set` sets its bit and no other.** -/
theorem test_set (m : Mem) (base i j : ℕ) :
    test (set m base i) base j = (decide (j = i) || test m base j) := by
  rw [test_eq, test_eq, set]
  by_cases hbyte : base + j / 8 = base + i / 8
  · rw [hbyte, Function.update_self, BitVec.getLsbD_or, getLsbD_mask, Bool.or_comm]
    congr 1
    exact decide_eq_decide.2 ⟨fun hplace => eq_of_place (by omega) hplace, fun h => by rw [h]⟩
  · have hne : j ≠ i := by
      rintro rfl
      exact hbyte rfl
    rw [Function.update_of_ne hbyte]
    simp [hne]

/-- **`clear` clears its bit and no other.** -/
theorem test_clear (m : Mem) (base i j : ℕ) :
    test (clear m base i) base j = (!decide (j = i) && test m base j) := by
  rw [test_eq, test_eq, clear]
  by_cases hbyte : base + j / 8 = base + i / 8
  · have hlt : 7 - j % 8 < 8 := by omega
    rw [hbyte, Function.update_self, BitVec.getLsbD_and, BitVec.getLsbD_not, getLsbD_mask,
      Bool.and_comm]
    congr 1
    simp only [hlt, decide_true, Bool.true_and]
    congr 1
    exact decide_eq_decide.2 ⟨fun hplace => eq_of_place (by omega) hplace, fun h => by rw [h]⟩
  · have hne : j ≠ i := by
      rintro rfl
      exact hbyte rfl
    rw [Function.update_of_ne hbyte]
    simp [hne]

/-- Setting a bit touches no byte but its own. -/
theorem set_of_ne {a : ℕ} (h : a ≠ base + i / 8) : set m base i a = m a :=
  Function.update_of_ne h _ m

/-- Clearing a bit touches no byte but its own. -/
theorem clear_of_ne {a : ℕ} (h : a ≠ base + i / 8) : clear m base i a = m a :=
  Function.update_of_ne h _ m

/-- A bit that was clear, set and cleared again. -/
theorem clear_set (h : test m base i = false) : clear (set m base i) base i = m := by
  have hzero : m (base + i / 8) &&& mask i = 0 := by
    simpa [test] using h
  have hbyte : (m (base + i / 8) ||| mask i) &&& ~~~mask i = m (base + i / 8) := by
    refine BitVec.eq_of_getLsbD_eq fun k hk => ?_
    have hbit : ((m (base + i / 8)).getLsbD k && (mask i).getLsbD k) = false := by
      rw [← BitVec.getLsbD_and, hzero]
      exact BitVec.getLsbD_zero
    rw [BitVec.getLsbD_and, BitVec.getLsbD_or, BitVec.getLsbD_not, decide_eq_true hk]
    cases hmask : (mask i).getLsbD k with
    | false => simp
    | true =>
      rw [hmask, Bool.and_true] at hbit
      simp [hbit]
  rw [clear, set, Function.update_self, hbyte, Function.update_idem, Function.update_eq_self]

/-- Bits below `n` are in the first `(n + 7) / 8` bytes. -/
theorem test_congr (h : ∀ k < (n + 7) / 8, m (base + k) = m' (base + k)) (hi : i < n) :
    test m base i = test m' base i := by
  rw [test, test, h (i / 8) (by omega)]

/-- The number of bits set depends on the bits. -/
theorem count_congr (h : ∀ i < n, test m base i = test m' base i) :
    count m base n = count m' base n :=
  List.countP_congr fun i hi => by rw [h i (List.mem_range.1 hi)]

/-- It is at most the number of bits. -/
theorem count_le (m : Mem) (base n : ℕ) : count m base n ≤ n := by
  simpa [count] using List.countP_le_length (p := test m base) (l := List.range n)

/-- One bit more counts if it is set. -/
theorem count_succ (m : Mem) (base n : ℕ) :
    count m base (n + 1) = count m base n + if test m base n then 1 else 0 := by
  rw [count, List.range_succ, List.countP_append]
  simp [count]

/-- **A bit that becomes set is one more.** -/
theorem count_set (hi : i < n) (hclear : test m base i = false) :
    count (set m base i) base n = count m base n + 1 := by
  induction n with
  | zero => exact absurd hi (Nat.not_lt_zero i)
  | succ n ih =>
    rw [count_succ, count_succ, test_set]
    rcases Nat.lt_succ_iff_lt_or_eq.1 hi with hlt | rfl
    · have hne : n ≠ i := by omega
      rw [ih hlt]
      simp only [hne, decide_false, Bool.false_or]
      omega
    · have hsame : count (set m base i) base i = count m base i := by
        refine count_congr fun k hk => ?_
        rw [test_set]
        simp [show k ≠ i by omega]
      rw [hsame, hclear]
      simp

/-- **A bit that becomes clear is one less.** -/
theorem count_clear (hi : i < n) (hset : test m base i = true) :
    count (clear m base i) base n + 1 = count m base n := by
  have hback : count (set (clear m base i) base i) base n = count m base n := by
    refine count_congr fun k _ => ?_
    rw [test_set, test_clear]
    by_cases hk : k = i
    · simp [hk, hset]
    · simp [hk]
  rw [← hback, count_set hi]
  rw [test_clear]
  simp

/-- No bit set counts zero. -/
theorem count_eq_zero (h : ∀ i < n, test m base i = false) : count m base n = 0 :=
  List.countP_eq_zero.2 fun i hi => by simp [h i (List.mem_range.1 hi)]

/-- The first clear bit is clear, within the map, and has only set ones before it. -/
theorem firstClear_eq_some (h : firstClear m base n = some i) :
    i < n ∧ test m base i = false ∧ ∀ j < i, test m base j = true := by
  obtain ⟨hclear, hmem, hbefore⟩ := List.find?_range_eq_some.1 h
  exact ⟨List.mem_range.1 hmem, by simpa using hclear, fun j hj => by simpa using hbefore j hj⟩

/-- **A bitmap that is not full has a clear bit.** -/
theorem exists_firstClear (h : count m base n < n) : ∃ i, firstClear m base n = some i := by
  rw [← Option.isSome_iff_exists, firstClear, List.find?_isSome]
  by_contra hfull
  push Not at hfull
  have hall : count m base n = (List.range n).length :=
    List.countP_eq_length.2 fun i hi => by simpa using hfull i hi
  rw [List.length_range] at hall
  omega

end Bitmap
