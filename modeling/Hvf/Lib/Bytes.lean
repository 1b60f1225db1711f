/-
# Numbers in a memory of bytes

A memory gives a byte for each address.  Numbers are big-endian, doublewords
(`get64`) or of any number of bytes (`num`); `copy` moves a range of bytes.  What a
read returns is known from `get64_congr` and `num_congr` wherever the bytes it
reads are.
-/

import Mathlib.Tactic

namespace Bytes

/-- The byte at each address. -/
abbrev Mem := ℕ → UInt8

/-- The doubleword at `a`. -/
def get64 (m : Mem) (a : ℕ) : UInt64 :=
  .ofNat ((List.range 8).foldl (fun w k => w * 256 + (m (a + k)).toNat) 0)

/-- The doubleword `w` is stored at `a`. -/
def put64 (m : Mem) (a : ℕ) (w : UInt64) : Mem := fun b =>
  if a ≤ b ∧ b < a + 8 then .ofNat (w.toNat / 256 ^ (7 - (b - a))) else m b

/-- The `n` bytes at `src` are copied to `dst`. -/
def copy (m : Mem) (dst src n : ℕ) : Mem := fun b =>
  if dst ≤ b ∧ b < dst + n then m (src + (b - dst)) else m b

/-- A doubleword depends on its eight bytes. -/
theorem get64_congr {m m' : Mem} {a : ℕ} (h : ∀ k < 8, m (a + k) = m' (a + k)) :
    get64 m a = get64 m' a := by
  refine congrArg UInt64.ofNat (List.foldl_ext _ _ _ fun w k hk => ?_)
  rw [h k (List.mem_range.1 hk)]

/-- **A doubleword is read back.** -/
theorem get64_put64 (m : Mem) (a : ℕ) (w : UInt64) : get64 (put64 m a w) a = w := by
  have hbyte : ∀ k < 8, put64 m a w (a + k) = .ofNat (w.toNat / 256 ^ (7 - k)) := by
    intro k hk
    rw [put64, if_pos (by omega), Nat.add_sub_cancel_left]
  have hw := w.toNat_lt
  apply UInt64.toNat_inj.1
  unfold get64
  rw [UInt64.toNat_ofNat']
  simp only [List.range, List.range.loop, List.foldl_cons, List.foldl_nil]
  rw [hbyte 0 (by omega), hbyte 1 (by omega), hbyte 2 (by omega), hbyte 3 (by omega),
    hbyte 4 (by omega), hbyte 5 (by omega), hbyte 6 (by omega), hbyte 7 (by omega)]
  simp only [UInt8.toNat_ofNat']
  omega

/-- A store leaves the doublewords beside it alone. -/
theorem get64_put64_of_disjoint (m : Mem) {a b : ℕ} (w : UInt64) (h : b + 8 ≤ a ∨ a + 8 ≤ b) :
    get64 (put64 m a w) b = get64 m b :=
  get64_congr fun k hk => if_neg (by omega)

/-- A copy leaves the doublewords beside its destination alone. -/
theorem get64_copy_of_disjoint (m : Mem) {dst src n b : ℕ} (h : b + 8 ≤ dst ∨ dst + n ≤ b) :
    get64 (copy m dst src n) b = get64 m b :=
  get64_congr fun k hk => if_neg (by omega)

/-! ### Numbers of any width -/

/-- The number in the `n` bytes at `a`. -/
def num (m : Mem) (a : ℕ) : ℕ → ℕ
  | 0 => 0
  | n + 1 => num m a n * 256 + (m (a + n)).toNat

/-- `v` is stored in the `n` bytes at `a`. -/
def setNum (m : Mem) (a n v : ℕ) : Mem := fun b =>
  if a ≤ b ∧ b < a + n then .ofNat (v / 256 ^ (n - 1 - (b - a))) else m b

variable {m m' : Mem} {a a' b dst src n k v : ℕ}

/-- A number read from storage depends on its bytes. -/
theorem num_congr (h : ∀ k < n, m (a + k) = m' (a' + k)) : num m a n = num m' a' n := by
  induction n with
  | zero => rfl
  | succ n ih => rw [num, num, ih fun k hk => h k (by omega), h n (by omega)]

/-- A number of `n` bytes is below `256^n`. -/
theorem num_lt (m : Mem) (a n : ℕ) : num m a n < 256 ^ n := by
  induction n with
  | zero => exact Nat.one_pos
  | succ n ih =>
    have hbyte := (m (a + n)).toNat_lt
    rw [num, Nat.pow_succ]
    omega

/-- Storing a number leaves the bytes outside it. -/
theorem setNum_of_disjoint (h : b < a ∨ a + n ≤ b) : setNum m a n v b = m b :=
  if_neg (by omega)

/-- **A number is read back.** -/
theorem num_setNum (m : Mem) (a : ℕ) (hv : v < 256 ^ n) : num (setNum m a n v) a n = v := by
  -- the first `k` bytes hold the leading digits
  have hdigits : ∀ k ≤ n, num (setNum m a n v) a k = v / 256 ^ (n - k) % 256 ^ k := by
    intro k hk
    induction k with
    | zero => rw [num, Nat.pow_zero, Nat.mod_one]
    | succ k ih =>
      have hbyte : setNum m a n v (a + k) = .ofNat (v / 256 ^ (n - (k + 1))) := by
        rw [setNum, if_pos (by omega), Nat.add_sub_cancel_left, Nat.sub_sub, Nat.add_comm 1 k]
      have hdiv : v / 256 ^ (n - k) = v / 256 ^ (n - (k + 1)) / 256 := by
        rw [Nat.div_div_eq_div_mul, ← Nat.pow_succ, Nat.succ_eq_add_one,
          show n - (k + 1) + 1 = n - k by omega]
      rw [num, ih (by omega), hbyte, UInt8.toNat_ofNat', hdiv]
      have hsplit := Nat.mod_mul (x := v / 256 ^ (n - (k + 1))) (a := 256) (b := 256 ^ k)
      rw [← Nat.pow_succ', Nat.succ_eq_add_one] at hsplit
      omega
  rw [hdigits n le_rfl, Nat.sub_self, Nat.pow_zero, Nat.div_one, Nat.mod_eq_of_lt hv]

/-- A byte of a number. -/
theorem ofNat_num_div (m : Mem) (a : ℕ) (hk : k < n) :
    UInt8.ofNat (num m a n / 256 ^ (n - 1 - k)) = m (a + k) := by
  induction n with
  | zero => exact absurd hk (Nat.not_lt_zero k)
  | succ n ih =>
    have hbyte := (m (a + n)).toNat_lt
    rw [num, Nat.add_sub_cancel]
    rcases Nat.lt_or_ge k n with hlt | hge
    · rw [← ih hlt, show n - k = n - 1 - k + 1 by omega, Nat.pow_succ', ← Nat.div_div_eq_div_mul]
      congr 2
      omega
    · obtain rfl : k = n := by omega
      rw [Nat.sub_self, Nat.pow_zero, Nat.div_one]
      apply UInt8.toNat_inj.1
      rw [UInt8.toNat_ofNat']
      omega

/-- A store leaves the numbers beside it alone. -/
theorem num_setNum_of_disjoint {a n b k v : ℕ} (h : b + k ≤ a ∨ a + n ≤ b) :
    num (setNum m a n v) b k = num m b k :=
  num_congr fun _ _ => setNum_of_disjoint (by omega)

/-- A copy leaves the bytes outside its destination. -/
theorem copy_of_disjoint (h : b < dst ∨ dst + n ≤ b) : copy m dst src n b = m b :=
  if_neg (by omega)

/-- A copied byte is the source's. -/
theorem copy_inside (h : k < n) : copy m dst src n (dst + k) = m (src + k) := by
  rw [copy, if_pos (by omega), Nat.add_sub_cancel_left]

/-- A number in the copy is the one in the source. -/
theorem num_copy_inside {w : ℕ} (h : k + w ≤ n) :
    num (copy m dst src n) (dst + k) w = num m (src + k) w :=
  num_congr fun j _ => by
    rw [Nat.add_assoc, Nat.add_assoc]
    exact copy_inside (by omega)

/-- A copy leaves the numbers beside its destination alone. -/
theorem num_copy_of_disjoint (h : b + k ≤ dst ∨ dst + n ≤ b) :
    num (copy m dst src n) b k = num m b k :=
  num_congr fun _ _ => copy_of_disjoint (by omega)

end Bytes
