/-
# Folding over the whole blocks of a text

`foldBlocks n f s xs` takes `xs` in blocks of `n` elements, from the front, and
leaves out what is behind the last whole block.  The rule is that of `foldl` for
an append, as long as the cut is between two blocks.
-/

import Mathlib.Tactic

namespace Blocks

variable {σ α : Type*}

/-- Block `i` of `xs`. -/
def block (n : ℕ) (xs : List α) (i : ℕ) : List α := (xs.drop (i * n)).take n

/-- The whole blocks of `xs`, folded with `f`. -/
def foldBlocks (n : ℕ) (f : σ → List α → σ) (s : σ) (xs : List α) : σ :=
  (List.range (xs.length / n)).foldl (fun s i => f s (block n xs i)) s

/-- A block that lies within the first part is a block of that part. -/
theorem block_append_left {n i : ℕ} {xs : List α} (ys : List α) (h : (i + 1) * n ≤ xs.length) :
    block n (xs ++ ys) i = block n xs i := by
  have hn : (i + 1) * n = i * n + n := by ring
  unfold block
  rw [List.drop_append_of_le_length (by omega), List.take_append_of_le_length]
  rw [List.length_drop]
  omega

/-- Behind whole blocks, the blocks are those of the second part. -/
theorem block_append_right {n k : ℕ} {xs : List α} (ys : List α) (i : ℕ) (h : xs.length = k * n) :
    block n (xs ++ ys) (k + i) = block n ys i := by
  unfold block
  rw [show (k + i) * n = xs.length + i * n by rw [h]; ring, ← List.drop_drop, List.drop_left]

variable (f : σ → List α → σ) (s : σ)

/-- No data, no block to fold. -/
theorem foldBlocks_nil (n : ℕ) : foldBlocks n f s ([] : List α) = s := by
  simp [foldBlocks]

/-- **A text cut between two blocks.** -/
theorem foldBlocks_append {n : ℕ} {xs : List α} (ys : List α) (hn : 0 < n) (h : n ∣ xs.length) :
    foldBlocks n f s (xs ++ ys) = foldBlocks n f (foldBlocks n f s xs) ys := by
  obtain ⟨k, hk⟩ := h
  rw [mul_comm] at hk
  have hlen : (xs ++ ys).length / n = k + ys.length / n := by
    rw [List.length_append, hk, add_comm, Nat.add_mul_div_right _ _ hn, add_comm]
  have hfirst : ∀ s, (List.range k).foldl (fun s i => f s (block n (xs ++ ys) i)) s
      = (List.range k).foldl (fun s i => f s (block n xs i)) s := by
    intro s
    refine List.foldl_ext _ _ _ fun s i hi => ?_
    have hi := List.mem_range.1 hi
    rw [block_append_left ys (by rw [hk]; exact Nat.mul_le_mul_right n hi)]
  unfold foldBlocks
  rw [hlen, List.range_add, List.foldl_append, hfirst, List.foldl_map, hk,
    Nat.mul_div_cancel _ hn]
  refine List.foldl_ext _ _ _ fun s i _ => ?_
  rw [block_append_right ys i hk]

end Blocks
