/-
# Trees of pointers

Every node of a tree has `fan` pointers, `child a i` is the node behind the
pointer `i` of `a`, and all leaves are at one depth.  `node` finds a node by its
number among those of its depth, from the number of its parent; `walk` goes down
from the root by the digits of the number.
-/

import Mathlib.Tactic

namespace PtrTree

variable {α : Type*} (child : α → ℕ → α) (fan : ℕ) (root : α)

/-- Node `i` of depth `d`. -/
def node : ℕ → ℕ → α
  | 0, _ => root
  | d + 1, i => child (node d (i / fan)) (i % fan)

/-- The leaf `b` below a node of height `l`. -/
def walk : ℕ → α → ℕ → α
  | 0, a, _ => a
  | l + 1, a, b => walk l (child a (b / fan ^ l % fan)) b

variable {child fan root}

/-- **Walking down from a node reaches the node below it**: the number's digits to the base of
the fan are the way. -/
theorem walk_node (child : α → ℕ → α) (fan : ℕ) (root : α) (l d b : ℕ) :
    walk child fan l (node child fan root d (b / fan ^ l)) b = node child fan root (d + l) b := by
  induction l generalizing d with
  | zero => rw [walk, pow_zero, Nat.div_one, Nat.add_zero]
  | succ l ih =>
    rw [walk, pow_succ, ← Nat.div_div_eq_div_mul, show d + (l + 1) = d + 1 + l by omega,
      ← ih (d + 1), node]

/-- **Walking down and finding the parent first** is the same. -/
theorem walk_eq_node (l b : ℕ) : walk child fan l root b = node child fan root l b := by
  have h := walk_node child fan root l 0 b
  rwa [node, Nat.zero_add] at h

/-- **A node is where it was** if the nodes above it are. -/
theorem node_congr {child' : α → ℕ → α} {d i : ℕ}
    (h : ∀ d' < d, child' (node child fan root d' (i / fan ^ (d - d'))) =
      child (node child fan root d' (i / fan ^ (d - d')))) :
    node child' fan root d i = node child fan root d i := by
  induction d generalizing i with
  | zero => rfl
  | succ d ih =>
    have hparent : node child' fan root d (i / fan) = node child fan root d (i / fan) := by
      refine ih fun d' hd' => ?_
      have hup := h d' (Nat.lt_succ_of_lt hd')
      rwa [show d + 1 - d' = d - d' + 1 by omega, pow_succ', ← Nat.div_div_eq_div_mul] at hup
    have hlast := h d (Nat.lt_succ_self d)
    rw [Nat.add_sub_cancel_left, pow_one] at hlast
    rw [node, node, hparent, hlast]

end PtrTree
