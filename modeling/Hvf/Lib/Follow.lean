/-
# Following pointers

`next` leads from a node to the next one, if there is one.  `nth next a k` is the node `k`
pointers behind `a`.  Where all of them are in a finite set the chain ends exactly if it
never comes back to a node (`exists_none_iff`).
-/

import Mathlib.Tactic

namespace Follow

variable {α : Type*} {next : α → Option α} {a b : α} {i j k : ℕ}

/-- The node `k` pointers behind `a`. -/
def nth (next : α → Option α) (a : α) : ℕ → Option α
  | 0 => some a
  | k + 1 => (nth next a k).bind next

/-- No node comes back. -/
def Acyclic (next : α → Option α) (a : α) : Prop :=
  ∀ i j, i < j → nth next a i ≠ none → nth next a i ≠ nth next a j

/-- Following a pointer `k + 1` times is following it once, then `k` times. -/
theorem nth_cons (next : α → Option α) (a : α) (k : ℕ) :
    nth next a (k + 1) = (next a).bind fun b => nth next b k := by
  induction k with
  | zero => exact (Option.bind_fun_some _).symm
  | succ k ih =>
    rw [nth, ih, Option.bind_assoc]
    rfl

/-- Behind the end there is nothing. -/
theorem nth_none (h : nth next a i = none) (hij : i ≤ j) : nth next a j = none := by
  induction j, hij using Nat.le_induction with
  | base => exact h
  | succ j _ ih => rw [nth, ih, Option.bind_none]

/-- From one node the chain goes on in one way. -/
theorem nth_congr (h : nth next a i = nth next a j) (k : ℕ) :
    nth next a (i + k) = nth next a (j + k) := by
  induction k with
  | zero => exact h
  | succ k ih => rw [← Nat.add_assoc, ← Nat.add_assoc, nth, nth, ih]

/-- A chain that ends does not come back to a node, or it would be as long from there the
second time. -/
theorem acyclic_of_none (h : nth next a k = none) : Acyclic next a := by
  intro i j hij hi heq
  have hend : ∃ k, nth next a k = none := ⟨k, h⟩
  have hj : j < Nat.find hend := by
    by_contra hle
    exact hi (heq.trans (nth_none (Nat.find_spec hend) (not_lt.1 hle)))
  refine Nat.find_min hend (m := i + (Nat.find hend - j)) (by omega) ?_
  rw [nth_congr heq, Nat.add_sub_cancel' hj.le]
  exact Nat.find_spec hend

/-- **A chain in a finite set ends** exactly if it does not come back to a node. -/
theorem exists_none_iff {s : Set α} (hs : s.Finite) (hin : ∀ k b, nth next a k = some b → b ∈ s) :
    (∃ k, nth next a k = none) ↔ Acyclic next a := by
  refine ⟨fun ⟨k, hk⟩ => acyclic_of_none hk, fun hacyclic => ?_⟩
  by_contra hnever
  rw [not_exists] at hnever
  have hsome : ∀ k, ∃ b, nth next a k = some b := fun k => Option.ne_none_iff_exists'.1 (hnever k)
  choose f hf using hsome
  have hinj : Function.Injective f := by
    intro i j heq
    by_contra hne
    have hsame : nth next a i = nth next a j := by rw [hf, hf, heq]
    rcases Nat.lt_or_gt_of_ne hne with hlt | hgt
    · exact hacyclic i j hlt (hnever i) hsame
    · exact hacyclic j i hgt (hnever j) hsame.symm
  exact Set.infinite_of_injective_forall_mem hinj (fun k => hin k (f k) (hf k)) hs

end Follow
