/-
# Numbered bins of items

A free-list allocator keeps its items in `n` lists, list `k` for items of class
`k`.  `Bins n α` is such a family of lists, `items` the multiset of all
`(class, item)` pairs in it.  Putting an item at the head of a list adds one
pair (`items_push`) and taking the head of a list removes one
(`items_eq_of_pop`), so whatever is summed over all items, the pages they cover
for instance, changes by that one item.
-/

import Mathlib.Algebra.BigOperators.Group.Finset.Basic
import Mathlib.Algebra.Order.BigOperators.Group.Multiset
import Mathlib.Data.Fintype.BigOperators
import Mathlib.Data.Multiset.Bind

namespace NumberedBins

/-- `n` lists, one for each class of items. -/
abbrev Bins (n : ℕ) (α : Type*) := Fin n → List α

variable {n : ℕ} {α : Type*}

/-- Item `a` at the head of list `k`. -/
def push (bins : Bins n α) (k : Fin n) (a : α) : Bins n α :=
  Function.update bins k (a :: bins k)

/-- The head of list `k`, and the bins without it. -/
def pop (bins : Bins n α) (k : Fin n) : Option (α × Bins n α) :=
  match bins k with
  | [] => none
  | a :: rest => some (a, Function.update bins k rest)

/-- All items, each with the number of its list. -/
def items (bins : Bins n α) : Multiset (ℕ × α) :=
  ∑ k, (bins k : Multiset α).map fun a => (k.val, a)

/-- An item is its bin's number with an element of that bin. -/
theorem mem_items {bins : Bins n α} {x : ℕ × α} :
    x ∈ items bins ↔ ∃ k : Fin n, k.val = x.1 ∧ x.2 ∈ bins k := by
  simp only [items, Multiset.mem_sum, Finset.mem_univ, true_and, Multiset.mem_map,
    Multiset.mem_coe, Prod.ext_iff]
  constructor
  · rintro ⟨k, a, ha, hk, rfl⟩
    exact ⟨k, hk, ha⟩
  · rintro ⟨k, hk, ha⟩
    exact ⟨k, x.2, ha, hk, rfl⟩

/-- A list replaced by one with an item more at its head: one pair more. -/
theorem items_update_cons (bins : Bins n α) (k : Fin n) (a : α) (rest : List α) :
    items (Function.update bins k (a :: rest))
      = (k.val, a) ::ₘ items (Function.update bins k rest) := by
  have hother : ∀ l : List α, ∑ j ∈ Finset.univ.erase k,
      ((Function.update bins k l j : List α) : Multiset α).map (fun a => (j.val, a))
        = ∑ j ∈ Finset.univ.erase k, (bins j : Multiset α).map fun a => (j.val, a) := by
    intro l
    refine Finset.sum_congr rfl fun j hj => ?_
    rw [Function.update_of_ne (Finset.ne_of_mem_erase hj)]
  unfold items
  rw [← Finset.add_sum_erase _ _ (Finset.mem_univ k), hother,
    ← Finset.add_sum_erase (a := k) Finset.univ _ (Finset.mem_univ k), hother]
  simp only [Function.update_self, ← Multiset.cons_coe, Multiset.map_cons, Multiset.cons_add]

/-- **Pushing adds one item**, in the bin pushed to. -/
@[simp]
theorem items_push (bins : Bins n α) (k : Fin n) (a : α) :
    items (push bins k a) = (k.val, a) ::ₘ items bins := by
  rw [push, items_update_cons, Function.update_eq_self]

/-- **Taking the head of a list takes one pair.** -/
theorem items_eq_of_pop {bins bins' : Bins n α} {k : Fin n} {a : α}
    (h : pop bins k = some (a, bins')) : items bins = (k.val, a) ::ₘ items bins' := by
  unfold pop at h
  split at h
  · simp at h
  · rename_i a' rest hk
    obtain ⟨rfl, rfl⟩ : a' = a ∧ Function.update bins k rest = bins' := by simpa using h
    rw [← items_update_cons, ← hk, Function.update_eq_self]

end NumberedBins
