/-
# A log of records in paged storage

Storage is a list of pages, each a function from offsets to elements of which
the first `size` count; `get` reads it as one sequence.  Dropping the first page
shifts the sequence, adding pages behind it leaves the elements before them.

A `Layout` says how many elements a record takes and what it means that a
record is at a position, which depends on those elements only.  `Log b p rs e`:
the records `rs`, one after the other, take the positions from `p` to `e`.
-/

import Mathlib.Tactic

namespace PagedLog

variable {α ρ : Type*}

/-! ### Pages -/

section Pages

variable [Inhabited α] {size : ℕ}

/-- Element `i` of the pages, one after the other. -/
def get (size : ℕ) (pages : List (ℕ → α)) (i : ℕ) : α := pages.getD (i / size) default (i % size)

/-- What is within the first page is read from it. -/
theorem get_cons_of_lt {page : ℕ → α} {pages : List (ℕ → α)} {i : ℕ} (h : i < size) :
    get size (page :: pages) i = page i := by
  rw [get, Nat.div_eq_of_lt h, Nat.mod_eq_of_lt h, List.getD_cons_zero]

/-- Without the first `k` pages everything is read `size * k` places later. -/
theorem get_drop (hsize : 0 < size) (pages : List (ℕ → α)) (k i : ℕ) :
    get size (pages.drop k) i = get size pages (size * k + i) := by
  rw [get, get, List.getD_eq_getElem?_getD, List.getD_eq_getElem?_getD, List.getElem?_drop,
    Nat.mul_add_div hsize, Nat.mul_add_mod]

/-- Pages behind do not change what is read before them. -/
theorem get_append_of_lt {pages pages' : List (ℕ → α)} {i : ℕ} (h : i < size * pages.length) :
    get size (pages ++ pages') i = get size pages i := by
  have hdiv : i / size < pages.length := Nat.div_lt_of_lt_mul h
  rw [get, get, List.getD_eq_getElem?_getD, List.getD_eq_getElem?_getD,
    List.getElem?_append_left hdiv]

/-- Pages behind are read behind the pages before them. -/
theorem get_append_add (hsize : 0 < size) (pages pages' : List (ℕ → α)) (i : ℕ) :
    get size (pages ++ pages') (size * pages.length + i) = get size pages' i := by
  rw [← get_drop hsize, List.drop_left]

end Pages

/-! ### Records -/

/-- **How records are laid out** in a row of items: how many items a record takes, and when
it is at a position. A record whose items are all moved is at the place they are moved to.
-/
structure Layout (α ρ : Type*) where
  size : ρ → ℕ
  At : (ℕ → α) → ℕ → ρ → Prop
  move : ∀ {b b' : ℕ → α} {p q : ℕ} {r : ρ}, At b p r →
    (∀ i < size r, b' (q + i) = b (p + i)) → At b' q r

/-- The records take the positions from the first index to the last, one after
the other. -/
def Layout.Log (L : Layout α ρ) (b : ℕ → α) : ℕ → List ρ → ℕ → Prop
  | p, [], e => p = e
  | p, r :: rs, e => L.At b p r ∧ L.Log b (p + L.size r) rs e

variable {L : Layout α ρ} {b b' : ℕ → α} {p q e : ℕ} {rs : List ρ}

/-- A log ends at or behind its beginning. -/
theorem Log.le (h : L.Log b p rs e) : p ≤ e := by
  induction rs generalizing p with
  | nil => exact Nat.le_of_eq h
  | cons r rs ih => exact (Nat.le_add_right p (L.size r)).trans (ih h.2)

/-- Equal elements hold the same records, wherever they are. -/
theorem Log.move (h : L.Log b p rs e) (heq : ∀ i, p + i < e → b' (q + i) = b (p + i)) :
    L.Log b' q rs (q + (e - p)) := by
  induction rs generalizing p q with
  | nil =>
    obtain rfl : p = e := h
    change q = q + (p - p)
    omega
  | cons r rs ih =>
    have hle := Log.le h.2
    refine ⟨L.move h.1 fun i hi => heq i (by omega), ?_⟩
    have hrest := ih (q := q + L.size r) h.2 fun i hi => by
      rw [Nat.add_assoc, Nat.add_assoc]
      exact heq _ (by omega)
    rwa [show q + L.size r + (e - (p + L.size r)) = q + (e - p) by omega] at hrest

/-- A log depends on the bytes before its end. -/
theorem Log.congr (h : L.Log b p rs e) (heq : ∀ i < e, b' i = b i) : L.Log b' p rs e := by
  have hmoved := Log.move (q := p) h fun i hi => heq _ hi
  rwa [Nat.add_sub_cancel' (Log.le h)] at hmoved

/-- One more record at the end. -/
theorem Log.concat {r : ρ} (h : L.Log b p rs e) (hlast : L.At b e r) :
    L.Log b p (rs ++ [r]) (e + L.size r) := by
  induction rs generalizing p with
  | nil =>
    obtain rfl : p = e := h
    exact ⟨hlast, rfl⟩
  | cons r' rs ih => exact ⟨h.1, ih h.2⟩

/-- The records say where they end. -/
theorem Log.end_eq (h : L.Log b p rs e) : e = p + (rs.map L.size).sum := by
  induction rs generalizing p with
  | nil => exact (h : p = e).symm
  | cons r rs ih =>
    rw [ih h.2, List.map_cons, List.sum_cons, Nat.add_assoc]

/-- The last record stands behind the sizes of the ones before it. -/
theorem Log.last {r : ρ} (h : L.Log b p (rs ++ [r]) e) :
    L.At b (p + (rs.map L.size).sum) r := by
  induction rs generalizing p with
  | nil => exact h.1
  | cons r' rs ih =>
    have hlast := ih h.2
    rwa [Nat.add_assoc, ← List.sum_cons, ← List.map_cons] at hlast

end PagedLog
