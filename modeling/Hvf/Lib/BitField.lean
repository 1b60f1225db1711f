/-
# Bit fields of a word

A C bit field is a run of bits of a word.  `Field w len` is one of `len` bits in
a word of `w` bits, with the proof that it lies inside the word.  `get` reads it
and `set` stores into it: a field reads back what was stored (`get_set`), and a
store leaves every field that shares no bit with it as it was
(`get_set_of_disjoint`).
-/

import Mathlib.Tactic

namespace BitField

/-- **A field of a word of `w` bits**: the bits `lo`, …, `lo + len - 1`, counted from the
right, which are inside of the word. -/
structure Field (w len : ℕ) where
  lo : ℕ
  fits : lo + len ≤ w

variable {w len len' : ℕ}

/-- The bits of the field. -/
def Field.get (f : Field w len) (x : BitVec w) : BitVec len := x.extractLsb' f.lo len

/-- The word with the bits of the field replaced. -/
def Field.set (f : Field w len) (v : BitVec len) (x : BitVec w) : BitVec w :=
  (x &&& ~~~((BitVec.allOnes len).setWidth w <<< f.lo)) ||| (v.setWidth w <<< f.lo)

/-- No bit belongs to both fields. -/
def Field.Disjoint (f : Field w len) (g : Field w len') : Prop :=
  f.lo + len ≤ g.lo ∨ g.lo + len' ≤ f.lo

/-- Whether two fields share a bit is decided by their ends. -/
instance (f : Field w len) (g : Field w len') : Decidable (f.Disjoint g) :=
  inferInstanceAs (Decidable (_ ∨ _))

/-- Bit `i` of a field's value is bit `lo + i` of the word. -/
theorem Field.getLsbD_get (f : Field w len) (x : BitVec w) (i : ℕ) :
    (f.get x).getLsbD i = (decide (i < len) && x.getLsbD (f.lo + i)) := by
  rw [Field.get, BitVec.getLsbD_extractLsb']

/-- Bit by bit, storing into a field takes the value inside the field and the word outside. -/
theorem Field.getLsbD_set (f : Field w len) (v : BitVec len) (x : BitVec w) (i : ℕ) :
    (f.set v x).getLsbD i
      = if f.lo ≤ i ∧ i < f.lo + len then v.getLsbD (i - f.lo) else x.getLsbD i := by
  have hfits := f.fits
  by_cases hi : i < w
  · simp only [Field.set, BitVec.getLsbD_or, BitVec.getLsbD_and, BitVec.getLsbD_not,
      BitVec.getLsbD_shiftLeft, BitVec.getLsbD_setWidth, BitVec.getLsbD_allOnes]
    by_cases hlo : f.lo ≤ i
    · by_cases hhi : i < f.lo + len
      · simp [hi, hlo, hhi, Nat.not_lt.2 hlo, show i - f.lo < w by omega,
          show i - f.lo < len by omega]
      · have hout : v.getLsbD (i - f.lo) = false := BitVec.getLsbD_of_ge _ _ (by omega)
        simp [hi, hhi, Nat.not_lt.2 hlo, hout, show ¬ i - f.lo < len by omega]
    · simp [hi, hlo, Nat.lt_of_not_le hlo]
  · rw [if_neg (by omega), BitVec.getLsbD_of_ge _ _ (by omega), BitVec.getLsbD_of_ge _ _ (by omega)]

/-- **A field reads back what was stored.** -/
@[simp]
theorem Field.get_set (f : Field w len) (v : BitVec len) (x : BitVec w) :
    f.get (f.set v x) = v := by
  refine BitVec.eq_of_getLsbD_eq fun i hi => ?_
  rw [f.getLsbD_get, f.getLsbD_set, if_pos ⟨by omega, by omega⟩, Nat.add_sub_cancel_left]
  simp [hi]

/-- **A store leaves the other fields as they were.** -/
theorem Field.get_set_of_disjoint {f : Field w len} {g : Field w len'} (h : f.Disjoint g)
    (v : BitVec len') (x : BitVec w) : f.get (g.set v x) = f.get x := by
  refine BitVec.eq_of_getLsbD_eq fun i hi => ?_
  have hout : ¬ (g.lo ≤ f.lo + i ∧ f.lo + i < g.lo + len') := by
    unfold Field.Disjoint at h
    omega
  rw [f.getLsbD_get, f.getLsbD_get, g.getLsbD_set, if_neg hout]

/-- Every field of zero is zero. -/
theorem Field.get_zero (f : Field w len) : f.get 0 = 0 := by
  refine BitVec.eq_of_getLsbD_eq fun i hi => ?_
  rw [f.getLsbD_get]
  simp

/-- Every field of a word of ones is all ones. -/
theorem Field.get_allOnes (f : Field w len) : f.get (BitVec.allOnes w) = BitVec.allOnes len := by
  refine BitVec.eq_of_getLsbD_eq fun i hi => ?_
  have hfits := f.fits
  simp [f.getLsbD_get, hi, show f.lo + i < w by omega]

/-! ### Copies of fields -/

/-- Fields of one word, copied into another one after the other. -/
def copyFields (fields : List (Σ len, Field w len)) (src x : BitVec w) : BitVec w :=
  fields.foldl (fun x f => f.2.set (f.2.get src) x) x

/-- Copying some fields leaves a field that shares no bit with them. -/
theorem get_copyFields_of_disjoint {fields : List (Σ len, Field w len)} {g : Field w len}
    (h : ∀ f ∈ fields, g.Disjoint f.2) (src x : BitVec w) :
    g.get (copyFields fields src x) = g.get x := by
  induction fields generalizing x with
  | nil => rfl
  | cons f fields ih =>
    rw [copyFields, List.foldl_cons, ← copyFields, ih fun f hf => h f (List.mem_cons_of_mem _ hf),
      Field.get_set_of_disjoint (h f List.mem_cons_self)]

/-- **Fields that share no bit** all arrive. -/
theorem get_copyFields {fields : List (Σ len, Field w len)}
    (h : fields.Pairwise fun f g => f.2.Disjoint g.2) (src x : BitVec w) :
    ∀ f ∈ fields, f.2.get (copyFields fields src x) = f.2.get src := by
  induction h generalizing x with
  | nil => exact fun f hf => absurd hf List.not_mem_nil
  | @cons g fields hg _ ih =>
    intro f hf
    rw [copyFields, List.foldl_cons, ← copyFields]
    rcases List.mem_cons.1 hf with rfl | hf
    · rw [get_copyFields_of_disjoint hg, Field.get_set]
    · exact ih _ f hf

/-- The bit is in the field. -/
def Field.Has (f : Field w len) (i : ℕ) : Prop := f.lo ≤ i ∧ i < f.lo + len

/-- Whether a bit is in a field is decided by the field's ends. -/
instance (f : Field w len) (i : ℕ) : Decidable (f.Has i) := inferInstanceAs (Decidable (_ ∧ _))

/-- A bit is copied, or it was the same before. -/
theorem getLsbD_copyFields {fields : List (Σ len, Field w len)} {src x y : BitVec w} {i : ℕ}
    (h : x.getLsbD i = y.getLsbD i ∨ ∃ f ∈ fields, f.2.Has i) :
    (copyFields fields src x).getLsbD i = (copyFields fields src y).getLsbD i := by
  induction fields generalizing x y with
  | nil =>
    rcases h with h | ⟨f, hf, -⟩
    · exact h
    · exact absurd hf List.not_mem_nil
  | cons g fields ih =>
    rw [copyFields, copyFields, List.foldl_cons, List.foldl_cons, ← copyFields, ← copyFields]
    by_cases hg : g.2.Has i
    · refine ih (Or.inl ?_)
      rw [Field.Has] at hg
      rw [g.2.getLsbD_set, g.2.getLsbD_set, if_pos hg, if_pos hg]
    · refine ih (h.imp (fun hbit => ?_) fun ⟨f, hf, hi⟩ => ?_)
      · rw [Field.Has] at hg
        rw [g.2.getLsbD_set, g.2.getLsbD_set, if_neg hg, if_neg hg, hbit]
      · rcases List.mem_cons.1 hf with rfl | hf
        · exact absurd hi hg
        · exact ⟨f, hf, hi⟩

/-- **Copies into two words** agree exactly if the words agree in the fields that are not
copied. -/
theorem copyFields_eq_iff {fields rest : List (Σ len, Field w len)}
    (hdisjoint : ∀ g ∈ rest, ∀ f ∈ fields, g.2.Disjoint f.2)
    (hcover : ∀ i < w, (∃ f ∈ fields, f.2.Has i) ∨ ∃ g ∈ rest, g.2.Has i) (src x y : BitVec w) :
    copyFields fields src x = copyFields fields src y ↔ ∀ g ∈ rest, g.2.get x = g.2.get y := by
  constructor
  · intro h g hg
    have hcopied := congrArg g.2.get h
    rwa [get_copyFields_of_disjoint (hdisjoint g hg),
      get_copyFields_of_disjoint (hdisjoint g hg)] at hcopied
  · intro h
    refine BitVec.eq_of_getLsbD_eq fun i hi => getLsbD_copyFields ?_
    refine (hcover i hi).symm.imp_left fun ⟨g, hg, hlo, hhi⟩ => ?_
    have hbit := congrArg (fun v => v.getLsbD (i - g.2.lo)) (h g hg)
    simp only [g.2.getLsbD_get, Nat.add_sub_cancel' hlo, show i - g.2.lo < g.1 by omega,
      decide_true, Bool.true_and] at hbit
    exact hbit

/-! ### Masks -/

/-- The bits of the field, as a mask of the word. -/
def Field.mask (f : Field w len) : BitVec w := (BitVec.allOnes len).setWidth w <<< f.lo

/-- The mask of a field has exactly the field's bits. -/
theorem Field.getLsbD_mask (f : Field w len) (i : ℕ) :
    f.mask.getLsbD i = decide (f.lo ≤ i ∧ i < f.lo + len) := by
  have hfits := f.fits
  simp only [Field.mask, BitVec.getLsbD_shiftLeft, BitVec.getLsbD_setWidth,
    BitVec.getLsbD_allOnes]
  by_cases hi : i < w
  · simp only [hi, decide_true, Bool.true_and]
    by_cases hlo : f.lo ≤ i
    · simp only [hlo, true_and, Nat.not_lt.2 hlo, decide_false, Bool.not_false, Bool.true_and,
        show i - f.lo < w by omega, decide_true]
      exact decide_eq_decide.2 (by omega)
    · simp [hlo, Nat.lt_of_not_le hlo]
  · simp [hi, show ¬ i < f.lo + len by omega]

/-- Two words with the same bits in the field. -/
theorem Field.get_eq_get_iff (f : Field w len) (x y : BitVec w) :
    f.get x = f.get y ↔ x &&& f.mask = y &&& f.mask := by
  constructor
  · intro h
    refine BitVec.eq_of_getLsbD_eq fun i _ => ?_
    simp only [BitVec.getLsbD_and, f.getLsbD_mask]
    by_cases hi : f.lo ≤ i ∧ i < f.lo + len
    · have hbit := congrArg (fun v => v.getLsbD (i - f.lo)) h
      simp only [f.getLsbD_get, Nat.add_sub_cancel' hi.1, show i - f.lo < len by omega,
        decide_true, Bool.true_and] at hbit
      rw [hbit]
    · simp [hi]
  · intro h
    refine BitVec.eq_of_getLsbD_eq fun i hi => ?_
    have hbit := congrArg (fun v => v.getLsbD (f.lo + i)) h
    have hin : f.mask.getLsbD (f.lo + i) = true := by
      rw [f.getLsbD_mask]
      exact decide_eq_true ⟨by omega, by omega⟩
    simp only [BitVec.getLsbD_and, hin, Bool.and_true] at hbit
    rw [f.getLsbD_get, f.getLsbD_get, hbit]

/-- Stores one after the other are one store. -/
theorem and_or_and_or (x a b c d : BitVec w) :
    ((x &&& a ||| b) &&& c) ||| d = (x &&& (a &&& c)) ||| ((b &&& c) ||| d) := by
  refine BitVec.eq_of_getLsbD_eq fun i _ => ?_
  simp only [BitVec.getLsbD_and, BitVec.getLsbD_or]
  cases x.getLsbD i <;> cases a.getLsbD i <;> cases b.getLsbD i <;> cases c.getLsbD i <;>
    cases d.getLsbD i <;> rfl

/-- Agreement on the bits of two masks. -/
theorem and_or_eq_iff (x y a b : BitVec w) :
    x &&& (a ||| b) = y &&& (a ||| b) ↔ x &&& a = y &&& a ∧ x &&& b = y &&& b := by
  have hleft : ∀ z : BitVec w, (z &&& (a ||| b)) &&& a = z &&& a := fun z => by
    refine BitVec.eq_of_getLsbD_eq fun i _ => ?_
    simp only [BitVec.getLsbD_and, BitVec.getLsbD_or]
    cases a.getLsbD i <;> simp
  have hright : ∀ z : BitVec w, (z &&& (a ||| b)) &&& b = z &&& b := fun z => by
    refine BitVec.eq_of_getLsbD_eq fun i _ => ?_
    simp only [BitVec.getLsbD_and, BitVec.getLsbD_or]
    cases b.getLsbD i <;> simp
  constructor
  · intro h
    exact ⟨by rw [← hleft x, h, hleft], by rw [← hright x, h, hright]⟩
  · intro h
    have hdist : ∀ z : BitVec w, z &&& (a ||| b) = (z &&& a) ||| (z &&& b) := fun z => by
      refine BitVec.eq_of_getLsbD_eq fun i _ => ?_
      simp only [BitVec.getLsbD_and, BitVec.getLsbD_or, Bool.and_or_distrib_left]
    rw [hdist, hdist, h.1, h.2]

end BitField
