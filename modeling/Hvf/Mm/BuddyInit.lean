/-
# What `init_buddy_alloc` puts on the lists

`init_buddy_alloc` cuts the storage from `start` on into one block for each bit
of the number of pages.  `initPages` are the pages it is meant to place, from
`start` to the end of storage with the 2GB line between the zones, and
`InitExact` says that the lists hold exactly these, each once.

The sizes pass through `int`: `PAGE_SIZE << 19` has its sign bit set, so a
block after one of order 19 would start 4GB too low, and `PAGE_SIZE << 20` is 0, so
`base` does not advance behind a larger one.  With one block of order 19 or more at
most (`OneHighBit`) there is no block after it and `init_buddy_alloc` is exact
(`initExact_of_oneHighBit`), as it is below 6GB (`initExact_of_lt`).
-/

import Hvf.Mm.BuddyMoves

namespace Hvf

open NumberedBins

/-- The pages between `start` and the end of storage that are below 2GB. -/
def initLowPages (memsize start : BitVec 64) : Multiset ℕ :=
  Multiset.Ico (addrToPage start.toNat) (addrToPage (min memsize.toNat zoneLowEnd))

/-- The pages of storage from 2GB on. -/
def initNormalPages (memsize : BitVec 64) : Multiset ℕ :=
  Multiset.Ico (addrToPage zoneLowEnd) (addrToPage memsize.toNat)

/-- The initial set of free pages. -/
def initPages (memsize start : BitVec 64) : Multiset ℕ :=
  initNormalPages memsize + initLowPages memsize start

/-- **`init_buddy_alloc` is exact**: each family of lists has the pages of its zone, all of
them, and each once. -/
structure InitExact (memsize start : BitVec 64) : Prop where
  low : pagesOf (items (initBuddyAlloc memsize start).ordersLow) = initLowPages memsize start
  normal : pagesOf (items (initBuddyAlloc memsize start).ordersNormal) = initNormalPages memsize

/-! ### Bits of an `int` -/

/-- Bit `order` of an `int`, as the C test reads it. -/
theorem and_intBit_ne_zero (pages : BitVec 32) (order : ℕ) :
    pages &&& intBit order ≠ 0 ↔ pages.toNat.testBit order = true := by
  rw [show intBit order = BitVec.twoPow 32 order from rfl, BitVec.and_twoPow,
    BitVec.testBit_toNat]
  by_cases hbit : pages.getLsbD order = true
  · have hlt : order < 32 := BitVec.lt_of_getLsbD hbit
    have hne : BitVec.twoPow 32 order ≠ 0 := by
      intro hzero
      have := congrArg BitVec.toNat hzero
      rw [BitVec.toNat_twoPow, Nat.mod_eq_of_lt (Nat.pow_lt_pow_right (by norm_num) hlt)] at this
      simp at this
    simpa only [hbit, if_true, iff_true] using hne
  · simp [hbit]

/-- One more bit of a remainder. -/
theorem mod_two_pow_succ (x k : ℕ) :
    x % 2 ^ (k + 1) = x % 2 ^ k + if x.testBit k = true then 2 ^ k else 0 := by
  rw [Nat.mod_pow_succ, Nat.testBit_eq_decide_div_mod_eq]
  rcases Nat.mod_two_eq_zero_or_one (x / 2 ^ k) with h | h <;> simp [h]

/-- **Where the loop has got to.**  Up to order 19 `base` has advanced by the
pages of the lower bits. -/
theorem initBase_toNat {base : BitVec 64} {pages : BitVec 32} {order : ℕ} (horder : order ≤ 19)
    (hfit : base.toNat + 4096 * pages.toNat < 2 ^ 64) :
    (initBase base pages order).toNat = base.toNat + 4096 * (pages.toNat % 2 ^ order) := by
  induction order with
  | zero => simp [initBase, Nat.mod_one]
  | succ order ih =>
      have hsucc := mod_two_pow_succ pages.toNat order
      have hle : pages.toNat % 2 ^ (order + 1) ≤ pages.toNat := Nat.mod_le ..
      simp only [initBase, and_intBit_ne_zero]
      split
      · rename_i hbit
        rw [if_pos hbit] at hsucc
        have hpow : 2 ^ order ≤ 2 ^ 18 := Nat.pow_le_pow_right (by norm_num) (by omega)
        have hnat : (4096#32 <<< order).toNat = 4096 * 2 ^ order := by
          rw [BitVec.toNat_shiftLeft, BitVec.toNat_ofNat, Nat.shiftLeft_eq]
          norm_num
          omega
        have hshift : ((4096#32 <<< order).signExtend 64).toNat = 4096 * 2 ^ order := by
          rw [BitVec.signExtend_eq_setWidth_of_msb_false
            (BitVec.msb_eq_false_iff_two_mul_lt.2 (by rw [hnat]; omega)),
            BitVec.toNat_setWidth_of_le (by norm_num), hnat]
        rw [BitVec.toNat_add, ih (by omega), hshift, Nat.mod_eq_of_lt (by omega), hsucc]
        ring
      · rename_i hbit
        rw [ih (by omega), hsucc, if_neg hbit, add_zero]

/-- At most one of the bits from 19 on. -/
def OneHighBit (x : ℕ) : Prop :=
  ∀ j k, 19 ≤ j → j < k → x.testBit j = true → x.testBit k = false

/-- Below 2²⁰ units there is no high bit. -/
theorem oneHighBit_of_lt {x : ℕ} (h : x < 2 ^ 20) : OneHighBit x := by
  intro j k hj hk _
  have hpow : 2 ^ 20 ≤ 2 ^ k := Nat.pow_le_pow_right (by norm_num) (by omega)
  exact Nat.testBit_lt_two_pow (by omega)

/-- `base` stays where it is while the bits are clear. -/
theorem initBase_of_clear {base : BitVec 64} {pages : BitVec 32} {low order : ℕ}
    (hle : low ≤ order) (hclear : ∀ j, low ≤ j → j < order → pages.toNat.testBit j = false) :
    initBase base pages order = initBase base pages low := by
  induction order, hle using Nat.le_induction with
  | base => rfl
  | succ order hle ih =>
      have hbit : ¬ pages &&& intBit order ≠ 0 := by
        rw [and_intBit_ne_zero, hclear order hle (Nat.lt_succ_self order)]
        exact Bool.false_ne_true
      rw [initBase, if_neg hbit]
      exact ih fun j hj hlt => hclear j hj (Nat.lt_succ_of_lt hlt)

/-- Clear bits add nothing to a remainder. -/
theorem mod_two_pow_of_clear {x low order : ℕ} (hle : low ≤ order)
    (hclear : ∀ j, low ≤ j → j < order → x.testBit j = false) :
    x % 2 ^ order = x % 2 ^ low := by
  induction order, hle using Nat.le_induction with
  | base => rfl
  | succ order hle ih =>
      have hbit : ¬ x.testBit order = true := by
        rw [hclear order hle (Nat.lt_succ_self order)]
        exact Bool.false_ne_true
      rw [mod_two_pow_succ, if_neg hbit, add_zero]
      exact ih fun j hj hlt => hclear j hj (Nat.lt_succ_of_lt hlt)

/-- The base of the only block of order 19 or more is right, too. -/
theorem OneHighBit.initBase_toNat {base : BitVec 64} {pages : BitVec 32} {k : ℕ}
    (hone : OneHighBit pages.toNat) (hbit : pages.toNat.testBit k = true)
    (hfit : base.toNat + 4096 * pages.toNat < 2 ^ 64) :
    (initBase base pages k).toNat = base.toNat + 4096 * (pages.toNat % 2 ^ k) := by
  rcases le_total k 19 with hk | hk
  · exact Hvf.initBase_toNat hk hfit
  · have hclear : ∀ j, 19 ≤ j → j < k → pages.toNat.testBit j = false := by
      intro j hj hlt
      by_contra hset
      rw [hone j k hj hlt (Bool.not_eq_false _ ▸ hset)] at hbit
      exact Bool.false_ne_true hbit
    rw [initBase_of_clear hk hclear, mod_two_pow_of_clear hk hclear]
    exact Hvf.initBase_toNat le_rfl hfit

/-! ### The blocks placed -/

/-- The pages of blocks, family by family. -/
theorem pagesOf_sum {ι : Type*} (s : Finset ι) (f : ι → Multiset Block) :
    pagesOf (∑ k ∈ s, f k) = ∑ k ∈ s, pagesOf (f k) := by
  classical
  induction s using Finset.induction_on with
  | empty => rfl
  | insert k s hk ih => rw [Finset.sum_insert hk, Finset.sum_insert hk, pagesOf_add, ih]

/-- The ranges cut off for the bits below `m` join to one range. -/
theorem sum_bit_blocks (c x m : ℕ) :
    (∑ k ∈ Finset.range m, if x.testBit k = true then blockPages (k, c + x % 2 ^ k) else 0)
      = Multiset.Ico c (c + x % 2 ^ m) := by
  induction m with
  | zero => simp [Nat.mod_one]
  | succ m ih =>
      rw [Finset.sum_range_succ, ih, mod_two_pow_succ]
      split
      · rw [blockPages, ← add_assoc]
        exact Multiset.Ico_add_Ico_eq_Ico (Nat.le_add_right ..) (Nat.le_add_right ..)
      · rw [add_zero, add_zero]

/-- **`__init_buddy_alloc` is exact** for a number of pages that fits the lists and
has one block of order 19 or more at most. -/
theorem pagesOf_initBuddyAlloc {maxOrder c : ℕ} {base : BitVec 64} {pages : BitVec 32}
    (hbase : base.toNat = 4096 * c) (hfit : base.toNat + 4096 * pages.toNat < 2 ^ 64)
    (hone : OneHighBit pages.toNat) (hmax : pages.toNat < 2 ^ maxOrder) :
    pagesOf (items (_initBuddyAlloc base pages : Bins maxOrder ℕ))
      = Multiset.Ico c (c + pages.toNat) := by
  have hblock : ∀ k : ℕ, pagesOf (((if pages &&& intBit k ≠ 0 then
        [addrToPage (initBase base pages k).toNat] else [] : List ℕ) : Multiset ℕ).map
          fun a => (k, a))
      = if pages.toNat.testBit k = true then blockPages (k, c + pages.toNat % 2 ^ k) else 0 := by
    intro k
    simp only [and_intBit_ne_zero]
    split
    · rename_i hbit
      rw [hone.initBase_toNat hbit hfit, hbase, addrToPage_eq, ← Nat.mul_add,
        Nat.mul_div_cancel_left _ (by norm_num)]
      simp [pagesOf]
    · rfl
  have hsum := sum_bit_blocks c pages.toNat maxOrder
  rw [Nat.mod_eq_of_lt hmax] at hsum
  rw [← hsum, Finset.sum_range, items, pagesOf_sum]
  exact Finset.sum_congr rfl fun k _ => hblock k

/-- The number of pages passed to `__init_buddy_alloc` for the low zone. -/
theorem lowPages_toNat {memsize start : BitVec 64} {c : ℕ} (hc : start.toNat = 4096 * c)
    (hstart : start.toNat ≤ memsize.toNat) (hlow : start.toNat ≤ zoneLowEnd) :
    (if memsize > BitVec.ofNat 64 zoneLowEnd then (BitVec.ofNat 64 zoneLowEnd - start) >>> pageShift
      else (memsize - start) >>> pageShift).toNat = min memsize.toNat zoneLowEnd / 4096 - c := by
  have htwo : (BitVec.ofNat 64 zoneLowEnd).toNat = zoneLowEnd := rfl
  split
  · rename_i hbig
    have hbig' : zoneLowEnd < memsize.toNat := htwo ▸ BitVec.lt_def.1 hbig
    rw [BitVec.toNat_ushiftRight, BitVec.toNat_sub_of_le (by rw [BitVec.le_def, htwo]; exact hlow),
      htwo, Nat.shiftRight_eq_div_pow, min_eq_right hbig'.le]
    simp only [pageShift]
    omega
  · rename_i hbig
    have hbig' : memsize.toNat ≤ zoneLowEnd := htwo ▸ Nat.not_lt.1 (BitVec.lt_def.not.1 hbig)
    rw [BitVec.toNat_ushiftRight, BitVec.toNat_sub_of_le (BitVec.le_def.2 hstart),
      Nat.shiftRight_eq_div_pow, min_eq_left hbig']
    simp only [pageShift]
    omega

/-- The number of pages passed to `__init_buddy_alloc` for the normal zone. -/
theorem normalPages_toNat {memsize start lowPages : BitVec 64} {c : ℕ}
    (hc : start.toNat = 4096 * c) (hstart : start.toNat ≤ memsize.toNat)
    (hlow : start.toNat ≤ zoneLowEnd)
    (hcount : lowPages.toNat = min memsize.toNat zoneLowEnd / 4096 - c) :
    (if memsize > BitVec.ofNat 64 zoneLowEnd then ((memsize - start) >>> pageShift) - lowPages
      else 0).toNat = memsize.toNat / 4096 - 2 ^ 19 := by
  have hend : zoneLowEnd = 2 * 2 ^ 30 := rfl
  split
  · rename_i hbig
    have hbig' : zoneLowEnd < memsize.toNat := BitVec.lt_def.1 hbig
    rw [min_eq_right hbig'.le] at hcount
    have hall : ((memsize - start) >>> pageShift).toNat = memsize.toNat / 4096 - c := by
      rw [BitVec.toNat_ushiftRight, BitVec.toNat_sub_of_le (BitVec.le_def.2 hstart),
        Nat.shiftRight_eq_div_pow]
      simp only [pageShift]
      omega
    rw [BitVec.toNat_sub_of_le (by rw [BitVec.le_def, hall, hcount]; omega), hall, hcount]
    omega
  · rename_i hbig
    have hbig' : memsize.toNat ≤ zoneLowEnd := Nat.not_lt.1 (BitVec.lt_def.not.1 hbig)
    change 0 = _
    omega

/-- **`init_buddy_alloc` is exact** where the pages from 2GB on fit an `int` and have one
block of order 19 or more at most, from any page above page 0 up to 2GB. -/
theorem initExact_of_oneHighBit {memsize start : BitVec 64}
    (hone : OneHighBit (memsize.toNat / 4096 - 2 ^ 19))
    (hfits : memsize.toNat / 4096 - 2 ^ 19 < 2 ^ 32) (halign : start.toNat % 4096 = 0)
    (hpos : 0 < start.toNat) (hstart : start.toNat ≤ memsize.toNat)
    (hlow : start.toNat ≤ zoneLowEnd) : InitExact memsize start := by
  obtain ⟨c, hc⟩ : ∃ c, start.toNat = 4096 * c := ⟨start.toNat / 4096, by omega⟩
  have hcount := lowPages_toNat hc hstart hlow
  have hnormal := normalPages_toNat hc hstart hlow hcount
  have hend : zoneLowEnd = 2 * 2 ^ 30 := rfl
  have hmin : min memsize.toNat zoneLowEnd ≤ zoneLowEnd := min_le_right ..
  have hwidth : ∀ x : BitVec 64, x.toNat < 2 ^ 32 → (x.setWidth 32).toNat = x.toNat :=
    fun x hx => by rw [BitVec.toNat_setWidth, Nat.mod_eq_of_lt hx]
  constructor
  · have hint := hwidth _ (by rw [hcount]; omega)
    rw [hcount] at hint
    simp only [initBuddyAlloc, initLowPages, addrToPage_eq]
    rw [pagesOf_initBuddyAlloc hc, hint]
    · congr 1 <;> omega
    all_goals rw [hint]
    · omega
    · exact oneHighBit_of_lt (by omega)
    · simp only [zoneLowMaxOrder, pageShift]; omega
  · have hint := hwidth _ (by rw [hnormal]; exact hfits)
    rw [hnormal] at hint
    have htwo : (BitVec.ofNat 64 zoneLowEnd).toNat = 4096 * 2 ^ 19 := rfl
    simp only [initBuddyAlloc, initNormalPages, addrToPage_eq]
    rw [pagesOf_initBuddyAlloc htwo, hint, hend]
    · rcases Nat.le_total (2 ^ 19) (memsize.toNat / 4096) with hle | hle
      · rw [Nat.add_sub_cancel' hle]
        norm_num
      · rw [Nat.sub_eq_zero_of_le hle, Multiset.Ico_eq_zero_iff.2 (by omega),
          Multiset.Ico_eq_zero_iff.2 (by omega)]
    all_goals rw [hint]
    · omega
    · exact hone
    · simp only [zoneNormalMaxOrder, pageShift]; omega

/-- **Below 6GB `init_buddy_alloc` is exact.** -/
theorem initExact_of_lt {memsize start : BitVec 64} (hmem : memsize.toNat < 6 * 2 ^ 30)
    (halign : start.toNat % 4096 = 0) (hpos : 0 < start.toNat)
    (hstart : start.toNat ≤ memsize.toNat) (hlow : start.toNat ≤ zoneLowEnd) :
    InitExact memsize start :=
  initExact_of_oneHighBit (oneHighBit_of_lt (by omega)) (by omega) halign hpos hstart hlow

/-! ### The zones at the start -/

/-- A page is in blocks exactly when it is within one of them. -/
theorem mem_pagesOf {blocks : Multiset Block} {p : ℕ} :
    p ∈ pagesOf blocks ↔ ∃ x ∈ blocks, x.2 ≤ p ∧ p < x.2 + 2 ^ x.1 := by
  simp [pagesOf, blockPages]

/-- The blocks of an exact `init_buddy_alloc` are on the lists of their zones. -/
theorem InitExact.zoned {memsize start : BitVec 64} (h : InitExact memsize start) :
    Zoned (initBuddyAlloc memsize start) := by
  have hmin : min memsize.toNat zoneLowEnd ≤ 2 * 2 ^ 30 := min_le_right ..
  constructor
  · intro x hx
    have hpos := Nat.two_pow_pos x.1
    have hlast : x.2 + 2 ^ x.1 - 1 ∈ initLowPages memsize start := by
      rw [← h.low, mem_pagesOf]
      exact ⟨x, hx, by omega, by omega⟩
    rw [initLowPages, Multiset.mem_Ico, addrToPage_eq, addrToPage_eq] at hlast
    obtain ⟨k, hk, -⟩ := mem_items.1 hx
    exact ⟨by rw [← hk]; exact k.isLt, by omega⟩
  · intro x hx
    have hpos := Nat.two_pow_pos x.1
    have hfirst : x.2 ∈ initNormalPages memsize := by
      rw [← h.normal, mem_pagesOf]
      exact ⟨x, hx, le_rfl, by omega⟩
    rw [initNormalPages, Multiset.mem_Ico, addrToPage_eq,
      show zoneLowEnd / 4096 = 2 ^ 19 from rfl] at hfirst
    obtain ⟨k, hk, hlist⟩ := mem_items.1 hx
    refine ⟨?_, hfirst.1⟩
    -- a range of order 32 or more would need a bit that an `int` does not have
    by_contra hge
    simp only [initBuddyAlloc, _initBuddyAlloc, and_intBit_ne_zero, hk] at hlist
    rw [BitVec.testBit_toNat, BitVec.getLsbD_of_ge _ _ (by omega)] at hlist
    simp at hlist

end Hvf
