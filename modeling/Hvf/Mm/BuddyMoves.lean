/-
# What one call of the buddy allocator moves

`alloc_pages` takes pages off the lists and `free_pages` puts a block back; no
call loses a page or lists one twice.  This is said once for each function: a
block and its two halves have the same pages (`blockPages_succ`), so a block
split by `__chip_pages` does (`_chipPages_moves`), so an allocation of a larger
order does (`allocPages_moves`).

The lists are kept by zone.  A block of `orders_low` ends below 2GB and a block
of `orders_normal` starts at or above it (`Zoned`); the parts of a block are in
the zone of the whole, so the parts given back go to the right lists.
-/

import Hvf.Mm.Buddy

namespace Hvf

open NumberedBins StepRun

/-- All free blocks. -/
def Buddy.free (b : Buddy) : Multiset Block := items b.ordersNormal + items b.ordersLow

/-- The pages of a collection of blocks, each as often as a block has it. -/
def pagesOf (blocks : Multiset Block) : Multiset ℕ := blocks.bind blockPages

/-- The pages of a block and of the others. -/
@[simp]
theorem pagesOf_cons (x : Block) (blocks : Multiset Block) :
    pagesOf (x ::ₘ blocks) = blockPages x + pagesOf blocks :=
  Multiset.cons_bind ..

/-- The pages of blocks put together. -/
@[simp]
theorem pagesOf_add (x y : Multiset Block) : pagesOf (x + y) = pagesOf x + pagesOf y :=
  Multiset.add_bind ..

/-- A block wholly below 2GB, of an order that `orders_low` has. -/
def LowBlock (x : Block) : Prop := x.1 < zoneLowMaxOrder ∧ x.2 + 2 ^ x.1 ≤ 2 ^ 19

/-- A block wholly at or above 2GB, of an order that fits the bits of an `int`. -/
def NormalBlock (x : Block) : Prop := x.1 < 32 ∧ 2 ^ 19 ≤ x.2

/-- **Each list holds blocks of its own zone**: what is on a low list is below 2GB, what is
on a normal one is not. -/
structure Zoned (b : Buddy) : Prop where
  low : ∀ x ∈ items b.ordersLow, LowBlock x
  normal : ∀ x ∈ items b.ordersNormal, NormalBlock x

/-! ### What a call moves -/

/-- A block below 2 GB is in the low zone. -/
theorem LowBlock.isLowZone {x : Block} (h : LowBlock x) : isLowZone x.2 = true := by
  have := h.2
  have := Nat.two_pow_pos x.1
  rw [isLowZone_iff]
  omega

/-- A block from 2 GB on is not. -/
theorem NormalBlock.isLowZone {x : Block} (h : NormalBlock x) : isLowZone x.2 = false := by
  rw [Bool.eq_false_iff, ne_eq, isLowZone_iff]
  exact Nat.not_lt.2 h.2

/-- The two halves of a block. -/
theorem blockPages_succ (order base : ℕ) :
    blockPages (order + 1, base) =
      blockPages (order, base) + blockPages (order, base + 2 ^ order) := by
  unfold blockPages
  rw [pow_succ, mul_two, ← add_assoc]
  exact (Multiset.Ico_add_Ico_eq_Ico (Nat.le_add_right ..) (Nat.le_add_right ..)).symm

/-- The halves of a block below 2 GB are below 2 GB. -/
theorem LowBlock.halves {order base : ℕ} (h : LowBlock (order + 1, base)) :
    LowBlock (order, base) ∧ LowBlock (order, base + 2 ^ order) := by
  obtain ⟨horder, hbase⟩ := h
  simp only [pow_succ] at hbase
  exact ⟨⟨by simp only at horder ⊢; omega, by simp only; omega⟩,
    ⟨by simp only at horder ⊢; omega, by simp only; omega⟩⟩

/-- The halves of a block from 2 GB on are from 2 GB on. -/
theorem NormalBlock.halves {order base : ℕ} (h : NormalBlock (order + 1, base)) :
    NormalBlock (order, base) ∧ NormalBlock (order, base + 2 ^ order) := by
  obtain ⟨horder, hbase⟩ := h
  simp only at horder hbase
  exact ⟨⟨by simp only; omega, hbase⟩, ⟨by simp only; omega, le_add_right hbase⟩⟩

/-- `1 << order` is exact below the sign bit. -/
theorem intBit_toInt {order : ℕ} (h : order < 31) : (intBit order).toInt = 2 ^ order := by
  have hlt : 2 ^ order < 2 ^ 31 := Nat.pow_lt_pow_right (by norm_num) h
  have hnat : (intBit order).toNat = 2 ^ order := by
    rw [intBit, BitVec.toNat_shiftLeft, BitVec.toNat_ofNat, Nat.shiftLeft_eq]
    norm_num
    omega
  rw [BitVec.toInt_eq_toNat_of_lt (by rw [hnat]; omega), hnat]
  push_cast
  rfl

/-- **`list_add` on the lists of the block's own zone.** -/
theorem listAdd_moves {b b' : Buddy} {zoneOf page order : ℕ}
    (hadd : listAdd zoneOf page order b = some b') (hz : Zoned b)
    (hlow : isLowZone zoneOf = true → LowBlock (order, page))
    (hnormal : isLowZone zoneOf = false → NormalBlock (order, page)) :
    b'.free = (order, page) ::ₘ b.free ∧ Zoned b' := by
  unfold listAdd at hadd
  split at hadd
  · rename_i hzone
    split at hadd
    · obtain rfl := Option.some.inj hadd
      refine ⟨by simp [Buddy.free], ?_, hz.normal⟩
      simpa using ⟨hlow hzone, fun order page => hz.low (order, page)⟩
    · simp at hadd
  · rename_i hzone
    split at hadd
    · obtain rfl := Option.some.inj hadd
      refine ⟨by simp [Buddy.free], hz.low, ?_⟩
      simpa using ⟨hnormal (by simpa using hzone), fun order page => hz.normal (order, page)⟩
    · simp at hadd

/-- **`__chip_pages` splits one block.**  The block of the wanted order and the
blocks given back have the pages of the block that was there. -/
theorem _chipPages_moves {base actual wanted : ℕ} {b b' : Buddy}
    (hchip : _chipPages base actual wanted b = some b') (hle : wanted ≤ actual) (hz : Zoned b)
    (hblock : LowBlock (actual, base) ∨ NormalBlock (actual, base)) :
    blockPages (wanted, base) + pagesOf b'.free = blockPages (actual, base) + pagesOf b.free ∧
      Zoned b' ∧ (LowBlock (wanted, base) ∨ NormalBlock (wanted, base)) := by
  induction actual generalizing b with
  | zero =>
      obtain rfl : wanted = 0 := by omega
      obtain rfl : b = b' := by simpa [_chipPages] using hchip
      exact ⟨rfl, hz, hblock⟩
  | succ actual ih =>
      rw [_chipPages] at hchip
      split at hchip
      · obtain ⟨b₁, hadd, hrest⟩ := Option.bind_eq_some_iff.1 hchip
        have horder : actual < 31 := by
          rcases hblock with h | h
          · have := h.1; simp only [zoneLowMaxOrder, pageShift] at this; omega
          · have := h.1; simp only at this; omega
        have hhalf : (base + (intBit actual).toInt).toNat = base + 2 ^ actual := by
          rw [intBit_toInt horder]
          exact_mod_cast Int.toNat_natCast (base + 2 ^ actual)
        rw [hhalf] at hadd
        have hhalves : LowBlock (actual, base) ∧ LowBlock (actual, base + 2 ^ actual) ∨
            NormalBlock (actual, base) ∧ NormalBlock (actual, base + 2 ^ actual) :=
          hblock.imp LowBlock.halves NormalBlock.halves
        obtain ⟨hfree, hz₁⟩ := listAdd_moves hadd hz
          (fun hzone => by
            rcases hhalves with h | h
            · exact h.2
            · simp [h.1.isLowZone] at hzone)
          (fun hzone => by
            rcases hhalves with h | h
            · simp [h.1.isLowZone] at hzone
            · exact h.2)
        obtain ⟨hpages, hz', hwanted⟩ := ih hrest (by omega) hz₁ (hhalves.imp And.left And.left)
        refine ⟨?_, hz', hwanted⟩
        rw [hpages, hfree, pagesOf_cons, blockPages_succ, add_assoc]
      · obtain rfl := Option.some.inj hchip
        obtain rfl : wanted = actual + 1 := by omega
        exact ⟨rfl, hz, hblock⟩

/-- `__do_alloc_pages` takes the head of a list or changes nothing. -/
theorem _doAllocPages_cases {n order : ℕ} {orders orders' : Bins n ℕ} {page : Option ℕ}
    (h : _doAllocPages order orders = some (page, orders')) :
    (page = none ∧ orders' = orders) ∨
      ∃ p, page = some p ∧ items orders = (order, p) ::ₘ items orders' := by
  unfold _doAllocPages at h
  split at h
  · split at h
    · rename_i p rest hpop
      obtain ⟨rfl, rfl⟩ : some p = page ∧ rest = orders' := by simpa using h
      exact .inr ⟨p, rfl, items_eq_of_pop hpop⟩
    · obtain ⟨rfl, rfl⟩ : none = page ∧ orders = orders' := by simpa using h
      exact .inl ⟨rfl, rfl⟩
  · simp at h

/-- **`__alloc_pages` takes one block of the order asked for, or nothing.** -/
theorem _allocPages_moves {order : ℕ} {type : Zone} {b b' : Buddy} {page : Option ℕ}
    (h : _allocPages order type b = some (page, b')) (hz : Zoned b) :
    Zoned b' ∧ ((page = none ∧ b' = b) ∨
      ∃ p, page = some p ∧ b.free = (order, p) ::ₘ b'.free ∧
        (LowBlock (order, p) ∨ NormalBlock (order, p))) := by
  have hlowStep : ∀ {r : Option ℕ × Bins zoneLowMaxOrder ℕ},
      _doAllocPages order b.ordersLow = some r → (r.1, { b with ordersLow := r.2 }) = (page, b') →
      Zoned b' ∧ ((page = none ∧ b' = b) ∨
        ∃ p, page = some p ∧ b.free = (order, p) ::ₘ b'.free ∧
          (LowBlock (order, p) ∨ NormalBlock (order, p))) := by
    rintro ⟨page', low'⟩ hlow hr
    obtain ⟨rfl, rfl⟩ : page' = page ∧ { b with ordersLow := low' } = b' := by simpa using hr
    rcases _doAllocPages_cases hlow with ⟨rfl, rfl⟩ | ⟨p, rfl, hitems⟩
    · exact ⟨hz, .inl ⟨rfl, rfl⟩⟩
    · have hmem : ∀ x ∈ (order, p) ::ₘ items low', LowBlock x := hitems ▸ hz.low
      refine ⟨⟨fun x hx => hmem x (Multiset.mem_cons_of_mem hx), hz.normal⟩, .inr ⟨p, rfl, ?_,
        .inl (hmem _ (Multiset.mem_cons_self ..))⟩⟩
      simp only [Buddy.free, hitems, Multiset.add_cons]
  unfold _allocPages at h
  split at h
  · obtain ⟨⟨page', normal'⟩, hnormal, h⟩ := Option.bind_eq_some_iff.1 h
    rcases _doAllocPages_cases hnormal with ⟨rfl, rfl⟩ | ⟨p, rfl, hitems⟩
    · simp only [Option.isSome_none, Bool.false_eq_true, if_false] at h
      obtain ⟨r, hlow, h⟩ := Option.bind_eq_some_iff.1 h
      exact hlowStep hlow (Option.some.inj h)
    · obtain ⟨rfl, rfl⟩ : some p = page ∧ { b with ordersNormal := normal' } = b' := by
        simpa using h
      have hmem : ∀ x ∈ (order, p) ::ₘ items normal', NormalBlock x := hitems ▸ hz.normal
      refine ⟨⟨hz.low, fun x hx => hmem x (Multiset.mem_cons_of_mem hx)⟩, .inr ⟨p, rfl, ?_,
        .inr (hmem _ (Multiset.mem_cons_self ..))⟩⟩
      simp only [Buddy.free, hitems, Multiset.cons_add]
  · obtain ⟨r, hlow, h⟩ := Option.bind_eq_some_iff.1 h
    exact hlowStep hlow (Option.some.inj h)

/-- **What an allocation of the order `order` has done**: a block of that order is gone from
the free pages, or none, and each list still has blocks of its zone. -/
structure Allocated (order : ℕ) (b b' : Buddy) (page : Option ℕ) : Prop where
  zoned : Zoned b'
  pages : pagesOf b.free = page.elim 0 (fun p => blockPages (order, p)) + pagesOf b'.free
  block : ∀ p ∈ page, LowBlock (order, p) ∨ NormalBlock (order, p)

/-- **The search in larger orders** hands out a block of the order asked for and frees the rest
of the one it splits. -/
theorem allocLarger_moves {order : ℕ} {type : Zone} {left gord : ℕ} {b b' : Buddy}
    {page : Option ℕ} (h : allocLarger order type left gord b = some (page, b'))
    (hle : order ≤ gord) (hz : Zoned b) : Allocated order b b' page := by
  induction left generalizing gord b with
  | zero =>
      obtain ⟨rfl, rfl⟩ : none = page ∧ b = b' := by simpa [allocLarger] using h
      exact ⟨hz, by simp, by simp⟩
  | succ left ih =>
      rw [allocLarger] at h
      obtain ⟨⟨page₁, b₁⟩, halloc, hrest⟩ := Option.bind_eq_some_iff.1 h
      obtain ⟨hz₁, ⟨rfl, rfl⟩ | ⟨p, rfl, hfree, hblock⟩⟩ := _allocPages_moves halloc hz
      · exact ih hrest (by omega) hz₁
      · obtain ⟨b₂, hchip, hres⟩ := Option.bind_eq_some_iff.1 hrest
        obtain ⟨rfl, rfl⟩ : some p = page ∧ b₂ = b' := by simpa using hres
        obtain ⟨hpages, hz₂, hwanted⟩ := _chipPages_moves hchip hle hz₁ hblock
        refine ⟨hz₂, ?_, by simpa using hwanted⟩
        rw [hfree, pagesOf_cons, Option.elim_some, hpages]

/-- **`alloc_pages` moves pages from the lists to the caller.** -/
theorem allocPages_moves {order : ℕ} {type : Zone} {b b' : Buddy} {page : Option ℕ}
    (h : allocPages order type b = some (page, b')) (hz : Zoned b) : Allocated order b b' page := by
  unfold allocPages at h
  obtain ⟨⟨page₁, b₁⟩, halloc, hrest⟩ := Option.bind_eq_some_iff.1 h
  obtain ⟨hz₁, ⟨rfl, rfl⟩ | ⟨p, rfl, hfree, hblock⟩⟩ := _allocPages_moves halloc hz
  · exact allocLarger_moves (by simpa using hrest) (Nat.le_succ order) hz₁
  · obtain ⟨rfl, rfl⟩ : some p = page ∧ b₁ = b' := by simpa using hrest
    exact ⟨hz₁, by simp [hfree], by simpa using hblock⟩

/-- **`free_pages` moves a block back to the lists.** -/
theorem freePages_moves {page order : ℕ} {b b' : Buddy}
    (h : freePages (pageToAddr page) order b = some b') (hz : Zoned b)
    (hblock : LowBlock (order, page) ∨ NormalBlock (order, page)) :
    b'.free = (order, page) ::ₘ b.free ∧ Zoned b' := by
  rw [freePages, addrToPage_pageToAddr] at h
  refine listAdd_moves h hz (fun hzone => ?_) (fun hzone => ?_)
  · rcases hblock with hblock | hblock
    · exact hblock
    · simp [hblock.isLowZone] at hzone
  · rcases hblock with hblock | hblock
    · simp [hblock.isLowZone] at hzone
    · exact hblock

end Hvf
