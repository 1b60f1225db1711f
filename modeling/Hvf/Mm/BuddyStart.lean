/-
# The storage that `start` gives to the buddy allocator

`cp/nucleus/init.c`: the array of `struct page`s begins at 4MB and has an entry for
each page of storage, and the first page behind it is the first free one.

`InitPartition` says that the lists which `init_buddy_alloc` builds from there have
exactly the free pages, each once and on the side of 2GB where it lies.  It holds for
a machine exactly when the array ends below 2GB, where the number of low pages is
computed, and the pages from 2GB on have one block of order 19 or more at most
(`initPartition_iff`): the second such block is put where `base` has stopped.
-/

import Hvf.Mm.BuddyInit

namespace Hvf

open NumberedBins

/-- `PAGE_INFO_BASE`. -/
def pageInfoBase : BitVec 64 := 0x400000

/-- `sizeof(struct page)`: a union of two list heads. -/
def sizeofStructPage : BitVec 64 := 16

/-- `first_free_page` of `start`. -/
def firstFreePage (memsize : BitVec 64) : BitVec 64 :=
  let structPageBytes := (memsize >>> pageShift) * sizeofStructPage
  let firstFreePage := pageInfoBase + structPageBytes
  if structPageBytes &&& BitVec.ofNat 64 pageMask ≠ 0 then
    firstFreePage + (BitVec.ofNat 64 pageSize - (structPageBytes &&& BitVec.ofNat 64 pageMask))
  else firstFreePage

/-- The blocks on the lists have the pages from `first` up to `last`, each once, and
those below 2GB are on `orders_low`. -/
structure Buddy.Partitions (b : Buddy) (first last : ℕ) : Prop where
  pages : pagesOf b.free = Multiset.Ico first last
  low : ∀ x ∈ items b.ordersLow, ∀ p ∈ blockPages x, pageToAddr p < zoneLowEnd
  normal : ∀ x ∈ items b.ordersNormal, ∀ p ∈ blockPages x, zoneLowEnd ≤ pageToAddr p

/-- `init_buddy_alloc` partitions the storage from `start` on. -/
def InitPartition (memsize start : BitVec 64) : Prop :=
  (initBuddyAlloc memsize start).Partitions (addrToPage start.toNat) (addrToPage memsize.toNat)

/-- The first free page: 1024 pages, and 256 entries of the array in each page more. -/
theorem firstFreePage_toNat (memsize : BitVec 64) :
    (firstFreePage memsize).toNat = 4096 * (1024 + (memsize.toNat / 4096 + 255) / 256) := by
  have hmask : ∀ x : BitVec 64, (x &&& BitVec.ofNat 64 pageMask).toNat = x.toNat % 4096 := by
    intro x
    rw [BitVec.toNat_and, show (BitVec.ofNat 64 pageMask).toNat = 2 ^ 12 - 1 from rfl,
      Nat.and_two_pow_sub_one_eq_mod]
  have hmem := memsize.isLt
  have hbytes : ((memsize >>> pageShift) * sizeofStructPage).toNat = memsize.toNat / 4096 * 16 := by
    rw [BitVec.toNat_mul, BitVec.toNat_ushiftRight, Nat.shiftRight_eq_div_pow,
      show sizeofStructPage.toNat = 16 from rfl, show 2 ^ pageShift = 4096 from rfl]
    exact Nat.mod_eq_of_lt (by omega)
  have hbase : (pageInfoBase + (memsize >>> pageShift) * sizeofStructPage).toNat =
      4096 * 1024 + memsize.toNat / 4096 * 16 := by
    rw [BitVec.toNat_add, hbytes, show pageInfoBase.toNat = 4096 * 1024 from rfl]
    exact Nat.mod_eq_of_lt (by omega)
  have hrest := hmask ((memsize >>> pageShift) * sizeofStructPage)
  rw [hbytes] at hrest
  unfold firstFreePage
  by_cases hzero : (memsize >>> pageShift) * sizeofStructPage &&& BitVec.ofNat 64 pageMask = 0
  · rw [hzero] at hrest
    have hzero' : 0 = memsize.toNat / 4096 * 16 % 4096 := hrest
    simp only [hzero, ne_eq, not_true_eq_false, if_false]
    rw [hbase]
    omega
  · have hpos : 0 < memsize.toNat / 4096 * 16 % 4096 := by
      rw [← hrest]
      exact Nat.pos_of_ne_zero fun h => hzero (BitVec.eq_of_toNat_eq h)
    have hsize : (BitVec.ofNat 64 pageSize).toNat = 4096 := rfl
    simp only [ne_eq, hzero, not_false_eq_true, if_true]
    rw [BitVec.toNat_add, BitVec.toNat_sub_of_le (by rw [BitVec.le_def, hrest, hsize]; omega),
      hrest, hsize, hbase, Nat.mod_eq_of_lt (by omega)]
    omega

/-! ### At most one block of order 19 or more is enough -/

/-- Exact lists are a partition. -/
theorem InitExact.partition {memsize start : BitVec 64} (h : InitExact memsize start)
    (hstart : start.toNat ≤ memsize.toNat) (hlow : start.toNat ≤ zoneLowEnd) :
    InitPartition memsize start := by
  have hend : zoneLowEnd / 4096 = 2 ^ 19 := rfl
  have hmin : min memsize.toNat zoneLowEnd / 4096 = min (memsize.toNat / 4096) (2 ^ 19) := by
    have hend' : zoneLowEnd = 4096 * 2 ^ 19 := rfl
    omega
  have hzoned := h.zoned
  constructor
  · rw [Buddy.free, pagesOf_add, h.normal, h.low, initNormalPages, initLowPages]
    simp only [addrToPage_eq, hmin, hend]
    have hle := Nat.div_le_div_right (c := 4096) hstart
    have hle' : start.toNat / 4096 ≤ 2 ^ 19 := hend ▸ Nat.div_le_div_right hlow
    rcases Nat.le_total (memsize.toNat / 4096) (2 ^ 19) with hm | hm
    · rw [min_eq_left hm, Multiset.Ico_eq_zero_iff.2 (Nat.not_lt.2 hm), zero_add]
    · rw [min_eq_right hm, add_comm]
      exact Multiset.Ico_add_Ico_eq_Ico hle' hm
  · intro x hx p hp
    have hblock := (hzoned.low x hx).2
    rw [blockPages, Multiset.mem_Ico] at hp
    rw [pageToAddr_eq, show zoneLowEnd = 4096 * 2 ^ 19 from rfl]
    omega
  · intro x hx p hp
    have hblock := (hzoned.normal x hx).2
    rw [blockPages, Multiset.mem_Ico] at hp
    rw [pageToAddr_eq, show zoneLowEnd = 4096 * 2 ^ 19 from rfl]
    omega

/-! ### Two are too many -/

/-- A page listed once is in one block. -/
theorem eq_of_pagesOf_nodup {blocks : Multiset Block} (h : (pagesOf blocks).Nodup) {x y : Block}
    (hx : x ∈ blocks) (hy : y ∈ blocks) {p : ℕ} (hpx : p ∈ blockPages x) (hpy : p ∈ blockPages y) :
    x = y := by
  obtain ⟨rest, rfl⟩ := Multiset.exists_cons_of_mem hx
  rcases Multiset.mem_cons.1 hy with heq | hrest
  · exact heq.symm
  · rw [pagesOf_cons] at h
    have hdisj := (Multiset.nodup_add.1 h).2.2
    exact absurd (Multiset.mem_bind.2 ⟨y, hrest, hpy⟩) (Multiset.disjoint_left.1 hdisj hpx)

/-- A block is free exactly when it is in one of the two families of lists. -/
theorem Buddy.mem_free {b : Buddy} {x : Block} :
    x ∈ b.free ↔ x ∈ items b.ordersNormal ∨ x ∈ items b.ordersLow :=
  Multiset.mem_add

/-- A block's first page is one of its pages. -/
theorem first_mem_blockPages (x : Block) : x.2 ∈ blockPages x :=
  Multiset.mem_Ico.2 ⟨le_rfl, Nat.lt_add_of_pos_right (Nat.two_pow_pos _)⟩

/-- The pages in the blocks of a partition. -/
theorem Buddy.Partitions.mem_iff {b : Buddy} {first last : ℕ} (h : b.Partitions first last)
    {p : ℕ} : (∃ x ∈ b.free, p ∈ blockPages x) ↔ first ≤ p ∧ p < last := by
  rw [← Multiset.mem_Ico, ← h.pages, pagesOf, Multiset.mem_bind]

/-- A block of `orders_normal` begins on a free page, and no other block does there. -/
theorem Buddy.Partitions.first_of_mem {b : Buddy} {first last p : ℕ} (h : b.Partitions first last)
    {k : Fin zoneNormalMaxOrder} (hk : p ∈ b.ordersNormal k) :
    first ≤ p ∧ zoneLowEnd ≤ pageToAddr p ∧ ∀ j, p ∈ b.ordersNormal j → j = k := by
  have hmem : ∀ i, p ∈ b.ordersNormal i → (i.val, p) ∈ items b.ordersNormal := by
    intro i hi
    rw [mem_items]
    exact ⟨i, rfl, hi⟩
  have hfree : ∀ i, p ∈ b.ordersNormal i → (i.val, p) ∈ b.free := by
    intro i hi
    rw [Buddy.mem_free]
    exact Or.inl (hmem i hi)
  have hfirst : first ≤ p ∧ p < last := by
    rw [← h.mem_iff]
    refine ⟨(k.val, p), ?_, first_mem_blockPages (k.val, p)⟩
    exact hfree k hk
  refine ⟨hfirst.1, h.normal _ (hmem k hk) _ (first_mem_blockPages (k.val, p)), fun j hj => ?_⟩
  have hpages := h.pages
  generalize b.free = blocks at hfree hpages
  have hnodup : (pagesOf blocks).Nodup := by
    rw [hpages]
    exact Multiset.nodup_Ico ..
  exact Fin.ext (congrArg Prod.fst (eq_of_pagesOf_nodup hnodup (hfree j hj) (hfree k hk)
    (first_mem_blockPages (j.val, p)) (first_mem_blockPages (k.val, p))))

/-! ### Blocks of order 19 or more -/

/-- The block for a bit of the number of pages. -/
theorem initBlock_mem {b : Buddy} {k : ℕ} {base : BitVec 64} {pages : BitVec 32}
    (hpages : b.ordersNormal = _initBuddyAlloc base pages)
    (hbit : pages.toNat.testBit k = true) :
    ∃ hk : k < zoneNormalMaxOrder,
      addrToPage (initBase base pages k).toNat ∈ b.ordersNormal ⟨k, hk⟩ := by
  have hk : k < 32 := by
    rw [BitVec.testBit_toNat] at hbit
    exact BitVec.lt_of_getLsbD hbit
  refine ⟨lt_trans hk (by decide), ?_⟩
  rw [hpages, _initBuddyAlloc, if_pos ((and_intBit_ne_zero pages k).2 hbit)]
  exact List.mem_singleton_self _

/-- From order 20 on `PAGE_SIZE << order` is 0. -/
theorem initBase_of_high {base : BitVec 64} {pages : BitVec 32} {order : ℕ} (h : 20 ≤ order) :
    initBase base pages order = initBase base pages 20 := by
  induction order, h using Nat.le_induction with
  | base => rfl
  | succ order hle ih =>
      have hshift : (4096#32 <<< order) = 0#32 := by
        apply BitVec.eq_of_toNat_eq
        obtain ⟨e, rfl⟩ := Nat.exists_eq_add_of_le hle
        rw [BitVec.toNat_shiftLeft, Nat.shiftLeft_eq, pow_add, ← mul_assoc]
        exact Nat.mod_eq_zero_of_dvd (Dvd.intro _ rfl)
      rw [initBase, hshift, ih]
      split
      · exact BitVec.add_zero _
      · rfl

/-- `base` behind a block of order 19 is 2GB before that block. -/
theorem initBase_twenty {base : BitVec 64} {pages : BitVec 32} (hbase : base.toNat = zoneLowEnd)
    (hbit : pages.toNat.testBit 19 = true) :
    (initBase base pages 20).toNat = 4096 * (pages.toNat % 2 ^ 19) := by
  have hend : zoneLowEnd = 2 ^ 31 := rfl
  have hpages := pages.isLt
  have hbefore := @initBase_toNat base pages 19 le_rfl (by omega)
  have hlt := Nat.mod_lt pages.toNat (Nat.two_pow_pos 19)
  have hstep : ((4096#32 <<< 19).signExtend 64).toNat = 2 ^ 64 - 2 ^ 31 := by decide
  rw [initBase, if_pos ((and_intBit_ne_zero pages 19).2 hbit), BitVec.toNat_add, hstep, hbefore,
    hbase, hend]
  omega

variable {b : Buddy} {first last : ℕ} {pages : BitVec 32}

/-- **A second block of order 19 or more** is on pages that are not free. -/
theorem Buddy.Partitions.oneHighBit (h : b.Partitions first last)
    (hpages : b.ordersNormal = _initBuddyAlloc (BitVec.ofNat 64 zoneLowEnd) pages) :
    OneHighBit pages.toNat := by
  intro i k hi hik hbit
  by_contra hset
  have hbitk : pages.toNat.testBit k = true := Bool.not_eq_false _ ▸ hset
  have htwenty : 20 ≤ k := by omega
  -- the first of the blocks of order 19 or more
  have hex : ∃ j, 19 ≤ j ∧ pages.toNat.testBit j = true := ⟨i, hi, hbit⟩
  classical
  obtain ⟨hj, hbitj⟩ := Nat.find_spec hex
  have hjk : Nat.find hex < k := lt_of_le_of_lt (Nat.find_min' hex ⟨hi, hbit⟩) hik
  obtain ⟨hkmax, hlistk⟩ := initBlock_mem hpages hbitk
  obtain ⟨hjmax, hlistj⟩ := initBlock_mem hpages hbitj
  rcases Nat.eq_or_lt_of_le hj with hj19 | hj19
  · -- behind order 19 `base` is below 2GB
    rw [← hj19] at hbitj
    have hlow := (h.first_of_mem hlistk).2.1
    rw [initBase_of_high htwenty, initBase_twenty rfl hbitj, addrToPage_eq,
      Nat.mul_div_cancel_left _ (by norm_num), pageToAddr_eq] at hlow
    have hlt := Nat.mod_lt pages.toNat (Nat.two_pow_pos 19)
    have hend : zoneLowEnd = 4096 * 2 ^ 19 := rfl
    omega
  · -- behind a larger one it is where that one is
    rw [initBase_of_high htwenty] at hlistk
    rw [initBase_of_high hj19] at hlistj
    have hsame := (h.first_of_mem hlistk).2.2 _ hlistj
    exact absurd (congrArg Fin.val hsame) (Nat.ne_of_lt hjk)

/-- **Where the free pages begin above 2GB** they are not on the lists. -/
theorem Buddy.not_partitions_of_lt (hhigh : addrToPage zoneLowEnd < first) (hlt : first < last)
    (hpages : b.ordersNormal = _initBuddyAlloc (BitVec.ofNat 64 zoneLowEnd) pages) :
    ¬ b.Partitions first last := by
  intro h
  by_cases hzero : ∃ k, pages.toNat.testBit k = true
  · -- the first block of `orders_normal` is at 2GB, which is not free
    classical
    have hbit := Nat.find_spec hzero
    have hclear : ∀ j, 0 ≤ j → j < Nat.find hzero → pages.toNat.testBit j = false :=
      fun j _ hlt => Bool.eq_false_iff.2 (Nat.find_min hzero hlt)
    obtain ⟨hk, hlist⟩ := initBlock_mem hpages hbit
    rw [initBase_of_clear (Nat.zero_le _) hclear, initBase] at hlist
    exact absurd (h.first_of_mem hlist).1 (Nat.not_le.2 hhigh)
  · -- no block is on `orders_normal`, and the first free page is above 2GB
    obtain ⟨x, hx, hpage⟩ := h.mem_iff.2 ⟨le_rfl, hlt⟩
    rcases Buddy.mem_free.1 hx with hx | hx
    · obtain ⟨k, -, hlist⟩ := mem_items.1 hx
      rw [hpages, _initBuddyAlloc] at hlist
      by_cases hbit : pages &&& intBit k ≠ 0
      · exact hzero ⟨k, (and_intBit_ne_zero pages k).1 hbit⟩
      · rw [if_neg hbit] at hlist
        exact List.not_mem_nil hlist
    · have hlow := h.low x hx _ hpage
      rw [pageToAddr_eq] at hlow
      rw [addrToPage_eq] at hhigh
      omega

/-- The number of pages with at most one block of order 19 or more. -/
theorem oneHighBit_iff {x : ℕ} : OneHighBit x ↔ x / 2 ^ 19 = 0 ∨ ∃ j, x / 2 ^ 19 = 2 ^ j := by
  have hbits : ∀ i, (x / 2 ^ 19).testBit i = x.testBit (i + 19) :=
    fun i => Nat.testBit_div_two_pow x i
  constructor
  · intro h
    rcases Nat.eq_zero_or_pos (x / 2 ^ 19) with hzero | hpos
    · exact Or.inl hzero
    · obtain ⟨j, hbit⟩ := Nat.exists_testBit_of_ne_zero (Nat.ne_of_gt hpos)
      rw [hbits] at hbit
      refine Or.inr ⟨j, Nat.eq_of_testBit_eq fun i => ?_⟩
      rw [hbits, Nat.testBit_two_pow]
      rcases lt_trichotomy j i with hji | rfl | hij
      · rw [h (j + 19) (i + 19) (by omega) (by omega) hbit, decide_eq_false (by omega)]
      · rw [hbit, decide_eq_true rfl]
      · rw [decide_eq_false (by omega), Bool.eq_false_iff]
        intro hset
        rw [h (i + 19) (j + 19) (by omega) (by omega) hset] at hbit
        exact Bool.false_ne_true hbit
  · intro h j k hj hjk hbit
    obtain ⟨i, rfl⟩ := Nat.exists_eq_add_of_le' hj
    obtain ⟨l, rfl⟩ := Nat.exists_eq_add_of_le' (le_trans hj hjk.le)
    rw [← hbits] at hbit ⊢
    rcases h with hzero | ⟨e, he⟩
    · rw [hzero, Nat.zero_testBit]
    · rw [he, Nat.testBit_two_pow, decide_eq_true_iff] at hbit
      rw [he, Nat.testBit_two_pow, decide_eq_false (by omega)]

/-! ### Every machine -/

/-- The pages from 2GB on, as `init_buddy_alloc` counts them on a machine where the
first free page is below. -/
theorem initNormal_pages {memsize start : BitVec 64} (halign : start.toNat % 4096 = 0)
    (hstart : start.toNat ≤ memsize.toNat) (hlow : start.toNat ≤ zoneLowEnd)
    (hfits : memsize.toNat / 4096 - 2 ^ 19 < 2 ^ 32) :
    ∃ pages : BitVec 32, pages.toNat = memsize.toNat / 4096 - 2 ^ 19 ∧
      (initBuddyAlloc memsize start).ordersNormal =
        _initBuddyAlloc (BitVec.ofNat 64 zoneLowEnd) pages := by
  obtain ⟨c, hc⟩ : ∃ c, start.toNat = 4096 * c := ⟨start.toNat / 4096, by omega⟩
  have hnormal := normalPages_toNat hc hstart hlow (lowPages_toNat hc hstart hlow)
  refine ⟨_, ?_, rfl⟩
  rw [BitVec.toNat_setWidth, hnormal, Nat.mod_eq_of_lt hfits]

/-- **`init_buddy_alloc` on every machine.**  It partitions the free storage exactly when
the first free page is not above 2GB and the number of 2GB units behind the first one is
0 or a power of two. -/
theorem initPartition_iff_units {memsize start : BitVec 64} (hmem : memsize.toNat % 4096 = 0)
    (hstart : start = firstFreePage memsize) (hle : start.toNat ≤ memsize.toNat) :
    InitPartition memsize start ↔ start.toNat ≤ zoneLowEnd ∧
      (memsize.toNat / 2 ^ 31 ≤ 1 ∨ ∃ j, memsize.toNat / 2 ^ 31 = 1 + 2 ^ j) := by
  have hfirst := firstFreePage_toNat memsize
  rw [← hstart] at hfirst
  have hend : zoneLowEnd = 4096 * 2 ^ 19 := rfl
  have halign : start.toNat % 4096 = 0 := by omega
  rcases Nat.lt_or_ge zoneLowEnd start.toNat with hhigh | hlow
  · refine iff_of_false ?_ fun h => absurd h.1 (Nat.not_le.2 hhigh)
    refine Buddy.not_partitions_of_lt ?_ ?_ rfl
    · rw [addrToPage_eq, addrToPage_eq]
      omega
    · rw [addrToPage_eq, addrToPage_eq]
      omega
  · have hfits : memsize.toNat / 4096 - 2 ^ 19 < 2 ^ 32 := by omega
    have hunits : (memsize.toNat / 4096 - 2 ^ 19) / 2 ^ 19 = memsize.toNat / 2 ^ 31 - 1 := by omega
    have hone : OneHighBit (memsize.toNat / 4096 - 2 ^ 19) ↔
        memsize.toNat / 2 ^ 31 ≤ 1 ∨ ∃ j, memsize.toNat / 2 ^ 31 = 1 + 2 ^ j := by
      rw [oneHighBit_iff, hunits]
      refine or_congr (by omega) (exists_congr fun j => ?_)
      have := Nat.two_pow_pos j
      omega
    rw [← hone]
    constructor
    · intro h
      obtain ⟨pages, hcount, hpages⟩ := initNormal_pages halign hle hlow hfits
      exact ⟨hlow, hcount ▸ h.oneHighBit hpages⟩
    · rintro ⟨-, hone⟩
      have hpos : 0 < start.toNat := by omega
      exact (initExact_of_oneHighBit hone hfits halign hpos hle hlow).partition hle hlow

/-- **Which machines `init_buddy_alloc` is exact on**: those where the array of pages ends
at 2GB at the latest, that is up to 511GB, and where the number of 2GB units behind the
first one is 0 or a power of two. -/
theorem initPartition_iff : ∀ memsize : BitVec 64, memsize.toNat % 4096 = 0 →
    (firstFreePage memsize).toNat ≤ memsize.toNat →
      (InitPartition memsize (firstFreePage memsize) ↔
        (firstFreePage memsize).toNat ≤ zoneLowEnd ∧
          (memsize.toNat / 2 ^ 31 ≤ 1 ∨ ∃ j, memsize.toNat / 2 ^ 31 = 1 + 2 ^ j)) :=
  fun _ hmem hle => initPartition_iff_units hmem rfl hle

/-- 6GB of storage: one block of order 20 behind the first 2GB, and the lists are a
partition. -/
theorem initPartition_iff_6GB : InitPartition 0x180000000 (firstFreePage 0x180000000) :=
  (initPartition_iff 0x180000000 (by decide) (by decide)).2
    ⟨by decide, Or.inr ⟨1, by decide⟩⟩

/-- 8GB of storage: the block of order 20 is where the block of order 19 left `base`, as
`PAGE_SIZE << order` is an `int`. -/
theorem not_initPartition : ¬ ∀ memsize : BitVec 64, memsize.toNat % 4096 = 0 →
    (firstFreePage memsize).toNat ≤ memsize.toNat →
      InitPartition memsize (firstFreePage memsize) := by
  intro h
  have hpart := h 0x200000000 (by decide) (by decide)
  rw [initPartition_iff_units (by decide) rfl (by decide)] at hpart
  rcases hpart.2 with hle | ⟨j, hj⟩
  · exact absurd hle (by decide)
  · have hthree : 2 ^ j = 3 := by
      have hunits : BitVec.toNat (0x200000000 : BitVec 64) / 2 ^ 31 = 4 := by decide
      omega
    rcases j with _ | j
    · norm_num at hthree
    · rw [pow_succ] at hthree
      omega

end Hvf
