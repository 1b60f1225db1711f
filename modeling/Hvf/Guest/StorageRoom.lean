/-
# Storage for a guest beyond 2GB

`alloc_guest_storage` has no limit of its own: while pages are left it goes on
(`fillGuestStorage_exists`).  On a machine with almost 6GB a guest gets any number of
pages of which the machine has twice as many, and more than `2^19` of them are entered
without an error.
-/

import Hvf.Guest.Storage
import Hvf.Mm.BuddySearch

namespace Hvf

open BitField NumberedBins StepRun

/-! ### Pages that are left -/

variable {memsize start : BitVec 64} {s : BuddyState}

set_option maxRecDepth 2000 in
/-- Below 6GB a free page is in a block of order 19 at most. -/
theorem BuddyInv.freeAt (hinv : BuddyInv (initPages memsize start) s)
    (hmem : memsize.toNat < 6 * 2 ^ 30) {p : ℕ} (hp : p ∈ pagesOf s.buddy.free) :
    ∃ k ≤ zoneLowMaxOrder, s.buddy.FreeAt .normal k := by
  have hpages : ∀ q ∈ pagesOf s.buddy.free, q ∈ initPages memsize start := by
    intro q hq
    rw [← hinv.cover, pagesOf_add]
    exact Multiset.mem_add.2 (Or.inl hq)
  rw [Buddy.free, pagesOf_add] at hp hpages
  rcases Multiset.mem_add.1 hp with hp | hp
  · obtain ⟨x, hx, -, -⟩ := mem_pagesOf.1 hp
    obtain ⟨k, hk, hlist⟩ := mem_items.1 hx
    have hbase := (hinv.zoned.normal x hx).2
    refine ⟨x.1, ?_, Or.inl ⟨rfl, hk ▸ k.isLt, ?_⟩⟩
    · by_contra hlarge
      rw [zoneLowMaxOrder_eq] at hlarge
      have hpow : 2 ^ 20 ≤ 2 ^ x.1 := Nat.pow_le_pow_right (by decide) (by omega)
      -- the last page of the block is behind the end of storage
      have hlast := hpages (x.2 + 2 ^ x.1 - 1)
        (Multiset.mem_add.2 (Or.inl (mem_pagesOf.2 ⟨x, hx, by omega, by omega⟩)))
      have hend : zoneLowEnd = 2 ^ 31 := rfl
      rw [initPages, Multiset.mem_add, initNormalPages, initLowPages, Multiset.mem_Ico,
        Multiset.mem_Ico, addrToPage_eq, addrToPage_eq, addrToPage_eq, addrToPage_eq] at hlast
      omega
    · have hsame : (⟨x.1, hk ▸ k.isLt⟩ : Fin zoneNormalMaxOrder) = k := Fin.ext hk.symm
      rw [hsame]
      exact List.ne_nil_of_mem hlist
  · obtain ⟨x, hx, -, -⟩ := mem_pagesOf.1 hp
    obtain ⟨k, hk, hlist⟩ := mem_items.1 hx
    have hsame : (⟨x.1, hk ▸ k.isLt⟩ : Fin zoneLowMaxOrder) = k := Fin.ext hk.symm
    refine ⟨x.1, Nat.le_of_lt (hk ▸ k.isLt), Or.inr ⟨hk ▸ k.isLt, ?_⟩⟩
    rw [hsame]
    exact List.ne_nil_of_mem hlist

set_option maxRecDepth 2000 in
/-- **A page is found while one is left.** -/
theorem BuddyInv.alloc_exists (hinv : BuddyInv (initPages memsize start) s)
    (hmem : memsize.toNat < 6 * 2 ^ 30)
    (hroom : (pagesOf s.out).card < (initPages memsize start).card) :
    ∃ p b, allocPages 0 .normal s.buddy = some (some p, b) := by
  have hfree : pagesOf s.buddy.free ≠ 0 := by
    intro hempty
    have hcover := congrArg Multiset.card hinv.cover
    rw [pagesOf_add, hempty, zero_add] at hcover
    omega
  obtain ⟨p, hp⟩ := Multiset.exists_mem_of_ne_zero hfree
  obtain ⟨k, hk, hfreeAt⟩ := hinv.freeAt hmem hp
  have hexact : AllocExact 0 .normal s.buddy :=
    (allocExact_iff s.buddy (by decide)).2 fun _ =>
      ⟨k, Nat.zero_le _, hk.trans (le_max_right _ _), hfreeAt⟩
  obtain ⟨page, b, halloc, hnone⟩ := hexact
  cases page with
  | none => exact absurd hfreeAt (hnone.1 rfl k (Nat.zero_le _))
  | some p => exact ⟨p, b, halloc⟩

/-- One more block of order `n` has `2^n` more pages. -/
theorem card_pagesOf_cons (x : Block) (out : Multiset Block) :
    (pagesOf (x ::ₘ out)).card = 2 ^ x.1 + (pagesOf out).card := by
  have hcard : (blockPages x).card = x.2 + 2 ^ x.1 - x.2 := Nat.card_Ico _ _
  rw [pagesOf_cons, Multiset.card_add, hcard, Nat.add_sub_cancel_left]

/-- A page is handed out. -/
theorem BuddyInv.alloc_step (hinv : BuddyInv (initPages memsize start) s)
    (hmem : memsize.toNat < 6 * 2 ^ 30)
    (hroom : (pagesOf s.out).card < (initPages memsize start).card) :
    ∃ p s', BuddyStep s (.alloc 0 .normal (some p)) s' ∧ BuddyInv (initPages memsize start) s' ∧
      (pagesOf s'.out).card = (pagesOf s.out).card + 1 := by
  obtain ⟨p, b, halloc⟩ := hinv.alloc_exists hmem hroom
  have hstep := BuddyStep.alloc halloc
  refine ⟨p, _, hstep, hstep.inv hinv, ?_⟩
  rw [Option.elim_some, card_pagesOf_cons, pow_zero, Nat.add_comm]

/-! ### One page more -/

/-- The segment of `virt` has no page table yet. -/
def Dat.NeedsTable (s : Dat) (virt : BitVec 64) : Prop :=
  steOrigin.get (s.mem (s.segmentTable + 8 * datSx virt)) = 0x1fffffffffffff

/-- The same state with other results of `alloc_pages` to come. -/
def Dat.withSupply (s : Dat) (supply : List (Option ℕ)) : Dat := { s with supply }

/-- Mapping a page whose segment has its page table takes no page from the supply. -/
theorem datInsertPage_old {s : Dat} (hregion : s.regionTable = 0) (hseg : s.segmentTable ≠ 0)
    {virt : BitVec 64} (hold : ¬ s.NeedsTable virt) (phy : BitVec 64) :
    ∃ s' : Dat, s'.allocs = s.allocs ∧ s'.regionTable = 0 ∧ s'.segmentTable ≠ 0 ∧
      ∀ supply, datInsertPage phy virt (s.withSupply supply) = some (s'.withSupply supply) := by
  refine ⟨s.storePte (steOriginToAddr (steOrigin.get (s.mem (s.segmentTable + 8 * datSx virt))))
    phy virt, rfl, hregion, hseg, fun supply => ?_⟩
  have hfirst : findSegmentTable virt (s.withSupply supply) =
      some (s.segmentTable, s.withSupply supply) := by
    rw [findSegmentTable, if_pos (show (s.withSupply supply).regionTable = 0 from hregion),
      if_neg (show (s.withSupply supply).segmentTable ≠ 0 from hseg)]
    rfl
  rw [datInsertPage, hfirst]
  dsimp only [Option.bind_eq_bind, Option.bind_some]
  have hsecond : findPageTable (s.segmentTable + 8 * datSx virt) (s.withSupply supply) =
      some (steOriginToAddr (steOrigin.get (s.mem (s.segmentTable + 8 * datSx virt))),
        s.withSupply supply) := by
    rw [findPageTable, if_neg (show ¬ steOrigin.get ((s.withSupply supply).mem _) = _ from hold)]
    rfl
  rw [hsecond]
  rfl

/-- Mapping a page whose segment has none takes one page from the supply. -/
theorem datInsertPage_new {s : Dat} (hregion : s.regionTable = 0) (hseg : s.segmentTable ≠ 0)
    {virt : BitVec 64} (hnew : s.NeedsTable virt) (phy : BitVec 64) (pt : ℕ) :
    ∃ s' : Dat, s'.allocs = (0, pt) :: s.allocs ∧ s'.regionTable = 0 ∧ s'.segmentTable ≠ 0 ∧
      ∀ supply, datInsertPage phy virt (s.withSupply (some pt :: supply)) =
        some (s'.withSupply supply) := by
  let segment := s.segmentTable + 8 * datSx virt
  -- the state with the page table in the entry of the segment table
  obtain ⟨s₁, hs₁⟩ : ∃ s₁ : Dat, s₁ = { s with
      mem := Function.update (fun a => if pt ≤ a ∧ a < pt + tableSize 0 then BitVec.allOnes 64
        else s.mem a) segment (newSte pt (if pt ≤ segment ∧ segment < pt + tableSize 0 then
          BitVec.allOnes 64 else s.mem segment))
      allocs := (0, pt) :: s.allocs } := ⟨_, rfl⟩
  refine ⟨s₁.storePte (steOriginToAddr (steOrigin.get (s₁.mem segment))) phy virt, ?_, ?_, ?_,
    fun supply => ?_⟩
  · rw [hs₁]
    rfl
  · rw [hs₁]
    exact hregion
  · rw [hs₁]
    exact hseg
  have hfirst : findSegmentTable virt (s.withSupply (some pt :: supply)) =
      some (s.segmentTable, s.withSupply (some pt :: supply)) := by
    rw [findSegmentTable,
      if_pos (show (s.withSupply (some pt :: supply)).regionTable = 0 from hregion),
      if_neg (show (s.withSupply (some pt :: supply)).segmentTable ≠ 0 from hseg)]
    rfl
  have hsecond : findPageTable segment (s.withSupply (some pt :: supply)) =
      some (steOriginToAddr (steOrigin.get (s₁.mem segment)), s₁.withSupply supply) := by
    rw [findPageTable,
      if_pos (show steOrigin.get ((s.withSupply (some pt :: supply)).mem segment) = _ from hnew),
      hs₁]
    rfl
  rw [datInsertPage, hfirst]
  dsimp only [Option.bind_eq_bind, Option.bind_some]
  rw [hsecond]
  rfl

/-- The first page: the segment table and a page table. -/
theorem datInsertPage_first {s : Dat} (hregion : s.regionTable = 0) (hseg : s.segmentTable = 0)
    (virt phy : BitVec 64) {st : ℕ} (hst : st ≠ 0) (pt : ℕ) :
    ∃ s' : Dat, s'.allocs = (0, pt) :: (2, st) :: s.allocs ∧ s'.regionTable = 0 ∧
      s'.segmentTable ≠ 0 ∧ ∀ supply,
        datInsertPage phy virt (s.withSupply (some st :: some pt :: supply)) =
          some (s'.withSupply supply) := by
  obtain ⟨s₁, hs₁⟩ : ∃ s₁ : Dat, s₁ = { s with
      mem := fun a => if st ≤ a ∧ a < st + tableSize 2 then BitVec.allOnes 64 else s.mem a
      segmentTable := st
      allocs := (2, st) :: s.allocs } := ⟨_, rfl⟩
  have hregion₁ : s₁.regionTable = 0 := by rw [hs₁]; exact hregion
  have hseg₁ : s₁.segmentTable ≠ 0 := by rw [hs₁]; exact hst
  have hneeds : s₁.NeedsTable virt := by
    have hsx := datSx_lt virt
    rw [hs₁, Dat.NeedsTable]
    dsimp only
    rw [if_pos ⟨Nat.le_add_right _ _, by rw [tableSize_two]; omega⟩, Field.get_allOnes]
    rfl
  obtain ⟨s', hallocs, hregion', hseg', hins⟩ := datInsertPage_new hregion₁ hseg₁ hneeds phy pt
  refine ⟨s', ?_, hregion', hseg', fun supply => ?_⟩
  · rw [hallocs, hs₁]
  · have hfirst : findSegmentTable virt (s.withSupply (some st :: some pt :: supply)) =
        findSegmentTable virt (s₁.withSupply (some pt :: supply)) := by
      rw [findSegmentTable, findSegmentTable,
        if_pos (show (s.withSupply (some st :: some pt :: supply)).regionTable = 0 from hregion),
        if_pos (show (s.withSupply (some st :: some pt :: supply)).segmentTable = 0 from hseg),
        if_pos (show (s₁.withSupply (some pt :: supply)).regionTable = 0 from hregion₁),
        if_neg (show (s₁.withSupply (some pt :: supply)).segmentTable ≠ 0 from hseg₁), hs₁]
      rfl
    rw [← hins supply, datInsertPage, datInsertPage, hfirst]

/-! ### All pages -/

/-- The results of the calls of `alloc_pages` that took the blocks. -/
def results (blocks : List Block) : List (Option ℕ) := blocks.map fun x => some (pageToAddr x.2)

/-- The calls themselves. -/
def allocs (blocks : List Block) : List BuddyEvent :=
  blocks.map fun x => .alloc x.1 .normal (some x.2)

/-- A page taken for the guest is the next block of the storage. -/
theorem taken_block (d : Dat) (p : ℕ) (pages : List ℕ) :
    (d.take (pageToAddr p) []).allocs.map (fun x => (x.1, addrToPage x.2)) =
      (0, p) :: GuestStorage.blocks ⟨d, pages⟩ := by
  rw [Dat.take, List.map_cons, addrToPage_pageToAddr]
  rfl

/-- **The loop goes on while pages are left.** -/
theorem fillGuestStorage_exists (hmem : memsize.toNat < 6 * 2 ^ 30) (left : ℕ) {d : Dat}
    (hregion : d.regionTable = 0) (hseg : d.segmentTable ≠ 0) (pages : List ℕ)
    (hinv : BuddyInv (initPages memsize start) s)
    (hroom : (pagesOf s.out).card + 2 * left ≤ (initPages memsize start).card) :
    ∃ new g' s', fillGuestStorage left ⟨d.withSupply (results new), pages⟩ = some (0, g') ∧
      g'.blocks = new.reverse ++ GuestStorage.blocks ⟨d, pages⟩ ∧
      Run BuddyStep s (allocs new) s' := by
  induction left generalizing d pages s with
  | zero => exact ⟨[], _, s, rfl, rfl, Run.nil⟩
  | succ left ih =>
    obtain ⟨p, s₁, hstep, hinv₁, hcard₁⟩ := hinv.alloc_step hmem (by omega)
    have hrun₁ := Run.nil.snoc hstep
    by_cases hneeds : (d.take (pageToAddr p) []).NeedsTable (guestAddr left)
    · obtain ⟨t, s₂, hstep₂, hinv₂, hcard₂⟩ := hinv₁.alloc_step hmem (by omega)
      obtain ⟨d', hallocs, hregion', hseg', hins⟩ :=
        datInsertPage_new (s := d.take (pageToAddr p) [])
        hregion hseg hneeds (BitVec.ofNat 64 (pageToAddr p)) (pageToAddr t)
      obtain ⟨new, g', s', hfill, hblocks, hrun⟩ :=
        ih hregion' hseg' (pageToAddr p :: pages) hinv₂ (by omega)
      refine ⟨(0, p) :: (0, t) :: new, g', s', ?_, ?_, (hrun₁.snoc hstep₂).append hrun⟩
      · exact Option.bind_eq_some_iff.2 ⟨_, hins (results new), hfill⟩
      · rw [hblocks, GuestStorage.blocks, hallocs, List.reverse_cons, List.reverse_cons,
          List.append_assoc, List.append_assoc, List.map_cons, addrToPage_pageToAddr]
        exact congrArg (new.reverse ++ (0, t) :: ·) (taken_block d p pages)
    · obtain ⟨d', hallocs, hregion', hseg', hins⟩ :=
        datInsertPage_old (s := d.take (pageToAddr p) [])
        hregion hseg hneeds (BitVec.ofNat 64 (pageToAddr p))
      obtain ⟨new, g', s', hfill, hblocks, hrun⟩ :=
        ih hregion' hseg' (pageToAddr p :: pages) hinv₁ (by omega)
      refine ⟨(0, p) :: new, g', s', ?_, ?_, hrun₁.append hrun⟩
      · exact Option.bind_eq_some_iff.2 ⟨_, hins (results new), hfill⟩
      · rw [hblocks, GuestStorage.blocks, hallocs, List.reverse_cons, List.append_assoc]
        exact congrArg (new.reverse ++ ·) (taken_block d p pages)

/-- **How many pages the host starts with**: those below 2 GB behind the nucleus, and those
above. -/
theorem card_initPages (memsize start : BitVec 64) : (initPages memsize start).card =
    addrToPage memsize.toNat - addrToPage zoneLowEnd +
      (addrToPage (min memsize.toNat zoneLowEnd) - addrToPage start.toNat) := by
  have hcard : ∀ a b : ℕ, (Multiset.Ico a b).card = b - a := Nat.card_Ico
  rw [initPages, Multiset.card_add, initNormalPages, initLowPages, hcard, hcard]

/-- A machine with almost 6GB of storage, its first free page at 4.25MB. -/
def almost6GB : Host := Host.init 0x17ffff000 0x440000

/-- The memory sizes of the example are ones that the page allocator's initialization splits
exactly. -/
theorem almost6GB_exact : InitExact 0x17ffff000 0x440000 :=
  initExact_of_lt (by decide) (by decide) (by decide) (by decide) (by decide)

/-- A page and a segment table are taken first. -/
theorem almost6GB_first : ∃ p st s, st ≠ 0 ∧
    Run BuddyStep almost6GB.buddy (allocs [(0, p), (2, st)]) s ∧
      BuddyInv (initPages 0x17ffff000 0x440000) s ∧ (pagesOf s.out).card = 5 := by
  have hcalls : ((allocPages 0 .normal almost6GB.buddy.buddy).bind fun r =>
      (allocPages 2 .normal r.2).map fun r' => (r.1.isSome, r'.1.getD 0 != 0)) =
        some (true, true) := by
    decide +kernel
  obtain ⟨⟨page, b₁⟩, halloc₁, hcalls⟩ := Option.bind_eq_some_iff.1 hcalls
  obtain ⟨⟨page', b₂⟩, halloc₂, hcalls⟩ := Option.map_eq_some_iff.1 hcalls
  obtain ⟨hpage, hpage'⟩ := Prod.mk.inj hcalls
  obtain ⟨p, rfl⟩ := Option.isSome_iff_exists.1 hpage
  have hstep₁ := BuddyStep.alloc halloc₁
  cases page' with
  | none => cases hpage'
  | some st =>
    have hstep₂ := BuddyStep.alloc (s := ⟨b₁, (0, p) ::ₘ almost6GB.buddy.out⟩) halloc₂
    have hinv := hstep₂.inv (hstep₁.inv (buddyInv_init almost6GB_exact))
    refine ⟨p, st, _, by simpa using hpage', (Run.nil.snoc hstep₁).snoc hstep₂, hinv, ?_⟩
    rw [Option.elim_some, card_pagesOf_cons, card_pagesOf_cons]
    rfl

/-- **Storage of any size the machine has twice.** -/
theorem guestStorage_exists {storageSize : BitVec 64} {left : ℕ}
    (hpages : (storageSize >>> pageShift).toNat = left + 1) (hroom : left < 785000) :
    ∃ g pages s, allocGuestStorage storageSize .null (fun _ => 0) pages = some (0, g) ∧
      Run BuddyStep almost6GB.buddy (HostGuest.calls ⟨storageSize, .null, 0, g⟩) s := by
  obtain ⟨p, st, s, hst, hrun, hinv, hcard⟩ := almost6GB_first
  have hsize : (initPages 0x17ffff000 0x440000).card = 1571775 := card_initPages _ _
  obtain ⟨pt, s₁, hstep, hinv₁, hcard₁⟩ := hinv.alloc_step (by decide) (by omega)
  let d : Dat := (Dat.init (fun _ => 0) []).take (pageToAddr p) []
  have hst' : pageToAddr st ≠ 0 := by
    rw [pageToAddr_eq]
    omega
  obtain ⟨d', hallocs, hregion, hseg, hins⟩ := datInsertPage_first (s := d) rfl rfl
    (guestAddr left) (BitVec.ofNat 64 (pageToAddr p)) hst' (pageToAddr pt)
  obtain ⟨new, g', s', hfill, hblocks, hrun'⟩ := fillGuestStorage_exists (by decide) left hregion
    hseg [pageToAddr p] hinv₁ (by omega)
  let blocks : List Block := (0, p) :: (2, st) :: (0, pt) :: new
  have hblocks' : g'.blocks = blocks.reverse := by
    rw [hblocks, GuestStorage.blocks, hallocs]
    simp only [blocks, d, Dat.take, Dat.init, List.map_cons, List.map_nil, addrToPage_pageToAddr,
      List.reverse_cons, List.append_assoc, List.cons_append, List.nil_append]
  have hcalls : HostGuest.calls ⟨storageSize, .null, 0, g'⟩ = allocs blocks := by
    rw [HostGuest.calls, if_pos rfl, List.append_nil, hblocks', List.reverse_reverse]
    rfl
  have hguest : allocGuestStorage storageSize .null (fun _ => 0) (blocks.map fun x => some x.2) =
      some (0, g') := by
    have hsupply : (blocks.map fun x => some x.2).map (Option.map pageToAddr) = results blocks := by
      rw [List.map_map]
      rfl
    rw [allocGuestStorage, hpages, GuestStorage.init, hsupply]
    exact Option.bind_eq_some_iff.2 ⟨_, hins (results new), hfill⟩
  refine ⟨g', _, s', hguest, ?_⟩
  rw [hcalls]
  exact (hrun.snoc hstep).append hrun'

/-- **Storage of any size that there is room for can be made**, by a host of almost 6 GB. -/
theorem hostGuest_exists {storageSize : BitVec 64} {left : ℕ}
    (hpages : (storageSize >>> pageShift).toNat = left + 1) (hroom : left < 785000) :
    ∃ g h, Run HostStep almost6GB [.guest g] h ∧ h.guests = [g] ∧ g.storageSize = storageSize ∧
      g.as = .null ∧ g.ret = 0 := by
  obtain ⟨g, pages, s, hguest, hrun⟩ := guestStorage_exists hpages hroom
  exact ⟨⟨storageSize, .null, 0, g⟩, _, Run.nil.snoc (HostStep.guest hguest hrun), rfl, rfl,
    rfl, rfl⟩

end Hvf
