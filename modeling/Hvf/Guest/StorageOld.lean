/-
# Guest storage over old tables

`guest_create` stores into neither pointer of `sys->as`, and `malloc` hands out storage as it
was left.  So `dat_insert_page` may be called with pointers to storage that is no table of
the guest: it enters the first page in it.  Whether this goes well depends on what is there,
and for each pair of pointers there are contents with which it does not: where every entry
of the segment table leads to one and the same page table (`oldMem`), no table is allocated,
all guest pages are entered, and 256 entries are all that is left of them.

`guestStorage_mapped_iff` says for which pointers and sizes the storage of a guest is mapped
as it should be, whatever storage holds and whatever else is going on: `segment_table` is
`NULL`, so is `region_table` if there is a page to enter, and there are at most `2^19` pages.
-/

import Hvf.Guest.StorageMap

namespace Hvf

open BitField StepRun

/-! ### An address as an entry -/

/-- **The address of a page below 1MB**, which has no bit in the fields that say that a
table entry is invalid. -/
structure LowPage (a : ℕ) : Prop where
  align : a % 4096 = 0
  low : a < 2 ^ 20

section

variable {a : ℕ}

/-- A bit field of such an entry is a quotient and a remainder of the address. -/
theorem LowPage.get {len : ℕ} (ha : LowPage a) (f : Field 64 len) :
    (f.get (BitVec.ofNat 64 a)).toNat = a / 2 ^ f.lo % 2 ^ len := by
  have hlow := ha.low
  have hfits : a % 2 ^ 64 = a := Nat.mod_eq_of_lt (by omega)
  rw [Field.get, BitVec.extractLsb'_toNat, BitVec.toNat_ofNat, Nat.shiftRight_eq_div_pow, hfits]

/-- **As a region-table entry** it leads to the segment table at that address. -/
theorem LowPage.rte (ha : LowPage a) : rteOrigin.get (BitVec.ofNat 64 a) ≠ 0xfffffffffffff ∧
    rteOriginToAddr (rteOrigin.get (BitVec.ofNat 64 a)) = a := by
  obtain ⟨halign, hlow⟩ := ha
  have hget : (rteOrigin.get (BitVec.ofNat 64 a)).toNat = a / 2 ^ 12 % 2 ^ 52 :=
    LowPage.get ⟨halign, hlow⟩ rteOrigin
  refine ⟨fun hmark => ?_, ?_⟩
  · have hones : (0xfffffffffffff : BitVec 52).toNat = 2 ^ 52 - 1 := by decide
    rw [hmark, hones] at hget
    omega
  · rw [rteOriginToAddr, hget, Nat.shiftLeft_eq]
    omega

/-- **As a segment-table entry** it is valid and leads to the page table at that address. -/
theorem LowPage.ste (ha : LowPage a) : steOrigin.get (BitVec.ofNat 64 a) ≠ 0x1fffffffffffff ∧
    PointsTo (BitVec.ofNat 64 a) a := by
  obtain ⟨halign, hlow⟩ := ha
  have hget : (steOrigin.get (BitVec.ofNat 64 a)).toNat = a / 2 ^ 11 % 2 ^ 53 :=
    LowPage.get ⟨halign, hlow⟩ steOrigin
  have hinvalid : (steI.get (BitVec.ofNat 64 a)).toNat = a / 2 ^ 5 % 2 ^ 1 :=
    LowPage.get ⟨halign, hlow⟩ steI
  refine ⟨fun hmark => ?_, BitVec.eq_of_toNat_eq ?_, ?_⟩
  · have hones : (0x1fffffffffffff : BitVec 53).toNat = 2 ^ 53 - 1 := by decide
    rw [hmark, hones] at hget
    omega
  · rw [hinvalid]
    show a / 2 ^ 5 % 2 ^ 1 = 0
    omega
  · rw [steOriginToAddr, hget, Nat.shiftLeft_eq]
    omega

/-- **As a page-table entry** it is valid. -/
theorem LowPage.pte (ha : LowPage a) : pteI.get (BitVec.ofNat 64 a) = 0 := by
  have halign := ha.align
  have hget : (pteI.get (BitVec.ofNat 64 a)).toNat = a / 2 ^ 10 % 2 ^ 1 := ha.get pteI
  refine BitVec.eq_of_toNat_eq ?_
  rw [hget]
  show a / 2 ^ 10 % 2 ^ 1 = 0
  omega

end

/-! ### Storage in which all segments share a page table -/

/-- **The old contents of storage:** `rt` where the region-table pointer leads, and `pt`
everywhere else. -/
def oldMem (as : AddressSpace) (rt pt : ℕ) (a : ℕ) : BitVec 64 :=
  BitVec.ofNat 64 (if a = as.regionTable then rt else pt)

/-- **Where the tables are.**  The 256 entries at `pt` are apart from the region-table entry,
from the segment table that `load_as` takes and from the one at `rt` that the region-table
entry leads to; the region-table entry is not in the latter. -/
structure OldTables (as : AddressSpace) (rt pt : ℕ) : Prop where
  segment : as.segmentTable ≠ 0
  lowRt : LowPage rt
  lowPt : LowPage pt
  region_pt : as.regionTable < pt ∨ pt + 2048 ≤ as.regionTable
  region_rt : as.regionTable < rt ∨ rt + 16384 ≤ as.regionTable
  segment_pt : as.segmentTable + 16384 ≤ pt ∨ pt + 2048 ≤ as.segmentTable
  rt_pt : rt + 16384 ≤ pt

/-- There is such a place, wherever the two pointers lead. -/
theorem oldTables_exists {as : AddressSpace} (hsegment : as.segmentTable ≠ 0) :
    ∃ rt pt, OldTables as rt pt := by
  have hlow : ∀ k < 8, LowPage (0x20000 * k) := fun k hk => ⟨by omega, by omega⟩
  obtain ⟨i, hi, hregion⟩ : ∃ i < 2, as.regionTable < 0x20000 * i ∨
      0x20000 * i + 16384 ≤ as.regionTable := by
    by_cases h : as.regionTable < 16384
    · exact ⟨1, by omega, by omega⟩
    · exact ⟨0, by omega, by omega⟩
  obtain ⟨j, hj, hj', hregion', hsegment'⟩ : ∃ j, 2 ≤ j ∧ j < 8 ∧
      (as.regionTable < 0x20000 * j ∨ 0x20000 * j + 2048 ≤ as.regionTable) ∧
      (as.segmentTable + 16384 ≤ 0x20000 * j ∨ 0x20000 * j + 2048 ≤ as.segmentTable) := by
    -- each of the two pointers rules out one of three places at most
    by_contra hnone
    push Not at hnone
    have h₂ := hnone 2
    have h₃ := hnone 3
    have h₄ := hnone 4
    omega
  exact ⟨0x20000 * i, 0x20000 * j, hsegment, hlow i (by omega), hlow j hj', hregion', hregion,
    hsegment', by omega⟩

/-- **What the loop keeps:** the two pointers, all of storage but the 256 entries that have
changed, and that all of them are valid. -/
structure OldInv (as : AddressSpace) (rt pt : ℕ) (d : Dat) : Prop where
  region : d.regionTable = as.regionTable
  segment : d.segmentTable = as.segmentTable
  mem : ∀ a, a < pt ∨ pt + 2048 ≤ a → d.mem a = oldMem as rt pt a
  valid : ∀ a, pteI.get (d.mem a) = 0

section

variable {as : AddressSpace} {rt pt : ℕ} {d : Dat}

/-- A guest made on old tables begins with the invariant about them. -/
theorem oldInv_init (hat : OldTables as rt pt) (pages : List (Option ℕ)) :
    OldInv as rt pt (GuestStorage.init as (oldMem as rt pt) pages).dat := by
  refine ⟨rfl, rfl, fun _ _ => rfl, fun a => ?_⟩
  show pteI.get (oldMem as rt pt a) = 0
  rw [oldMem]
  split
  · exact hat.lowRt.pte
  · exact hat.lowPt.pte

/-- The entries of a segment table that is apart from the page table. -/
theorem OldInv.entry (hinv : OldInv as rt pt d) {table sx : ℕ}
    (hapart : table + 16384 ≤ pt ∨ pt + 2048 ≤ table) (hsx : sx < 2048)
    (hne : table + 8 * sx ≠ as.regionTable) :
    d.mem (table + 8 * sx) = BitVec.ofNat 64 pt := by
  rw [hinv.mem _ (by omega), oldMem, if_neg hne]

/-- **No segment table is allocated:** there is one in either case. -/
theorem OldInv.findSegmentTable (hinv : OldInv as rt pt d) (hat : OldTables as rt pt)
    {virt : BitVec 64} (hvirt : virt.toNat < 2 ^ 31) :
    ∃ table, findSegmentTable virt d = some (table, d) ∧
      ∀ sx < 2048, d.mem (table + 8 * sx) = BitVec.ofNat 64 pt := by
  unfold Hvf.findSegmentTable
  by_cases hregion : d.regionTable = 0
  · have hsegment : d.segmentTable ≠ 0 := hinv.segment.trans_ne hat.segment
    refine ⟨d.segmentTable, by rw [if_pos hregion, if_neg hsegment], fun sx hsx => ?_⟩
    rw [hinv.segment]
    refine hinv.entry hat.segment_pt hsx ?_
    rw [← hinv.region, hregion]
    have := hat.segment
    omega
  · have hword : d.mem d.regionTable = BitVec.ofNat 64 rt := by
      rw [hinv.region, hinv.mem _ hat.region_pt, oldMem, if_pos rfl]
    refine ⟨rt, ?_, fun sx hsx => hinv.entry (Or.inl hat.rt_pt) hsx ?_⟩
    · rw [if_neg hregion, if_neg (not_not.2 ((datRx_eq_zero_iff virt).2 hvirt)), hword,
        if_neg hat.lowRt.rte.1]
      show some (rteOriginToAddr (rteOrigin.get (d.mem d.regionTable)), d) = some (rt, d)
      rw [hword, hat.lowRt.rte.2]
    · have := hat.region_rt
      omega

/-- **A page is entered** without an allocation. -/
theorem OldInv.datInsertPage (hinv : OldInv as rt pt d) (hat : OldTables as rt pt)
    (phy : BitVec 64) {virt : BitVec 64} (hvirt : virt.toNat < 2 ^ 31) :
    ∃ d', datInsertPage phy virt d = some d' ∧ OldInv as rt pt d' ∧ d'.allocs = d.allocs ∧
      d'.supply = d.supply := by
  obtain ⟨table, hfind, hentry⟩ := hinv.findSegmentTable hat hvirt
  have hste := hentry (datSx virt) (datSx_lt virt)
  have hpage : findPageTable (table + 8 * datSx virt) d = some (pt, d) := by
    unfold findPageTable
    rw [hste, if_neg hat.lowPt.ste.1]
    show some (steOriginToAddr (steOrigin.get (d.mem (table + 8 * datSx virt))), d) = some (pt, d)
    rw [hste, hat.lowPt.ste.2.2]
  have hpx := datPx_lt virt
  refine ⟨d.storePte pt phy virt, ?_, ⟨hinv.region, hinv.segment, fun a ha => ?_, fun a => ?_⟩,
    rfl, rfl⟩
  · rw [Hvf.datInsertPage, hfind]
    dsimp only [Option.bind_eq_bind, Option.bind_some]
    rw [hpage]
    rfl
  · rw [← hinv.mem a ha]
    exact Function.update_of_ne (by omega) ..
  · show pteI.get (Function.update d.mem _ _ a) = 0
    by_cases hsame : a = pt + 8 * datPx virt
    · rw [hsame, Function.update_self, pteI_newPte]
    · rw [Function.update_of_ne hsame]
      exact hinv.valid a

/-- **The loop enters every page** and takes nothing but the pages. -/
theorem OldInv.fillGuestStorage (hat : OldTables as rt pt) (ps pages : List ℕ)
    (hps : ps.length ≤ 2 ^ 19) (hinv : OldInv as rt pt d)
    (hsupply : d.supply = ps.map fun p => some (pageToAddr p)) :
    ∃ g', fillGuestStorage ps.length ⟨d, pages⟩ = some (0, g') ∧ OldInv as rt pt g'.dat ∧
      g'.blocks = (ps.map (Prod.mk 0)).reverse ++ GuestStorage.blocks ⟨d, pages⟩ := by
  induction ps generalizing d pages with
  | nil => exact ⟨_, rfl, hinv, rfl⟩
  | cons p ps ih =>
    rw [List.length_cons] at hps
    have hvirt : (guestAddr ps.length).toNat = 4096 * ps.length := guestAddr_toNat (by omega)
    let rest := ps.map fun p => some (pageToAddr p)
    have htake : OldInv as rt pt (d.take (pageToAddr p) rest) :=
      ⟨hinv.region, hinv.segment, hinv.mem, hinv.valid⟩
    have hlow : (guestAddr ps.length).toNat < 2 ^ 31 := by omega
    obtain ⟨d', hins, hinv', hallocs, hsupply'⟩ :=
      htake.datInsertPage hat (BitVec.ofNat 64 (pageToAddr p)) hlow
    obtain ⟨g', hfill, hdone, hblocks⟩ := ih (pageToAddr p :: pages) (by omega) hinv' hsupply'
    refine ⟨g', ?_, hdone, ?_⟩
    · rw [List.length_cons, Hvf.fillGuestStorage]
      dsimp only
      rw [hsupply, List.map_cons]
      exact Option.bind_eq_some_iff.2 ⟨d', hins, hfill⟩
    · rw [hblocks, GuestStorage.blocks, hallocs, List.map_cons, List.reverse_cons,
        List.append_assoc]
      exact congrArg ((ps.map (Prod.mk 0)).reverse ++ ·) (taken_block d p pages)

/-- **The walk behind the loop:** an entry of the segment table leads to the page table. -/
theorem OldInv.walk (hinv : OldInv as rt pt d) (hat : OldTables as rt pt) {v : BitVec 64}
    (hne : as.segmentTable + 8 * datSx v ≠ as.regionTable) :
    d.walk v = some (ptePfra.get (d.mem (pt + 8 * datPx v))) := by
  have hste := hinv.entry hat.segment_pt (datSx_lt v) hne
  have hsegment : d.segmentTable ≠ 0 := hinv.segment.trans_ne hat.segment
  rw [← hinv.segment] at hste
  have hentry := hat.lowPt.ste.2
  rw [Dat.walk, if_neg hsegment]
  dsimp only
  rw [hste, hentry.1, if_neg (by decide), hentry.2, hinv.valid, if_neg (by decide)]

/-- Every address below 2GB is mapped. -/
theorem OldInv.walk_isSome (hinv : OldInv as rt pt d) (hat : OldTables as rt pt) (v : BitVec 64) :
    d.walk v ≠ none := by
  by_cases hne : as.segmentTable + 8 * datSx v = as.regionTable
  · -- the region-table entry is read as a segment-table entry
    have hsegment : d.segmentTable ≠ 0 := hinv.segment.trans_ne hat.segment
    have hste : d.mem (d.segmentTable + 8 * datSx v) = BitVec.ofNat 64 rt := by
      rw [hinv.segment, hne, hinv.mem _ hat.region_pt, oldMem, if_pos rfl]
    have hentry := hat.lowRt.ste.2
    rw [Dat.walk, if_neg hsegment]
    dsimp only
    rw [hste, hentry.1, if_neg (by decide), hinv.valid, if_neg (by decide)]
    exact Option.some_ne_none _
  · rw [hinv.walk hat hne]
    exact Option.some_ne_none _

/-- Two guest pages have one frame, where there are 1024 of them at least. -/
theorem OldInv.shared (hinv : OldInv as rt pt d) (hat : OldTables as rt pt) :
    ∃ i < 3, ∃ j < 3, i ≠ j ∧
      d.translate (guestAddr (256 * i)) = d.translate (guestAddr (256 * j)) := by
  have hindex : ∀ i < 3, datRx (guestAddr (256 * i)) = 0 ∧ datSx (guestAddr (256 * i)) = i ∧
      datPx (guestAddr (256 * i)) = 0 := by
    decide
  have hframe : ∀ i < 3, as.segmentTable + 8 * i ≠ as.regionTable →
      d.translate (guestAddr (256 * i)) = some (ptePfra.get (d.mem (pt + 8 * 0))) := by
    intro i hi hne
    obtain ⟨hrx, hsx, hpx⟩ := hindex i hi
    rw [Dat.translate, if_pos hrx, hinv.walk hat (by rwa [hsx]), hpx]
  obtain ⟨i, hi, j, hj, hij, hne, hne'⟩ : ∃ i < 3, ∃ j < 3, i ≠ j ∧
      as.segmentTable + 8 * i ≠ as.regionTable ∧ as.segmentTable + 8 * j ≠ as.regionTable := by
    by_cases h₀ : as.segmentTable + 8 * 0 = as.regionTable
    · exact ⟨1, by omega, 2, by omega, by omega, by omega, by omega⟩
    · by_cases h₁ : as.segmentTable + 8 * 1 = as.regionTable
      · exact ⟨0, by omega, 2, by omega, by omega, by omega, by omega⟩
      · exact ⟨0, by omega, 1, by omega, by omega, by omega, by omega⟩
  exact ⟨i, hi, j, hj, hij, (hframe i hi hne).trans (hframe j hj hne').symm⟩

end

/-! ### A guest with old tables -/

/-- **Pages are handed out** while the machine has them. -/
theorem BuddyInv.pages_exist {memsize start : BitVec 64} (hmem : memsize.toNat < 6 * 2 ^ 30)
    (n : ℕ) {s : BuddyState} (hinv : BuddyInv (initPages memsize start) s)
    (hroom : (pagesOf s.out).card + n ≤ (initPages memsize start).card) :
    ∃ (ps : List ℕ) (s' : BuddyState), ps.length = n ∧
      Run BuddyStep s (allocs (ps.map (Prod.mk 0))) s' := by
  induction n generalizing s with
  | zero => exact ⟨[], s, rfl, Run.nil⟩
  | succ n ih =>
    obtain ⟨p, s₁, hstep, hinv₁, hcard⟩ := hinv.alloc_step hmem (by omega)
    obtain ⟨ps, s', hlength, hrun⟩ := ih hinv₁ (by omega)
    exact ⟨p :: ps, s', congrArg (· + 1) hlength, (Run.nil.snoc hstep).append hrun⟩

/-- **With a segment-table pointer that is not `NULL`** there is storage with which the guest
is not mapped as it should be, though `alloc_guest_storage` returns 0. -/
theorem oldGuest_exists {as : AddressSpace} (hsegment : as.segmentTable ≠ 0)
    {storageSize : BitVec 64} (hsize : (storageSize >>> pageShift).toNat ≤ 2 ^ 19) :
    ∃ g h, Run HostStep almost6GB [.guest g] h ∧ h.guests = [g] ∧ g.as = as ∧
      g.storageSize = storageSize ∧ g.ret = 0 ∧ ¬ g.FullyMapped [] := by
  obtain ⟨rt, pt, hat⟩ := oldTables_exists hsegment
  have hcard : (initPages 0x17ffff000 0x440000).card = 1571775 := card_initPages _ _
  obtain ⟨ps, s, hlength, hrun⟩ := BuddyInv.pages_exist (by decide)
    (storageSize >>> pageShift).toNat (buddyInv_init almost6GB_exact)
    (s := almost6GB.buddy) (by
      have hnone : (pagesOf almost6GB.buddy.out).card = 0 := rfl
      omega)
  have hinit := oldInv_init hat (ps.map some)
  obtain ⟨g, hfill, hinv, hblocks⟩ := OldInv.fillGuestStorage hat ps [] (by omega) hinit (by
    show (ps.map some).map (Option.map pageToAddr) = _
    rw [List.map_map]
    rfl)
  rw [hlength] at hfill
  have hcalls : HostGuest.calls ⟨storageSize, as, 0, g⟩ = allocs (ps.map (Prod.mk 0)) := by
    rw [HostGuest.calls, if_pos rfl, List.append_nil, hblocks]
    show ((_ ++ []).reverse.map _ : List BuddyEvent) = _
    rw [List.append_nil, List.reverse_reverse]
    rfl
  refine ⟨⟨storageSize, as, 0, g⟩, _, Run.nil.snoc (HostStep.guest hfill (hcalls ▸ hrun)), rfl, rfl,
    rfl, rfl, fun hmapped => ?_⟩
  rcases Nat.lt_or_eq_of_le hsize with hlt | heq
  · -- the first page behind the storage is mapped as well
    have haddr : (guestAddr (storageSize >>> pageShift).toNat).toNat =
        4096 * (storageSize >>> pageShift).toNat := guestAddr_toNat (by omega)
    have hnone := hmapped.only (guestAddr (storageSize >>> pageShift).toNat) (by
      rw [virtPage_toNat, haddr, Nat.mul_div_cancel_left _ (by decide)]
      exact le_rfl)
    rw [Dat.translate, if_pos ((datRx_eq_zero_iff _).2 (by omega))] at hnone
    exact hinv.walk_isSome hat _ hnone
  · obtain ⟨i, hi, j, hj, hij, hsame⟩ := hinv.shared hat
    have hpages : HostGuest.pages ⟨storageSize, as, 0, g⟩ = 2 ^ 19 := heq
    exact hmapped.different (256 * i) (by omega) (256 * j) (by omega) (by omega) hsame

/-! ### Which guests are mapped -/

/-- Two zero pointers are the `NULL` address space. -/
theorem AddressSpace.eq_null {as : AddressSpace} (hregion : as.regionTable = 0)
    (hsegment : as.segmentTable = 0) : as = .null := by
  cases as
  exact congrArg₂ AddressSpace.mk hregion hsegment

/-- **The storage of a guest is mapped as it should be** whenever `alloc_guest_storage` returns
0 for these table pointers and this size: on every machine whose pages the allocator has
from the start, in every state of every run, and whatever storage holds. -/
def StorageMapped (as : AddressSpace) (storageSize : BitVec 64) : Prop :=
  ∀ memsize start : BitVec 64, InitExact memsize start → pageSize ≤ start.toNat →
    ∀ evs h, Run HostStep (.init memsize start) evs h →
      ∀ l₁ g l₂, h.guests = l₁ ++ g :: l₂ → g.as = as → g.storageSize = storageSize →
        g.ret = 0 → g.FullyMapped (l₁ ++ l₂)

/-- **Guest storage is mapped exactly over no tables and up to 2GB.**  For table pointers and
a size with which some call returned 0, every guest that has them is mapped as it should be
if and only if there are at most `2^19` pages, `segment_table` is `NULL`, and so is
`region_table` or there is no page. -/
theorem guestStorage_mapped_iff {memsize start : BitVec 64} (hinit : InitExact memsize start)
    (hstart : pageSize ≤ start.toNat) {evs : List HostEvent} {h : Host}
    (hrun : Run HostStep (.init memsize start) evs h) {g : HostGuest} (hg : g ∈ h.guests)
    (hret : g.ret = 0) :
    StorageMapped g.as g.storageSize ↔
      g.pages ≤ 2 ^ 19 ∧ g.as.segmentTable = 0 ∧ (g.as.regionTable = 0 ∨ g.pages = 0) := by
  constructor
  · intro hall
    obtain ⟨l₁, l₂, hsplit⟩ := List.append_of_mem hg
    have hmapped := hall memsize start hinit hstart evs h hrun l₁ g l₂ hsplit rfl rfl hret
    have hpages : g.pages ≤ 2 ^ 19 := by
      by_contra hbig
      exact HostGuest.not_fullyMapped (Nat.lt_of_not_le hbig) hmapped
    have hsegment : g.as.segmentTable = 0 := by
      by_contra hne
      obtain ⟨g', h', hrun', hguests, has, hsize, hret', hnot⟩ := oldGuest_exists hne hpages
      exact hnot (hall _ _ almost6GB_exact (by decide) _ h' hrun' [] g' [] hguests has hsize hret')
    refine ⟨hpages, hsegment, ?_⟩
    by_contra hregion
    push Not at hregion
    -- the pages go into the region table, and no segment table is loaded
    obtain ⟨mem, supply, hcall⟩ := (hostInv_run hinit hrun).calls g hg
    have hnull : g.storage.dat.segmentTable = 0 :=
      ((fillGuestStorage_grows hcall).segment hregion.1).trans hsegment
    obtain ⟨host, -, hframe⟩ := hmapped.mapped 0 (Nat.pos_of_ne_zero hregion.2)
    rw [HostGuest.frame, Dat.translate, Dat.walk, if_pos hnull, ite_self] at hframe
    cases hframe
  · rintro ⟨hpages, hsegment, hregion⟩ memsize' start' hinit' hstart' evs' h' hrun' l₁ g' l₂ hsplit
      has hsize hret'
    have hsame : g'.pages = g.pages := by rw [HostGuest.pages, HostGuest.pages, hsize]
    rcases hregion with hregion | hzero
    · have hnull : g'.as = .null := has.trans (AddressSpace.eq_null hregion hsegment)
      exact (fullyMapped_null_iff hinit' hstart' hrun' hsplit hnull hret').2 (hsame.trans_le hpages)
    · -- nothing is entered
      have hmem : g' ∈ h'.guests := hsplit ▸ List.mem_append_right _ List.mem_cons_self
      obtain ⟨mem, supply, hcall⟩ := (hostInv_run hinit' hrun').calls g' hmem
      have hnone : (g'.storageSize >>> pageShift).toNat = 0 := hsame.trans hzero
      rw [allocGuestStorage, hnone] at hcall
      obtain ⟨-, hstorage⟩ := Prod.mk.inj (Option.some.inj hcall)
      have hno : ∀ p, ¬ p < g'.pages := by
        intro p
        rw [hsame, hzero]
        exact Nat.not_lt_zero p
      constructor
      case mapped => exact fun p hp => absurd hp (hno p)
      case different => exact fun p hp => absurd hp (hno p)
      case only =>
        intro v _
        have hnull : g'.storage.dat.segmentTable = 0 := by
          rw [← hstorage]
          exact (congrArg AddressSpace.segmentTable has).trans hsegment
        rw [Dat.translate, Dat.walk, if_pos hnull, ite_self]
      case alone =>
        intro g'' _
        rw [← hstorage]
        exact List.disjoint_nil_left _

/-- A guest of 16MB on a machine with almost 6GB, over no tables, and every other one that
there is room for. -/
theorem guestStorage_mapped_16MB : StorageMapped .null 0x1000000 ∧
    ∃ g h, Run HostStep almost6GB [.guest g] h ∧ g.ret = 0 ∧ g.as = .null ∧
      g.storageSize = 0x1000000 ∧ g.FullyMapped [] := by
  have hpages : ((0x1000000 : BitVec 64) >>> pageShift).toNat = 4095 + 1 := by decide
  obtain ⟨g, h, hrun, hguests, hsize, hnull, hret⟩ := hostGuest_exists hpages (by decide)
  have hg : g ∈ h.guests := hguests ▸ List.mem_cons_self
  have hmapped : StorageMapped .null 0x1000000 := by
    have hiff := guestStorage_mapped_iff almost6GB_exact (by decide) hrun hg hret
    rw [hnull, HostGuest.pages, hsize, hpages] at hiff
    exact hiff.2 ⟨by decide, rfl, Or.inl rfl⟩
  exact ⟨hmapped, g, h, hrun, hret, hnull, hsize,
    hmapped _ _ almost6GB_exact (by decide) _ h hrun [] g [] hguests hnull hsize hret⟩

/-- **A guest of 2GB and one page gets its storage, and the last page is not mapped**, also
over no tables. -/
theorem not_guestStorage_mapped : ¬ ∀ (memsize start : BitVec 64), InitExact memsize start →
    pageSize ≤ start.toNat → ∀ evs h, Run HostStep (.init memsize start) evs h →
      ∀ l₁ g l₂, h.guests = l₁ ++ g :: l₂ → g.as = .null → g.ret = 0 →
        g.FullyMapped (l₁ ++ l₂) := by
  intro hall
  have hpages : ((0x80001000 : BitVec 64) >>> pageShift).toNat = 2 ^ 19 + 1 := by decide
  obtain ⟨g, h, hrun, hguests, hsize, hnull, hret⟩ := hostGuest_exists hpages (by decide)
  have hmapped := hall _ _ almost6GB_exact (by decide) _ h hrun [] g [] hguests hnull hret
  refine HostGuest.not_fullyMapped ?_ hmapped
  rw [HostGuest.pages, hsize, hpages]
  decide

end Hvf
