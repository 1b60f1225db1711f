/-
# Page tables of an address space

`cp/mm/dat.c` and `cp/include/dat.h`.  A segment table has 2048 entries, a page
table 256, each entry one 64-bit word with packed bit fields.  `alloc_table`
fills a new table with ones, so an entry that was never stored has its invalid
bit set and an origin of all ones, which is how `dat_insert_page` recognises a
page table that is not there yet.

Storage is a function from the address of a doubleword to its contents.
`supply` are the results of the `alloc_pages` calls to come, and `allocs` the
order and address of each table allocated so far.
-/

import Hvf.Lib.BitField
import Hvf.Lib.StepRun
import Hvf.Mm.Page

namespace Hvf

open BitField StepRun

/-! ### `struct dat_rte`, `struct dat_ste` and `struct dat_pte` -/

/-- Region table entry: the origin of the table below. -/
def rteOrigin : Field 64 52 := ⟨12, by norm_num⟩
/-- Region table entry: reserved. -/
def rteReserved0 : Field 64 4 := ⟨8, by norm_num⟩
/-- Region table entry: the table offset. -/
def rteTf : Field 64 2 := ⟨6, by norm_num⟩
/-- Region table entry: invalid. -/
def rteI : Field 64 1 := ⟨5, by norm_num⟩
/-- Region table entry: reserved. -/
def rteReserved1 : Field 64 1 := ⟨4, by norm_num⟩
/-- Region table entry: the table type. -/
def rteTt : Field 64 2 := ⟨2, by norm_num⟩
/-- Region table entry: the table length. -/
def rteTl : Field 64 2 := ⟨0, by norm_num⟩

/-- Segment table entry: the origin of the page table. -/
def steOrigin : Field 64 53 := ⟨11, by norm_num⟩
/-- Segment table entry: reserved. -/
def steReserved0 : Field 64 1 := ⟨10, by norm_num⟩
/-- Segment table entry: DAT protection. -/
def steP : Field 64 1 := ⟨9, by norm_num⟩
/-- Segment table entry: reserved. -/
def steReserved1 : Field 64 3 := ⟨6, by norm_num⟩
/-- Segment table entry: invalid. -/
def steI : Field 64 1 := ⟨5, by norm_num⟩
/-- Segment table entry: common segment. -/
def steC : Field 64 1 := ⟨4, by norm_num⟩
/-- Segment table entry: the table type. -/
def steTt : Field 64 2 := ⟨2, by norm_num⟩
/-- Segment table entry: reserved. -/
def steReserved2 : Field 64 2 := ⟨0, by norm_num⟩

/-- Page table entry: the page frame's address. -/
def ptePfra : Field 64 52 := ⟨12, by norm_num⟩
/-- Page table entry: zero. -/
def pteZero0 : Field 64 1 := ⟨11, by norm_num⟩
/-- Page table entry: invalid. -/
def pteI : Field 64 1 := ⟨10, by norm_num⟩
/-- Page table entry: DAT protection. -/
def pteP : Field 64 1 := ⟨9, by norm_num⟩
/-- Page table entry: zero. -/
def pteZero1 : Field 64 1 := ⟨8, by norm_num⟩
/-- Page table entry: reserved. -/
def pteReserved : Field 64 8 := ⟨0, by norm_num⟩

/-- `DAT_RTE_TT_RTT`. -/
def datRteTtRtt : BitVec 2 := 1

/-- `DAT_STE_TT_ST`. -/
def datSteTtSt : BitVec 2 := 0

/-- `DAT_RX`. -/
def datRx (addr : BitVec 64) : ℕ := (addr >>> 31).toNat

/-- `DAT_SX`. -/
def datSx (addr : BitVec 64) : ℕ := ((addr >>> 20) &&& 0x7ff).toNat

/-- `DAT_PX`. -/
def datPx (addr : BitVec 64) : ℕ := ((addr >>> 12) &&& 0xff).toNat

/-- `ADDR_TO_RTE_ORIGIN`, cut to the width of the field. -/
def addrToRteOrigin (a : ℕ) : BitVec 52 := BitVec.ofNat 52 (a >>> 12)

/-- `RTE_ORIGIN_TO_ADDR`. -/
def rteOriginToAddr (o : BitVec 52) : ℕ := o.toNat <<< 12

/-- `ADDR_TO_STE_ORIGIN`, cut to the width of the field. -/
def addrToSteOrigin (a : ℕ) : BitVec 53 := BitVec.ofNat 53 (a >>> 11)

/-- `STE_ORIGIN_TO_ADDR`. -/
def steOriginToAddr (o : BitVec 53) : ℕ := o.toNat <<< 11

/-! ### `dat_insert_page` -/

/-- **An address space and the storage that its tables are in**: the two pointers, the
doublewords of storage, what `alloc_pages` will return, and the blocks taken so far. -/
structure Dat where
  mem : ℕ → BitVec 64
  regionTable : ℕ
  segmentTable : ℕ
  supply : List (Option ℕ)
  allocs : List (ℕ × ℕ)

/-- The bytes of `1 << order` pages. -/
def tableSize (order : ℕ) : ℕ := pageSize <<< order

/-- `alloc_table`; `none` is the `BUG_ON(!p)`. -/
def allocTable (order : ℕ) (s : Dat) : Option (ℕ × Dat) :=
  match s.supply with
  | some p :: supply =>
      some (p, { s with
        mem := fun a => if p ≤ a ∧ a < p + tableSize order then BitVec.allOnes 64 else s.mem a
        supply
        allocs := (order, p) :: s.allocs })
  | _ => none

/-- The stores into a region-table entry for a new segment table at `ptr`. -/
def newRte (ptr : ℕ) (region : BitVec 64) : BitVec 64 :=
  let region := rteOrigin.set (addrToRteOrigin ptr) region
  let region := rteTf.set 0 region
  let region := rteI.set 0 region
  let region := rteTt.set datRteTtRtt region
  let region := rteTl.set 3 region
  let region := rteReserved0.set 0 region
  rteReserved1.set 0 region

/-- The stores into a segment-table entry for a new page table at `ptr`. -/
def newSte (ptr : ℕ) (segment : BitVec 64) : BitVec 64 :=
  let segment := steOrigin.set (addrToSteOrigin ptr) segment
  let segment := steP.set 0 segment
  let segment := steI.set 0 segment
  let segment := steC.set 0 segment
  let segment := steTt.set datSteTtSt segment
  let segment := steReserved0.set 0 segment
  let segment := steReserved1.set 0 segment
  steReserved2.set 0 segment

/-- `phy >> PAGE_SHIFT`, cut to the width of the field. -/
def pfra (phy : BitVec 64) : BitVec 52 := (phy >>> pageShift).setWidth 52

/-- The stores into a page-table entry. -/
def newPte (phy page : BitVec 64) : BitVec 64 :=
  let page := ptePfra.set (pfra phy) page
  let page := pteI.set 0 page
  let page := pteP.set 0 page
  let page := pteZero0.set 0 page
  let page := pteZero1.set 0 page
  pteReserved.set 0 page

/-- The part of `dat_insert_page` before `walk_segment`: the segment table. -/
def findSegmentTable (virt : BitVec 64) (s : Dat) : Option (ℕ × Dat) :=
  if s.regionTable = 0 then
    if s.segmentTable = 0 then do
      let (ptr, s) ← allocTable 2 s
      return (ptr, { s with segmentTable := ptr })
    else some (s.segmentTable, s)
  else if datRx virt ≠ 0 then none
  else do
    let s ← if rteOrigin.get (s.mem s.regionTable) = 0xfffffffffffff then do
        let (ptr, s) ← allocTable 2 s
        let region := newRte ptr (s.mem s.regionTable)
        pure { s with mem := Function.update s.mem s.regionTable region }
      else pure s
    return (rteOriginToAddr (rteOrigin.get (s.mem s.regionTable)), s)

/-- The page table of the segment-table entry at `segment`, allocated if it is
not there. -/
def findPageTable (segment : ℕ) (s : Dat) : Option (ℕ × Dat) := do
  let s ← if steOrigin.get (s.mem segment) = 0x1fffffffffffff then do
      let (ptr, s) ← allocTable 0 s
      pure { s with mem := Function.update s.mem segment (newSte ptr (s.mem segment)) }
    else pure s
  return (steOriginToAddr (steOrigin.get (s.mem segment)), s)

/-- `dat_insert_page`; it always returns 0. -/
def datInsertPage (phy virt : BitVec 64) (s : Dat) : Option Dat := do
  let (segment, s) ← findSegmentTable virt s
  let (page, s) ← findPageTable (segment + 8 * datSx virt) s
  let page := page + 8 * datPx virt
  return { s with mem := Function.update s.mem page (newPte phy (s.mem page)) }

/-! ### Translation and runs -/

/-- The architected walk for an address below 2GB: segment-table entry, then
page-table entry; the frame, unless an entry on the way is invalid. -/
def Dat.walk (s : Dat) (v : BitVec 64) : Option (BitVec 52) :=
  if s.segmentTable = 0 then none
  else
    let ste := s.mem (s.segmentTable + 8 * datSx v)
    if steI.get ste = 1 then none
    else
      let pte := s.mem (steOriginToAddr (steOrigin.get ste) + 8 * datPx v)
      if pteI.get pte = 1 then none else some (ptePfra.get pte)

/-- What `alloc_pages` promises about the tables it has provided: whole pages in
64-bit storage, not at address 0, and no two of them overlap. -/
structure Fresh (allocs : List (ℕ × ℕ)) : Prop where
  disjoint : allocs.Pairwise fun a b =>
    a.2 + tableSize a.1 ≤ b.2 ∨ b.2 + tableSize b.1 ≤ a.2
  page : ∀ a ∈ allocs, 0 < a.2 ∧ a.2 % 4096 = 0 ∧ a.2 + tableSize a.1 ≤ 2 ^ 64

/-- **A `dat_insert_page` call**, with the two addresses it had, that of the host's page and
that of the guest's. -/
structure DatCall where
  phy : BitVec 64
  virt : BitVec 64

/-- A call with page-aligned addresses, `virt` below 2GB, in which each table
allocated is fresh. -/
inductive DatStep : Dat → DatCall → Dat → Prop
  | insert {s s' phy virt} : phy.toNat % 4096 = 0 → virt.toNat % 4096 = 0 →
      virt.toNat < 2 ^ 31 → datInsertPage phy virt s = some s' → Fresh s'.allocs →
      DatStep s ⟨phy, virt⟩ s'

/-- An address space with both table pointers `NULL`. -/
def Dat.init (mem : ℕ → BitVec 64) (supply : List (Option ℕ)) : Dat :=
  { mem, regionTable := 0, segmentTable := 0, supply, allocs := [] }

/-- The number of the page of an address. -/
def virtPage (v : BitVec 64) : BitVec 64 := v >>> pageShift

/-- The frame of the last call for the page of `v`. -/
def lastFrame (calls : List DatCall) (v : BitVec 64) : Option (BitVec 52) :=
  (calls.reverse.find? fun c => virtPage c.virt = virtPage v).map fun c =>
    pfra c.phy

end Hvf
