/-
# Pages and zones

`cp/include/page.h`.  A `struct page *` points into the array at
`PAGE_INFO_BASE` that has one entry for each page of storage; here it is the
index into that array, so `page_to_addr` and `addr_to_page` are shifts by
`PAGE_SHIFT`.  Storage below 2GB is `ZONE_LOW`: some I/O structures can address
nothing above it.
-/

import Mathlib.Tactic.NormNum

namespace Hvf

/-- `PAGE_SHIFT`: a page is 2¹² bytes. -/
def pageShift : ℕ := 12

/-- `PAGE_SIZE`. -/
def pageSize : ℕ := 1 <<< pageShift

/-- `PAGE_MASK`, the bits of an address within its page. -/
def pageMask : ℕ := pageSize - 1

/-- `2UL*1024*1024*1024`, where `ZONE_LOW` ends. -/
def zoneLowEnd : ℕ := 2 * 1024 * 1024 * 1024

/-- **The two zones of storage**, `ZONE_NORMAL` and `ZONE_LOW`: from 2GB on, and below. -/
inductive Zone
  | normal
  | low
  deriving DecidableEq, Repr

/-- `ZONE_NORMAL_MAX_ORDER`: how many orders `ZONE_NORMAL` has. -/
def zoneNormalMaxOrder : ℕ := 64 - pageShift

/-- `ZONE_LOW_MAX_ORDER`: how many orders `ZONE_LOW` has. -/
def zoneLowMaxOrder : ℕ := 31 - pageShift

/-- The address of a page by its number. -/
def pageToAddr (page : ℕ) : ℕ := page <<< pageShift

/-- The number of the page an address is in. -/
def addrToPage (addr : ℕ) : ℕ := addr >>> pageShift

/-- `IS_LOW_ZONE`. -/
def isLowZone (page : ℕ) : Bool := pageToAddr page < zoneLowEnd

/-- `ZONE_TYPE`. -/
def zoneType (page : ℕ) : Zone := if isLowZone page then .low else .normal

/-- A page is 4096 bytes. -/
theorem pageSize_eq : pageSize = 4096 := rfl

/-- A page's address is 4096 times its number. -/
theorem pageToAddr_eq (page : ℕ) : pageToAddr page = page * 4096 := by
  simp [pageToAddr, pageShift, Nat.shiftLeft_eq]

/-- A page's number is the address divided by 4096. -/
theorem addrToPage_eq (addr : ℕ) : addrToPage addr = addr / 4096 := by
  simp [addrToPage, pageShift, Nat.shiftRight_eq_div_pow]

/-- A page's number is read back from its address. -/
@[simp]
theorem addrToPage_pageToAddr (page : ℕ) : addrToPage (pageToAddr page) = page := by
  rw [addrToPage_eq, pageToAddr_eq, Nat.mul_div_cancel _ (by norm_num)]

/-- The first page of `ZONE_NORMAL` is page `2^19`. -/
theorem isLowZone_iff {page : ℕ} : isLowZone page = true ↔ page < 2 ^ 19 := by
  simp only [isLowZone, pageToAddr_eq, zoneLowEnd, decide_eq_true_eq]
  omega

end Hvf
