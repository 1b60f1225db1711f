/-
# Guest storage

`alloc_guest_storage` of `cp/guest/init.c` takes a page for each page of the storage
size, from the last guest page down to page 0, and enters it in the tables of the
guest.  `guestPages` is `sys->guest_pages`, the page added last in front.

The two table pointers of `sys->as` are an argument: `guest_create` takes the `struct
virt_sys` from `malloc` and stores into neither, so they are what was there before
(`AddressSpace`).

`Host` is the allocator with the guests made so far.  Pages of a guest are not given
back: there is no code for it.
-/

import Hvf.Errno
import Hvf.Mm.BuddyPartition
import Hvf.Mm.DatWalk

namespace Hvf

open StepRun

/-- **`struct address_space`**: the pointers to a region table and to a segment table.  No
code sets `region_table`; `dat_insert_page` sets `segment_table` if both are `NULL`. -/
structure AddressSpace where
  regionTable : ℕ
  segmentTable : ℕ
deriving DecidableEq

/-- Both pointers are `NULL`, as in storage that holds zeros. -/
def AddressSpace.null : AddressSpace := ⟨0, 0⟩

/-- **What a guest has of storage:** `sys->as` with its tables, and the addresses of the
pages of `sys->guest_pages`, the one added last in front. -/
structure GuestStorage where
  dat : Dat
  guestPages : List ℕ

/-- A page is taken from the results of `alloc_pages`: the first one, which is an address
`p` here, is among the blocks of the guest afterwards. -/
def Dat.take (s : Dat) (p : ℕ) (supply : List (Option ℕ)) : Dat :=
  { s with supply, allocs := (0, p) :: s.allocs }

/-- The address of guest page `p`. -/
def guestAddr (p : ℕ) : BitVec 64 := BitVec.ofNat 64 (p <<< pageShift)

/-- **The loop of `alloc_guest_storage`**, with `pages` rounds left: a page is taken and
entered for the guest page `pages - 1`.  `none` is a `BUG_ON` on the way: no page for a
table, or an address from 2GB on with a region table. -/
def fillGuestStorage : ℕ → GuestStorage → Option (Int × GuestStorage)
  | 0, g => some (0, g)
  | pages + 1, g =>
      match g.dat.supply with
      | some p :: supply => do
          let dat ← datInsertPage (BitVec.ofNat 64 p) (guestAddr pages) (g.dat.take p supply)
          fillGuestStorage pages ⟨dat, p :: g.guestPages⟩
      | _ => some (-enomem, g)

/-- **The address space before `alloc_guest_storage`**, with the table pointers that are in
the `struct virt_sys`; `pages` are the results of the calls of `alloc_pages` to come. -/
def GuestStorage.init (as : AddressSpace) (mem : ℕ → BitVec 64) (pages : List (Option ℕ)) :
    GuestStorage :=
  ⟨{ Dat.init mem (pages.map (Option.map pageToAddr)) with
      regionTable := as.regionTable, segmentTable := as.segmentTable }, []⟩

/-- **`alloc_guest_storage`** for the size of the directory entry: the value it returns, and
the address space it leaves; `none` is a `BUG_ON`. -/
def allocGuestStorage (storageSize : BitVec 64) (as : AddressSpace) (mem : ℕ → BitVec 64)
    (pages : List (Option ℕ)) : Option (Int × GuestStorage) :=
  fillGuestStorage (storageSize >>> pageShift).toNat (.init as mem pages)

/-! ### The guests of a machine -/

/-- The blocks that were taken, the last one first: guest pages and tables. -/
def GuestStorage.blocks (g : GuestStorage) : List Block :=
  g.dat.allocs.map fun x => (x.1, addrToPage x.2)

/-- **A guest**, with the storage size of its directory entry, the table pointers that its
`struct virt_sys` had, and what `alloc_guest_storage` returned and left. -/
structure HostGuest where
  storageSize : BitVec 64
  as : AddressSpace
  ret : Int
  storage : GuestStorage

/-- The calls of `alloc_pages` that were made for the guest. -/
def HostGuest.calls (g : HostGuest) : List BuddyEvent :=
  (g.storage.blocks.reverse.map fun x => .alloc x.1 .normal (some x.2)) ++
    if g.ret = 0 then [] else [.alloc 0 .normal none]

/-- **The page allocator and the guests** made with it, the one made last in front. -/
structure Host where
  buddy : BuddyState
  guests : List HostGuest

/-- What happens on the machine: `alloc_guest_storage` is called for one more guest, or the
allocator is called for something else. -/
inductive HostEvent
  | guest (g : HostGuest)
  | other (ev : BuddyEvent)

/-- **A step of the machine:** `alloc_guest_storage` for one more guest, whatever its table
pointers are and storage has where they point, or a call of `alloc_pages` or `free_pages`
from elsewhere; what is freed is no block of a guest. -/
inductive HostStep : Host → HostEvent → Host → Prop
  | guest {h g mem pages b} :
      allocGuestStorage g.storageSize g.as mem pages = some (g.ret, g.storage) →
      Run BuddyStep h.buddy g.calls b → HostStep h (.guest g) ⟨b, g :: h.guests⟩
  | other {h ev b} : BuddyStep h.buddy ev b →
      (∀ ptr order, ev = .free ptr order → ∀ g ∈ h.guests,
        (order, addrToPage ptr) ∉ g.storage.blocks) →
      HostStep h (.other ev) ⟨b, h.guests⟩

/-- The machine after `init_buddy_alloc`. -/
def Host.init (memsize start : BitVec 64) : Host := ⟨.init memsize start, []⟩

/-! ### What the guest sees -/

/-- **The translation with the designation that `load_as` loads**, which is that of a
segment table of 2048 entries whether there is a region table or not: an address from 2GB
on is not in the table. -/
def Dat.translate (s : Dat) (v : BitVec 64) : Option (BitVec 52) :=
  if datRx v = 0 then s.walk v else none

/-- The number of guest pages. -/
def HostGuest.pages (g : HostGuest) : ℕ := (g.storageSize >>> pageShift).toNat

/-- The frame of guest page `p`. -/
def HostGuest.frame (g : HostGuest) (p : ℕ) : Option (BitVec 52) :=
  g.storage.dat.translate (guestAddr p)

/-- **What the guest should have:** all guest pages are mapped, each to a host page of its
own, and nothing else is; no host page is one of the `others`. -/
structure HostGuest.FullyMapped (g : HostGuest) (others : List HostGuest) : Prop where
  mapped : ∀ p < g.pages, ∃ host ∈ g.storage.guestPages,
    g.frame p = some (pfra (BitVec.ofNat 64 host))
  different : ∀ p < g.pages, ∀ q < g.pages, p ≠ q → g.frame p ≠ g.frame q
  only : ∀ v, g.pages ≤ (virtPage v).toNat → g.storage.dat.translate v = none
  alone : ∀ g' ∈ others, g.storage.guestPages.Disjoint g'.storage.guestPages

end Hvf
