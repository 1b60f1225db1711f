/-
# The buddy allocator

`cp/mm/buddy.c`.  Free ranges of pages are kept on lists by order: list `k`
holds the first pages of ranges of `2^k` pages, `orders_low` those below 2GB and
`orders_normal` those above.  `alloc_pages` takes a range of the wanted order
or splits the smallest larger one (`__chip_pages`); `free_pages` puts a range
back and never merges.

An index outside one of the two arrays is undefined in C.  Here a function that
would make such an access returns `none`; a call that finds no storage returns
`some (none, _)`.

`int` expressions keep their width: `1 << order` and `PAGE_SIZE << order` are
computed in 32 bits, `base` and the sizes in 64.
-/

import Hvf.Lib.Bins
import Hvf.Lib.StepRun
import Hvf.Mm.Page
import Mathlib.Tactic

namespace Hvf

open NumberedBins StepRun

/-- `orders_normal` and `orders_low`: for each order the first pages of the free
ranges of that order. -/
structure Buddy where
  ordersNormal : Bins zoneNormalMaxOrder ℕ
  ordersLow : Bins zoneLowMaxOrder ℕ

/-- A range of pages: its order and its first page. -/
abbrev Block := ℕ × ℕ

/-- The pages of a block of order `k`: `2^k` consecutive ones. -/
def blockPages (x : Block) : Multiset ℕ := Multiset.Ico x.2 (x.2 + 2 ^ x.1)

/-! ### The source functions -/

/-- `1 << order`, an `int`. -/
def intBit (order : ℕ) : BitVec 32 := 1#32 <<< order

/-- `base` of `__init_buddy_alloc` when the loop reaches `order`. -/
def initBase (base : BitVec 64) (pages : BitVec 32) : ℕ → BitVec 64
  | 0 => base
  | order + 1 =>
      if pages &&& intBit order ≠ 0 then
        initBase base pages order + (4096#32 <<< order).signExtend 64
      else initBase base pages order

/-- `__init_buddy_alloc`: one range for each bit of the number of pages. -/
def _initBuddyAlloc {maxOrder : ℕ} (base : BitVec 64) (pages : BitVec 32) : Bins maxOrder ℕ :=
  fun order =>
    if pages &&& intBit order ≠ 0 then [addrToPage (initBase base pages order).toNat] else []

/-- `init_buddy_alloc`, with the global `memsize` as an argument.  The numbers of
pages are `u64`s passed as `int`s. -/
def initBuddyAlloc (memsize start : BitVec 64) : Buddy :=
  let twoGB := BitVec.ofNat 64 zoneLowEnd
  let lowPages := if memsize > twoGB then (twoGB - start) >>> pageShift
    else (memsize - start) >>> pageShift
  let normalPages := if memsize > twoGB then ((memsize - start) >>> pageShift) - lowPages else 0
  { ordersLow := _initBuddyAlloc start (lowPages.setWidth 32)
    ordersNormal := _initBuddyAlloc twoGB (normalPages.setWidth 32) }

/-- `__do_alloc_pages`. -/
def _doAllocPages {maxOrder : ℕ} (order : ℕ) (orders : Bins maxOrder ℕ) :
    Option (Option ℕ × Bins maxOrder ℕ) :=
  if h : order < maxOrder then
    match pop orders ⟨order, h⟩ with
    | some (page, orders) => some (some page, orders)
    | none => some (none, orders)
  else none

/-- `__alloc_pages`: `ZONE_NORMAL` falls back to `ZONE_LOW`. -/
def _allocPages (order : ℕ) (type : Zone) (b : Buddy) : Option (Option ℕ × Buddy) := do
  if type = .normal then
    let (p, ordersNormal) ← _doAllocPages order b.ordersNormal
    if p.isSome then
      return (p, { b with ordersNormal })
  let (p, ordersLow) ← _doAllocPages order b.ordersLow
  return (p, { b with ordersLow })

/-- `list_add(&p->buddy, &orders[order])` with `orders` the lists of the zone of
`zoneOf`. -/
def listAdd (zoneOf p order : ℕ) (b : Buddy) : Option Buddy :=
  if isLowZone zoneOf then
    if h : order < zoneLowMaxOrder then
      some { b with ordersLow := push b.ordersLow ⟨order, h⟩ p }
    else none
  else
    if h : order < zoneNormalMaxOrder then
      some { b with ordersNormal := push b.ordersNormal ⟨order, h⟩ p }
    else none

/-- `__chip_pages`: the upper half of each order above `wanted` goes back. -/
def _chipPages (base : ℕ) : (actual wanted : ℕ) → Buddy → Option Buddy
  | 0, _, b => some b
  | actual + 1, wanted, b =>
      if actual + 1 > wanted then do
        let p := (base + (intBit actual).toInt).toNat
        _chipPages base actual wanted (← listAdd base p actual b)
      else some b

/-- The loop of `alloc_pages` over larger orders, `left` of them from `gord` on. -/
def allocLarger (order : ℕ) (type : Zone) : (left gord : ℕ) → Buddy → Option (Option ℕ × Buddy)
  | 0, _, b => some (none, b)
  | left + 1, gord, b => do
      let (page, b) ← _allocPages gord type b
      match page with
      | none => allocLarger order type left (gord + 1) b
      | some page => return (some page, ← _chipPages page gord order b)

/-- `alloc_pages`: the page found, or `none` when out of memory. -/
def allocPages (order : ℕ) (type : Zone) (b : Buddy) : Option (Option ℕ × Buddy) := do
  let (page, b) ← _allocPages order type b
  if page.isSome then
    return (page, b)
  let maxOrder := if type = .low then zoneLowMaxOrder else zoneNormalMaxOrder
  allocLarger order type (maxOrder - (order + 1)) (order + 1) b

/-- `free_pages`. -/
def freePages (ptr order : ℕ) (b : Buddy) : Option Buddy :=
  listAdd (addrToPage ptr) (addrToPage ptr) order b

/-! ### Runs -/

/-- **The page allocator and the blocks its callers hold**, which is what the calls of a run
are judged by. -/
structure BuddyState where
  buddy : Buddy
  out : Multiset Block

/-- **A call of the page allocator**: an allocation with the page it returned, if any, or a
block that is given back. -/
inductive BuddyEvent
  | alloc (order : ℕ) (type : Zone) (page : Option ℕ)
  | free (ptr order : ℕ)

/-- An `alloc_pages` call that stays inside the two arrays, or a `free_pages`
call for a block that is held, with its order. -/
inductive BuddyStep : BuddyState → BuddyEvent → BuddyState → Prop
  | alloc {s order type page b} : allocPages order type s.buddy = some (page, b) →
      BuddyStep s (.alloc order type page)
        ⟨b, page.elim s.out fun page => (order, page) ::ₘ s.out⟩
  | free {s order page b} : (order, page) ∈ s.out →
      freePages (pageToAddr page) order s.buddy = some b →
      BuddyStep s (.free (pageToAddr page) order) ⟨b, s.out.erase (order, page)⟩

/-- The state `init_buddy_alloc` leaves: nothing handed out. -/
def BuddyState.init (memsize start : BitVec 64) : BuddyState :=
  ⟨initBuddyAlloc memsize start, 0⟩

end Hvf
