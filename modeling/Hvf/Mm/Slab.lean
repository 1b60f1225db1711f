/-
# The slab allocator

`cp/mm/slab.c`.  A cache is the page of its `struct slab` and the pages on its
`slab_pages` list; each page has a header of 40 bytes, an allocation bitmap
right behind it and `count` objects from `startoff` on.

A cache has a name of the type `κ`: the static pointer that `create_slab` is
stored into.  `pages c` is the page of `create_slab` followed by the list, and
is empty while the pointer is null.  The fields of a header are in `hdr`, the
bitmap is in the bytes of `mem` like everything else that callers may write.
What `alloc_pages` returned is an argument.  The locks and the `first` field,
which only leads to a lock, are left out: no function here waits.
-/

import Hvf.Mm.Page
import Hvf.Lib.Bitmap

namespace Hvf

/-- **What a slab page begins with**: `SLAB_MAGIC` on the first page of a cache,
`SLAB_CONT_MAGIC` on the others. -/
inductive SlabMagic
  | slab
  | cont
  deriving DecidableEq, Repr

/-- **The header of a slab page** (`struct slab`): the size of its objects, where the first
one is, how many there are, and how many are taken. -/
structure Slab where
  magic : SlabMagic
  objsize : ℕ
  startoff : ℕ
  count : ℕ
  used : ℕ
  deriving DecidableEq, Repr

/-- `sizeof(struct slab)`; the structure is packed. -/
def sizeofSlab : ℕ := 40

/-- **The caches as storage holds them**: the header of each slab page, each cache's pages in
their order, and the bytes. -/
structure SlabStore (κ : Type) where
  hdr : ℕ → Option Slab
  pages : κ → List ℕ
  mem : Bitmap.Mem

variable {κ : Type}

/-- The address of `slab->bitmap`. -/
def bitmapAddr (page : ℕ) : ℕ := pageToAddr page + sizeofSlab

/-- The address of object `i` of a page. -/
def objAddr (page : ℕ) (slab : Slab) (i : ℕ) : ℕ :=
  pageToAddr page + slab.startoff + slab.objsize * i

/-- `memset(slab, 0, PAGE_SIZE)`. -/
def clearPage (page : ℕ) (mem : Bitmap.Mem) : Bitmap.Mem :=
  fun a => if addrToPage a = page then 0 else mem a

/-- `if (x & align) x += align + 1 - (x & align)` of a `u16`, with `align`
already turned into a mask. -/
def alignUp (x mask : ℕ) : ℕ :=
  if x &&& mask ≠ 0 then (x + (mask + 1 - (x &&& mask))) % 2 ^ 16 else x

/-- The header that `create_slab` fills in. -/
def slabLayout (objsize align : ℕ) : Slab :=
  let mask := align - 1
  let objsize := alignUp objsize mask
  let count := 8 * (pageSize - sizeofSlab) / (8 * objsize + 1)
  let startoff := sizeofSlab + (count + 4) / 8
  let tmp := (alignUp startoff mask + count * objsize) % 2 ^ 16
  { magic := .slab
    objsize
    startoff := alignUp startoff mask
    count := if startoff &&& mask ≠ 0 ∧ tmp > pageSize then count - 1 else count
    used := 0 }

section
variable [DecidableEq κ]

/-- `create_slab`, stored into the pointer `c`; `none` is the null pointer. -/
def createSlab (c : κ) (objsize align : ℕ) (page : Option ℕ) (s : SlabStore κ) :
    Option (SlabStore κ) := do
  if objsize = 0 ∨ align = 0 then
    none
  else
    let page ← page
    return { hdr := Function.update s.hdr page (some (slabLayout objsize align))
             pages := Function.update s.pages c [page]
             mem := clearPage page s.mem }

/-- `__alloc_slab_obj_newpage` once it has a page. -/
def _allocSlabObjNewpage (c : κ) (slab : Slab) (page : ℕ) (s : SlabStore κ) : SlabStore κ where
  hdr := Function.update s.hdr page (some { slab with magic := .cont, used := 0 })
  pages := Function.update s.pages c (s.pages c ++ [page])
  mem := clearPage page s.mem

end

/-- `slab->used < slab->count && ZONE_TYPE(addr_to_page(slab)) == type`. -/
def eligible (s : SlabStore κ) (type : Zone) (page : ℕ) : Bool :=
  match s.hdr page with
  | some slab => slab.used < slab.count && zoneType page = type
  | none => false

/-- What follows the label `alloc`: the first clear bit is set and its object
returned. -/
def takeObj (page : ℕ) (s : SlabStore κ) : Option (Option ℕ × SlabStore κ) := do
  let slab ← s.hdr page
  match Bitmap.firstClear s.mem (bitmapAddr page) slab.count with
  | none => return (none, s)
  | some i =>
    return (some (objAddr page slab i),
      { s with
        hdr := Function.update s.hdr page (some { slab with used := (slab.used + 1) % 2 ^ 16 })
        mem := Bitmap.set s.mem (bitmapAddr page) i })

/-- `alloc_slab_obj`.  The outer `none` is a `BUG_ON`.  The passed slab is tried
first and then the list, which is the order of `pages`. -/
def allocSlabObj [DecidableEq κ] (c : κ) (type : Zone) (newpage : Option ℕ) (s : SlabStore κ) :
    Option (Option ℕ × SlabStore κ) :=
  match s.pages c with
  | [] => some (none, s)
  | passed :: _ => do
    let slab ← s.hdr passed
    if slab.magic ≠ .slab then
      none
    else
      match (s.pages c).find? (eligible s type) with
      | some page => takeObj page s
      | none =>
        match newpage with
        | none => return (none, s)
        | some page => takeObj page (_allocSlabObjNewpage c slab page s)

/-- `free_slab_obj`. -/
def freeSlabObj (ptr : ℕ) (s : SlabStore κ) : Option (SlabStore κ) := do
  let page := addrToPage ptr
  let slab ← s.hdr page
  let objidx := (ptr - pageToAddr page - slab.startoff) / slab.objsize
  return { s with
    hdr := Function.update s.hdr page
      (some { slab with used := (slab.used + (2 ^ 16 - 1)) % 2 ^ 16 })
    mem := Bitmap.clear s.mem (bitmapAddr page) objidx }

/-- `allocsize`. -/
def allocsize (ptr : ℕ) (s : SlabStore κ) : Option ℕ := (s.hdr (addrToPage ptr)).map Slab.objsize

/-! ### The layout of a page -/

/-- **A sound layout:** there are objects, they lie behind the header and inside
the page. -/
structure Slab.Sound (h : Slab) : Prop where
  objsize_pos : 0 < h.objsize
  count_pos : 0 < h.count
  behind : sizeofSlab ≤ h.startoff
  inside : h.startoff + h.count * h.objsize ≤ pageSize

/-- What callers of `create_slab` promise: the alignment is a power of two, and
a page has room for an object. -/
structure SlabArgs (objsize align : ℕ) : Prop where
  pow : ∃ k < 8, align = 2 ^ k
  size : 0 < objsize
  room : 0 < (slabLayout objsize align).objsize ∧ 0 < (slabLayout objsize align).count

/-- An aligned size is a multiple of the alignment. -/
theorem alignUp_mod (x k : ℕ) (hk : k < 8) : alignUp x (2 ^ k - 1) % 2 ^ k = 0 := by
  have hpos : 0 < 2 ^ k := Nat.two_pow_pos k
  have hdvd : 2 ^ k ∣ 2 ^ 16 := Nat.pow_dvd_pow 2 (by omega)
  have hlt : x % 2 ^ k < 2 ^ k := Nat.mod_lt x hpos
  rw [alignUp, Nat.and_two_pow_sub_one_eq_mod]
  split_ifs with hx
  · have hup : x + (2 ^ k - 1 + 1 - x % 2 ^ k) = (x / 2 ^ k + 1) * 2 ^ k := by
      have hdiv := Nat.div_add_mod' x (2 ^ k)
      rw [Nat.add_mul]
      omega
    rw [hup, Nat.mod_mod_of_dvd _ hdvd, Nat.mul_mod_left]
  · exact not_not.1 hx

/-- Aligning adds less than the alignment. -/
theorem alignUp_bounds {x k : ℕ} (hk : k < 8) (hx : x ≤ pageSize) :
    x ≤ alignUp x (2 ^ k - 1) ∧ alignUp x (2 ^ k - 1) < x + 2 ^ k := by
  have hpos : 0 < 2 ^ k := Nat.two_pow_pos k
  have hle : 2 ^ k ≤ 2 ^ 7 := Nat.pow_le_pow_right (by norm_num) (by omega)
  have hlt : x % 2 ^ k < 2 ^ k := Nat.mod_lt x hpos
  rw [pageSize_eq] at hx
  rw [alignUp, Nat.and_two_pow_sub_one_eq_mod]
  split_ifs with hne
  · rw [Nat.mod_eq_of_lt (by omega)]
    omega
  · omega

/-- **`create_slab` lays a page out soundly.** -/
theorem SlabArgs.sound {objsize align : ℕ} (h : SlabArgs objsize align) :
    (slabLayout objsize align).Sound := by
  obtain ⟨⟨k, hk, rfl⟩, -, hsize, hcount⟩ := h
  generalize hR : alignUp objsize (2 ^ k - 1) = R at *
  generalize hc : 8 * (pageSize - sizeofSlab) / (8 * R + 1) = c at *
  have hRpos : 0 < R := by simpa [slabLayout, hR] using hsize
  have hRmod : R % 2 ^ k = 0 := hR ▸ alignUp_mod objsize k hk
  have hRk : 2 ^ k ≤ R := Nat.le_of_dvd hRpos (Nat.dvd_of_mod_eq_zero hRmod)
  have hroom : 8 * (c * R) + c ≤ 8 * (4096 - 40) := by
    have := Nat.div_mul_le_self (8 * (pageSize - sizeofSlab)) (8 * R + 1)
    rw [hc] at this
    calc 8 * (c * R) + c = c * (8 * R + 1) := by ring
      _ ≤ 8 * (4096 - 40) := this
  have hstart : sizeofSlab + (c + 4) / 8 ≤ pageSize := by
    rw [pageSize_eq, sizeofSlab]
    omega
  obtain ⟨hup, hup'⟩ := alignUp_bounds hk hstart
  have hpow : 2 ^ k ≤ 2 ^ 7 := Nat.pow_le_pow_right (by norm_num) (by omega)
  have hwrap : (alignUp (sizeofSlab + (c + 4) / 8) (2 ^ k - 1) + c * R) % 2 ^ 16
      = alignUp (sizeofSlab + (c + 4) / 8) (2 ^ k - 1) + c * R := by
    refine Nat.mod_eq_of_lt ?_
    rw [sizeofSlab] at *
    omega
  refine ⟨hsize, hcount, ?_, ?_⟩
  · simp only [slabLayout, hR, hc]
    exact (Nat.le_add_right _ _).trans hup
  · simp only [slabLayout, hR, hc, hwrap]
    rw [pageSize_eq] at *
    by_cases hmask : sizeofSlab + (c + 4) / 8 &&& 2 ^ k - 1 = 0
    · have hsame : alignUp (sizeofSlab + (c + 4) / 8) (2 ^ k - 1) = sizeofSlab + (c + 4) / 8 :=
        if_neg (not_not.2 hmask)
      rw [if_neg (fun hand => hand.1 hmask), hsame, sizeofSlab]
      omega
    · split_ifs with hover
      · have hless : (c - 1) * R = c * R - R := Nat.sub_one_mul c R
        have hcR : R ≤ c * R := by
          refine Nat.le_mul_of_pos_left R ?_
          by_contra hzero
          obtain rfl : c = 0 := by omega
          rw [sizeofSlab] at *
          omega
        rw [sizeofSlab] at *
        omega
      · exact not_lt.1 fun hgt => hover ⟨hmask, hgt⟩

namespace Slab.Sound

variable {h : Slab} {page i : ℕ}

/-- An object ends within its page. -/
theorem mul_le (hh : h.Sound) (hi : i < h.count) :
    h.startoff + h.objsize * i + h.objsize ≤ pageSize := by
  have hmul : h.objsize * (i + 1) ≤ h.objsize * h.count := Nat.mul_le_mul_left _ hi
  have hin := hh.inside
  rw [Nat.mul_comm h.count] at hin
  rw [Nat.mul_add] at hmul
  omega

/-- `free_slab_obj` finds the page of an object. -/
theorem addrToPage_objAddr (hh : h.Sound) (hi : i < h.count) :
    addrToPage (objAddr page h i) = page := by
  have hin := hh.mul_le hi
  have hpos := hh.objsize_pos
  rw [pageSize_eq] at hin
  rw [addrToPage_eq, objAddr, pageToAddr_eq]
  omega

/-- `free_slab_obj` finds the number of an object. -/
theorem objidx (hh : h.Sound) (page i : ℕ) :
    (objAddr page h i - pageToAddr page - h.startoff) / h.objsize = i := by
  have hoff : objAddr page h i - pageToAddr page - h.startoff = h.objsize * i := by
    rw [objAddr]
    omega
  rw [hoff, Nat.mul_div_cancel_left i hh.objsize_pos]

/-- Different objects of a page have different addresses. -/
theorem objAddr_inj (hh : h.Sound) {j : ℕ} (heq : objAddr page h i = objAddr page h j) : i = j := by
  rw [← hh.objidx page i, heq, hh.objidx]

/-- A page has at most 4056 objects. -/
theorem count_le (hh : h.Sound) : h.count ≤ 4056 := by
  have hin := hh.inside
  have hbehind := hh.behind
  have hle : h.count ≤ h.count * h.objsize := Nat.le_mul_of_pos_right _ hh.objsize_pos
  rw [pageSize_eq] at hin
  rw [sizeofSlab] at hbehind
  omega

end Slab.Sound

end Hvf
