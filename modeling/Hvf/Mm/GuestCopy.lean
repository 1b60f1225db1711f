/-
# Copies between guest storage and the hypervisor

`__memcpy_tofrom_guest` of `cp/mm/dat.c` and `virt2phy_current` of
`cp/include/dat.h`.  The function promises a "memcpy that pays attention to page
boundary crossing": it copies up to the end of a page, then goes on with the
next piece.  `guest_addr` is never advanced, so the next piece is translated
through the page of the first byte again.

`frames` is the guest's page mapping, `mem` host storage and `data` the buffer;
storage and buffer are functions from addresses to bytes and do not overlap.
`ByteExact` states what a copy should do, byte by byte.
-/

import Hvf.Errno
import Hvf.Mm.Page
import Mathlib.Tactic

namespace Hvf

/-! ### The source functions -/

/-- `virt2phy_current`: the host address of a guest address, `none` for the
condition codes that make it return `-EFAULT`. -/
def virt2phyCurrent (frames : ℕ → Option ℕ) (virt : ℕ) : Option ℕ :=
  (frames (virt / pageSize)).map fun frame => frame * pageSize + virt % pageSize

/-- What `memcpy` leaves in `bytes` when it copies `len` bytes to `dst` there. -/
def memcpy (bytes : ℕ → UInt8) (dst : ℕ) (srcBytes : ℕ → UInt8) (src len : ℕ) : ℕ → UInt8 :=
  fun a => if dst ≤ a ∧ a < dst + len then srcBytes (src + (a - dst)) else bytes a

/-- A byte inside the destination is the source's. -/
theorem memcpy_in {bytes src : ℕ → UInt8} {dst k len : ℕ} (h : k < len) :
    memcpy bytes dst src 0 len (dst + k) = src k := by
  simp [memcpy, h]

/-- A byte outside the destination stays. -/
theorem memcpy_out {bytes srcBytes : ℕ → UInt8} {a dst src len : ℕ}
    (h : a < dst ∨ dst + len ≤ a) : memcpy bytes dst srcBytes src len a = bytes a :=
  if_neg (by omega)

/-- What a copy returns and leaves behind: the return value, `*len`, host
storage and the buffer. -/
structure CopyResult where
  ret : Int
  len : ℕ
  mem : ℕ → UInt8
  data : ℕ → UInt8

/-- `copy_len` of one round: to the end of the page, or what is left. -/
def copyLen (hostAddr left : ℕ) : ℕ := min (pageSize - hostAddr % pageSize) left

/-- Every round of the copy copies something. -/
theorem copyLen_pos (hostAddr : ℕ) {left : ℕ} (h : left ≠ 0) : 0 < copyLen hostAddr left := by
  have := Nat.mod_lt hostAddr (show 0 < pageSize by decide)
  unfold copyLen
  omega

/-- The loop of `__memcpy_tofrom_guest` with `*len = left`.  `fromGuest` is
`from`: guest to buffer if set, else buffer to guest. -/
def copyLoop (frames : ℕ → Option ℕ) (guestAddr : ℕ) (fromGuest : Bool) (copied left : ℕ)
    (mem data : ℕ → UInt8) : CopyResult :=
  if h : left = 0 then ⟨0, copied, mem, data⟩
  else
    match virt2phyCurrent frames guestAddr with
    | none => ⟨-efault, copied, mem, data⟩
    | some hostAddr =>
        let len := copyLen hostAddr left
        have := copyLen_pos hostAddr h
        if fromGuest then
          copyLoop frames guestAddr fromGuest (copied + len) (left - len) mem
            (memcpy data copied mem hostAddr len)
        else
          copyLoop frames guestAddr fromGuest (copied + len) (left - len)
            (memcpy mem hostAddr data copied len) data
termination_by left

/-- `__memcpy_tofrom_guest`: `memcpy_from_guest` if `fromGuest`, else
`memcpy_to_guest`. -/
def memcpyTofromGuest (frames : ℕ → Option ℕ) (guestAddr len : ℕ) (fromGuest : Bool)
    (mem data : ℕ → UInt8) : CopyResult :=
  copyLoop frames guestAddr fromGuest 0 len mem data

/-! ### What a copy should do -/

/-- `r` is a byte-exact copy of the `n` bytes from guest address `g`: every byte
before the first page that is not mapped is exchanged with the host byte of its
own address, in order, and nothing else changes. -/
structure ByteExact (frames : ℕ → Option ℕ) (g n : ℕ) (fromGuest : Bool)
    (mem data : ℕ → UInt8) (r : CopyResult) : Prop where
  all_mapped : (∀ i < n, virt2phyCurrent frames (g + i) ≠ none) → r.ret = 0 ∧ r.len = n
  fault : ∀ k < n, (∀ i < k, virt2phyCurrent frames (g + i) ≠ none) →
    virt2phyCurrent frames (g + k) = none → r.ret = -efault ∧ r.len = k
  fetched : fromGuest → ∀ i < r.len, ∀ a, virt2phyCurrent frames (g + i) = some a →
    r.data i = mem a
  stored : ¬ fromGuest → ∀ i < r.len, ∀ a, virt2phyCurrent frames (g + i) = some a →
    (∀ j, i < j → j < r.len → virt2phyCurrent frames (g + j) ≠ some a) → r.mem a = data i
  data_frame : ∀ i, (fromGuest → r.len ≤ i) → r.data i = data i
  mem_frame : ∀ a, (¬ fromGuest → ∀ i < r.len, virt2phyCurrent frames (g + i) ≠ some a) →
    r.mem a = mem a

end Hvf
