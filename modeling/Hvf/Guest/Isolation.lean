/-
# Guests do not see each other

All guests are in one storage, and so are their tables.  `__memcpy_tofrom_guest` finds the
page of a guest by the tables that are in storage in that round (`copyRounds`), with the
address space of the guest loaded.

Whatever the guests copy and the allocator does, the copies of one guest go as if it had
a storage of its own, with its pages at the addresses by which it knows them
(`guest_sees_own`), provided that every guest was made over `NULL` table pointers: no copy
stores in a page or a table of another guest, or in a table of its own.
-/

import Hvf.Guest.StorageTables
import Hvf.Lib.Bytes
import Hvf.Mm.GuestCopyExact

namespace Hvf

open Bytes StepRun

/-! ### Doublewords in storage -/

/-- The doubleword at `a`. -/
def wordAt (mem : ℕ → UInt8) (a : ℕ) : BitVec 64 := BitVec.ofNat 64 (num mem a 8)

/-- Storage that has the doublewords `words`, at the multiples of 8. -/
def ofWords (words : ℕ → BitVec 64) (a : ℕ) : UInt8 :=
  .ofNat ((words (8 * (a / 8))).toNat / 256 ^ (7 - a % 8))

/-- A word stored at an aligned address is read back. -/
theorem wordAt_ofWords (words : ℕ → BitVec 64) {a : ℕ} (ha : a % 8 = 0) :
    wordAt (ofWords words) a = words a := by
  have hbytes : num (ofWords words) a 8 = num (setNum (fun _ => 0) a 8 (words a).toNat) a 8 := by
    refine num_congr fun k hk => ?_
    rw [ofWords, setNum, if_pos (by omega), show 8 * ((a + k) / 8) = a by omega,
      show (a + k) % 8 = a + k - a by omega]
  rw [wordAt, hbytes, num_setNum _ _ (words a).isLt, BitVec.ofNat_toNat, BitVec.setWidth_eq]

/-- A byte of a doubleword that was not changed. -/
theorem ofWords_eq {words : ℕ → BitVec 64} {mem : ℕ → UInt8} {a : ℕ}
    (h : words (8 * (a / 8)) = wordAt mem (8 * (a / 8))) : ofWords words a = mem a := by
  have hlt : num mem (8 * (a / 8)) 8 < 2 ^ 64 := num_lt mem _ 8
  rw [ofWords, h, wordAt, BitVec.toNat_ofNat, Nat.mod_eq_of_lt hlt,
    show 7 - a % 8 = 8 - 1 - a % 8 by omega, ofNat_num_div mem _ (by omega)]
  congr 1
  omega

/-- The word at an address depends on its eight bytes. -/
theorem wordAt_congr {mem mem' : ℕ → UInt8} {a : ℕ} (h : ∀ k < 8, mem' (a + k) = mem (a + k)) :
    wordAt mem' a = wordAt mem a :=
  congrArg (BitVec.ofNat 64) (num_congr h)

/-! ### The machine -/

/-- `__memcpy_tofrom_guest` where `frames` is the mapping that the tables in storage
give. -/
def copyRounds (frames : (ℕ → UInt8) → ℕ → Option ℕ) (guestAddr : ℕ) (fromGuest : Bool)
    (copied left : ℕ) (mem data : ℕ → UInt8) : CopyResult :=
  if h : left = 0 then ⟨0, copied, mem, data⟩
  else
    match virt2phyCurrent (frames mem) guestAddr with
    | none => ⟨-efault, copied, mem, data⟩
    | some hostAddr =>
        let len := copyLen hostAddr left
        have := copyLen_pos hostAddr h
        if fromGuest then
          copyRounds frames guestAddr fromGuest (copied + len) (left - len) mem
            (memcpy data copied mem hostAddr len)
        else
          copyRounds frames guestAddr fromGuest (copied + len) (left - len)
            (memcpy mem hostAddr data copied len) data
termination_by left

/-- The mapping of a guest, by its tables in storage. -/
def HostGuest.framesIn (g : HostGuest) (mem : ℕ → UInt8) (p : ℕ) : Option ℕ :=
  ({ g.storage.dat with mem := wordAt mem }.translate (guestAddr p)).map BitVec.toNat

/-- A call of `__memcpy_tofrom_guest`, and what it returned and left in `*len` and in the
buffer. -/
structure GuestCopy where
  addr : BitVec 64
  len : ℕ
  fromGuest : Bool
  data : ℕ → UInt8
  ret : Int
  copied : ℕ
  result : ℕ → UInt8

/-- What a copy returns: its code, how many bytes it moved, and the bytes themselves. -/
def GuestCopy.Returns (c : GuestCopy) (r : CopyResult) : Prop :=
  r.ret = c.ret ∧ r.len = c.copied ∧ r.data = c.result

/-- **The whole machine**: the page allocator with the guests made so far, and the bytes of
storage that they share. -/
structure Machine where
  host : Host
  mem : ℕ → UInt8

/-- The guest that was made after `i` others. -/
def Machine.guest (m : Machine) (i : ℕ) : Option HostGuest := m.host.guests.reverse[i]?

/-- **What can happen on the machine**: a guest is made, the page allocator is called, host
storage changes, or a guest copies. -/
inductive MachineEvent
  | guest (g : HostGuest)
  | buddy (ev : BuddyEvent)
  | store (mem : ℕ → UInt8)
  | copy (i : ℕ) (c : GuestCopy)

/-- **A step of the machine.**  A guest is made, for which `guest_create` asserts that
`alloc_guest_storage` returned 0; pages are taken or given back elsewhere; the hypervisor
stores where no guest has a block; or something is copied from or to a guest.

A guest is made only where the table pointers in its `struct virt_sys` are `NULL` before,
which `guest_create` does not see to: with others the first pages are entered in whatever
is there, another guest's tables for one. -/
inductive MachineStep : Machine → MachineEvent → Machine → Prop
  | guest {m g pages b} :
      allocGuestStorage g.storageSize g.as (wordAt m.mem) pages = some (g.ret, g.storage) →
      g.as = .null → g.ret = 0 → Run BuddyStep m.host.buddy g.calls b →
      MachineStep m (.guest g) ⟨⟨b, g :: m.host.guests⟩, ofWords g.storage.dat.mem⟩
  | buddy {m ev b} : BuddyStep m.host.buddy ev b →
      (∀ ptr order, ev = .free ptr order → ∀ g ∈ m.host.guests,
        (order, addrToPage ptr) ∉ g.storage.blocks) →
      MachineStep m (.buddy ev) ⟨⟨b, m.host.guests⟩, m.mem⟩
  | store {m mem} :
      (∀ g ∈ m.host.guests, ∀ a, ¬ Outside g.storage.dat.allocs a → mem a = m.mem a) →
      MachineStep m (.store mem) ⟨m.host, mem⟩
  | copy {m i g c r} : m.guest i = some g →
      copyRounds g.framesIn c.addr.toNat c.fromGuest 0 c.len m.mem c.data = r → c.Returns r →
      MachineStep m (.copy i c) ⟨m.host, r.mem⟩

/-! ### What a guest sees -/

/-- The pages below 2GB. -/
def HostGuest.lowPages (g : HostGuest) : List ℕ := g.storage.guestPages.take (2 ^ 19)

/-- Storage by the addresses of the guest. -/
def HostGuest.view (g : HostGuest) (mem : ℕ → UInt8) (a : ℕ) : UInt8 :=
  match g.lowPages[a / 4096]? with
  | some p => mem (p + a % 4096)
  | none => 0

/-- The pages of a guest that has `n` pages of its own. -/
def ownFrames (n p : ℕ) : Option ℕ := if p < n then some p else none

/-- A copy from or to `n` pages of storage. -/
def OwnStep (n : ℕ) (own : ℕ → UInt8) (c : GuestCopy) (own' : ℕ → UInt8) : Prop :=
  ∃ r, memcpyTofromGuest (ownFrames n) c.addr.toNat c.len c.fromGuest own c.data = r ∧
    c.Returns r ∧ own' = r.mem

/-- The copies of one guest. -/
def MachineEvent.copyOf (i : ℕ) : MachineEvent → Option GuestCopy
  | .copy j c => if j = i then some c else none
  | _ => none

/-! ### Copies in another place -/

section

variable {frames : (ℕ → UInt8) → ℕ → Option ℕ} {own : ℕ → Option ℕ} {g hostAddr : ℕ}

/-- A copy whose page is not mapped. -/
theorem copyRounds_none {mem : ℕ → UInt8} (h : virt2phyCurrent (frames mem) g = none)
    (h' : virt2phyCurrent own g = none) (view : (ℕ → UInt8) → ℕ → UInt8) (fromGuest : Bool)
    (copied left : ℕ) (data : ℕ → UInt8) :
    ∃ ret, copyRounds frames g fromGuest copied left mem data = ⟨ret, copied, mem, data⟩ ∧
      copyLoop own g fromGuest copied left (view mem) data = ⟨ret, copied, view mem, data⟩ := by
  rw [copyRounds, copyLoop]
  by_cases hleft : left = 0
  · exact ⟨0, by rw [dif_pos hleft], by rw [dif_pos hleft]⟩
  · exact ⟨-efault, by rw [dif_neg hleft, h], by rw [dif_neg hleft, h']⟩

/-- **A copy is the same in another place.**  Where `view` shows the rest of the page at
`hostAddr` at the address `g`, and no store there changes the mapping of `g`. -/
theorem copyRounds_view {P : (ℕ → UInt8) → Prop} {view : (ℕ → UInt8) → ℕ → UInt8}
    (hframe : ∀ mem, P mem → virt2phyCurrent (frames mem) g = some hostAddr)
    (hown : virt2phyCurrent own g = some g)
    (hkeep : ∀ mem data copied len, P mem → len ≤ pageRest hostAddr →
      P (memcpy mem hostAddr data copied len))
    (hread : ∀ mem, ∀ d < pageRest hostAddr, view mem (g + d) = mem (hostAddr + d))
    (hwrite : ∀ mem data copied len, len ≤ pageRest hostAddr →
      view (memcpy mem hostAddr data copied len) = memcpy (view mem) g data copied len)
    (fromGuest : Bool) (left copied : ℕ) {mem : ℕ → UInt8} (data : ℕ → UInt8) (hmem : P mem) :
    ∃ r, copyRounds frames g fromGuest copied left mem data = r ∧ P r.mem ∧
      copyLoop own g fromGuest copied left (view mem) data =
        ⟨r.ret, r.len, view r.mem, r.data⟩ := by
  have hmod : hostAddr % 4096 = g % 4096 := (virt2phyCurrent_eq_some.1 (hframe mem hmem)).2
  have hlen : ∀ left, copyLen g left = copyLen hostAddr left := by
    intro left
    rw [copyLen, copyLen, pageSize_eq, hmod]
  induction left using Nat.strong_induction_on generalizing copied mem data with
  | _ left ih =>
    rw [copyRounds, copyLoop]
    by_cases hleft : left = 0
    · rw [dif_pos hleft, dif_pos hleft]
      exact ⟨_, rfl, hmem, rfl⟩
    · have hpos := copyLen_pos hostAddr hleft
      have hrest : copyLen hostAddr left ≤ pageRest hostAddr := min_le_left _ _
      rw [dif_neg hleft, dif_neg hleft, hframe mem hmem, hown]
      dsimp only
      rw [hlen]
      cases fromGuest with
      | true =>
        have hsame : memcpy data copied (view mem) g (copyLen hostAddr left) =
            memcpy data copied mem hostAddr (copyLen hostAddr left) := by
          funext a
          rw [memcpy, memcpy]
          split
          · rw [hread mem _ (by omega)]
          · rfl
        rw [if_pos rfl, if_pos rfl, hsame]
        exact ih _ (by omega) _ _ hmem
      | false =>
        rw [if_neg Bool.false_ne_true, if_neg Bool.false_ne_true, ← hwrite mem data copied _ hrest]
        exact ih _ (by omega) _ _ (hkeep mem data copied _ hmem hrest)

end

/-! ### One guest -/

/-- **What `alloc_guest_storage` has made**: a guest with all its pages, each of them a
block of its own, and tables of its own that translate to them. -/
structure GuestMade (g : HostGuest) : Prop where
  fresh : Fresh g.storage.dat.allocs
  filled : StorageFilled 0 g.storage
  taken : (g.storage.guestPages.map (Prod.mk 0)).Sublist g.storage.dat.allocs
  length : g.storage.guestPages.length = g.pages

/-- The tables of the guest are in storage. -/
def HostGuest.TablesIn (g : HostGuest) (mem : ℕ → UInt8) : Prop :=
  ∀ x ∈ g.storage.dat.allocs, (x.1 = 0 → x.2 ∉ g.storage.guestPages) →
    ∀ a, a % 8 = 0 → x.2 ≤ a → a < x.2 + tableSize x.1 → wordAt mem a = g.storage.dat.mem a

namespace GuestMade

variable {g : HostGuest} {mem mem' : ℕ → UInt8}

/-- Storage in which no table has changed. -/
theorem tablesIn_congr (hg : GuestMade g) (h : g.TablesIn mem)
    (hsame : ∀ x ∈ g.storage.dat.allocs, (x.1 = 0 → x.2 ∉ g.storage.guestPages) →
      ∀ a, x.2 ≤ a → a < x.2 + tableSize x.1 → mem' a = mem a) : g.TablesIn mem' := by
  intro x hx hpage a ha hle hlt
  rw [← h x hx hpage a ha hle hlt]
  have halign := (hg.fresh.page x hx).2.1
  have hsize := tableSize_eq x.1
  exact wordAt_congr fun k hk => hsame x hx hpage _ (by omega) (by omega)

/-- A page of the guest is a block of its own, which is not a table. -/
theorem page (hg : GuestMade g) {p : ℕ} (hp : p ∈ g.storage.guestPages) :
    (0, p) ∈ g.storage.dat.allocs ∧ p % 4096 = 0 ∧ p + 4096 ≤ 2 ^ 64 := by
  have hmem := hg.taken.subset (List.mem_map_of_mem hp)
  exact ⟨hmem, (hg.fresh.page _ hmem).2⟩

/-- A guest's page and its tables do not overlap, unless the table is itself that page. -/
theorem page_table (hg : GuestMade g) {p : ℕ} (hp : p ∈ g.storage.guestPages) {x : ℕ × ℕ}
    (hx : x ∈ g.storage.dat.allocs) (hpage : x.1 = 0 → x.2 ∉ g.storage.guestPages) :
    p + 4096 ≤ x.2 ∨ x.2 + tableSize x.1 ≤ p := by
  refine hg.fresh.apart (hg.page hp).1 hx ?_
  rintro rfl
  exact hpage rfl hp

/-- Two pages of the guest. -/
theorem pages_apart (hg : GuestMade g) {i j : ℕ} (hij : i ≠ j)
    (hi : i < g.storage.guestPages.length) (hj : j < g.storage.guestPages.length) :
    g.storage.guestPages[i] + 4096 ≤ g.storage.guestPages[j] ∨
      g.storage.guestPages[j] + 4096 ≤ g.storage.guestPages[i] := by
  have hpairs := List.pairwise_iff_getElem.1
    (List.pairwise_map.1 (hg.fresh.disjoint.sublist hg.taken))
  rcases Nat.lt_or_gt_of_ne hij with hlt | hlt
  · exact hpairs i j hi hj hlt
  · exact (hpairs j i hj hi hlt).symm

/-- **The tables in storage map the pages of the list.** -/
theorem framesIn_eq (hg : GuestMade g) (h : g.TablesIn mem) {p : ℕ} (hp : p < 2 ^ 52) :
    g.framesIn mem p = g.lowPages[p]?.map addrToPage := by
  have hwalk : ∀ v, ({ g.storage.dat with mem := wordAt mem } : Dat).walk v =
      g.storage.dat.walk v := by
    intro v
    by_cases hnull : g.storage.dat.segmentTable = 0
    · rw [Dat.walk, Dat.walk, if_pos hnull, if_pos hnull]
    · have hseg := hg.filled.dat.segment hnull
      have hsegAlign := (hg.fresh.page _ hseg).2.1
      have hsx := datSx_lt v
      have hste : wordAt mem (g.storage.dat.segmentTable + 8 * datSx v) =
          g.storage.dat.ste (datSx v) := by
        refine h _ hseg (fun hzero => absurd hzero two_ne_zero) _ ?_ (Nat.le_add_right ..) ?_
        · dsimp only at hsegAlign
          omega
        · rw [tableSize_two]
          dsimp only
          omega
      refine walk_congr rfl hste fun hvalid => ?_
      rcases hg.filled.dat.entry hnull _ hsx with hempty | ⟨pt, hpt, hpoints⟩
      · rw [hempty, BitField.Field.get_allOnes] at hvalid
        exact absurd (by decide) hvalid
      · have hptAlign := (hg.fresh.page _ hpt).2.1
        have hpx := datPx_lt v
        rw [hpoints.2]
        refine h _ hpt (fun _ => hg.filled.apart hnull _ hsx pt hpoints) (pt + 8 * datPx v) ?_
          (Nat.le_add_right ..) ?_
        · dsimp only at hptAlign
          omega
        · rw [tableSize_zero]
          dsimp only
          omega
  have htranslate : ({ g.storage.dat with mem := wordAt mem } : Dat).translate (guestAddr p) =
      g.storage.dat.translate (guestAddr p) := by
    rw [Dat.translate, Dat.translate, hwalk]
  rw [HostGuest.framesIn, htranslate, hg.filled.translate, guestAddr_toNat hp,
    Nat.mul_div_cancel_left _ (by decide), Option.map_map]
  refine Option.map_congr fun q hq => ?_
  have hmem := (List.take_sublist _ _).subset (List.mem_of_getElem? hq)
  exact pfra_ofNat (by have := (hg.page hmem).2.2; omega)

/-- The view of a guest after a store in one of its pages. -/
theorem view_memcpy (hg : GuestMade g) {addr p : ℕ} (hp : g.lowPages[addr / 4096]? = some p)
    (mem data : ℕ → UInt8) (copied : ℕ) {len : ℕ} (hlen : len ≤ 4096 - addr % 4096) :
    g.view (memcpy mem (p + addr % 4096) data copied len) =
      memcpy (g.view mem) addr data copied len := by
  funext a
  rw [HostGuest.view, memcpy]
  by_cases hsame : a / 4096 = addr / 4096
  · rw [hsame, hp]
    dsimp only
    by_cases hin : addr ≤ a ∧ a < addr + len
    · rw [if_pos hin, memcpy, if_pos (by omega)]
      congr 1
      omega
    · rw [if_neg hin, memcpy_out (by omega), HostGuest.view, hsame, hp]
  · rw [if_neg (by omega), HostGuest.view]
    cases hq : g.lowPages[a / 4096]? with
    | none => rfl
    | some q =>
      obtain ⟨hi, rfl⟩ := List.getElem?_eq_some_iff.1 hp
      obtain ⟨hj, rfl⟩ := List.getElem?_eq_some_iff.1 hq
      have hle : g.lowPages.length ≤ g.storage.guestPages.length :=
        (List.take_sublist _ _).length_le
      have hapart := hg.pages_apart hsame (hj.trans_le hle) (hi.trans_le hle)
      simp only [HostGuest.lowPages, List.getElem_take] at hapart ⊢
      exact memcpy_out (by omega)

/-- **A copy** is one from or to storage of the guest's own, and stores in a page of the
guest only. -/
theorem copy (hg : GuestMade g) (h : g.TablesIn mem) (addr : BitVec 64) (len : ℕ)
    (fromGuest : Bool) (data : ℕ → UInt8) :
    ∃ r, copyRounds g.framesIn addr.toNat fromGuest 0 len mem data = r ∧ g.TablesIn r.mem ∧
      (∀ a, (∀ p ∈ g.storage.guestPages, a < p ∨ p + 4096 ≤ a) → r.mem a = mem a) ∧
      memcpyTofromGuest (ownFrames (min g.pages (2 ^ 19))) addr.toNat len fromGuest (g.view mem)
        data = ⟨r.ret, r.len, g.view r.mem, r.data⟩ := by
  have hlow : addr.toNat / 4096 < 2 ^ 52 := by omega
  have hlength : g.lowPages.length = min g.pages (2 ^ 19) := by
    rw [HostGuest.lowPages, List.length_take, hg.length, Nat.min_comm]
  have hframes := fun mem' (h' : g.TablesIn mem') => hg.framesIn_eq h' hlow
  cases hpage : g.lowPages[addr.toNat / 4096]? with
  | none =>
    have hout := List.getElem?_eq_none_iff.1 hpage
    have hframe : virt2phyCurrent (g.framesIn mem) addr.toNat = none := by
      rw [virt2phyCurrent, pageSize_eq, hframes mem h, hpage]
      rfl
    have hown : virt2phyCurrent (ownFrames (min g.pages (2 ^ 19))) addr.toNat = none := by
      rw [virt2phyCurrent, pageSize_eq, ownFrames, if_neg (by omega)]
      rfl
    obtain ⟨ret, hcopy, hcopy'⟩ := copyRounds_none hframe hown g.view fromGuest 0 len data
    exact ⟨_, hcopy, h, fun _ _ => rfl, hcopy'⟩
  | some p =>
    obtain ⟨hin, -⟩ := List.getElem?_eq_some_iff.1 hpage
    have hmem : p ∈ g.storage.guestPages :=
      (List.take_sublist _ _).subset (List.mem_of_getElem? hpage)
    have halign := (hg.page hmem).2.1
    have hrest : pageRest (p + addr.toNat % 4096) = 4096 - addr.toNat % 4096 := by
      rw [pageRest, pageSize_eq]
      omega
    have hframe : ∀ mem', (g.TablesIn mem' ∧ ∀ a, a < p ∨ p + 4096 ≤ a → mem' a = mem a) →
        virt2phyCurrent (g.framesIn mem') addr.toNat = some (p + addr.toNat % 4096) := by
      intro mem' h'
      rw [virt2phyCurrent, pageSize_eq, hframes mem' h'.1, hpage, Option.map_some, Option.map_some,
        addrToPage_eq]
      congr 1
      omega
    have hown : virt2phyCurrent (ownFrames (min g.pages (2 ^ 19))) addr.toNat =
        some addr.toNat := by
      rw [virt2phyCurrent, pageSize_eq, ownFrames, if_pos (by omega), Option.map_some]
      congr 1
      omega
    -- a store in the page leaves the tables where they are
    have hkeep : ∀ (mem' data : ℕ → UInt8) (copied len : ℕ),
        (g.TablesIn mem' ∧ ∀ a, a < p ∨ p + 4096 ≤ a → mem' a = mem a) →
        len ≤ pageRest (p + addr.toNat % 4096) →
        g.TablesIn (memcpy mem' (p + addr.toNat % 4096) data copied len) ∧
          ∀ a, a < p ∨ p + 4096 ≤ a →
            memcpy mem' (p + addr.toNat % 4096) data copied len a = mem a := by
      intro mem' data copied len h' hlen
      refine ⟨hg.tablesIn_congr h'.1 fun x hx hx' a hle hlt => memcpy_out ?_, fun a ha => ?_⟩
      · have := hg.page_table hmem hx hx'
        omega
      · rw [memcpy_out (by omega), h'.2 a ha]
    have hread : ∀ (mem' : ℕ → UInt8), ∀ d < pageRest (p + addr.toNat % 4096),
        g.view mem' (addr.toNat + d) = mem' (p + addr.toNat % 4096 + d) := by
      intro mem' d hd
      rw [HostGuest.view, show (addr.toNat + d) / 4096 = addr.toNat / 4096 by omega, hpage]
      dsimp only
      congr 1
      omega
    obtain ⟨r, hcopy, ⟨htables, hkept⟩, hcopy'⟩ := copyRounds_view hframe hown hkeep hread
      (fun mem' data copied len hlen => hg.view_memcpy hpage mem' data copied (by omega))
      fromGuest len 0 data ⟨h, fun _ _ => rfl⟩
    exact ⟨r, hcopy, htables, fun a ha => hkept a (ha p hmem), hcopy'⟩

end GuestMade

/-! ### All guests -/

/-- No block of the one guest has an address in common with one of the other. -/
def Apart (g g' : HostGuest) : Prop :=
  ∀ x ∈ g.storage.dat.allocs, ∀ y ∈ g'.storage.dat.allocs,
    x.2 + tableSize x.1 ≤ y.2 ∨ y.2 + tableSize y.1 ≤ x.2

/-- Being apart goes both ways. -/
theorem Apart.symm {g g' : HostGuest} (h : Apart g g') : Apart g' g :=
  fun x hx y hy => (h y hy x hx).symm

section

variable {memsize start : BitVec 64} {h : Host} {g g' : HostGuest}

/-- The guests have blocks of their own. -/
theorem HostInv.guests_apart (hinv : HostInv (initPages memsize start) h) :
    h.guests.Pairwise Apart := by
  have hpairs := (List.pairwise_flatMap.1
    (hinv.apart (initPages_nodup memsize start) le_rfl)).2
  refine hpairs.imp_of_mem fun {g g'} hg hg' hapart x hx y hy => ?_
  have hx' := hinv.aligned hg hx
  have hy' := hinv.aligned hg' hy
  have hxy := hapart _ (List.mem_map.2 ⟨x, hx, rfl⟩) _ (List.mem_map.2 ⟨y, hy, rfl⟩)
  rw [pageToAddr_eq] at hx' hy'
  rw [tableSize_eq, tableSize_eq]
  dsimp only at hxy
  omega

/-- A guest of the host that was made from `NULL` pointers with return code 0 has its storage in
place. -/
theorem HostInv.made (hinv : HostInv (initPages memsize start) h)
    (hstart : pageSize ≤ start.toNat) (hg : g ∈ h.guests) (hnull : g.as = .null)
    (hret : g.ret = 0) : GuestMade g := by
  obtain ⟨mem, supply, hcall⟩ := hinv.calls g hg
  have hfresh := hinv.fresh hstart hg
  obtain ⟨htaken, hlength⟩ := fillGuestStorage_pages hcall (List.Sublist.refl _)
  rw [hret, hnull] at hcall
  exact ⟨hfresh, fillGuestStorage_filled hcall (storageFilled_init _ mem _) hfresh, htaken,
    (hlength hret).trans (Nat.zero_add _)⟩

/-- An address in a block of a guest is outside of those of another. -/
theorem Apart.outside (hapart : Apart g g') {x : ℕ × ℕ} (hx : x ∈ g'.storage.dat.allocs) {a : ℕ}
    (hle : x.2 ≤ a) (hlt : a < x.2 + tableSize x.1) : Outside g.storage.dat.allocs a := by
  intro y hy
  have := hapart y hy x hx
  omega

end

/-- **The guests that were made have their tables in storage.** They are among what the page
allocator handed out, each was made from `NULL` pointers and is complete, and the bytes of
its tables are what its making left there. -/
structure MachineInv (memsize start : BitVec 64) (m : Machine) : Prop where
  host : HostInv (initPages memsize start) m.host
  made : ∀ g ∈ m.host.guests, g.as = .null ∧ g.ret = 0
  tables : ∀ g ∈ m.host.guests, g.TablesIn m.mem

section

variable {memsize start : BitVec 64} {m m' : Machine} {ev : MachineEvent} {i j : ℕ}
  {g g' : HostGuest}

/-- A guest of the machine is one of the host's guests. -/
theorem Machine.guest_mem (hg : m.guest i = some g) : g ∈ m.host.guests :=
  List.mem_reverse.1 (List.mem_of_getElem? hg)

/-- The same for every guest of a machine's run. -/
theorem MachineInv.guestMade (hinv : MachineInv memsize start m) (hstart : pageSize ≤ start.toNat)
    (hg : g ∈ m.host.guests) : GuestMade g :=
  hinv.host.made hstart hg (hinv.made g hg).1 (hinv.made g hg).2

/-- Two guests of the machine. -/
theorem MachineInv.guests_apart (hinv : MachineInv memsize start m) (hg : m.guest i = some g)
    (hg' : m.guest j = some g') (hij : i ≠ j) : Apart g g' := by
  have hpairs := List.pairwise_iff_getElem.1 (List.pairwise_reverse.2
    (hinv.host.guests_apart.imp Apart.symm))
  obtain ⟨hi, rfl⟩ := List.getElem?_eq_some_iff.1 hg
  obtain ⟨hj, rfl⟩ := List.getElem?_eq_some_iff.1 hg'
  rcases Nat.lt_or_gt_of_ne hij with hlt | hlt
  · exact hpairs i j hi hj hlt
  · exact (hpairs j i hj hi hlt).symm

/-- What a step leaves of a guest that is there: storage in its blocks is as it was, unless
the guest copies. -/
theorem MachineInv.kept (hinv : MachineInv memsize start m) (hstart : pageSize ≤ start.toNat)
    (hstep : MachineStep m ev m') (hg : m.guest i = some g) (hev : ∀ c, ev ≠ .copy i c) :
    ∀ x ∈ g.storage.dat.allocs, ∀ a, x.2 ≤ a → a < x.2 + tableSize x.1 → m'.mem a = m.mem a := by
  intro x hx a hle hlt
  have hmem := Machine.guest_mem hg
  cases hstep with
  | @guest g₁ pages b hcall hnull hret hrun =>
    have hhost := hostInv_step hinv.host (HostStep.guest hcall hrun)
    have hfresh := hhost.fresh hstart List.mem_cons_self
    have hapart : Apart g₁ g := (List.pairwise_cons.1 hhost.guests_apart).1 g hmem
    have halign := ((hinv.host.fresh hstart hmem).page x hx).2.1
    have hsize := tableSize_eq x.1
    have hout := hapart.outside hx (a := 8 * (a / 8)) (by omega) (by omega)
    exact ofWords_eq (allocGuestStorage_frame (hnull ▸ hcall) hfresh hout)
  | buddy => rfl
  | store hkept =>
    refine hkept g hmem a fun hout => ?_
    have := hout x hx
    omega
  | @copy j g₁ c r hg₁ hcopy hreturns =>
    have hij : j ≠ i := fun heq => hev c (by rw [heq])
    have hmem₁ := Machine.guest_mem hg₁
    have hmade := hinv.guestMade hstart hmem₁
    obtain ⟨r', hcopy', -, hframe, -⟩ := hmade.copy (hinv.tables g₁ hmem₁) c.addr c.len c.fromGuest
      c.data
    obtain rfl : r' = r := hcopy'.symm.trans hcopy
    refine hframe a fun p hp => ?_
    have := hinv.guests_apart hg₁ hg hij _ (hmade.page hp).1 x hx
    rw [tableSize_zero] at this
    omega

/-- The step of a guest. -/
theorem MachineInv.copied (hinv : MachineInv memsize start m) (hstart : pageSize ≤ start.toNat)
    {c : GuestCopy} (hstep : MachineStep m (.copy i c) m') (hg : m.guest i = some g) :
    g.TablesIn m'.mem ∧ OwnStep (min g.pages (2 ^ 19)) (g.view m.mem) c (g.view m'.mem) := by
  have hmem := Machine.guest_mem hg
  have hmade := hinv.guestMade hstart hmem
  cases hstep with
  | @copy _ g₁ _ r hg₁ hcopy hreturns =>
    obtain rfl : g = g₁ := Option.some.inj (hg.symm.trans hg₁)
    obtain ⟨r', hcopy', htables, -, hown⟩ := hmade.copy (hinv.tables g hmem) c.addr c.len
      c.fromGuest c.data
    obtain rfl : r' = r := hcopy'.symm.trans hcopy
    exact ⟨htables, _, hown, hreturns, rfl⟩

/-- The guests stay. -/
theorem MachineStep.guest_eq (hstep : MachineStep m ev m') (hg : m.guest i = some g) :
    m'.guest i = some g := by
  cases hstep with
  | @guest g₁ pages b hcall hnull hret hrun =>
    obtain ⟨hi, -⟩ := List.getElem?_eq_some_iff.1 hg
    rw [Machine.guest, List.reverse_cons, List.getElem?_append_left hi]
    exact hg
  | buddy => exact hg
  | store => exact hg
  | copy => exact hg

/-- **One event of the machine keeps its invariant.** -/
theorem MachineInv.step (hinv : MachineInv memsize start m) (hstart : pageSize ≤ start.toNat)
    (hstep : MachineStep m ev m') : MachineInv memsize start m' := by
  -- the guests that were there
  have hold : ∀ g ∈ m.host.guests, g.TablesIn m'.mem := by
    intro g hg
    obtain ⟨i, hi⟩ := List.mem_iff_getElem?.1 (List.mem_reverse.2 hg)
    by_cases hev : ∃ c, ev = .copy i c
    · obtain ⟨c, rfl⟩ := hev
      exact (hinv.copied hstart hstep hi).1
    · exact (hinv.guestMade hstart hg).tablesIn_congr (hinv.tables g hg)
        fun x hx _ => hinv.kept hstart hstep hi (fun c hc => hev ⟨c, hc⟩) x hx
  cases hstep with
  | @guest g pages b hcall hnull hret hrun =>
    refine ⟨hostInv_step hinv.host (HostStep.guest hcall hrun), fun g' hg' => ?_, fun g' hg' => ?_⟩
    · rcases List.mem_cons.1 hg' with rfl | hg'
      · exact ⟨hnull, hret⟩
      · exact hinv.made g' hg'
    · rcases List.mem_cons.1 hg' with rfl | hg'
      · exact fun _ _ _ a ha _ _ => wordAt_ofWords _ ha
      · exact hold g' hg'
  | buddy hstep' hkept =>
    exact ⟨hostInv_step hinv.host (HostStep.other hstep' hkept), hinv.made, hold⟩
  | store => exact ⟨hinv.host, hinv.made, hold⟩
  | copy => exact ⟨hinv.host, hinv.made, hold⟩

/-- A step that is no copy of the guest does not change what it sees. -/
theorem MachineInv.view_eq (hinv : MachineInv memsize start m) (hstart : pageSize ≤ start.toNat)
    (hstep : MachineStep m ev m') (hg : m.guest i = some g) (hev : ∀ c, ev ≠ .copy i c) :
    g.view m'.mem = g.view m.mem := by
  have hmem := Machine.guest_mem hg
  have hmade := hinv.guestMade hstart hmem
  funext a
  rw [HostGuest.view, HostGuest.view]
  cases hpage : g.lowPages[a / 4096]? with
  | none => rfl
  | some p =>
    have hp := hmade.page ((List.take_sublist _ _).subset (List.mem_of_getElem? hpage))
    refine hinv.kept hstart hstep hg hev _ hp.1 _ (Nat.le_add_right ..) ?_
    rw [tableSize_zero]
    dsimp only
    omega

/-- **Guests do not see each other.**  From any state that is reached on, whatever guests
are made over `NULL` table pointers and whatever they copy, and whatever is taken, given
back and stored elsewhere:
the copies from and to a guest are a run on a storage of its own, which has the pages of
the guest below 2GB; they return and deliver the same. -/
theorem guest_sees_own {mem : ℕ → UInt8} {evs evs' : List MachineEvent}
    (hinit : InitExact memsize start) (hstart : pageSize ≤ start.toNat)
    (hrun : Run MachineStep ⟨.init memsize start, mem⟩ evs m) (hg : m.guest i = some g)
    (hrun' : Run MachineStep m evs' m') :
    m'.guest i = some g ∧ Run (OwnStep (min g.pages (2 ^ 19))) (g.view m.mem)
      (evs'.filterMap (·.copyOf i)) (g.view m'.mem) := by
  have hnone {P : HostGuest → Prop} : ∀ g ∈ ([] : List HostGuest), P g := fun _ hg =>
    absurd hg List.not_mem_nil
  have hinv : MachineInv memsize start m :=
    hrun.invariant ⟨⟨buddyInv_init hinit, Multiset.zero_le _, hnone⟩, hnone, hnone⟩
      fun _ _ _ h hstep => h.step hstart hstep
  have hkeep : ∀ m ev m', (MachineInv memsize start m ∧ m.guest i = some g) →
      MachineStep m ev m' → MachineInv memsize start m' ∧ m'.guest i = some g :=
    fun _ _ _ h hstep => ⟨h.1.step hstart hstep, hstep.guest_eq h.2⟩
  have hnone : ∀ m ev m', (MachineInv memsize start m ∧ m.guest i = some g) →
      MachineStep m ev m' → ev.copyOf i = none → g.view m'.mem = g.view m.mem := by
    intro m ev m' h hstep hev
    refine h.1.view_eq hstart hstep h.2 ?_
    rintro c rfl
    rw [MachineEvent.copyOf, if_pos rfl] at hev
    cases hev
  have hsome : ∀ m ev m' c, (MachineInv memsize start m ∧ m.guest i = some g) →
      MachineStep m ev m' → ev.copyOf i = some c →
        OwnStep (min g.pages (2 ^ 19)) (g.view m.mem) c (g.view m'.mem) := by
    intro m ev m' c h hstep hev
    cases ev with
    | copy j c' =>
      rw [MachineEvent.copyOf] at hev
      split at hev
      case isTrue hj =>
        obtain rfl := hj
        obtain rfl := Option.some.inj hev
        exact (h.1.copied hstart hstep h.2).2
      case isFalse => cases hev
    | guest => cases hev
    | buddy => cases hev
    | store => cases hev
  obtain ⟨⟨-, hguest⟩, hviews⟩ := hrun'.project hkeep hnone hsome ⟨hinv, hg⟩
  exact ⟨hguest, hviews⟩

end

/-- Two bytes are copied to a guest of 16MB: in the view of its own storage that is one
step, the copy. -/
theorem guest_sees_own_16MB : ∃ (g : HostGuest) (m m' : Machine) (c : GuestCopy),
    m.guest 0 = some g ∧ g.pages = 4096 ∧ c.len = 2 ∧
      Run (OwnStep 4096) (g.view m.mem) [c] (g.view m'.mem) := by
  have hpages : ((0x1000000 : BitVec 64) >>> pageShift).toNat = 4095 + 1 := by decide
  obtain ⟨g, pages, b, hcall, hrun⟩ := guestStorage_exists hpages (by decide)
  have hzero : wordAt (fun _ => 0) = fun _ => 0 := by
    funext a
    simp [wordAt, num]
  let guest : HostGuest := ⟨0x1000000, .null, 0, g⟩
  let m : Machine := ⟨⟨b, [guest]⟩, ofWords g.dat.mem⟩
  have hmade : MachineStep ⟨almost6GB, fun _ => 0⟩ (.guest guest) m :=
    MachineStep.guest (hzero ▸ hcall) rfl rfl hrun
  let r := copyRounds guest.framesIn 0 false 0 2 m.mem fun _ => 7
  let c : GuestCopy := ⟨0, 2, false, fun _ => 7, r.ret, r.len, r.data⟩
  have hguest : m.guest 0 = some guest := rfl
  have hcopy : MachineStep m (.copy 0 c) ⟨m.host, r.mem⟩ := .copy hguest rfl ⟨rfl, rfl, rfl⟩
  have hsees := guest_sees_own almost6GB_exact (by decide) (Run.nil.snoc hmade) hguest
    (Run.nil.snoc hcopy)
  have hmin : min guest.pages (2 ^ 19) = 4096 := by
    show min ((0x1000000 : BitVec 64) >>> pageShift).toNat (2 ^ 19) = 4096
    decide
  rw [hmin] at hsees
  exact ⟨guest, m, _, c, rfl, hpages, rfl, hsees.2⟩

end Hvf
