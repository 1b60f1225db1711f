/-
# `DISPLAY STORAGE` in instruction format

`__display_storage_instruct` in `shell/cmd_display.c`.  The page tables are walked for the
first instruction; the others are listed while they are in front of the end of its page.

The bytes of an instruction are printed from a doubleword, whatever the length of the
instruction, and the text is made before the boundary is looked at.  `InstShown.reads` has the
host addresses of all the bytes that are read.
-/

import Hvf.Lib.Bytes
import Hvf.Mm.GuestCopy
import Hvf.Shell.Disassm

namespace Hvf

/-- **A line on the console**: the guest address of the instruction, its length and bytes,
and its text. -/
structure InstLine where
  addr : ℕ
  ilen : ℕ
  val : ℕ
  text : DaText
deriving DecidableEq, Repr

/-- What is displayed: the lines, if there is the message about the page boundary, and the host
addresses that are read. -/
structure InstShown where
  lines : List InstLine
  spans : Bool
  reads : List ℕ
deriving DecidableEq, Repr

/-- The instruction at an address. -/
def disassmAt (mem : ℕ → UInt8) (addr : ℕ) : Disassm := disassm fun i => mem (addr + i)

/-- An instruction disassembled is two, four or six bytes long. -/
theorem disassmAt_ilen (mem : ℕ → UInt8) (addr : ℕ) :
    (disassmAt mem addr).ilen = 2 ∨ (disassmAt mem addr).ilen = 4 ∨
      (disassmAt mem addr).ilen = 6 :=
  instLen_cases (mem (addr + 0))

/-- In front of the boundary the next instruction is in the same page. -/
theorem mod_add_ilen {hostAddr ilen : ℕ} (h : ¬ hostAddr % pageSize ≥ pageSize - ilen) :
    (hostAddr + ilen) % pageSize = hostAddr % pageSize + ilen := by
  have hpage : pageSize = 4096 := rfl
  rw [hpage] at h ⊢
  omega

/-- The loop of `__display_storage_instruct`. -/
def instructLoop (mem : ℕ → UInt8) (endAddr guestAddr hostAddr : ℕ) : InstShown :=
  if guestAddr < endAddr then
    let d := disassmAt mem hostAddr
    let reads := d.reads.map (hostAddr + ·)
    if _h : hostAddr % pageSize ≥ pageSize - d.ilen then ⟨[], true, reads⟩
    else
      let val := Bytes.num mem hostAddr 8 / 256 ^ (8 - d.ilen)
      let r := instructLoop mem endAddr ((guestAddr + d.ilen) % 2 ^ 64) (hostAddr + d.ilen)
      ⟨⟨guestAddr, d.ilen, val, d.text⟩ :: r.lines, r.spans,
        reads ++ (List.range' hostAddr 8 ++ r.reads)⟩
  else ⟨[], false, []⟩
termination_by pageSize - hostAddr % pageSize
decreasing_by
  have hinside : ¬ hostAddr % pageSize ≥ pageSize - (disassmAt mem hostAddr).ilen := _h
  have hstep := mod_add_ilen hinside
  have hlen := disassmAt_ilen mem hostAddr
  omega

/-- The length of what is displayed. -/
def instructLen (mlen : ℕ) : ℕ := if mlen = 0 then 1 else mlen

/-- `__display_storage_instruct`, `none` for an address that is not part of the guest's
configuration. -/
def displayInstruct (frames : ℕ → Option ℕ) (mem : ℕ → UInt8) (guestAddr mlen : ℕ) :
    Option InstShown :=
  (virt2phyCurrent frames guestAddr).map fun hostAddr =>
    instructLoop mem ((guestAddr + instructLen mlen) % 2 ^ 64) guestAddr hostAddr

/-! ### What is asked for -/

section

variable (page : ℕ → UInt8) (base stop : ℕ)

/-- The instructions of the page at `base`, from offset `o` on to offset `stop`: the lines, and
whether the next instruction does not fit into the page. -/
inductive Lists : ℕ → List InstLine → Bool → Prop
  | done {o : ℕ} (h : stop ≤ o) : Lists o [] false
  | spans {o : ℕ} (h : o < stop)
      (hspans : o < pageSize → pageSize < o + (disassmAt page o).ilen) : Lists o [] true
  | inst {o : ℕ} {lines : List InstLine} {spans : Bool} (h : o < stop)
      (hfits : o + (disassmAt page o).ilen ≤ pageSize)
      (hrest : Lists (o + (disassmAt page o).ilen) lines spans) :
      Lists o (⟨base + o, (disassmAt page o).ilen, Bytes.num page o (disassmAt page o).ilen,
        (disassmAt page o).text⟩ :: lines) spans

/-- **The offsets that the loop comes to**, from the first one on, as long as an instruction
ends in front of the page's end. -/
inductive Reached : ℕ → ℕ → Prop
  | start {o : ℕ} : Reached o o
  | next {o p : ℕ} (h : o + (disassmAt page o).ilen < pageSize)
      (hrest : Reached (o + (disassmAt page o).ilen) p) : Reached o p

/-- The doubleword at the offset is in the page, or the instruction does not fit into it and no
byte behind the page is decoded. -/
def KeepsIn (o : ℕ) : Prop :=
  o + 8 ≤ pageSize ∨
    pageSize < o + (disassmAt page o).ilen ∧ ∀ i ∈ (disassmAt page o).reads, o + i < pageSize

end

/-- The bytes of a page of the host. -/
def pageBytes (mem : ℕ → UInt8) (frame : ℕ) : ℕ → UInt8 := fun o => mem (frame * pageSize + o)

/-- The instructions that were asked for are listed, as far as they fit into the page, and
nothing else is read. -/
def ListsAsked (frames : ℕ → Option ℕ) (mem : ℕ → UInt8) (addr mlen : ℕ) :
    Option InstShown → Prop
  | none => frames (addr / pageSize) = none
  | some r =>
    ∃ frame, frames (addr / pageSize) = some frame ∧
      Lists (pageBytes mem frame) (addr / pageSize * pageSize)
        (addr % pageSize + instructLen mlen) (addr % pageSize) r.lines r.spans ∧
      ∀ a ∈ r.reads, a / pageSize = frame

section

variable {mem : ℕ → UInt8} {page : ℕ → UInt8} {base stop frame o : ℕ}

/-- The leading bytes of a number are the number of these bytes. -/
theorem num_div_pow (m : Bytes.Mem) (a n k : ℕ) :
    Bytes.num m a (n + k) / 256 ^ k = Bytes.num m a n := by
  induction k with
  | zero => rw [Nat.add_zero, Nat.pow_zero, Nat.div_one]
  | succ k ih =>
    have hbyte := (m (a + (n + k))).toNat_lt
    rw [← Nat.add_assoc, Bytes.num, Nat.pow_succ', ← Nat.div_div_eq_div_mul,
      show (Bytes.num m a (n + k) * 256 + (m (a + (n + k))).toNat) / 256 = Bytes.num m a (n + k)
        by omega, ih]

/-- The number in front of the doubleword. -/
theorem num_eight_div {ilen : ℕ} (h : ilen ≤ 8) (a : ℕ) :
    Bytes.num mem a 8 / 256 ^ (8 - ilen) = Bytes.num mem a ilen := by
  have hsplit := num_div_pow mem a ilen (8 - ilen)
  rwa [Nat.add_sub_cancel' h] at hsplit

/-- An instruction at a place of a page is that of the page's bytes. -/
theorem disassmAt_page (mem : ℕ → UInt8) (frame o : ℕ) :
    disassmAt mem (frame * pageSize + o) = disassmAt (pageBytes mem frame) o := by
  simp only [disassmAt, pageBytes, Nat.add_assoc]

/-- A number at a place of a page is that of the page's bytes. -/
theorem num_page (mem : ℕ → UInt8) (frame o n : ℕ) :
    Bytes.num mem (frame * pageSize + o) n = Bytes.num (pageBytes mem frame) o n :=
  Bytes.num_congr fun k _ => by rw [pageBytes, Nat.add_assoc]

/-- An address is in the page exactly when its offset is below the page size. -/
theorem div_page_eq_iff : (frame * pageSize + o) / pageSize = frame ↔ o < pageSize := by
  have hpage : pageSize = 4096 := rfl
  rw [hpage]
  omega

/-- Where the disassembler gets to: here, or from behind this instruction. -/
theorem reached_iff {p : ℕ} : Reached page o p ↔
    p = o ∨ o + (disassmAt page o).ilen < pageSize ∧
      Reached page (o + (disassmAt page o).ilen) p := by
  constructor
  · rintro (_ | ⟨h, hrest⟩)
    · exact Or.inl rfl
    · exact Or.inr ⟨h, hrest⟩
  · rintro (rfl | ⟨h, hrest⟩)
    · exact .start
    · exact .next h hrest

/-- One instruction that is wholly in front of the boundary. -/
theorem lists_inst_iff {lines : List InstLine} {spans : Bool} (h : o < stop)
    (hfits : o + (disassmAt page o).ilen ≤ pageSize) :
    Lists page base stop o (⟨base + o, (disassmAt page o).ilen,
        Bytes.num page o (disassmAt page o).ilen, (disassmAt page o).text⟩ :: lines) spans ↔
      Lists page base stop (o + (disassmAt page o).ilen) lines spans := by
  refine ⟨fun hlists => ?_, .inst h hfits⟩
  cases hlists with
  | inst _ _ hrest => exact hrest

/-- An instruction is taken for one that goes over the page's end exactly when it does. -/
theorem lists_spans_iff (h : o < stop) (ho : o < pageSize) :
    Lists page base stop o [] true ↔ pageSize < o + (disassmAt page o).ilen := by
  refine ⟨fun hlists => ?_, fun hspans => .spans h fun _ => hspans⟩
  cases hlists with
  | spans _ hspans => exact hspans ho

/-- It only moves on. -/
theorem le_of_reached {p : ℕ} (h : Reached page o p) : o ≤ p := by
  induction h with
  | start => exact le_rfl
  | next _ _ ih => exact (Nat.le_add_right _ _).trans ih

/-- The bytes at places of an instruction are in the page. -/
theorem forall_mem_map_page {l : List ℕ} :
    (∀ a ∈ l.map (frame * pageSize + o + ·), a / pageSize = frame) ↔
      ∀ i ∈ l, o + i < pageSize := by
  rw [List.forall_mem_map]
  simp only [Nat.add_assoc, div_page_eq_iff]

/-- Eight bytes are in the page exactly when the last one is. -/
theorem forall_mem_range'_page :
    (∀ a ∈ List.range' (frame * pageSize + o) 8, a / pageSize = frame) ↔ o + 8 ≤ pageSize := by
  constructor
  · intro h
    have hlast := h (frame * pageSize + o + 7) (List.mem_range'_1.2 ⟨by omega, by omega⟩)
    rw [Nat.add_assoc, div_page_eq_iff] at hlast
    omega
  · intro h a ha
    obtain ⟨hge, hlt⟩ := List.mem_range'_1.1 ha
    obtain ⟨k, rfl⟩ := Nat.exists_eq_add_of_le hge
    rw [Nat.add_assoc, div_page_eq_iff]
    omega

/-- The loop lists the instructions and reads inside the page exactly if it keeps in the page
wherever it comes to. -/
theorem instructLoop_iff (mem : ℕ → UInt8) (frame : ℕ) (hbase : base % pageSize = 0)
    (hend : base + stop < 2 ^ 64) (ho : o < pageSize) {r : InstShown}
    (hr : instructLoop mem (base + stop) (base + o) (frame * pageSize + o) = r) :
    (Lists (pageBytes mem frame) base stop o r.lines r.spans ∧
        ∀ a ∈ r.reads, a / pageSize = frame) ↔
      ∀ p, Reached (pageBytes mem frame) o p → p < stop → KeepsIn (pageBytes mem frame) p := by
  have hpage : pageSize = 4096 := rfl
  have hbound : base + pageSize ≤ 2 ^ 64 := by
    rw [hpage] at hbase ⊢
    omega
  induction hleft : pageSize - o using Nat.strong_induction_on generalizing o r with
  | _ left ih =>
    have hlen := disassmAt_ilen (pageBytes mem frame) o
    have hmod : (frame * pageSize + o) % pageSize = o := by
      rw [hpage] at ho ⊢
      omega
    rw [instructLoop, disassmAt_page, hmod] at hr
    dsimp only at hr
    by_cases hstop : o < stop
    · rw [if_pos (by omega)] at hr
      split_ifs at hr with hspans
      · -- the loop ends here, with the message
        have hreached (p : ℕ) : Reached (pageBytes mem frame) o p ↔ p = o := by
          rw [reached_iff, or_iff_left_iff_imp]
          omega
        subst hr
        dsimp only
        rw [lists_spans_iff hstop ho, forall_mem_map_page]
        simp only [hreached, forall_eq, hstop, forall_true_left]
        rw [KeepsIn, or_iff_right (by omega)]
      · -- the instruction is listed, and the loop goes on
        have hlt : o + (disassmAt (pageBytes mem frame) o).ilen < pageSize := by omega
        rw [Nat.add_assoc, Nat.mod_eq_of_lt (by omega), Nat.add_assoc] at hr
        have hrest := ih _ (by omega) hlt rfl rfl
        have hkeeps : KeepsIn (pageBytes mem frame) o ↔ o + 8 ≤ pageSize := by
          rw [KeepsIn, or_iff_left_iff_imp]
          omega
        have hdecoded : ∀ i ∈ (disassmAt (pageBytes mem frame) o).reads, o + i < pageSize := by
          intro i hi
          have hread := disassm_reads _ i hi
          exact (Nat.add_lt_add_left hread o).trans hlt
        subst hr
        dsimp only
        rw [num_eight_div (by omega), num_page, lists_inst_iff hstop hlt.le]
        simp only [List.forall_mem_append]
        rw [forall_mem_map_page, forall_mem_range'_page]
        constructor
        · rintro ⟨hlists, -, hload, hreads⟩ p hp hplt
          obtain rfl | ⟨-, hp⟩ := reached_iff.1 hp
          · exact hkeeps.2 hload
          · exact hrest.1 ⟨hlists, hreads⟩ p hp hplt
        · intro h
          obtain ⟨hlists, hreads⟩ := hrest.2 fun p hp => h p (.next hlt hp)
          exact ⟨hlists, hdecoded, hkeeps.1 (h o .start hstop), hreads⟩
    · rw [if_neg (by omega)] at hr
      subst hr
      refine iff_of_true ⟨.done (by omega), nofun⟩ fun p hp hlt => ?_
      have hle := le_of_reached hp
      omega

end

/-- **`DISPLAY STORAGE I` stays within the page and lists what is asked for exactly when** the
address is not mapped, or the end is not behind the last address and wherever the loop comes
to, the doubleword is in the page, or the instruction is not and nothing behind the page is
decoded. -/
theorem displayInstruct_listsAsked_iff (frames : ℕ → Option ℕ) (mem : ℕ → UInt8) {addr mlen : ℕ}
    (haddr : addr < 2 ^ 64) (hmlen : mlen < 2 ^ 64) :
    ListsAsked frames mem addr mlen (displayInstruct frames mem addr mlen) ↔
      ∀ frame, frames (addr / pageSize) = some frame →
        addr + instructLen mlen < 2 ^ 64 ∧
          ∀ o, Reached (pageBytes mem frame) (addr % pageSize) o →
            o < addr % pageSize + instructLen mlen → KeepsIn (pageBytes mem frame) o := by
  have hpos : 0 < instructLen mlen ∧ instructLen mlen < 2 ^ 64 := by
    unfold instructLen
    split_ifs <;> omega
  have hsplit : addr / pageSize * pageSize + addr % pageSize = addr := Nat.div_add_mod' ..
  have hpage : pageSize = 4096 := rfl
  rw [displayInstruct, virt2phyCurrent]
  cases hframe : frames (addr / pageSize) with
  | none => exact iff_of_true hframe nofun
  | some frame =>
    simp only [Option.map_some, Option.some.injEq, forall_eq', ListsAsked, hframe,
      exists_eq_left']
    by_cases hwrap : addr + instructLen mlen < 2 ^ 64
    · have hend : addr / pageSize * pageSize + (addr % pageSize + instructLen mlen) < 2 ^ 64 := by
        omega
      have hloop := instructLoop_iff mem frame (Nat.mul_mod_left (addr / pageSize) pageSize) hend
        (Nat.mod_lt addr (by omega)) rfl
      rw [← Nat.add_assoc, hsplit] at hloop
      rw [Nat.mod_eq_of_lt hwrap, hloop]
      exact (and_iff_right hwrap).symm
    · -- nothing is listed
      have hnothing : instructLoop mem ((addr + instructLen mlen) % 2 ^ 64) addr
          (frame * pageSize + addr % pageSize) = ⟨[], false, []⟩ := by
        rw [instructLoop, if_neg (by omega)]
      rw [hnothing]
      refine iff_of_false (fun h => ?_) fun h => hwrap h.1
      cases h.1 with
      | done hdone => omega

/-- Two instructions of two bytes, both asked for and both listed. -/
theorem displayInstruct_listsAsked_iff_two :
    ListsAsked (fun page => some (page + 1)) (fun _ => 0x18) 512 4
        (displayInstruct (fun page => some (page + 1)) (fun _ => 0x18) 512 4) ↔
      ∀ frame, (fun page => some (page + 1)) (512 / pageSize) = some frame →
        512 + instructLen 4 < 2 ^ 64 ∧
          ∀ o, Reached (pageBytes (fun _ => 0x18) frame) (512 % pageSize) o →
            o < 512 % pageSize + instructLen 4 → KeepsIn (pageBytes (fun _ => 0x18) frame) o :=
  displayInstruct_listsAsked_iff _ _ (by decide) (by decide)

/-- An instruction of two bytes that ends at the end of the page gets the message that it
spans pages. -/
theorem not_displayInstruct_listsAsked :
    ¬ ∀ (frames : ℕ → Option ℕ) (mem : ℕ → UInt8) (addr mlen : ℕ), addr < 2 ^ 64 →
      mlen < 2 ^ 64 → ListsAsked frames mem addr mlen (displayInstruct frames mem addr mlen) := by
  intro h
  have hlists := h (fun page => some (page + 1)) (fun _ => 0x18) 4094 2 (by decide) (by decide)
  have hshown : displayInstruct (fun page => some (page + 1)) (fun _ => 0x18) 4094 2 =
      some ⟨[], true, (disassmAt (fun _ => 0x18) 8190).reads.map (8190 + ·)⟩ := by
    have hloop : instructLoop (fun _ => 0x18) 4096 4094 8190 =
        ⟨[], true, (disassmAt (fun _ => 0x18) 8190).reads.map (8190 + ·)⟩ := by
      rw [instructLoop, if_pos (by decide)]
      exact dif_pos (by decide)
    exact congrArg some hloop
  rw [hshown] at hlists
  obtain ⟨frame, -, hpage, -⟩ := hlists
  have hspans := (lists_spans_iff (by decide) (by decide)).1 hpage
  have hlen : (disassmAt (pageBytes (fun _ => 0x18) frame) (4094 % pageSize)).ilen = 2 :=
    show instLen 0x18 = 2 by decide
  rw [hlen] at hspans
  exact absurd hspans (by decide)

end Hvf
