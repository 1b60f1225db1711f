/-
# Reading the nucleus

`read_blk`, `readnucleus` and `sense_memsize` of `loader/loader_c.c`.  The label and then
the first block of the directory are read to `buf`, the pointer block of the nucleus to
`ptrbuf` behind it, and the blocks that it names to `TEMP_BASE`.  The loader itself is at
8 MB (`linker.script`); once a block has been read over it, nothing is known about the run
any more (`Boot.overwritten`).

An `FST` is laid out as for the installer; of the label the loader reads

  IDENT  0    DBSIZ  12    DOP  16    FSTSZ  36    NFST  40    OFFST  52

The I/O succeeds, and storage goes on as far as it is read.
-/

import Hvf.Fs.EdfRecord
import Hvf.Loader.Symtab

namespace Hvf

open Bytes Loader

/-- `buf` and `ptrbuf`. -/
def loaderBuf : ℕ := 16 * 1024
/-- Where the loader keeps its one pointer block: at 20 kB. -/
def loaderPtrbuf : ℕ := 20 * 1024

/-- Where the loader is. -/
def loaderText : ℕ := 0x800000

/-- `CP_FN` and `CP_FT`. -/
def nucleusName : FileName :=
  ⟨[0xc8, 0xe5, 0xc6, 0x40, 0x40, 0x40, 0x40, 0x40],
    [0xc5, 0xd3, 0xc6, 0x40, 0x40, 0x40, 0x40, 0x40]⟩

/-- **Where the loader seeks**: a cylinder, a head and a record, which it computes in its
own way. -/
structure SeekAddress where
  cc : ℕ
  hh : ℕ
  r : ℕ
  deriving DecidableEq, Repr

/-- What `read_blk` seeks and searches; `cc` is a `u16`. -/
def seekAddress (lba : ℕ) : SeekAddress :=
  let lba := lba - 1
  ⟨lba / 180 % 2 ^ 16, lba % 180 / 12, lba % 180 % 12 + 1⟩

/-- What is in storage from `a` on. -/
def storedAt (m : Mem) (a : ℕ) : DiskBlock := fun i => m (a + i)

section

variable (disk : SeekAddress → DiskBlock)

/-- `read_blk`. -/
def readBlk (m : Mem) (ptr lba : ℕ) : Option Mem :=
  if lba < 1 then none else some (memcpy m ptr (disk (seekAddress lba)) 0 4096)

/-- The check of the label. -/
def goodLabel (adt : DiskBlock) : Bool :=
  ptrAt adt 0 = 0xC3D4E2F1 ∧ ptrAt adt 3 = 4096 ∧ ptrAt adt 13 = 0 ∧ ptrAt adt 9 = 64

/-- The checks of the entry of the nucleus.  The last one is made with the first entry of the
directory. -/
def goodNucleus (dir fst : DiskBlock) : Bool :=
  Fst.ptrsz fst = 4 ∧ Fst.lrecl fst = 4096 ∧ Fst.recfm fst = fstDFix ∧
    Fst.aic dir * Fst.lrecl dir % 2 ^ 32 ≤ 3 * 1024 * 1024

/-- `readnucleus` up to the loop: the storage, and the entry of the nucleus with its number. -/
def openNucleus (m : Mem) : Option (Mem × ℕ × DiskBlock) := do
  let m ← readBlk disk m loaderBuf 3
  let adt := storedAt m loaderBuf
  if goodLabel adt then
    let m ← readBlk disk m loaderBuf (ptrAt adt 4)
    let dir := storedAt m loaderBuf
    if Fst.nlvl (slot dir 0) = 0 then
      let i ← findSlot (ptrAt adt 10) dir nucleusName
      let fst := slot dir i
      if goodNucleus (slot dir 0) fst then
        let m ← readBlk disk m loaderPtrbuf (Fst.fop fst)
        some (m, i, fst)
      else none
    else none
  else none

/-- **A block that is read**: where from, and where it goes in storage. -/
structure BlkRead where
  addr : SeekAddress
  dst : ℕ
  deriving DecidableEq, Repr

/-- How `readnucleus` ends: by `die`, by reading over the loader, or with the nucleus at
`TEMP_BASE`; then with the blocks that were read behind the directory. -/
inductive Boot
  | died
  | overwritten
  | loaded (m : Mem) (log : List BlkRead)

/-- The loop, from `i` on for `n` blocks. -/
def readBlocks : ℕ → ℕ → Mem → List BlkRead → Boot
  | 0, _, m, log => .loaded m log
  | n + 1, i, m, log =>
      let dst := tempBase + 4096 * i
      let lba := ptrAt (storedAt m loaderPtrbuf) i
      match readBlk disk m dst lba with
      | none => .died
      | some m =>
          if loaderText < dst + 4096 then .overwritten
          else readBlocks n (i + 1) m (log ++ [⟨seekAddress lba, dst⟩])

/-- `readnucleus`. -/
def readnucleus (m : Mem) : Boot :=
  match openNucleus disk m with
  | none => .died
  | some (m, _, fst) =>
      readBlocks disk (Fst.aic fst) 0 m [⟨seekAddress (Fst.fop fst), loaderPtrbuf⟩]

end

/-! ### The size of storage -/

/-- The loop of `sense_memsize`, for at most `n` rounds; `tprot` is the condition code of
`TPROT`. -/
def senseFrom (tprot : ℕ → ℕ) : ℕ → ℕ → ℕ
  | 0, size => size
  | n + 1, size =>
      if size < 2 ^ 64 - 1 - 2 ^ 20 - 1 then
        if tprot size = 3 then size else senseFrom tprot n (size + 2 ^ 20)
      else size

/-- `sense_memsize`. -/
def senseMemsize (tprot : ℕ → ℕ) : ℕ := senseFrom tprot (2 ^ 44) 0

/-- Storage comes in megabytes. -/
theorem senseMemsize_mod (tprot : ℕ → ℕ) : senseMemsize tprot % 2 ^ 20 = 0 := by
  have hfrom : ∀ n size, size % 2 ^ 20 = 0 → senseFrom tprot n size % 2 ^ 20 = 0 := by
    intro n
    induction n with
    | zero => exact fun _ h => h
    | succ n ih =>
      intro size h
      rw [senseFrom]
      split
      · split
        · exact h
        · exact ih _ (by omega)
      · exact h
  exact hfrom _ 0 rfl

end Hvf
