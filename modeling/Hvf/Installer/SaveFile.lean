/-
# Saving a file of the install archive

`save_file` of `installer/cpio.c` over the file system of `installer/edf.c`.  A file that is
on the disk already, or a loader that does not fit into one block, is not saved: the installer
dies.  Otherwise the contents are translated in place if the file is a text, a loader is
written to its block as well, and the contents are cut into records of `te->lrecl` bytes, the
last one filled up with zeros.

The contents are in the front of `dasd_buf`, and `save_file` knows where they end but not what
is behind them: the block of a loader takes 4096 bytes of the buffer in any case, and the
translation changes bytes of the contents only (`saveFile_behind`).  The messages are left out.
-/

import Hvf.Installer.Cpio
import Hvf.Installer.Edf

namespace Hvf

/-- The size of `dasd_buf`. -/
def dasdBufSize : ℕ := 2 * 1024 * 1024

/-- How `unload_archive` ends: with the trailer or by `die`.  With a write outside `dasd_buf`
(`outside`) or outside the buffer of a block (`stray`), or with a `fill` above `INT_MAX`,
nothing more is known about it. -/
inductive UnloadEnd
  | trailer
  | died
  | outside
  | overflow
  | stray
  deriving DecidableEq

/-- Where `ascii2ebcdic` stops: behind the `n` bytes, or at a zero in them. -/
def textEnd (buf : ℕ → UInt8) : ℕ → ℕ → ℕ
  | 0, i => i
  | n + 1, i => if buf i = 0 then i else textEnd buf n (i + 1)

namespace Loader

/-- `find_file` and `create_file` of an entry of the table; a file that is found is the end.
The FST is the one of caller 0. -/
def newFile (ebcdic : UInt8 → UInt8) (te : ArchTable) (s : Loader) : Option Loader := do
  let (found, s) ← s.findFile ebcdic (ascii te.fn) (ascii te.ft)
  if found.isSome then none else s.createFile ebcdic (ascii te.fn) (ascii te.ft) te.lrecl 0

/-- The loop over the whole records, from `rec` on, over `n` of them. -/
def appendRecords (lrecl : ℕ) (buf : ℕ → UInt8) : ℕ → ℕ → Loader → Option Loader
  | 0, _, s => some s
  | n + 1, rec, s => do
      let s ← s.appendRecord (.caller 0) fun i => buf (rec * lrecl + i)
      appendRecords lrecl buf n (rec + 1) s

/-- The records of the contents.  What is left behind the last whole record is copied to
`buf2`, which holds zeros. -/
def saveRecords (lrecl filesize : ℕ) (buf : ℕ → UInt8) (s : Loader) : Option Loader := do
  let s ← appendRecords lrecl buf (filesize / lrecl) 0 s
  if filesize % lrecl = 0 then some s
  else s.appendRecord (.caller 0) (memcpy (fun _ => 0) 0 buf (filesize / lrecl * lrecl)
    (filesize % lrecl))

/-- `write_blk(buf, lba)`: 4096 bytes of the buffer. -/
def writeBlk (lba : ℕ) (buf : ℕ → UInt8) (s : Loader) : Loader :=
  { s with disk := Function.update s.disk lba fun i => if i < 4096 then buf i else 0 }

/-- `save_file` behind the translation.  A loader of more than one record is the end, which
comes after the file was created. -/
def putFile (te : ArchTable) (filesize : ℕ) (buf : ℕ → UInt8) (s : Loader) : Option Loader :=
  if te.lba = 0 then s.saveRecords te.lrecl filesize buf
  else if te.lrecl < filesize then none
  else (s.writeBlk te.lba buf).saveRecords te.lrecl filesize buf

end Loader

/-- **`save_file(te, filesize, dasd_buf)`:** what `dasd_buf` holds behind it, and the volume.
`ebcdic` is `ascii2ebcdic_table`. -/
def saveFile (ebcdic : UInt8 → UInt8) (te : ArchTable) (filesize : ℕ) (buf : ℕ → UInt8)
    (disk : Loader) : Except UnloadEnd ((ℕ → UInt8) × Loader) :=
  match disk.newFile ebcdic te with
  | none => .error .died
  | some disk =>
      if disk.stray then .error .stray
      else
        let n := if te.text then textEnd buf filesize 0 else 0
        if dasdBufSize < n then .error .outside
        else
          let buf := fun i => if i < n then ebcdic (buf i) else buf i
          match disk.putFile te filesize buf with
          | none => .error .died
          | some disk => if disk.stray then .error .stray else .ok (buf, disk)

section

variable {ebcdic : UInt8 → UInt8} {te : ArchTable} {filesize : ℕ} {buf : ℕ → UInt8}
  {disk : Loader}

/-- The end of a line is searched for within the bytes left. -/
theorem textEnd_le (buf : ℕ → UInt8) (n i : ℕ) : textEnd buf n i ≤ i + n := by
  induction n generalizing i with
  | zero => exact le_rfl
  | succ n ih =>
    rw [textEnd]
    split
    · omega
    · exact (ih (i + 1)).trans (by omega)

/-- **Only the contents are translated,** and the archive cannot end with a file. -/
theorem saveFile_behind (ebcdic : UInt8 → UInt8) (te : ArchTable) (buf : ℕ → UInt8) (disk : Loader)
    (hroom : filesize ≤ dasdBufSize) :
    match saveFile ebcdic te filesize buf disk with
    | .ok r => ∀ i, filesize ≤ i → r.1 i = buf i
    | .error e => e = .died ∨ e = .stray := by
  unfold saveFile
  cases disk.newFile ebcdic te with
  | none => exact Or.inl rfl
  | some disk =>
    have hend : (if te.text then textEnd buf filesize 0 else 0) ≤ filesize := by
      split
      · exact (textEnd_le buf filesize 0).trans_eq (Nat.zero_add _)
      · exact Nat.zero_le _
    dsimp only
    generalize (if te.text then textEnd buf filesize 0 else 0) = n at hend ⊢
    rw [if_neg (show ¬ dasdBufSize < n by omega)]
    by_cases hstray : disk.stray = true
    · rw [if_pos hstray]
      exact Or.inr rfl
    rw [if_neg hstray]
    cases disk.putFile te filesize fun i => if i < n then ebcdic (buf i) else buf i with
    | none => exact Or.inl rfl
    | some disk =>
      dsimp only
      by_cases hstray : disk.stray = true
      · rw [if_pos hstray]
        exact Or.inr rfl
      · rw [if_neg hstray]
        exact fun i hi => if_neg (by omega)

/-- Saving a file does not end the unload: data that fits the buffer is saved, or the program
dies in another way. -/
theorem saveFile_ne_trailer (hroom : filesize ≤ dasdBufSize) :
    saveFile ebcdic te filesize buf disk ≠ .error .trailer := by
  intro hsave
  have hcases := saveFile_behind ebcdic te buf disk hroom
  rw [hsave] at hcases
  rcases hcases with hcases | hcases
  · cases hcases
  · cases hcases

/-- **A file that is on the disk already** is not saved. -/
theorem saveFile_of_found {fst : DiskBlock} {s : Loader}
    (h : disk.findFile ebcdic (ascii te.fn) (ascii te.ft) = some (some fst, s)) :
    saveFile ebcdic te filesize buf disk = .error .died := by
  have hnone : disk.newFile ebcdic te = none := by
    rw [Loader.newFile, h]
    rfl
  rw [saveFile, hnone]

/-- **A loader of more than a block** is not saved either. -/
theorem saveFile_of_long (hlba : te.lba ≠ 0) (hlong : te.lrecl < filesize)
    (hroom : filesize ≤ dasdBufSize) :
    saveFile ebcdic te filesize buf disk = .error .died ∨
      saveFile ebcdic te filesize buf disk = .error .stray := by
  have hnone : ∀ (buf : ℕ → UInt8) (s : Loader), s.putFile te filesize buf = none :=
    fun buf s => by rw [Loader.putFile, if_neg hlba, if_pos hlong]
  have hcases := saveFile_behind ebcdic te buf disk hroom
  cases hsave : saveFile ebcdic te filesize buf disk with
  | error e =>
    rw [hsave] at hcases
    exact hcases.imp (congrArg _) (congrArg _)
  | ok r =>
    rw [saveFile] at hsave
    cases hnew : disk.newFile ebcdic te with
    | none => rw [hnew] at hsave; cases hsave
    | some s =>
      rw [hnew] at hsave
      simp only [hnone] at hsave
      split_ifs at hsave

end

end Hvf
