/-
# Reading the install archive

`installer/cpio.c`.  `unload_archive` reads cards into a buffer of 2 MB of which
the first `fill` bytes are in use.  Each round takes the header and the name of a
file from its front, then the contents, and moves what is left to the front.

`save_file` is called with the entry of the table, the contents and their length;
it is the parameter `save`, which changes the disk or dies (`none`).  What it does
to the contents in the buffer is gone with them.  The messages are left out.
-/

import Hvf.CString
import Hvf.Installer.Mkarchive
import Hvf.Mm.GuestCopy

namespace Hvf

/-- **A row of the table of files** (`struct table`): the name in the archive, name and type
on the volume, the record length, and whether it is text or goes to a block of its own. -/
structure ArchTable where
  arch : List UInt8
  fn : String
  ft : String
  lrecl : ℕ
  text : Bool
  lba : ℕ
  deriving DecidableEq, Repr

/-- `table`, without the entry that ends it. -/
def archTable : List ArchTable :=
  [⟨ascii "hvf.directory", "HVF     ", "DIRECT  ", 80, true, 0⟩,
   ⟨ascii "system.config", "SYSTEM  ", "CONFIG  ", 80, true, 0⟩,
   ⟨ascii "local-3215.txt", "HVF     ", "LOGO    ", 80, true, 0⟩,
   ⟨ascii "hvf", "HVF     ", "ELF     ", 4096, false, 0⟩,
   ⟨ascii "eckd.rto", "ECKDLOAD", "BIN     ", 4096, false, 1⟩,
   ⟨ascii "loader.rto", "DASDLOAD", "BIN     ", 4096, false, 2⟩,
   ⟨ascii "installed_files.txt", "HVF     ", "TEXT    ", 80, true, 0⟩,
   ⟨ascii "8ball", "8BALL   ", "NSS     ", 4096, false, 0⟩,
   ⟨ascii "ipldev", "IPLDEV  ", "NSS     ", 4096, false, 0⟩,
   ⟨ascii "login", "LOGIN   ", "NSS     ", 4096, false, 0⟩]

/-- `getnumber` of the digits from `i` on, with `ret` before them. -/
def getnumber (data : ℕ → UInt8) : ℕ → ℕ → ℕ → ℕ
  | 0, _, ret => ret
  | digits + 1, i, ret =>
      getnumber data digits (i + 1) ((ret * 8 + (2 ^ 32 + (data i).toNat - 48)) % 2 ^ 32)

/-- `dasd_buf`, `fill` and the cards in the reader; with none left it is at the
end of the media. -/
structure Reader where
  buf : ℕ → UInt8
  fill : ℕ
  cards : List (List UInt8)

/-- `readcard` behind the bytes in use. -/
def Reader.readcard (s : Reader) : Reader :=
  match s.cards with
  | [] => s
  | card :: cards => { s with buf := memcpy s.buf s.fill (fun i => card.getD i 0) 0 80, cards }

/-- One more card, or what takes its place at the end of the media. -/
def Reader.more (s : Reader) : Reader := { s.readcard with fill := s.fill + 80 }

/-- Cards until `need` bytes are in use, at most `fuel` of them. -/
def Reader.fillTo (need : ℕ) : ℕ → Reader → Reader
  | 0, s => s
  | fuel + 1, s => if s.fill < need then s.more.fillTo need fuel else s

/-- The first `n` bytes are done, the `memmove` of the rest to the front. -/
def Reader.advance (s : Reader) (n : ℕ) : Reader :=
  { s with fill := s.fill - n, buf := memcpy s.buf 0 s.buf n (s.fill - n) }

/-- The string at `i`, which ends at the end of the buffer at the latest. -/
def stringAt (buf : ℕ → UInt8) : ℕ → ℕ → List UInt8
  | 0, _ => []
  | n + 1, i => if buf i = 0 then [] else buf i :: stringAt buf n (i + 1)

/-- `(char*) hdr->data`. -/
def Reader.name (s : Reader) : List UInt8 :=
  stringAt s.buf (2 * 1024 * 1024 - cpioHdrSize) cpioHdrSize

/-- A file that is processed or skipped: its name, the entry of the table with
which it is saved, and its contents when they are in storage. -/
structure Unloaded where
  name : List UInt8
  entry : Option ArchTable
  data : List UInt8
  deriving DecidableEq, Repr

section Unload

variable {σ : Type} (save : σ → ArchTable → List UInt8 → Option σ)

/-- `if (save) save_file(&table[i], filesize, dasd_buf)`. -/
def saveUnloaded (disk : σ) (file : Unloaded) : Option σ :=
  match file.entry with
  | some te => save disk te file.data
  | none => some disk

/-- The loop of `unload_archive`: the files up to the trailer or the one with
which `save_file` dies, and the disk if it does not; `none` if the loop is not
done after `fuel` rounds. -/
def unloadLoop : ℕ → σ → Reader → Option (List Unloaded × Option σ)
  | 0, _, _ => none
  | fuel + 1, disk, s =>
      let s := if s.fill < cpioHdrSize then s.more else s
      let namesize := getnumber s.buf 6 59 0
      let filesize := getnumber s.buf 11 65 0
      let s := s.fillTo (namesize + cpioHdrSize) (namesize + cpioHdrSize)
      if namesize = 11 ∧ strncmp trailer s.name 10 = 0 then some ([], some disk)
      else
        let name := s.name
        let entry := archTable.find? fun te => strcmp name te.arch = 0
        let s := s.advance (cpioHdrSize + namesize)
        let s := s.fillTo filesize filesize
        let file := ⟨name, entry, (List.range filesize).map s.buf⟩
        match saveUnloaded save disk file with
        | none => some ([file], none)
        | some disk =>
            (unloadLoop fuel disk (s.advance filesize)).map fun (files, disk) =>
              (file :: files, disk)

/-- `unload_archive`, with what `malloc` finds in storage. -/
def unloadArchive (fuel : ℕ) (disk : σ) (buf : ℕ → UInt8) (cards : List (List UInt8)) :
    Option (List Unloaded × Option σ) :=
  unloadLoop save fuel disk ⟨buf, 0, cards⟩

end Unload

end Hvf
