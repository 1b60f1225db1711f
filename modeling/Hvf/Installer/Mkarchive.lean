/-
# Writing the install archive

`build/mkarchive.c` and `build/padcat.c`.  For each file the archive has a header
of digits in ASCII, the name with its NUL and the contents; a file that is called
`TRAILER!!!` ends it.

  field      offset  length        field      offset  length
  magic         0       6          nlink        36       6
  dev           6       6          rdev         42       6
  ino          12       6          mtime        48      11
  mode         18       6          namesize     59       6
  uid          24       6          filesize     65      11
  gid          30       6          data         76

`padcat` cuts it into cards of 80 bytes.
-/

import Mathlib.Tactic

namespace Hvf

/-- `sizeof(struct cpio_hdr)`. -/
def cpioHdrSize : ℕ := 76

/-- The loop of `storeoct`, for at most `fuel` rounds: `val` in octal, up to
`pos`. -/
def storeoct : ℕ → List UInt8 → ℕ → ℕ → List UInt8
  | 0, hdr, _, _ => hdr
  | fuel + 1, hdr, pos, val =>
      if val = 0 then hdr
      else storeoct fuel (hdr.set (pos - 1) (UInt8.ofNat (48 + val % 8))) (pos - 1) (val / 8)

/-- `mkhdr` for a name of `len` characters.  An `unsigned` has at most 11 octal
digits. -/
def mkhdr (len filesize : ℕ) : List UInt8 :=
  let hdr := List.replicate cpioHdrSize 48
  let hdr := ((hdr.set 1 55).set 3 55).set 5 55
  let hdr := hdr.set 41 49
  let hdr := storeoct 11 hdr 65 ((len + 1) % 2 ^ 32)
  storeoct 11 hdr 76 (filesize % 2 ^ 32)

/-! ### Text files -/

/-- `fgets` for at most `n` characters: what it reads, and the rest of the file. -/
def fgets : ℕ → List UInt8 → List UInt8 × List UInt8
  | 0, f => ([], f)
  | _ + 1, [] => ([], [])
  | n + 1, c :: f =>
      if c = 10 then ([c], f)
      else
        let (data, f) := fgets n f
        (c :: data, f)

/-- The record for what `fgets` read. -/
def textRecord (lrecl : ℕ) (data : List UInt8) : List UInt8 :=
  let l := (data.takeWhile (· ≠ 0)).length
  let l := if l ≠ 0 ∧ data.getD (l - 1) 0 ≠ 0 then l - 1 else l
  data.take l ++ List.replicate (lrecl - l) 32

/-- The loop of `__text`: the buffers, for at most `fuel` of them. -/
def textRecords (lrecl : ℕ) : ℕ → List UInt8 → List (List UInt8)
  | 0, _ => []
  | fuel + 1, f =>
      if f = [] then []
      else
        let (data, f) := fgets lrecl f
        textRecord lrecl data :: textRecords lrecl fuel f

/-! ### Binary files -/

/-- The loop of `__bin`: the buffers, for at most `fuel` of them. -/
def binBuffers : ℕ → List UInt8 → List (List UInt8)
  | 0, _ => []
  | fuel + 1, f =>
      if f = [] then [] else f.take 4096 :: binBuffers fuel (f.drop 4096)

/-! ### The archive -/

/-- A file on the command line: its base name, how it is archived and what is in
it. -/
inductive ArchiveFile
  | text (fn : List UInt8) (lrecl : ℕ) (f : List UInt8)
  | bin (fn : List UInt8) (f : List UInt8)

/-- The name a file is archived under. -/
def ArchiveFile.fn : ArchiveFile → List UInt8
  | .text fn _ _ => fn
  | .bin fn _ => fn

/-- The buffers that are written behind the name. -/
def ArchiveFile.buffers : ArchiveFile → List (List UInt8)
  | .text _ lrecl f => textRecords lrecl f.length f
  | .bin _ f => binBuffers f.length f

/-- The length that `__text` counts in records and `__bin` in bytes read. -/
def ArchiveFile.flen : ArchiveFile → ℕ
  | .text _ lrecl f => lrecl * (textRecords lrecl f.length f).length
  | .bin _ f => ((binBuffers f.length f).map List.length).sum

/-- What `__text` or `__bin` writes; `none` if the program is left. -/
def ArchiveFile.write (file : ArchiveFile) : Option (List UInt8) :=
  match file with
  | .text _ 0 _ => none
  | _ => some (mkhdr file.fn.length file.flen ++ file.fn ++ [0] ++ file.buffers.flatten)

/-- `TRAILER!!!`. -/
def trailer : List UInt8 := [84, 82, 65, 73, 76, 69, 82, 33, 33, 33]

/-- `mktail`.  What it writes itself does not count. -/
def mktail (len : ℕ) : List UInt8 :=
  mkhdr trailer.length 0 ++ trailer ++ List.replicate ((512 - len % 512) % 512) 0

/-- `main` of `mkarchive`. -/
def mkarchive (files : List ArchiveFile) : Option (List UInt8) := do
  let parts ← files.mapM ArchiveFile.write
  let len := (files.map fun file => file.flen + file.fn.length + 1 + cpioHdrSize).sum
  some (parts.flatten ++ mktail (len % 2 ^ 32))

/-! ### Cards -/

/-- The loop of `cat`, for at most `fuel` rounds. -/
def cat : ℕ → List UInt8 → List (List UInt8)
  | 0, _ => []
  | fuel + 1, f =>
      let buf := f.take 80
      let n := buf.length
      let cards := if n = 80 then cat fuel (f.drop 80) else []
      if n ≠ 0 then (buf ++ List.replicate (80 - n) 0) :: cards else cards

/-- `main` of `padcat`. -/
def padcat (files : List (List UInt8)) : List (List UInt8) :=
  files.flatMap fun f => cat (f.length + 1) f

end Hvf
