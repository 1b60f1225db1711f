/-
# The installer's EDF volume

`installer/edf.c`.  The loader keeps the blocks of the files it uses in a list,
`block_map`; a block is read when it is first wanted and written back at the end.
A file has `FST.NLVL` levels of pointer blocks over its `FST.ADBC` data blocks,
which are level 0.

`directory` and `allocmap` point at the first two FSTs in the first block of the
directory, so a change of the one is a change of the other; a caller has an FST of
its own.  An FST is the 64 bytes that it is on the disk:

  FNAME   0    RECFM  30    ADBC   44
  FTYPE   8    LRECL  32    AIC    48
  FMODE  24    FOP    40    NLVL   52, PTRSZ 53

`none` stands for `die`.  `stray` says that something was written outside of a
block buffer.  The buffers hold 4096 bytes, as `mount_fs` asks for; the I/O
succeeds and so does `malloc`.
-/

import Hvf.Fs.Bcache
import Hvf.Mm.GuestCopy

namespace Hvf

/-! ### Bytes -/

/-- `ptrs[off] = lba`. -/
def setPtrAt (ptrs : DiskBlock) (off lba : ℕ) : DiskBlock := fun i =>
  if i / 4 = off then UInt8.ofNat (lba / 256 ^ (3 - i % 4)) else ptrs i

/-- **A file's name on a volume**: `FNAME` and `FTYPE`, eight bytes each. -/
structure FileName where
  fn : List UInt8
  ft : List UInt8
  deriving DecidableEq, Repr

/-- **`__translate` of a few bytes.**  The test byte of `TRE` is 0, so the bytes from a zero
on stay what they are. -/
def translateBytes (table : UInt8 → UInt8) : List UInt8 → List UInt8
  | [] => []
  | c :: cs => if c = 0 then c :: cs else table c :: translateBytes table cs

/-- The name that `find_file`, `create_file` and `edf_lookup` make of 8 characters each;
`ebcdic` is `ascii2ebcdic_table`. -/
def edfName (ebcdic : UInt8 → UInt8) (fn ft : List UInt8) : FileName :=
  ⟨translateBytes ebcdic (fn.take 8), translateBytes ebcdic (ft.take 8)⟩

namespace Fst

/-- The file name and type of an entry, eight bytes each. -/
def name (fst : DiskBlock) : FileName :=
  ⟨(List.range 8).map fst, (List.range 8).map fun i => fst (8 + i)⟩

/-- The record format. -/
def recfm (fst : DiskBlock) : UInt8 := fst 30

/-- The record length. -/
def lrecl (fst : DiskBlock) : ℕ := ptrAt fst 8

/-- The block number of the file's origin: its data block, or the root of its pointer blocks. -/
def fop (fst : DiskBlock) : ℕ := ptrAt fst 10

/-- The number of data blocks. -/
def adbc (fst : DiskBlock) : ℕ := ptrAt fst 11

/-- The number of records. -/
def aic (fst : DiskBlock) : ℕ := ptrAt fst 12

/-- The number of pointer levels. -/
def nlvl (fst : DiskBlock) : ℕ := (fst 52).toNat

/-- The entry with another origin. -/
def setFop (fst : DiskBlock) (lba : ℕ) : DiskBlock := setPtrAt fst 10 lba

/-- The entry with another number of data blocks. -/
def setAdbc (fst : DiskBlock) (n : ℕ) : DiskBlock := setPtrAt fst 11 n

/-- The entry with another number of records. -/
def setAic (fst : DiskBlock) (n : ℕ) : DiskBlock := setPtrAt fst 12 n

/-- The entry with another number of pointer levels, one byte wide. -/
def setNlvl (fst : DiskBlock) (n : ℕ) : DiskBlock := Function.update fst 52 (UInt8.ofNat n)

end Fst

/-- `FSTDFIX`. -/
def fstDFix : UInt8 := 0xC6

/-- `DIRECTOR_FN` and `DIRECTOR_FT`. -/
def directorName : FileName :=
  ⟨[0, 0, 0, 1, 0, 0, 0, 0], [0xc4, 0xc9, 0xd9, 0xc5, 0xc3, 0xe3, 0xd6, 0xd9]⟩

/-- `ALLOCMAP_FN` and `ALLOCMAP_FT`. -/
def allocmapName : FileName :=
  ⟨[0, 0, 0, 2, 0, 0, 0, 0], [0xc1, 0xd3, 0xd3, 0xd6, 0xc3, 0xd4, 0xc1, 0xd7]⟩

/-! ### The block map -/

/-- **The key of a `struct block_map`**: file, level and number of a block. A block is known
by what it is of its file, not by where it is on the disk. -/
structure BlockKey where
  name : FileName
  level : ℕ
  blkNo : ℕ
  deriving DecidableEq, Repr

/-- **A listed block** (`struct block_map`): its key, where it goes on the disk, its buffer
once it was read or made, and whether it is still to be written. -/
structure BlockMap where
  key : BlockKey
  lba : ℕ
  buf : Option DiskBlock
  dirty : Bool

/-- The volume and what the loader keeps of it; `nfst` is `adt->adt.NFST`, `fsts` are
the FSTs of the callers. -/
structure Loader where
  nfst : ℕ
  disk : ℕ → DiskBlock
  blockMap : List BlockMap
  fsts : ℕ → DiskBlock
  stray : Bool

/-- The first block of the directory. -/
def dirKey : BlockKey := ⟨directorName, 0, 0⟩

namespace Loader

/-- `block_map_find`. -/
def blockMapFind (s : Loader) (key : BlockKey) : Option BlockMap :=
  s.blockMap.find? fun cur => cur.key = key

/-- The entry that `block_map_find` finds is changed; no other has its key. -/
def modify (s : Loader) (key : BlockKey) (f : BlockMap → BlockMap) : Loader :=
  { s with blockMap := s.blockMap.map fun cur => if cur.key = key then f cur else cur }

/-- `block_map_add`. -/
def blockMapAdd (s : Loader) (key : BlockKey) (lba : ℕ) : Option Loader :=
  match s.blockMapFind key with
  | some map => if map.lba ≠ lba then none else some s
  | none => some { s with blockMap := ⟨key, lba, none, false⟩ :: s.blockMap }

/-- `read_file_blk`; there is no block 0 to read. -/
def readFileBlk (s : Loader) (key : BlockKey) : Option (DiskBlock × Loader) :=
  match s.blockMapFind key with
  | none => none
  | some map =>
    match map.buf with
    | some buf => some (buf, s)
    | none =>
      if map.lba < 1 then none
      else
        let buf := s.disk map.lba
        some (buf, s.modify key fun map => { map with buf := some buf })

/-- `blk_set_dirty`. -/
def blkSetDirty (s : Loader) (key : BlockKey) : Option Loader :=
  match s.blockMapFind key with
  | none => none
  | some map =>
    if map.buf.isNone then none else some (s.modify key fun map => { map with dirty := true })

/-- A write to the buffer of a block, between `read_file_blk` and `blk_set_dirty`;
`inside` says whether it is one. -/
def edit (s : Loader) (key : BlockKey) (inside : Bool) (f : DiskBlock → DiskBlock) :
    Option Loader := do
  let (_, s) ← s.readFileBlk key
  let s := s.modify key fun map => { map with buf := map.buf.map f }
  let s ← s.blkSetDirty key
  some { s with stray := s.stray || !inside }

/-- `memcpy` into the buffer of a block. -/
def store (s : Loader) (key : BlockKey) (off : ℕ) (src : ℕ → UInt8) (soff len : ℕ) :
    Option Loader :=
  s.edit key (off + len ≤ 4096) fun dbuf => memcpy dbuf off src soff len

/-- `writeback_buffers`: the disk behind it. -/
def writeback (s : Loader) : Option (ℕ → DiskBlock) :=
  s.blockMap.foldlM (fun disk cur =>
    if cur.dirty then
      match cur.buf with
      | none => none
      | some buf => if cur.lba < 1 then none else some (Function.update disk cur.lba buf)
    else some disk) s.disk

end Loader

/-! ### FSTs -/

/-- **A `struct FST *`**: the directory's own entry, the map's, which is behind it in the
block, or one of a caller. -/
inductive FstPtr
  | directory
  | allocmap
  | caller (i : ℕ)
  deriving DecidableEq

/-- The bytes behind `off`, changed by `f`. -/
def atOff (off : ℕ) (f : DiskBlock → DiskBlock) (buf : DiskBlock) : DiskBlock := fun i =>
  if off ≤ i ∧ i < off + 64 then f (fun j => buf (off + j)) (i - off) else buf i

namespace Loader

/-- What a block holds: its buffer, or what is on the disk. -/
def bufOf (s : Loader) (map : BlockMap) : DiskBlock := map.buf.getD (s.disk map.lba)

/-- The buffer that `directory` points into. -/
def dirBuf (s : Loader) : DiskBlock := ((s.blockMapFind dirKey).map s.bufOf).getD fun _ => 0

/-- `*fst`. -/
def fst (s : Loader) : FstPtr → DiskBlock
  | .directory => s.dirBuf
  | .allocmap => fun i => s.dirBuf (64 + i)
  | .caller i => s.fsts i

/-- A change of `*fst`. -/
def setFst (s : Loader) (p : FstPtr) (f : DiskBlock → DiskBlock) : Loader :=
  match p with
  | .directory => s.modify dirKey fun map => { map with buf := map.buf.map (atOff 0 f) }
  | .allocmap => s.modify dirKey fun map => { map with buf := map.buf.map (atOff 64 f) }
  | .caller i => { s with fsts := Function.update s.fsts i (f (s.fsts i)) }

/-- Entry `rec` of a block of the directory. -/
def slot (buf : DiskBlock) (rec : ℕ) : DiskBlock := fun i => buf (64 * rec + i)

/-- The first entry of a block of the directory that has the name. -/
def findSlot (nfst : ℕ) (buf : DiskBlock) (name : FileName) : Option ℕ :=
  (List.range nfst).find? fun rec => Fst.name (slot buf rec) = name

/-- The loop of `find_file` from block `blk` on, over `n` blocks. -/
def findBlocks (name : FileName) : ℕ → ℕ → Loader → Option (Option DiskBlock × Loader)
  | 0, _, s => some (none, s)
  | n + 1, blk, s => do
      let (buf, s) ← s.readFileBlk ⟨directorName, 0, blk⟩
      match findSlot s.nfst buf name with
      | some rec => some (some (slot buf rec), s)
      | none => findBlocks name n (blk + 1) s

/-- `find_file`: what it copies to `*fst` if it returns 0, `none` if it returns -1. -/
def findFile (s : Loader) (ebcdic : UInt8 → UInt8) (fn ft : List UInt8) :
    Option (Option DiskBlock × Loader) :=
  findBlocks (edfName ebcdic fn ft) (Fst.adbc (s.fst .directory)) 0 s

/-- The loop of `update_directory` from block `blk` on, over `n` blocks. -/
def updateBlocks (fst : DiskBlock) : ℕ → ℕ → Loader → Option Loader
  | 0, _, _ => none
  | n + 1, blk, s => do
      let key : BlockKey := ⟨directorName, 0, blk⟩
      let (buf, s) ← s.readFileBlk key
      match findSlot s.nfst buf (Fst.name fst) with
      | some rec => s.store key (64 * rec) fst 0 64
      | none => updateBlocks fst n (blk + 1) s

/-- `update_directory`. -/
def updateDirectory (s : Loader) (p : FstPtr) : Option Loader :=
  updateBlocks (s.fst p) (Fst.adbc (s.fst .directory)) 0 s

end Loader

/-! ### Blocks -/

/-- `file_blocks_at_level`. -/
def fileBlocksAtLevel (adbc level : ℕ) : ℕ :=
  let blks := 1024 ^ level
  (adbc + blks - 1) % 2 ^ 32 / blks

/-- The first bit of a byte of the allocation map that is clear. -/
def freeBit (byte : UInt8) : Option ℕ :=
  if byte = 0xff then none
  else (List.range 8).find? fun bit => byte &&& 0x80 >>> UInt8.ofNat bit = 0

/-- The first bit that is clear of the bytes from `i` on, over `n` of them. -/
def freeBitFrom (buf : DiskBlock) : ℕ → ℕ → Option (ℕ × ℕ)
  | 0, _ => none
  | n + 1, i =>
      match freeBit (buf i) with
      | some bit => some (i, bit)
      | none => freeBitFrom buf n (i + 1)

namespace Loader

/-- `__get_free_block` from `found` on: the bit is set. -/
def takeBit (s : Loader) (key : BlockKey) (blk i bit : ℕ) : Option (ℕ × Loader) := do
  let s ← s.edit key true fun buf => Function.update buf i (buf i ||| 0x80 >>> UInt8.ofNat bit)
  some (blk * 4096 * 8 + i * 8 + bit + 1, s)

/-- The loop of `__get_free_block` from block `blk` on, over `n` blocks. -/
def freeFrom : ℕ → ℕ → Loader → Option (ℕ × Loader)
  | 0, _, _ => none
  | n + 1, blk, s => do
      let key : BlockKey := ⟨Fst.name (s.fst .allocmap), 0, blk⟩
      let (buf, s) ← s.readFileBlk key
      match freeBitFrom buf 4096 0 with
      | some (i, bit) => s.takeBit key blk i bit
      | none => freeFrom n (blk + 1) s

/-- `__get_free_block`. -/
def getFreeBlock (s : Loader) : Option (ℕ × Loader) :=
  freeFrom (Fst.adbc (s.fst .allocmap)) 0 s

/-- `__append_block` behind its loop: a new root. -/
def appendRoot (p : FstPtr) (prevlba : ℕ) (s : Loader) : Option Loader := do
  let key : BlockKey := ⟨Fst.name (s.fst p), Fst.nlvl (s.fst p) + 1, 0⟩
  let (lba, s) ← s.getFreeBlock
  let s ← s.blockMapAdd key lba
  let fop := Fst.fop (s.fst p)
  let s ← s.edit key true fun buf => setPtrAt (setPtrAt buf 0 fop) 1 prevlba
  some (s.setFst p fun fst =>
    Fst.setAdbc (Fst.setNlvl (Fst.setFop fst lba) (Fst.nlvl fst + 1)) (Fst.adbc fst + 1))

/-- The loop of `__append_block` from level `lvl` on, over `n` levels. -/
def appendLevels (p : FstPtr) : ℕ → ℕ → ℕ → Loader → Option Loader
  | 0, _, prevlba, s => appendRoot p prevlba s
  | n + 1, lvl, prevlba, s => do
      let adbc := Fst.adbc (s.fst p)
      let blk := fileBlocksAtLevel (adbc + 1) lvl
      let key : BlockKey := ⟨Fst.name (s.fst p), lvl, blk - 1⟩
      match s.blockMapFind key with
      | some _ =>
          if lvl = 0 then none
          else do
            let x := fileBlocksAtLevel (adbc + 1) (lvl - 1) % 1024
            -- with x = 0 the pointer goes before the buffer
            let s ← s.edit key (x ≠ 0) fun buf =>
              if x = 0 then buf else setPtrAt buf (x - 1) prevlba
            some (s.setFst p fun fst => Fst.setAdbc fst (Fst.adbc fst + 1))
      | none => do
          let (lba, s) ← s.getFreeBlock
          let s ← s.blockMapAdd key lba
          let s ← if lvl = 0 then some s else s.edit key true fun buf => setPtrAt buf 0 prevlba
          appendLevels p n (lvl + 1) lba s

/-- `__append_block`. -/
def appendBlock (s : Loader) (p : FstPtr) : Option Loader :=
  if Fst.adbc (s.fst p) = 0 then do
    let s := s.setFst p fun fst => Fst.setNlvl (Fst.setAdbc fst 1) 0
    let (lba, s) ← s.getFreeBlock
    let s := s.setFst p fun fst => Fst.setFop fst lba
    s.blockMapAdd ⟨Fst.name (s.fst p), 0, 0⟩ lba
  else appendLevels p (Fst.nlvl (s.fst p) + 1) 0 0 s

/-- `append_record`. -/
def appendRecord (s : Loader) (p : FstPtr) (buf : ℕ → UInt8) : Option Loader :=
  if Fst.recfm (s.fst p) ≠ fstDFix then none
  else do
    let lrecl := Fst.lrecl (s.fst p)
    let foff := Fst.aic (s.fst p) * lrecl % 2 ^ 32
    let blk := foff / 4096
    let off := foff % 4096
    let rem := (Fst.adbc (s.fst p) * 4096 + (2 ^ 32 - foff)) % 2 ^ 32
    let s ← if rem < lrecl then s.appendBlock p else some s
    let name := Fst.name (s.fst p)
    let s ←
      if rem = 0 ∨ lrecl ≤ rem then s.store ⟨name, 0, blk⟩ off buf 0 lrecl
      else do
        let s ← s.store ⟨name, 0, blk⟩ off buf 0 rem
        s.store ⟨name, 0, blk + 1⟩ 0 buf rem (lrecl - rem)
    let s := s.setFst p fun fst => Fst.setAic fst (Fst.aic fst + 1)
    s.updateDirectory p

/-- `create_file`; `fst` is the FST of caller `i`, `ebcdic` is `ascii2ebcdic_table`. -/
def createFile (s : Loader) (ebcdic : UInt8 → UInt8) (fn ft : List UInt8) (lrecl i : ℕ) :
    Option Loader :=
  let name := edfName ebcdic fn ft
  let fst : DiskBlock := fun i =>
    if i < 16 then (name.fn ++ name.ft).getD i 0
    else if i = 24 then 0xc1
    else if i = 25 then 0xf1
    else if i = 30 then fstDFix
    else if i = 53 then 4
    else 0
  let fst := setPtrAt fst 8 lrecl
  let s := { s with fsts := Function.update s.fsts i fst }
  s.appendRecord .directory fst

/-! ### `mount_fs` -/

/-- The pointers of one pointer block, from `j` on, over `n` of them. -/
def addPtrs (name : FileName) (level i : ℕ) (ptrs : DiskBlock) : ℕ → ℕ → Loader → Option Loader
  | 0, _, s => some s
  | n + 1, j, s => do
      let s ← s.blockMapAdd ⟨name, level - 1, i * 1024 + j⟩ (ptrAt ptrs j)
      addPtrs name level i ptrs n (j + 1) s

/-- The pointer blocks of a level, from `i` on, over `n` of them. -/
def addLevel (name : FileName) (level : ℕ) : ℕ → ℕ → Loader → Option Loader
  | 0, _, s => some s
  | n + 1, i, s => do
      let (ptrs, s) ← s.readFileBlk ⟨name, level, i⟩
      let s ← addPtrs name level i ptrs 1024 0 s
      addLevel name level n (i + 1) s

/-- The levels of pointer blocks, from the top down. -/
def addLevels (fst : DiskBlock) : ℕ → Loader → Option Loader
  | 0, s => some s
  | level + 1, s => do
      let blocks := fileBlocksAtLevel (Fst.adbc fst) (level + 1)
      if level + 1 = Fst.nlvl fst ∧ blocks ≠ 1 then none
      else
        let s ← addLevel (Fst.name fst) (level + 1) blocks 0 s
        addLevels fst level s

/-- `__read_file`; `FST.PTRSZ` is 4. -/
def readFile (s : Loader) (p : FstPtr) : Option Loader := do
  let fst := s.fst p
  if Fst.nlvl fst = 0 then s.blockMapAdd ⟨Fst.name fst, 0, 0⟩ (Fst.fop fst)
  else
    let s ← s.blockMapAdd ⟨Fst.name fst, Fst.nlvl fst, 0⟩ (Fst.fop fst)
    addLevels fst (Fst.nlvl fst) s

/-- `mount_fs` of a disk, with what the callers' FSTs hold. -/
def mountFs (disk : ℕ → DiskBlock) (fsts : ℕ → DiskBlock) : Option Loader := do
  let adt := disk 3
  if ptrAt adt 0 ≠ 0xC3D4E2F1 ∨ ptrAt adt 3 ≠ 4096 ∨ ptrAt adt 13 ≠ 0 ∨ ptrAt adt 9 ≠ 64 then none
  else
    let s : Loader := ⟨ptrAt adt 10, disk, [], fsts, false⟩
    let s ← s.blockMapAdd dirKey (ptrAt adt 4)
    let (buf, s) ← s.readFileBlk dirKey
    if Fst.name (slot buf 0) ≠ directorName ∨ Fst.recfm (slot buf 0) ≠ fstDFix ∨
        Fst.name (slot buf 1) ≠ allocmapName ∨ Fst.recfm (slot buf 1) ≠ fstDFix then none
    else
      let s ← s.readFile .directory
      s.readFile .allocmap

end Loader

end Hvf
