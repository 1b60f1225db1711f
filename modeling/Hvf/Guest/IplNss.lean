/-
# Loading a named saved system

`guest_ipl_nss` of `cp/guest/ipl.c`.  The system is an ELF file on the system file
system, which is mounted, so that its blocks have 4096 bytes; the file's program
headers say what goes where in guest storage.  While they are loaded the guest's
address space is the primary one: `pasce` is control register 1.

`IplFault` are the ends that are none: a `BUG_ON` or an assertion that is hit, an error
pointer that is dereferenced, and a read outside of a block's buffer.  The fields are
where `Elf32_Ehdr`, `Elf64_Ehdr`, `Elf32_Phdr` and `Elf64_Phdr` have them.
-/

import Hvf.Fs.Edf
import Hvf.Guest.GuestRun
import Hvf.Lib.Bytes

namespace Hvf

open Bytes

/-- `EIO`: the read failed. -/
def eio : Int := 12

/-! ### The state -/

/-- What is given: the disk, the results of the allocations and block reads, the
translation tables, and `sys->as.segment_table`. -/
structure NssEnv where
  disk : ℕ → DiskBlock
  fails : ℕ → Int
  ebcdic : UInt8 → UInt8
  upper : UInt8 → UInt8
  segmentTable : BitVec 64

/-- The guest, `sysfs` with the block caches of its files, and the primary
address-space designation. -/
structure NssState where
  sys : VirtSys
  fs : EdfFs
  caches : ℕ → List BcacheEntry
  pasce : BitVec 64

/-- How an IPL can go wrong beyond its return code: a `BUG_ON`, a wild pointer, a store outside
its buffer. -/
inductive IplFault
  | bug
  | wild
  | stray
  deriving DecidableEq

/-- The designation that `load_as` loads. -/
def asce (segmentTable : BitVec 64) : BitVec 64 := (segmentTable >>> 12) <<< 12 ||| 3

/-- `load_pasce`. -/
def loadPasce (pasce : BitVec 64) (s : NssState) : NssState :=
  if pasce = 0 then s else { s with pasce }

namespace NssState

/-- `sys->cpu->state = GUEST_CHECKSTOP`. -/
def checkstop (s : NssState) : NssState := { s with sys := iplFail s.sys }

/-- The file that was looked up is open; the cache of a new one is empty. -/
def opened (file : FsFile) (fs : EdfFs) (s : NssState) : NssState :=
  { s with fs, caches :=
      if file.id < s.fs.count then s.caches else Function.update s.caches file.id [] }

end NssState

/-- `bcache_read` of a data block of the file. -/
def readNss (env : NssEnv) (file : FsFile) (blk : ℕ) (s : NssState) :
    Except Int DiskBlock × NssState :=
  let r := bcacheRead ⟨Fst.nlvl file.fst, Fst.fop file.fst, 4096⟩ env.disk env.fails 0 blk
    ⟨s.caches file.id, s.fs.bcache.calls⟩
  (r.1, { s with
    fs := { s.fs with bcache := { s.fs.bcache with calls := r.2.calls } }
    caches := Function.update s.caches file.id r.2.entries })

/-! ### Segments -/

/-- `memcpy_to_guest` with the guest's address space loaded: what it returns, `*len`, and
the state. -/
def nssToGuest (gaddr len : ℕ) (data : ℕ → UInt8) (s : NssState) : Int × ℕ × NssState :=
  let r := memcpyTofromGuest s.sys.as.frames gaddr len false s.sys.mem data
  (r.ret, r.len, { s with sys := { s.sys with mem := r.mem } })

/-- **How far a loop of `__copy_segment` got**: its return code, what it is left with,
`gaddr` and `memlen`, and the state. -/
structure SegmentRest where
  ret : Int
  gaddr : ℕ
  memlen : ℕ
  state : NssState

/-- The first loop of `__copy_segment`. -/
def copyFile (env : NssEnv) (file : FsFile) (foff fslen gaddr memlen : ℕ) (s : NssState) :
    Except IplFault SegmentRest :=
  if h : fslen = 0 then .ok ⟨0, gaddr, memlen, s⟩
  else
    let off := foff % 4096
    let len := min (4096 - off) fslen
    have : 0 < len := by
      have := Nat.mod_lt foff (show 0 < 4096 by decide)
      omega
    match readNss env file (foff / 4096 % 2 ^ 32) s with
    | (.error e, s) => .ok ⟨e, gaddr, memlen, s⟩
    | (.ok buf, s) =>
      match nssToGuest gaddr len (fun i => buf (off + i)) s with
      | (ret, glen, s) =>
        if ret ≠ 0 then .ok ⟨ret, gaddr, memlen, s⟩
        else if glen ≠ len then .error .bug
        else copyFile env file ((foff + len) % 2 ^ 64) (fslen - len) ((gaddr + len) % 2 ^ 64)
          ((memlen + (2 ^ 64 - len)) % 2 ^ 64) s
termination_by fslen

/-- The second loop of `__copy_segment`. -/
def zeroFill (gaddr memlen : ℕ) (s : NssState) : Except IplFault (Int × NssState) :=
  if h : memlen = 0 then .ok (0, s)
  else
    let len := min 4096 memlen
    have : 0 < len := by omega
    match nssToGuest gaddr len (fun _ => 0) s with
    | (ret, glen, s) =>
      if ret ≠ 0 then .ok (ret, s)
      else if glen ≠ len then .error .bug
      else zeroFill ((gaddr + len) % 2 ^ 64) (memlen - len) s
termination_by memlen

/-- `__copy_segment`. -/
def copySegment (env : NssEnv) (file : FsFile) (foff fslen gaddr memlen : ℕ) (s : NssState) :
    Except IplFault (Int × NssState) :=
  match copyFile env file foff fslen gaddr memlen s with
  | .error f => .error f
  | .ok rest =>
    if rest.ret ≠ 0 then .ok (rest.ret, rest.state)
    else zeroFill rest.gaddr rest.memlen rest.state

/-! ### Program headers -/

/-- **A field of an ELF header**: where it is and how many bytes it has, which differs
between the two classes. -/
structure ElfField where
  off : ℕ
  width : ℕ

/-- The members that `__LOAD_LOOP` uses of the headers; `p_type` is the first word of
both kinds of program headers, and `p_align` the last field. -/
structure ElfArch where
  ePhoff : ElfField
  ePhentsize : ElfField
  ePhnum : ElfField
  pOffset : ElfField
  pVaddr : ElfField
  pFilesz : ElfField
  pMemsz : ElfField
  pAlign : ElfField

/-- The offsets and widths of the ELF fields in a 31-bit image. -/
def elfS390 : ElfArch :=
  ⟨⟨28, 4⟩, ⟨42, 2⟩, ⟨44, 2⟩, ⟨4, 4⟩, ⟨8, 4⟩, ⟨16, 4⟩, ⟨20, 4⟩, ⟨28, 4⟩⟩

/-- The offsets and widths of the ELF fields in a 64-bit image. -/
def elfZ : ElfArch :=
  ⟨⟨32, 8⟩, ⟨54, 2⟩, ⟨56, 2⟩, ⟨8, 8⟩, ⟨16, 8⟩, ⟨32, 8⟩, ⟨40, 8⟩, ⟨48, 8⟩⟩

/-- A field of the header at `a`. -/
def ElfField.get (field : ElfField) (buf : DiskBlock) (a : ℕ) : ℕ :=
  num buf (a + field.off) field.width

namespace ElfArch

/-- `hdr->arch.e_phoff + (hdr->arch.e_phentsize * i)`. -/
def phdrOff (arch : ElfArch) (hdr : DiskBlock) (i : ℕ) : ℕ :=
  (arch.ePhoff.get hdr 0 + arch.ePhentsize.get hdr 0 * i) % 256 ^ arch.ePhoff.width

/-- The bytes of a program header up to the end of `p_align`. -/
def phdrSize (arch : ElfArch) : ℕ := arch.pAlign.off + arch.pAlign.width

end ElfArch

/-- `PT_LOAD`. -/
def ptLoad : ℕ := 1

/-- `__LOAD_LOOP` from program header `i` on, over `n` of them; `false` stands for
`goto corrupt`.  It is `file` that it tests, so an error pointer in `buf` is
dereferenced. -/
def loadLoop (env : NssEnv) (arch : ElfArch) (file : FsFile) (hdr : DiskBlock) :
    ℕ → ℕ → NssState → Except IplFault (Bool × NssState)
  | 0, _, s => .ok (true, s)
  | n + 1, i, s =>
    let foff := arch.phdrOff hdr i
    let off := foff % 4096
    if 4096 - off < arch.ePhentsize.get hdr 0 then .error .bug
    else
      match readNss env file (foff / 4096 % 2 ^ 32) s with
      | (.error _, _) => .error .wild
      | (.ok buf, s) =>
        if 4096 < off + 4 then .error .stray
        else if num buf off 4 ≠ ptLoad then loadLoop env arch file hdr n (i + 1) s
        else if 4096 < off + arch.phdrSize then .error .stray
        else if arch.pAlign.get buf off ≠ 4096 then .ok (false, s)
        else
          match copySegment env file (arch.pOffset.get buf off) (arch.pFilesz.get buf off)
            (arch.pVaddr.get buf off) (arch.pMemsz.get buf off) s with
          | .error f => .error f
          | .ok (ret, s) =>
            if ret ≠ 0 then .ok (false, s) else loadLoop env arch file hdr n (i + 1) s

/-! ### The system -/

/-- `fn`, of the name that `nssname` points at. -/
def nssFn (upper : UInt8 → UInt8) (nssname : List UInt8) : List UInt8 :=
  ((nssname ++ List.replicate 8 0x20).take 8).map upper

/-- `NSS_FILE_TYPE`. -/
def nssFileType : List UInt8 := [0x4e, 0x53, 0x53, 0x20, 0x20, 0x20, 0x20, 0x20]

/-- The check of the ELF header. -/
def elfHeaderOk (hdr : DiskBlock) : Bool :=
  hdr 0 = 0x7f ∧ hdr 1 = 0x45 ∧ hdr 2 = 0x4c ∧ hdr 3 = 0x46 ∧ hdr 5 = 2 ∧ hdr 6 = 1 ∧
    num hdr 16 2 = 2 ∧ num hdr 18 2 = 22 ∧ (hdr 4 = 1 ∨ hdr 4 = 2)

/-- `fmt`: this is a 31 bit system. -/
def elfFmt (hdr : DiskBlock) : Bool := hdr 4 = 1

/-- The layout that the header's class byte selects. -/
def elfArch (hdr : DiskBlock) : ElfArch := if elfFmt hdr then elfS390 else elfZ

/-- The PSW that the guest starts with. -/
def nssPsw (hdr : DiskBlock) (i : ℕ) : UInt8 :=
  if elfFmt hdr then
    if i = 1 then 0x08 else if i = 4 then hdr 24 ||| 0x80
    else if 5 ≤ i ∧ i < 8 then hdr (20 + i) else 0
  else if i = 3 then 0x01 else if i = 4 then 0x80
  else if 8 ≤ i ∧ i < 16 then hdr (16 + i) else 0

/-- `guest_ipl_nss` from the check of the header on. -/
def iplHeader (env : NssEnv) (file : FsFile) (hdr : DiskBlock) (s : NssState) :
    Except IplFault (Int × NssState) :=
  if !elfHeaderOk hdr then .ok (-ecorrupt, s.checkstop)
  else
    let s := { s with sys := iplLoad s.sys }
    let saved := s.pasce
    if env.segmentTable = 0 then .error .bug
    else
      let s := { s with pasce := asce env.segmentTable }
      let arch := elfArch hdr
      match loadLoop env arch file hdr (arch.ePhnum.get hdr 0) 0 s with
      | .error f => .error f
      | .ok (false, s) => .ok (-ecorrupt, s.checkstop)
      | .ok (true, s) =>
        let s := loadPasce saved s
        let cpuflags := if elfFmt hdr then s.sys.sie.cpuflags else cpustatZarch
        .ok (0, { s with sys := iplLoaded (nssPsw hdr) cpuflags s.sys })

/-- `guest_ipl_nss`: what it returns, and the state. -/
def guestIplNss (env : NssEnv) (nssname : List UInt8) (s : NssState) :
    Except IplFault (Int × NssState) :=
  if 8 < min nssname.length 9 then .ok (-enoent, s.checkstop)
  else
    match edfLookup env.disk env.fails env.ebcdic (nssFn env.upper nssname) nssFileType s.fs with
    | none => .error .stray
    | some (.error e, fs) =>
        .ok (if e = -enoent then -enoent else -eio, { s with fs }.checkstop)
    | some (.ok file, fs) =>
      let s := s.opened file fs
      if Fst.lrecl file.fst ≠ 4096 ∨ Fst.recfm file.fst ≠ fstDFix then .error .bug
      else
        match readNss env file 0 s with
        | (.error _, s) => .ok (-eio, s.checkstop)
        | (.ok hdr, s) => iplHeader env file hdr s

end Hvf
