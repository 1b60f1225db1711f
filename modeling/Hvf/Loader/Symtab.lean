/-
# The loader of the nucleus

`load_nucleus` of `loader/loader_c.c`, from the check of the file at `TEMP_BASE` on,
and the consumer of what it leaves at `SYMTAB_BASE`, `get_section` of
`cp/nucleus/symtab.c`.

The headers are where the ELF64 structures have them:

  Elf64_Ehdr   e_type 16, e_machine 18, e_version 20, e_entry 24, e_phoff 32, e_shoff 40,
               e_ehsize 52, e_phentsize 54, e_phnum 56, e_shentsize 58, e_shnum 60, e_shstrndx 62
  Elf64_Phdr   p_type 0, p_offset 8, p_vaddr 16, p_filesz 32, p_memsz 40
  Elf64_Shdr   sh_type 4, sh_offset 24, sh_size 32, sh_link 40, sh_entsize 56

Addresses are modulo 2^64.  `none` stands for `die`; the jump to the nucleus is the
end of the run.
-/

import Hvf.Lib.Bytes
import Hvf.Lib.ForLoop

namespace Hvf

open Bytes ForLoop

/-- `TEMP_BASE`. -/
def tempBase : ℕ := 0x400000

/-- `SYMTAB_BASE`. -/
def symtabBase : ℕ := 8192

/-! ### ELF headers -/

namespace Ehdr

/-- `e_phoff`: where the program headers are. -/
def phoff (m : Mem) (a : ℕ) : ℕ := num m (a + 32) 8

/-- `e_shoff`: where the section headers are. -/
def shoff (m : Mem) (a : ℕ) : ℕ := num m (a + 40) 8

/-- `e_ehsize`: the size of this header. -/
def ehsize (m : Mem) (a : ℕ) : ℕ := num m (a + 52) 2

/-- `e_phentsize`: the size of a program header. -/
def phentsize (m : Mem) (a : ℕ) : ℕ := num m (a + 54) 2

/-- `e_phnum`: how many there are. -/
def phnum (m : Mem) (a : ℕ) : ℕ := num m (a + 56) 2

/-- `e_shentsize`: the size of a section header. -/
def shentsize (m : Mem) (a : ℕ) : ℕ := num m (a + 58) 2

/-- `e_shnum`: how many there are. -/
def shnum (m : Mem) (a : ℕ) : ℕ := num m (a + 60) 2

/-- `e_shstrndx`: which section holds the names. -/
def shstrndx (m : Mem) (a : ℕ) : ℕ := num m (a + 62) 2

end Ehdr

namespace Phdr

/-- `p_type`: the kind of segment. -/
def type (m : Mem) (a : ℕ) : ℕ := num m a 4

/-- `p_offset`: where it is in the file. -/
def offset (m : Mem) (a : ℕ) : ℕ := num m (a + 8) 8

/-- `p_vaddr`: where it goes. -/
def vaddr (m : Mem) (a : ℕ) : ℕ := num m (a + 16) 8

/-- `p_filesz`: its size in the file. -/
def filesz (m : Mem) (a : ℕ) : ℕ := num m (a + 32) 8

/-- `p_memsz`: its size in storage. -/
def memsz (m : Mem) (a : ℕ) : ℕ := num m (a + 40) 8

end Phdr

namespace Shdr

/-- `sh_type`: the kind of section. -/
def type (m : Mem) (a : ℕ) : ℕ := num m (a + 4) 4

/-- `sh_offset`: where it is in the file. -/
def offset (m : Mem) (a : ℕ) : ℕ := num m (a + 24) 8

/-- `sh_size`: its size. -/
def size (m : Mem) (a : ℕ) : ℕ := num m (a + 32) 8

/-- `sh_link`: the section it refers to. -/
def link (m : Mem) (a : ℕ) : ℕ := num m (a + 40) 4

/-- `sh_entsize`: the size of an entry. -/
def entsize (m : Mem) (a : ℕ) : ℕ := num m (a + 56) 8

end Shdr

/-- `SHT_NULL`: the header of no section. -/
def shtNull : ℕ := 0
/-- `SHT_SYMTAB`: a symbol table. -/
def shtSymtab : ℕ := 2
/-- `SHT_STRTAB`: a string table. -/
def shtStrtab : ℕ := 3

/-- Program header `i` of the file at `base`. -/
def phdrAt (m : Mem) (base i : ℕ) : ℕ :=
  (base + Ehdr.phoff m base + Ehdr.phentsize m base * i) % 2 ^ 64

/-- Section header `i` of the file at `base`; `__get_section` where that is `symtab`. -/
def shdrAt (m : Mem) (base i : ℕ) : ℕ :=
  (base + Ehdr.shoff m base + Ehdr.shentsize m base * i) % 2 ^ 64

/-! ### The program -/

/-- The check of `load_nucleus`. -/
def looksValid (m : Mem) : Bool :=
  m tempBase = 0x7f ∧ m (tempBase + 1) = 0x45 ∧ m (tempBase + 2) = 0x4c ∧ m (tempBase + 3) = 0x46 ∧
    m (tempBase + 4) = 2 ∧ m (tempBase + 5) = 2 ∧ m (tempBase + 6) = 1 ∧
    num m (tempBase + 16) 2 = 2 ∧ num m (tempBase + 18) 2 = 0x16 ∧ num m (tempBase + 20) 4 = 1

/-- `memset`. -/
def memset (m : Mem) (a : ℕ) (c : UInt8) (n : ℕ) : Mem := fun b =>
  if a ≤ b ∧ b < a + n then c else m b

/-- A round of the loop over the program headers. -/
def loadSegment (i : ℕ) (m : Mem) : Mem :=
  let segment := phdrAt m tempBase i
  if Phdr.type m segment ≠ 1 then m
  else
    let m :=
      if Phdr.filesz m segment ≠ 0 then
        copy m (Phdr.vaddr m segment) ((tempBase + Phdr.offset m segment) % 2 ^ 64)
          (Phdr.filesz m segment)
      else m
    if Phdr.filesz m segment ≠ Phdr.memsz m segment then
      memset m ((Phdr.vaddr m segment + Phdr.filesz m segment) % 2 ^ 64) 0
        ((Phdr.memsz m segment + (2 ^ 64 - Phdr.filesz m segment)) % 2 ^ 64)
    else m

/-- The loop over the program headers. -/
def loadSegments (m : Mem) : Mem :=
  forUp (fun m => Ehdr.phnum m tempBase) loadSegment 65536 0 m

/-- **The state of the copy**: the storage, and `symtab`, where the next table goes. -/
structure SymtabCopy where
  mem : Mem
  symtab : ℕ

/-- The ELF header and the program headers are copied. -/
def copyEhdr (m : Mem) : SymtabCopy :=
  let symtab := symtabBase
  let m := copy m symtab tempBase (Ehdr.ehsize m tempBase)
  let symtab := symtab + Ehdr.ehsize m tempBase
  let m := setNum m (symtabBase + 32) 8 (symtab - symtabBase)
  let len := Ehdr.phentsize m tempBase * Ehdr.phnum m tempBase
  let m := copy m symtab ((tempBase + Ehdr.phoff m tempBase) % 2 ^ 64) len
  let symtab := symtab + len
  let m := setNum m (symtabBase + 40) 8 (symtab - symtabBase)
  ⟨setNum m (symtabBase + 60) 2 0, symtab⟩

/-- A section header is copied. -/
def copyShdr (shdr : ℕ) (s : SymtabCopy) : SymtabCopy :=
  let m := copy s.mem s.symtab shdr (Ehdr.shentsize s.mem tempBase)
  let m := setNum m (symtabBase + 60) 2 (Ehdr.shnum m symtabBase + 1)
  ⟨m, s.symtab + Ehdr.shentsize m tempBase⟩

/-- The types of the headers that are copied. -/
def isCopied (type : ℕ) : Bool := type = shtNull ∨ type = shtSymtab ∨ type = shtStrtab

/-- A round of the loop that copies the section headers. -/
def copySection (i : ℕ) (s : SymtabCopy) : SymtabCopy :=
  let shdr := shdrAt s.mem tempBase i
  let type := Shdr.type s.mem shdr
  let m :=
    if type = shtStrtab ∧ i = Ehdr.shstrndx s.mem tempBase then
      setNum s.mem (symtabBase + 62) 2 (Ehdr.shnum s.mem symtabBase)
    else s.mem
  if isCopied type then copyShdr shdr ⟨m, s.symtab⟩ else ⟨m, s.symtab⟩

/-- `memcmp` finds no difference. -/
def sameBytes (m : Mem) (a b n : ℕ) : Bool := (List.range n).all fun k => m (a + k) = m (b + k)

/-- A round of the loop that renumbers `sh_link`. -/
def linkSection (i : ℕ) (m : Mem) : Mem :=
  let shdr := shdrAt m symtabBase i
  if Shdr.link m shdr = 0 then m
  else
    let tmp := shdrAt m tempBase (Shdr.link m shdr)
    let found := (List.range (Ehdr.shnum m symtabBase)).find? fun j =>
      sameBytes m tmp (shdrAt m symtabBase j) (Ehdr.shentsize m symtabBase)
    match found with
    | some j => setNum m (shdr + 40) 4 j
    | none => m

/-- A round of the loop that copies the sections. -/
def copyTable (i : ℕ) (s : SymtabCopy) : SymtabCopy :=
  let shdr := shdrAt s.mem symtabBase i
  let m := copy s.mem s.symtab ((tempBase + Shdr.offset s.mem shdr) % 2 ^ 64) (Shdr.size s.mem shdr)
  let m := setNum m (shdr + 24) 8 (s.symtab - symtabBase)
  ⟨m, s.symtab + Shdr.size m shdr⟩

/-- `load_nucleus` behind the segments: the image at `SYMTAB_BASE`. -/
def buildSymtab (m : Mem) : Mem :=
  let s := copyEhdr m
  let s := forUp (fun s => Ehdr.shnum s.mem tempBase) copySection 65536 0 s
  let m := forUp (fun m => Ehdr.shnum m symtabBase) linkSection 65536 0 s.mem
  (forUp (fun s => Ehdr.shnum s.mem symtabBase) copyTable 65536 1 ⟨m, s.symtab⟩).mem

/-- `load_nucleus` behind `readnucleus`: the storage when the nucleus begins. -/
def loadNucleus (m : Mem) : Option Mem :=
  if looksValid m then some (buildSymtab (loadSegments m)) else none

/-! ### `get_section` -/

/-- `int`. -/
def toInt (n : ℕ) : ℤ := (BitVec.ofNat 32 n).toInt

/-- **What `get_section` returns**: the table, `*entsize` and `*size`, the latter two
through `int` pointers. -/
structure Section where
  table : ℕ
  entsize : ℤ
  size : ℤ

/-- `get_section`. -/
def getSection (m : Mem) (symtab type : ℕ) : Option Section :=
  let getstr := type = shtStrtab
  let type := if getstr then shtSymtab else type
  let found := (List.range (Ehdr.shnum m symtab)).find? fun i =>
    Shdr.type m (shdrAt m symtab i) = type
  found.map fun i =>
    let cur := shdrAt m symtab i
    let cur := if getstr then shdrAt m symtab (Shdr.link m cur) else cur
    ⟨(symtab + Shdr.offset m cur) % 2 ^ 64, toInt (Shdr.entsize m cur), toInt (Shdr.size m cur)⟩

end Hvf
