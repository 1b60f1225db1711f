/-
# Spool files

`cp/fs/spool.c` and `cp/include/spool.h`.  A spool file is a queue of records of
1 to 65535 bytes in a list of pages.  A record is its length, two bytes at an
even offset, then the data, which may go on in further pages.

`list` is `f->list` and a page has its address, which `free_pages` takes, and the
`data` behind the list head.  `supply` are the results of the `alloc_pages`
calls to come; a page comes with whatever was in it.  `buf` of
`spool_append_rec` is the storage around the caller's buffer: the code also
reads bytes before it.  The byte order of the length is that of the machine.
-/

import Hvf.Errno
import Hvf.Mm.GuestCopy
import Mathlib.Data.List.ModifyLast
import Mathlib.Tactic

namespace Hvf

/-- `SPOOL_DATA_SIZE`, a page without its list head. -/
def spoolDataSize : ℕ := pageSize - 16

/-- **A page of a spool file** (`struct spool_page`): its address, and its 4080 bytes of
data. -/
structure SpoolPage where
  addr : ℕ
  data : ℕ → UInt8

/-- **A spool file** (`struct spool_file`): its pages, the counters of records and pages,
and the offsets of the first record in the first page and behind the last one in the last
page. -/
structure SpoolFile where
  list : List SpoolPage
  recs : ℕ
  pages : ℕ
  frecoff : ℕ
  lrecoff : ℕ

/-- `alloc_spool`, when its `malloc` succeeds. -/
def allocSpool : SpoolFile := ⟨[], 0, 0, 0, 0⟩

/-- `rec->len` for the record at `off`. -/
def recLen (data : ℕ → UInt8) (off : ℕ) : ℕ := (data off).toNat * 256 + (data (off + 1)).toNat

/-- `rec->len = len` for the record at `off`. -/
def setRecLen (data : ℕ → UInt8) (off len : ℕ) : ℕ → UInt8 :=
  Function.update (Function.update data off (UInt8.ofNat (len / 256))) (off + 1) (UInt8.ofNat len)

/-! ### `spool_grab_rec` -/

/-- The variables of the loop of `spool_grab_rec`; `list_first_entry` of `list`
is `spage`, `freed` are the addresses passed to `free_pages`. -/
structure Grab where
  list : List SpoolPage
  buf : ℕ → UInt8
  copied : ℕ
  processed : ℕ
  offset : ℕ
  left : ℕ
  freed : List ℕ

/-- The page that is used up is freed and the next one is begun. -/
def Grab.nextPage (s : Grab) : Option Grab :=
  match s.list with
  | [] => none
  | spage :: list =>
      some { s with list, freed := s.freed ++ [spage.addr], offset := 0, left := spoolDataSize }

/-- The copy of `tmp` bytes of the page to the user buffer. -/
def Grab.copy (spage : SpoolPage) (tmp : ℕ) (s : Grab) : Grab :=
  { s with
    buf := memcpy s.buf (s.copied - 2) spage.data s.offset tmp
    processed := s.processed + tmp
    copied := s.copied + tmp
    left := s.left - tmp
    offset := s.offset + tmp }

/-- The user buffer is full, but the record is longer. -/
def Grab.skip (tmp : ℕ) (s : Grab) : Grab :=
  { s with
    processed := s.processed + tmp
    left := s.left - tmp
    offset := s.offset + tmp }

/-- The rest of a round; `none` if there is no page. -/
def Grab.consume (reclen rlen : ℕ) (s : Grab) : Option Grab :=
  match s.list with
  | [] => none
  | spage :: _ =>
      if rlen ≠ s.copied then some (s.copy spage (min s.left (rlen - s.copied)))
      else some (s.skip (min s.left (reclen + 2 - s.processed)))

/-- The loop, for at most `fuel` rounds; `none` if it is not done then. -/
def grabLoop (reclen rlen : ℕ) : ℕ → Grab → Option Grab
  | 0, _ => none
  | fuel + 1, s =>
      if reclen + 2 = s.processed then some s
      else do
        let s ← if s.left = 0 then s.nextPage else some s
        let s ← s.consume reclen rlen
        grabLoop reclen rlen fuel s

/-- What `spool_grab_rec` returns and leaves: the return value, `*len`, the
buffer, the file and the freed pages. -/
structure GrabResult where
  ret : Int
  len : ℕ
  buf : ℕ → UInt8
  file : SpoolFile
  freed : List ℕ

/-- `spool_grab_rec` behind its loop. -/
def grabFinish (f : SpoolFile) (s : Grab) : Option GrabResult :=
  let offset := s.offset + s.offset % 2
  if offset = spoolDataSize then
    match s.list with
    | [] => none
    | spage :: list => some ⟨0, s.copied - 2, s.buf,
        { f with list, pages := f.pages - (s.freed.length + 1), recs := f.recs - 1, frecoff := 0 },
        s.freed ++ [spage.addr]⟩
  else some ⟨0, s.copied - 2, s.buf,
    { f with list := s.list, pages := f.pages - s.freed.length, recs := f.recs - 1,
             frecoff := offset }, s.freed⟩

/-- `spool_grab_rec`; `none` if a `BUG_ON` holds, a page is missing or the loop
does not end. -/
def spoolGrabRec (f : SpoolFile) (buf : ℕ → UInt8) (len : ℕ) : Option GrabResult :=
  if len = 0 then some ⟨-einval, len, buf, f, []⟩
  else if f.recs = 0 then some ⟨-enoent, len, buf, f, []⟩
  else if f.lrecoff % 2 ≠ 0 then none
  else
    match f.list with
    | [] => none
    | spage :: _ => do
        let reclen := recLen spage.data f.frecoff
        let rlen := min len reclen + 2
        -- every round takes at least one byte
        let s ← grabLoop reclen rlen (reclen + 1) ⟨f.list, buf, 2, 2, f.frecoff + 2,
          spoolDataSize - f.frecoff - 2, []⟩
        grabFinish f s

/-! ### `spool_append_rec` -/

/-- `spool_append_rec` in the last page: its list of pages, `copied` and `loff`. -/
def fillLastPage (f : SpoolFile) (buf : ℤ → UInt8) (len : ℕ) : List SpoolPage × ℕ × ℕ :=
  let left := spoolDataSize - f.lrecoff
  if f.pages ≠ 0 ∧ 2 ≤ left then
    let fill := fun spage : SpoolPage =>
      let data := setRecLen spage.data f.lrecoff len
      let data := memcpy data (f.lrecoff + 2) (fun i => buf i) 0 (min len (left - 2))
      { spage with data }
    let copied := 2 + min len (left - 2)
    (f.list.modifyLast fill, copied, f.lrecoff + copied)
  else (f.list, 0, 0)

/-- A new page: the length and the first data if nothing was `copied`, else more
data, from `buf-copied+2` on.  Also the bytes used. -/
def fillNewPage (buf : ℤ → UInt8) (len copied : ℕ) (spage : SpoolPage) : SpoolPage × ℕ :=
  let left := spoolDataSize
  if copied = 0 then
    let data := setRecLen spage.data 0 len
    let data := memcpy data 2 (fun i => buf i) 0 (min len (left - 2))
    ({ spage with data }, 2 + min len (left - 2))
  else
    let tmp := min (len + 2 - copied) left
    let data := memcpy spage.data 0 (fun i => buf (2 - copied + i)) 0 tmp
    ({ spage with data }, tmp)

/-- The loop of `spool_append_rec`: `new_pages` and `loff`, or the pages to give
back when `alloc_pages` fails. -/
def newPages (buf : ℤ → UInt8) (len : ℕ) :
    List (Option SpoolPage) → ℕ → ℕ → List SpoolPage → Except (List SpoolPage) (List SpoolPage × ℕ)
  | [], copied, loff, pages => if len + 2 = copied then .ok (pages, loff) else .error pages
  | none :: _, copied, loff, pages => if len + 2 = copied then .ok (pages, loff) else .error pages
  | some spage :: supply, copied, loff, pages =>
      if len + 2 = copied then .ok (pages, loff)
      else
        let (spage, loff) := fillNewPage buf len copied spage
        newPages buf len supply (copied + loff) loff (pages ++ [spage])

/-- **What `spool_append_rec` returns and leaves**: the code, the file, and the pages given
back. -/
structure AppendResult where
  ret : Int
  file : SpoolFile
  freed : List ℕ

/-- `spool_append_rec`; `none` if a `BUG_ON` holds. -/
def spoolAppendRec (f : SpoolFile) (buf : ℤ → UInt8) (len : ℕ) (supply : List (Option SpoolPage)) :
    Option AppendResult :=
  if len = 0 then some ⟨-einval, f, []⟩
  else if f.lrecoff % 2 ≠ 0 then none
  else
    let (list, copied, loff) := fillLastPage f buf len
    if len + 2 < copied then none
    else
      match newPages buf len supply copied loff [] with
      | .ok (pages, loff) => some ⟨0,
          { list := list ++ pages, recs := f.recs + 1, pages := f.pages + pages.length
            frecoff := f.frecoff, lrecoff := loff + loff % 2 }, []⟩
      | .error pages => some ⟨-enomem, { f with list }, pages.map SpoolPage.addr⟩

end Hvf
