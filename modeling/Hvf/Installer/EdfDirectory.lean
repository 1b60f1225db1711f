/-
# The entries of the directory

Entry `k` of the directory is the FST in slot `k % 64` of its block `k / 64`.  The
blocks are scanned slot by slot, so that `find_file` and `update_directory` come to
the first entry that has the name (`FirstAt`), whether or not it is one of the
`FST.AIC` that are in use.

Entry 0 is the directory's own FST and entry 1 that of the allocation map.
-/

import Hvf.Installer.EdfFrame

namespace Hvf

open Loader Outcome

/-! ### FSTs -/

/-- The same FST. -/
def SameFst (a b : DiskBlock) : Prop := ∀ j < 64, a j = b j

namespace SameFst

variable {a b c : DiskBlock}

/-- An entry is the same as itself. -/
theorem refl (a : DiskBlock) : SameFst a a := fun _ _ => rfl

/-- Being the same entry goes both ways. -/
theorem symm (h : SameFst a b) : SameFst b a := fun j hj => (h j hj).symm

/-- Being the same entry composes. -/
theorem trans (h : SameFst a b) (h' : SameFst b c) : SameFst a c :=
  fun j hj => (h j hj).trans (h' j hj)

/-- The same entry is of the same file. -/
theorem sameFile (h : SameFst a b) : SameFile b a := sameFile_of_bytes fun i hi => h i (by omega)

/-- The same entry has the same name. -/
theorem name (h : SameFst a b) : Fst.name a = Fst.name b := h.sameFile.name

/-- The same entry has the same words. -/
theorem word (h : SameFst a b) {off : ℕ} (hoff : off < 16) : ptrAt a off = ptrAt b off :=
  ptrAt_congr fun i _ hi => h i (by omega)

end SameFst

/-! ### Entries -/

namespace View

/-- A data block of the directory. -/
def dirBlock (v : View) (blk : ℕ) : DiskBlock := v.content ⟨directorName, 0, blk⟩

/-- The `k`-th entry of the directory, as the blocks hold it. -/
def entry (v : View) (k : ℕ) : DiskBlock := slot (v.dirBlock (k / 64)) (k % 64)

/-- The name in the `k`-th entry. -/
def entryName (v : View) (k : ℕ) : FileName := Fst.name (v.entry k)

/-- `directory->AIC`. -/
def entries (v : View) : ℕ := Fst.aic (v.entry 0)

/-- `directory->ADBC`. -/
def dirBlocks (v : View) : ℕ := Fst.adbc (v.entry 0)

/-- The directory's own entry is at the beginning of its first block. -/
theorem entry_zero (v : View) : v.entry 0 = v.content dirKey := by
  funext i
  rw [entry, slot, Nat.mul_zero, Nat.zero_add]
  rfl

/-- The map's entry is the second one. -/
theorem entry_one (v : View) : v.entry 1 = fun i => v.content dirKey (64 + i) := rfl

/-- An entry depends on the block it is in. -/
theorem entry_congr {v v' : View} {k : ℕ} (h : v'.dirBlock (k / 64) = v.dirBlock (k / 64)) :
    v'.entry k = v.entry k := by
  rw [entry, entry, h]

/-- **Entry `k` is the first one from `lo` on that has the name**, the one that a search
from there finds. -/
structure FirstAt (v : View) (name : FileName) (lo k : ℕ) : Prop where
  le : lo ≤ k
  named : v.entryName k = name
  first : ∀ k', lo ≤ k' → k' < k → v.entryName k' ≠ name

/-- The first entry of a name from a later place on is the first from an earlier one, if none
between has the name. -/
theorem FirstAt.of_next {v : View} {name : FileName} {lo lo' k : ℕ} (h : v.FirstAt name lo' k)
    (hle : lo ≤ lo') (hnone : ∀ k', lo ≤ k' → k' < lo' → v.entryName k' ≠ name) :
    v.FirstAt name lo k := by
  refine ⟨hle.trans h.le, h.named, fun k' hge hlt => ?_⟩
  by_cases hlow : k' < lo'
  · exact hnone k' hge hlow
  · exact h.first k' (by omega) hlt

/-- The slots of one block. -/
theorem findSlot_some {v : View} {blk rec : ℕ} {name : FileName}
    (h : findSlot 64 (v.dirBlock blk) name = some rec) :
    rec < 64 ∧ slot (v.dirBlock blk) rec = v.entry (64 * blk + rec) ∧
      v.FirstAt name (64 * blk) (64 * blk + rec) := by
  obtain ⟨hname, hmem, hfirst⟩ := List.find?_range_eq_some.1 h
  have hlt := List.mem_range.1 hmem
  have hslot : ∀ r < 64, slot (v.dirBlock blk) r = v.entry (64 * blk + r) := by
    intro r hr
    rw [entry, show (64 * blk + r) / 64 = blk by omega, show (64 * blk + r) % 64 = r by omega]
  refine ⟨hlt, hslot rec hlt, by omega, ?_, fun k' hge hk' => ?_⟩
  · rw [entryName, ← hslot rec hlt]
    exact of_decide_eq_true hname
  · obtain ⟨r, rfl⟩ := Nat.exists_eq_add_of_le hge
    have hne := hfirst r (by omega)
    rw [hslot r (by omega)] at hne
    simpa [entryName] using hne

/-- A name not found in a block is in none of its 64 entries. -/
theorem findSlot_none {v : View} {blk : ℕ} {name : FileName}
    (h : findSlot 64 (v.dirBlock blk) name = none) {k : ℕ} (hge : 64 * blk ≤ k)
    (hlt : k < 64 * (blk + 1)) : v.entryName k ≠ name := by
  have hne := List.find?_eq_none.1 h (k % 64) (List.mem_range.2 (Nat.mod_lt k (by decide)))
  rw [entryName, entry, show k / 64 = blk by omega]
  simpa using hne

/-- A block of the directory is written. -/
theorem entry_edit (v : View) (blk : ℕ) (f : DiskBlock → DiskBlock) {k j : ℕ} :
    (v.edit ⟨directorName, 0, blk⟩ f).entry k j =
      if k / 64 = blk then f (v.dirBlock blk) (64 * (k % 64) + j) else v.entry k j := by
  rw [entry, slot, dirBlock, edit_content]
  by_cases hblk : k / 64 = blk
  · rw [if_pos hblk, if_pos (by rw [hblk])]
    rfl
  · rw [if_neg hblk, if_neg fun heq => hblk (congrArg BlockKey.blkNo heq)]
    rfl

/-- An FST is written to an entry. -/
theorem entry_store (v : View) (src : DiskBlock) (k k' : ℕ) {j : ℕ} (hj : j < 64) :
    (v.edit ⟨directorName, 0, k / 64⟩ fun dbuf => memcpy dbuf (64 * (k % 64)) src 0 64).entry k' j =
      if k' = k then src j else v.entry k' j := by
  rw [entry_edit]
  by_cases hk : k' = k
  · rw [hk, if_pos rfl, if_pos rfl, memcpy_in hj]
  · rw [if_neg hk]
    by_cases hblk : k' / 64 = k / 64
    · rw [if_pos hblk, memcpy_out (by omega), entry, hblk]
      rfl
    · rw [if_neg hblk]

end View

/-! ### Lookups -/

section

variable {s u : Loader}

/-- What `find_file` answers when it scans the entries from `lo` on, before `hi`. -/
def Answers (v : View) (name : FileName) (lo hi : ℕ) : Option DiskBlock → Prop
  | some fst => ∃ k < hi, v.FirstAt name lo k ∧ fst = v.entry k
  | none => ∀ k, lo ≤ k → k < hi → v.entryName k ≠ name

/-- **`find_file` scans all slots of the blocks.** -/
theorem findBlocks_spec (name : FileName) {n blk : ℕ} (hs : Sound s) (hnfst : s.nfst = 64)
    (hblocks : ∀ b < blk + n, ∃ lba, s.view.lba ⟨directorName, 0, b⟩ = some lba ∧ lba ≠ 0) :
    ∃ ret u, findBlocks name n blk s = some (ret, u) ∧ u.view = s.view ∧
      Touches .directory (fun _ => False) s u ∧
      Answers s.view name (64 * blk) (64 * (blk + n)) ret := by
  induction n generalizing s blk with
  | zero => exact ⟨none, s, rfl, rfl, Touches.refl hs, fun k hge hlt => by omega⟩
  | succ n ih =>
    obtain ⟨lba, hlba, hne⟩ := hblocks blk (by omega)
    obtain ⟨⟨buf, w⟩, hread⟩ := Option.isSome_iff_exists.1 (isSome_readFileBlk hlba hne)
    obtain ⟨rfl, hview, ht⟩ := touches_readFileBlk (fun _ => False) hs hread
    rw [findBlocks, hread]
    dsimp only [Option.bind_eq_bind, Option.bind_some]
    rw [ht.nfst, hnfst, show s.view.content ⟨directorName, 0, blk⟩ = s.view.dirBlock blk from rfl]
    cases hslot : findSlot 64 (s.view.dirBlock blk) name with
    | some rec =>
      obtain ⟨hrec, hentry, hfirst⟩ := View.findSlot_some hslot
      exact ⟨_, w, rfl, hview, ht, 64 * blk + rec, by omega, hfirst, hentry⟩
    | none =>
      have hnone : ∀ k, 64 * blk ≤ k → k < 64 * (blk + 1) → s.view.entryName k ≠ name :=
        fun k => View.findSlot_none hslot
      obtain ⟨ret, u, hfind, hview', ht', hans⟩ := ih ht.sound (ht.nfst.trans hnfst)
        fun b (hb : b < blk + 1 + n) => by
          rw [hview]
          exact hblocks b (by omega)
      refine ⟨ret, u, hfind, hview'.trans hview, ht.trans ht', ?_⟩
      rw [hview, show blk + 1 + n = blk + (n + 1) by omega] at hans
      cases ret with
      | some fst =>
        obtain ⟨k, hk, hfirst, hfst⟩ := hans
        exact ⟨k, hk, hfirst.of_next (by omega) hnone, hfst⟩
      | none =>
        intro k hge hlt
        by_cases hlow : k < 64 * (blk + 1)
        · exact hnone k hge hlow
        · exact hans k (by omega) hlt

/-- A data block of the directory. -/
def DirData (key : BlockKey) : Prop := key.name = directorName ∧ key.level = 0

/-- The directory's blocks are its data blocks, level 0. -/
theorem dirData_mk (blk : ℕ) : DirData ⟨directorName, 0, blk⟩ := ⟨rfl, rfl⟩

/-- **`update_directory` writes the first entry that has the name.** -/
theorem updateBlocks_spec {fst : DiskBlock} {n blk : ℕ} (hs : Sound s) (hnfst : s.nfst = 64)
    (h : updateBlocks fst n blk s = some u) :
    ∃ k < 64 * (blk + n), s.view.FirstAt (Fst.name fst) (64 * blk) k ∧
      u.view = s.view.edit ⟨directorName, 0, k / 64⟩
        (fun dbuf => memcpy dbuf (64 * (k % 64)) fst 0 64) ∧
      Touches .directory DirData s u := by
  induction n generalizing s blk with
  | zero => exact nomatch h
  | succ n ih =>
    rw [updateBlocks] at h
    obtain ⟨⟨buf, w⟩, hread, h⟩ := Option.bind_eq_some_iff.1 h
    obtain ⟨rfl, hview, ht⟩ := touches_readFileBlk DirData hs hread
    dsimp only at h
    rw [ht.nfst, hnfst,
      show s.view.content ⟨directorName, 0, blk⟩ = s.view.dirBlock blk from rfl] at h
    cases hslot : findSlot 64 (s.view.dirBlock blk) (Fst.name fst) with
    | some rec =>
      rw [hslot] at h
      obtain ⟨hrec, -, hfirst⟩ := View.findSlot_some hslot
      obtain ⟨hview', ht'⟩ := touches_store ht.sound (dirData_mk blk) (by omega) h
      refine ⟨64 * blk + rec, by omega, hfirst, ?_, ht.trans ht'⟩
      rw [hview', hview, show (64 * blk + rec) / 64 = blk by omega,
        show (64 * blk + rec) % 64 = rec by omega]
    | none =>
      rw [hslot] at h
      obtain ⟨k, hk, hfirst, hview', ht'⟩ := ih ht.sound (ht.nfst.trans hnfst) h
      rw [hview] at hfirst hview'
      refine ⟨k, by omega, hfirst.of_next (by omega) fun k' => View.findSlot_none hslot, hview',
        ht.trans ht'⟩

end

/-! ### The directory as a file -/

/-- The entries in use have the names of different files, and are in blocks that can be
read. -/
structure DirOk (v : View) : Prop where
  director : v.entryName 0 = directorName
  recfm : Fst.recfm (v.entry 0) = fstDFix
  lrecl : Fst.lrecl (v.entry 0) = 64
  allocmap : v.entryName 1 = allocmapName
  two : 2 ≤ v.entries
  room : v.entries ≤ 64 * v.dirBlocks
  tight : 64 * v.dirBlocks < v.entries + 64
  blocks : ∀ b < v.dirBlocks, ∃ lba, v.lba ⟨directorName, 0, b⟩ = some lba ∧ lba ≠ 0
  mapBlocks : ∀ b < Fst.adbc (v.entry 1), ∃ lba, v.lba ⟨allocmapName, 0, b⟩ = some lba ∧ lba ≠ 0
  distinct : ∀ k k', k < v.entries → k' < v.entries → v.entryName k = v.entryName k' → k = k'

namespace DirOk

variable {s u : Loader} {v : View}

/-- The first block of the directory is listed. -/
theorem dirKey_ne_none (h : DirOk v) : v.lba dirKey ≠ none := by
  have htwo := h.two
  have hroom := h.room
  obtain ⟨lba, hlba, -⟩ := h.blocks 0 (by omega)
  rw [show dirKey = ⟨directorName, 0, 0⟩ from rfl, hlba]
  exact Option.some_ne_none lba

/-- The entry of the directory that the loader keeps is its entry in the block. -/
theorem fst_directory (s : Loader) : s.fst .directory = s.view.entry 0 :=
  (Loader.fst_directory s).trans s.view.entry_zero.symm

/-- A directory in order has a map that can be read. -/
theorem readableMap (h : DirOk s.view) : ReadableMap s := ⟨h.allocmap, h.mapBlocks⟩

/-- An entry in use is the first one with its name. -/
theorem firstAt (h : DirOk v) {k k' : ℕ} {name : FileName} (hk : k < v.entries)
    (hname : v.entryName k = name) (hfirst : v.FirstAt name 0 k') : k' = k := by
  have hle : k' ≤ k := by
    by_contra hlt
    exact hfirst.first k (Nat.zero_le k) (by omega) hname
  exact h.distinct k' k (by omega) hk (hfirst.named.trans hname.symm)

end DirOk

/-- A change of the directory's own entry leaves the others alone. -/
theorem View.entry_poke (v : View) {f : DiskBlock → DiskBlock} (hf : FstChange f) {k : ℕ}
    (hk : k ≠ 0) : (v.poke dirKey f).entry k = v.entry k := by
  funext j
  rw [entry, entry, slot, slot, dirBlock, dirBlock, poke_content]
  by_cases hblk : k / 64 = 0
  · rw [hblk, if_pos (show (⟨directorName, 0, 0⟩ : BlockKey) = dirKey from rfl), hf _ _ (by omega)]
    rfl
  · rw [if_neg fun heq => hblk (congrArg BlockKey.blkNo heq)]

/-- It changes that entry. -/
theorem View.entry_poke_zero (v : View) (f : DiskBlock → DiskBlock) :
    (v.poke dirKey f).entry 0 = f (v.entry 0) := by
  rw [entry_zero, entry_zero, poke_content, if_pos rfl]

/-- A change of the directory's own FST. -/
theorem touches_setFst_directory {s : Loader} (hs : Sound s) (hdir : s.view.lba dirKey ≠ none)
    {f : DiskBlock → DiskBlock} (hf : FstChange f) :
    (s.setFst .directory f).view = s.view.poke dirKey f ∧
      Touches .directory (MapOrFile directorName) s (s.setFst .directory f) := by
  obtain ⟨lba, hlba⟩ := Option.ne_none_iff_exists'.1 hdir
  obtain ⟨hsound, -, hview, -⟩ := setFst_spec hs hlba hf (p := .directory) nofun
  rw [if_pos rfl] at hview
  refine ⟨hview, rfl, rfl, rfl, fun _ _ => rfl, hsound, fun key lba hkey => ?_,
    fun key _ hnot => ?_⟩
  · rw [hview, View.poke_lba, hkey]
  · rw [hview, View.poke_content, if_neg fun heq : key = dirKey => hnot (Or.inr (by rw [heq]; rfl))]

/-- **There is room for one more entry, and all else is as it was.** The directory has got a
block if it was full, and only then. -/
structure DirGrown (s u : Loader) : Prop where
  touches : Touches .directory (MapOrFile directorName) s u
  same : SameFile (s.view.entry 0) (u.view.entry 0)
  entries : u.view.entries = s.view.entries
  more : s.view.dirBlocks ≤ u.view.dirBlocks
  room : s.view.entries < 64 * u.view.dirBlocks
  tight : 64 * u.view.dirBlocks ≤ s.view.entries + 64
  blocks : ∀ b < u.view.dirBlocks, ∃ lba, u.view.lba ⟨directorName, 0, b⟩ = some lba ∧ lba ≠ 0
  old : ∀ k < 64 * s.view.dirBlocks, k ≠ 0 → u.view.entry k = s.view.entry k

/-- A directory with room needs no block more for an entry. -/
theorem dirGrown_of_room {s : Loader} (hs : Sound s) (hd : DirOk s.view)
    (hroom : s.view.entries ≠ 64 * s.view.dirBlocks) : DirGrown s s where
  touches := Touches.refl hs
  same := ⟨rfl, rfl, rfl, rfl⟩
  entries := rfl
  more := le_rfl
  room := lt_of_le_of_ne hd.room hroom
  tight := by
    have := hd.tight
    omega
  blocks := hd.blocks
  old _ _ _ := rfl

/-- **The directory grows into a free block.** -/
theorem dirGrown_of_appendBlock {s u : Loader} (hs : Sound s) (hd : DirOk s.view)
    (hsmall : s.view.entries < 2 ^ 26) (hfull : s.view.entries = 64 * s.view.dirBlocks)
    (hfits : PointerFits s.view (s.view.entry 0)) (h : s.appendBlock .directory = some u) :
    DirGrown s u := by
  have hadbc : Fst.adbc (s.view.entry 0) = s.view.dirBlocks := rfl
  have htwo := hd.two
  obtain ⟨w, f, ht, rfl, hf, hnew⟩ := touches_appendBlock hs hd.readableMap hd.dirKey_ne_none
    (DirOk.fst_directory s) (by omega) hfits h
  rw [show Fst.name (s.view.entry 0) = directorName from hd.director] at ht
  have hw : ∀ b < s.view.dirBlocks, w.view.dirBlock b = s.view.dirBlock b := by
    intro b hb
    obtain ⟨lba, hlba, -⟩ := hd.blocks b hb
    refine ht.content _ (by rw [hlba]; exact Option.some_ne_none lba) ?_
    rintro (hname | ⟨-, hlevel⟩)
    · exact absurd hname (by decide : directorName ≠ allocmapName)
    · exact hlevel rfl
  have hentry : ∀ k < 64 * s.view.dirBlocks, w.view.entry k = s.view.entry k := fun k hk =>
    View.entry_congr (hw (k / 64) (by omega))
  obtain ⟨hview, ht'⟩ := touches_setFst_directory ht.sound (ht.lba_ne_none hd.dirKey_ne_none) hf.fst
  have hzero : (w.setFst .directory f).view.entry 0 = f (s.view.entry 0) := by
    rw [hview, View.entry_poke_zero, hentry 0 (by omega)]
  have hblocks : (w.setFst .directory f).view.dirBlocks = s.view.dirBlocks + 1 := by
    rw [View.dirBlocks, hzero, hf.adbc _ (by omega)]
    rfl
  have hlevel : levelKey (s.view.entry 0) 0 = ⟨directorName, 0, s.view.dirBlocks⟩ := by
    rw [levelKey, show Fst.name (s.view.entry 0) = directorName from hd.director, hadbc,
      fileBlocksAtLevel_succ (by rw [pow_zero]; omega), pow_zero, Nat.div_one, Nat.add_sub_cancel]
  constructor
  case touches => exact (ht.mono fun _ => mapOrFile_ptr).trans ht'
  case same =>
    rw [hzero]
    exact hf.same _
  case entries => rw [View.entries, hzero, hf.aic, View.entries]
  case more => omega
  case room => omega
  case tight => omega
  case blocks =>
    intro b hb
    rw [hview, View.poke_lba]
    rcases Nat.lt_succ_iff_lt_or_eq.1 (hblocks ▸ hb) with hlt | rfl
    · obtain ⟨lba, hlba, hne⟩ := hd.blocks b hlt
      exact ⟨lba, ht.lba _ _ hlba, hne⟩
    · rwa [hlevel] at hnew
  case old =>
    intro k hk hne
    rw [hview, View.entry_poke _ hf.fst hne, hentry k hk]

/-- `append_record` of the directory: there is one more entry, and the others, but for the
directory's own FST, are as they were. -/
structure DirAppended (s u : Loader) (buf : ℕ → UInt8) : Prop where
  touches : Touches .directory (MapOrFile directorName) s u
  same : SameFile (s.view.entry 0) (u.view.entry 0)
  entries : u.view.entries = s.view.entries + 1
  more : s.view.dirBlocks ≤ u.view.dirBlocks
  room : u.view.entries ≤ 64 * u.view.dirBlocks
  tight : 64 * u.view.dirBlocks < u.view.entries + 64
  blocks : ∀ b < u.view.dirBlocks, ∃ lba, u.view.lba ⟨directorName, 0, b⟩ = some lba ∧ lba ≠ 0
  new : SameFst (u.view.entry s.view.entries) buf
  old : ∀ k < 64 * s.view.dirBlocks, k ≠ 0 → k ≠ s.view.entries →
    SameFst (u.view.entry k) (s.view.entry k)

/-- One record more is a change the directory's entry allows. -/
theorem fstChange_setAic : FstChange fun fst => Fst.setAic fst (Fst.aic fst + 1) :=
  fstChange_setPtrAt (by decide) _

/-- The place of the next entry. -/
theorem recordOff_entries {v : View} (hd : DirOk v) (hsmall : v.entries < 2 ^ 26) :
    recordOff (v.entry 0) = 64 * v.entries := by
  rw [recordOff, hd.lrecl, show Fst.aic (v.entry 0) = v.entries from rfl]
  omega

/-- What is left in the last block of the directory is the room for entries in it, 64 bytes
each. -/
theorem recordRem_entries {v : View} (hd : DirOk v) (hsmall : v.entries < 2 ^ 26) :
    recordRem (v.entry 0) = 64 * (64 * v.dirBlocks - v.entries) := by
  have hroom := hd.room
  have htight := hd.tight
  rw [recordRem, recordOff_entries hd hsmall,
    show Fst.adbc (v.entry 0) = v.dirBlocks from rfl]
  omega

/-- The directory's FST is copied to where it is. -/
theorem updateDirectory_directory {s u : Loader} (hs : Sound s) (hnfst : s.nfst = 64)
    (h : s.updateDirectory .directory = some u) :
    Touches .directory (MapOrFile directorName) s u ∧
      ∀ k, SameFst (u.view.entry k) (s.view.entry k) := by
  rw [updateDirectory, DirOk.fst_directory] at h
  obtain ⟨k, -, hfirst, hview, ht⟩ := updateBlocks_spec hs hnfst h
  have hzero : k = 0 := by
    by_contra hne
    exact hfirst.first 0 le_rfl (Nat.pos_of_ne_zero hne) rfl
  subst hzero
  refine ⟨ht.mono fun key hkey => Or.inr hkey.1, fun k j hj => ?_⟩
  rw [hview, View.entry_store _ _ _ _ hj]
  split
  · rename_i hk
    rw [hk]
  · rfl

/-- **A file is entered in the directory.** -/
theorem dirAppended_of_appendRecord {s u : Loader} {buf : ℕ → UInt8} (hs : Sound s)
    (hnfst : s.nfst = 64) (hd : DirOk s.view) (hsmall : s.view.entries < 2 ^ 26)
    (hfits : s.view.entries = 64 * s.view.dirBlocks → PointerFits s.view (s.view.entry 0))
    (h : s.appendRecord .directory buf = some u) : DirAppended s u buf := by
  have hroom := hd.room
  have htwo := hd.two
  rw [appendRecord_eq, DirOk.fst_directory, if_neg (not_not.2 hd.recfm), hd.lrecl,
    recordRem_entries hd hsmall] at h
  obtain ⟨s₁, hgrow, h⟩ := Option.bind_eq_some_iff.1 h
  obtain ⟨s₂, hcopy, hupdate⟩ := Option.bind_eq_some_iff.1 h
  have hg : DirGrown s s₁ := by
    split at hgrow
    · exact dirGrown_of_appendBlock hs hd hsmall (by omega) (hfits (by omega)) hgrow
    · obtain rfl := Option.some.inj hgrow
      exact dirGrown_of_room hs hd (by omega)
  -- the record is the entry behind the last
  rw [copyRecord, DirOk.fst_directory, hg.same.name, hd.lrecl, recordRem_entries hd hsmall,
    recordOff_entries hd hsmall, if_pos (by omega),
    show Fst.name (s.view.entry 0) = directorName from hd.director,
    show 64 * s.view.entries / 4096 = s.view.entries / 64 by omega,
    show 64 * s.view.entries % 4096 = 64 * (s.view.entries % 64) by omega] at hcopy
  obtain ⟨hview₂, ht₂⟩ := touches_store hg.touches.sound (mapOrFile_file directorName 0 _)
    (by omega) hcopy
  have hentry₂ : ∀ k j, j < 64 → s₂.view.entry k j =
      if k = s.view.entries then buf j else s₁.view.entry k j := fun k j hj => by
    rw [hview₂, View.entry_store _ _ _ _ hj]
  have hzero₂ : SameFst (s₂.view.entry 0) (s₁.view.entry 0) := fun j hj => by
    rw [hentry₂ 0 j hj, if_neg (by omega)]
  -- it is counted, and the directory's FST is copied
  have hdir₂ := ht₂.lba_ne_none (hg.touches.lba_ne_none hd.dirKey_ne_none)
  obtain ⟨hview₃, ht₃⟩ := touches_setFst_directory ht₂.sound hdir₂ fstChange_setAic
  obtain ⟨ht₄, hentry₄⟩ := updateDirectory_directory ht₃.sound
    (by rw [ht₃.nfst, ht₂.nfst, hg.touches.nfst, hnfst]) hupdate
  have hzero : SameFst (u.view.entry 0)
      (Fst.setAic (s₂.view.entry 0) (Fst.aic (s₂.view.entry 0) + 1)) := by
    refine (hentry₄ 0).trans ?_
    rw [hview₃, View.entry_poke_zero]
    exact SameFst.refl _
  have hother : ∀ k, k ≠ 0 → SameFst (u.view.entry k) (s₂.view.entry k) := fun k hk => by
    refine (hentry₄ k).trans ?_
    rw [hview₃, View.entry_poke _ fstChange_setAic hk]
    exact SameFst.refl _
  have ht := ((hg.touches.trans ht₂).trans ht₃).trans ht₄
  have haic : Fst.aic (s₂.view.entry 0) = s.view.entries :=
    (hzero₂.word (by decide)).trans hg.entries
  have hentries : u.view.entries = s.view.entries + 1 := by
    rw [View.entries, Fst.aic, hzero.word (by decide), haic]
    exact ptrAt_setPtrAt_self _ 12 (by omega)
  have hblocks : u.view.dirBlocks = s₁.view.dirBlocks := by
    rw [View.dirBlocks, Fst.adbc, hzero.word (by decide), Fst.setAic,
      ptrAt_setPtrAt_of_ne _ _ (by decide), hzero₂.word (by decide)]
    rfl
  have htight := hg.tight
  have hroom₁ := hg.room
  constructor
  case touches => exact ht
  case same =>
    refine hg.same.trans (hzero₂.sameFile.trans (SameFile.trans ?_ hzero.sameFile))
    exact sameFile_of_bytes fun j hj => Fst.setPtrAt_bytes _ _ (by decide) hj
  case entries => exact hentries
  case more =>
    rw [hblocks]
    exact hg.more
  case room => omega
  case tight => omega
  case blocks =>
    intro b hb
    obtain ⟨lba, hlba, hne⟩ := hg.blocks b (hblocks ▸ hb)
    exact ⟨lba, ht₄.lba _ _ (ht₃.lba _ _ (ht₂.lba _ _ hlba)), hne⟩
  case new =>
    refine (hother _ (by omega)).trans fun j hj => ?_
    rw [hentry₂ _ j hj, if_pos rfl]
  case old =>
    intro k hk hne hnew
    refine (hother k hne).trans fun j hj => ?_
    rw [hentry₂ k j hj, if_neg hnew, hg.old k hk hne]

end Hvf
